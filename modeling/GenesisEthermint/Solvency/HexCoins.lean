import GenesisEthermint.Registry.Bijection
import GenesisEthermint.Solvency.Footprint

/-!
# Coins Spelled as Addresses

A coin whose denomination is forty hexadecimal characters is taken for a contract address when
it is converted. The solvency results assume that nobody holds such a coin. The assumption is
about every state of a run; this file shows that it only has to be checked in the first one,
as long as no external pair has such a denomination.
-/

namespace GenesisEthermint.Solvency

open GenesisEthermint.Foundation GenesisEthermint.Types GenesisEthermint.Chain
open GenesisEthermint.Intrarelayer GenesisEthermint.Registry GenesisEthermint.Tokens

variable {W : Type} {k : Keeper W} {s t v : State W} {u : Unit} {d : String}

/-- Nobody holds a coin of the denomination. -/
def NoneHeld (d : String) (s : State W) : Prop := ∀ a, (s.bank.ledger d).bal a = 0

/-- No account holds a coin whose denomination is spelled as an address. -/
def NoHexCoins (s : State W) : Prop := ∀ d, isHexAddress d = true → NoneHeld d s

/-- What nobody holds nobody spends. -/
theorem NoneHeld.ne_of_canSpend {a : AccAddress} {c : Coin} (h : NoneHeld d s)
    (hc : CanSpend s a c) : d ≠ c.denom := by
  rintro rfl
  have hpos := nat_pos_of_valid hc.1
  have hbal := hc.le_bal
  rw [h a] at hbal
  omega

/-- While nobody holds such coins, only coins of an ordinary denomination are spent. -/
theorem NoHexCoins.of_canSpend {a : AccAddress} {c : Coin} (h : NoHexCoins s)
    (hc : CanSpend s a c) : isHexAddress c.denom = false := by
  by_contra hhex
  exact (h c.denom (by simpa using hhex)).ne_of_canSpend hc rfl

/-- Whoever converts coins spends them first. -/
theorem canSpend_of_convertCoin {msg : MsgConvertCoin} (h : convertCoin k msg s = .ok u t) :
    CanSpend s (decodeOrEmpty k msg.sender) msg.coin := by
  obtain ⟨q, -, ⟨-, h⟩ | ⟨-, h⟩⟩ := convertCoin_ok_iff.mp h
  · exact (convertCoinNativeCoin_ok_iff.mp h).1
  · exact (convertCoinNativeERC20_ok_iff.mp h).1

/-! ## Steps -/

theorem NoneHeld.of_ledger (h : NoneHeld d s) (heq : t.bank.ledger d = s.bank.ledger d) :
    NoneHeld d t :=
  fun a => heq ▸ h a

theorem NoneHeld.moved {a b : AccAddress} {c : Coin} (h : NoneHeld d s) (hc : CanSpend s a c) :
    NoneHeld d (moved s a b c) :=
  h.of_ledger (by rw [ledger_moved, if_neg (h.ne_of_canSpend hc)])

/-- Coins of a denomination nobody holds are not among those a transfer takes. -/
private theorem ne_of_subUnlockedCoins {a : AccAddress} {amt : List Coin} (h : NoneHeld d s)
    (hrun : subUnlockedCoins a amt s = .ok u t) :
    NoneHeld d t ∧ ∀ c ∈ amt, c.denom ≠ d := by
  -- the coins are checked once and taken one by one: the induction is on what is left to take
  obtain ⟨_, _, hcheck, hloop⟩ := Exec.bind_ok_iff.mp hrun
  obtain ⟨hvalid, rfl⟩ := Exec.failIf_ok_iff.mp hcheck
  have hpos := isPositive_of_coinsIsValid (not_not.mp hvalid)
  clear hcheck hvalid hrun
  induction amt generalizing s with
  | nil =>
    obtain rfl := Exec.forM_nil_ok_iff.mp hloop
    exact ⟨h, by simp⟩
  | cons c rest ih =>
    obtain ⟨v, hc, hrest⟩ := Exec.forM_cons_ok_iff.mp hloop
    simp only [subUnlockedCoin, Exec.get_bind, Exec.bind_ok_iff, Exec.panicIf_ok_iff,
      Exec.failIf_ok_iff, Exec.modify_ok_iff] at hc
    obtain ⟨_, _, ⟨-, rfl⟩, _, _, ⟨hfunds, rfl⟩, rfl⟩ := hc
    -- a positive amount of an address text was taken from somebody, but nobody held one
    have hcpos := hpos c (List.mem_cons_self ..)
    have hne : c.denom ≠ d := by
      rintro rfl
      rw [h a] at hfunds
      simp only [Coin.nat] at hfunds
      omega
    obtain ⟨hv, hall⟩ := ih (h.of_ledger (State.setLedger_of_ne _ _ _ (Ne.symm hne))) hrest
      fun c hc => hpos c (List.mem_cons_of_mem _ hc)
    refine ⟨hv, fun c' hc' => ?_⟩
    rcases List.mem_cons.mp hc' with rfl | hc'
    · exact hne
    · exact hall c' hc'

theorem noneHeld_sendCoins {a b : AccAddress} {amt : List Coin} (h : NoneHeld d s)
    (hrun : sendCoins a b amt s = .ok u t) : NoneHeld d t := by
  obtain ⟨_, v, hsub, hrun⟩ := Exec.bind_ok_iff.mp hrun
  obtain ⟨_, w, hadd, hrun⟩ := Exec.bind_ok_iff.mp hrun
  obtain ⟨hv, hne⟩ := ne_of_subUnlockedCoins h hsub
  have hsame : Exec.Relates (Exec.SameOn fun s : State W => s.bank.ledger d) (addCoins b amt) :=
    Exec.relates_bind (Exec.relates_failIf _ _) fun _ =>
    Exec.relates_forM amt fun c hc =>
    Exec.relates_bind Exec.relates_get fun _ =>
    Exec.relates_bind (Exec.relates_panicIf _ _) fun _ =>
    Exec.relates_modify fun s => State.setLedger_of_ne s _ _ (Ne.symm (hne c hc))
  rw [Exec.modify_ok_iff] at hrun
  refine hv.of_ledger ?_
  rw [hrun, State.ensureAccount_bank]
  exact hsame.of_ok hadd

/-- No external pair of the registry has a denomination spelled as an address. -/
def NoHexMints (r : Registry) : Prop :=
  ∀ p, Stored r p → p.contractOwner = .OWNER_EXTERNAL → isHexAddress p.denom = false

private theorem noneHeld_convertLog {q : TokenPair} {contract : Address} {ev : TransferEvent}
    (h : NoneHeld d s) (hq : q.contractOwner = .OWNER_EXTERNAL → d ≠ q.denom)
    (hrun : convertLog k q contract ev s = .ok u t) : NoneHeld d t := by
  rcases convertLog_ok hrun with hkept | ⟨v, htaken, hend⟩
  · cases hkept with
    | nothing _ left => exact left ▸ h
    | reverted res _ hcom _ => exact h.of_ledger (by rw [hcom.bank_eq])
    | invalid _ _ left => exact h.of_ledger (by rw [left, State.ensureAccount_bank])
  · have hv : NoneHeld d v := by
      cases htaken with
      | burned res _ hcom _ => exact h.of_ledger (by rw [hcom.bank_eq])
      | minted ho _ left =>
        have hne : d ≠ (logPayout q ev).denom := hq ho
        exact h.of_ledger (by rw [left, ledger_mintedCoin, if_neg hne])
    rcases hend with ⟨⟨-, hspend, -⟩, rfl⟩ | ⟨-, rfl⟩
    · exact hv.moved hspend
    · exact hv

private theorem noneHeld_postTxProcessing {logs : List Log} (hhex : isHexAddress d = true)
    (hcons : RegistryConsistent k s.registry) (hmints : NoHexMints s.registry)
    (h : NoneHeld d s) (hrun : postTxProcessing k logs s = .ok u t) : NoneHeld d t := by
  obtain ⟨-, hloop⟩ := postTxProcessing_ok_iff.mp hrun
  suffices hend : t.registry = s.registry ∧ NoneHeld d t from hend.2
  apply Exec.forM_preserves (P := fun x => x.registry = s.registry ∧ NoneHeld d x) ?_ ⟨rfl, h⟩ hloop
  rintro log x y ⟨hreg, hx⟩ hlog
  refine ⟨(registry_processLog hlog).trans hreg, ?_⟩
  rcases processLog_ok hlog with rfl | ⟨ev, q, -, -, hq, -, hconv⟩
  · exact hx
  · rw [hreg] at hq
    obtain ⟨hstored, -⟩ := hcons.pairOfContract_eq_some_iff.mp hq
    refine noneHeld_convertLog hx (fun ho => ?_) hconv
    rintro rfl
    rw [hmints q hstored ho] at hhex
    cases hhex

/-- A user's step brings no such coins into anybody's hands. -/
theorem noHexCoins_step {op : Op} (hcons : RegistryConsistent k s.registry)
    (hmints : NoHexMints s.registry) (huser : op.IsUserOp) (h : NoHexCoins s) :
    NoHexCoins (step k s op) := by
  rcases Exec.deliver_cases (op.exec k) s with ⟨u, hok⟩ | hfail
  swap
  · rwa [step, hfail]
  -- an operation pays out one denomination at most; each case shows it is not an address text
  intro d hd
  have hzero := h d hd
  cases op with
  | convertCoin msg =>
    have hne : d ≠ msg.coin.denom := by
      rintro rfl
      rw [h.of_canSpend (canSpend_of_convertCoin hok)] at hd
      cases hd
    refine hzero.of_ledger ?_
    obtain ⟨q, -, ⟨-, hflow⟩ | ⟨-, hflow⟩⟩ := convertCoin_ok_iff.mp hok
    -- escrow and burn move coins of the message's denomination, which somebody held
    · obtain ⟨-, -, res, hcom, -⟩ := convertCoinNativeCoin_ok_iff.mp hflow
      rw [step, hcom.bank_eq, ledger_escrowed, if_neg hne]
    · obtain ⟨-, -, res, v, hcom, -, -, -, -, ht⟩ := convertCoinNativeERC20_ok_iff.mp hflow
      rw [step, ht, ledger_burnedCoin, if_neg hne, hcom.bank_eq, ledger_escrowed, if_neg hne]
  | convertERC20 msg =>
    obtain ⟨q, hadm, hflow⟩ := convertERC20_ok_iff.mp hok
    obtain ⟨id, hid, hfound⟩ := hadm.found
    obtain ⟨hq, -, -⟩ := hcons.stored_of_found hid hfound
    rcases hflow with ⟨-, hflow⟩ | ⟨ho, hflow⟩
    · obtain ⟨res, v, hcom, -, hrel, ht⟩ := convertERC20NativeCoin_ok_iff.mp hflow
      rw [step, ht]
      exact (hzero.of_ledger (by rw [hcom.bank_eq])).moved hrel.2.1
    · obtain ⟨res, v, hcom, -, -, -, hrel, ht⟩ := convertERC20NativeToken_ok_iff.mp hflow
      -- a mintable pair has no denomination that is an address text
      have hne : d ≠ (payout q msg).denom := by
        rintro rfl
        rw [show (payout q msg).denom = q.denom from rfl, hmints q hq ho] at hd
        cases hd
      rw [step, ht]
      refine NoneHeld.moved (hzero.of_ledger ?_) hrel.2.1
      rw [ledger_mintedCoin, if_neg hne, hcom.bank_eq]
  | ethereumTx msg =>
    obtain ⟨res, -, -, hhook⟩ := applyTransaction_ok_iff.mp hok
    exact noneHeld_postTxProcessing (s := afterTx s res) hd hcons hmints hzero hhook
  | bankSend msg =>
    obtain ⟨a, b, -, hsend⟩ := send_ok hok
    exact noneHeld_sendCoins hzero hsend
  | _ => exact huser.elim

/-! ## Runs -/

/-- An operation of the runs that the solvency results are about: a user's, not signed for the
module's account, in a state where nobody holds coins spelled as addresses. -/
structure UserStep (k : Keeper W) (s : State W) (op : Op) : Prop where
  user : op.IsUserOp
  signer : op.signer k ≠ some k.moduleAddress.bytes
  hex : NoHexCoins s

/-- It is enough that nobody holds such coins in the first state. -/
theorem along_userStep {ops : List Op} (hcons : RegistryConsistent k s.registry)
    (hmints : NoHexMints s.registry) (hhex : NoHexCoins s)
    (hops : ∀ op ∈ ops, op.IsUserOp ∧ op.signer k ≠ some k.moduleAddress.bytes) :
    Along (step k) (UserStep k) s ops ∧ NoHexCoins (run (step k) s ops) := by
  induction ops generalizing s with
  | nil => exact ⟨trivial, hhex⟩
  | cons op rest ih =>
    obtain ⟨huser, hsigner⟩ := hops op (List.mem_cons_self ..)
    have hreg : (step k s op).registry = s.registry :=
      congrArg Config.registry (config_step_of_isUserOp k huser s)
    obtain ⟨halong, hend⟩ := ih (hreg ▸ hcons) (hreg ▸ hmints)
      (noHexCoins_step hcons hmints huser hhex) fun op hop => hops op (List.mem_cons_of_mem _ hop)
    exact ⟨⟨⟨huser, hsigner, hhex⟩, halong⟩, hend⟩

/-! ## The reference deployment -/

theorem noHexCoins_deployed (evm : Evm W) (world : W) : NoHexCoins (deployed evm world) := by
  intro d hd a
  have hne : d ≠ "acoin" := by
    rintro rfl
    exact absurd hd (by decide)
  simp [deployed, initGenesis, referenceState, hne, ledgerOf]

theorem noHexMints_deployed (evm : Evm W) (world : W) :
    NoHexMints (deployed evm world).registry := by
  intro p hp ho
  rcases (stored_deployed evm world).mp hp with rfl | rfl
  · decide
  · cases ho

end GenesisEthermint.Solvency
