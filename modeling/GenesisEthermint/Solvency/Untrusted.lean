import GenesisEthermint.Registry.Bijection

/-!
# Untrusted Contracts

An external contract is arbitrary code. This file takes nothing about it for granted, not even
that its `balanceOf` has to do with its transfers, and says exactly when the coins that a
conversion creates are backed: when the contract really credited the module with them. The
keeper does not look. It takes the returned boolean, and the hook the emitted event, in place of
a balance.
-/

namespace GenesisEthermint.Solvency

open GenesisEthermint.Foundation GenesisEthermint.Types GenesisEthermint.Chain
open GenesisEthermint.Intrarelayer GenesisEthermint.Registry GenesisEthermint.Tokens

variable {W : Type} {k : Keeper W} {p : TokenPair} {s t : State W} {u : Unit}

/-- What the contract makes of a call of `transfer` in the state `s`. -/
def Transfers (k : Keeper W) (s : State W) (sender contract recipient : Address) (n : ℕ)
    (res : EvmResult W) : Prop :=
  ∃ v, Committed k s sender (some contract)
    (.call .transfer [.address recipient, .uint256 n]) res v

/-- From `s` to `t` no more coins were created than the module's balance on the contract has
grown since the world `before`. -/
def MintsBacked (k : Keeper W) (p : TokenPair) (balanceOf : W → Address → ℕ) (before : W)
    (s t : State W) : Prop :=
  (t.bank.ledger p.denom).supply - (s.bank.ledger p.denom).supply ≤
    balanceOf t.evm k.moduleAddress - balanceOf before k.moduleAddress

/-- A call has one result. -/
theorem Transfers.eq {sender contract recipient : Address} {n : ℕ} {res res' : EvmResult W}
    (h : Transfers k s sender contract recipient n res)
    (h' : Transfers k s sender contract recipient n res') : res = res' := by
  obtain ⟨v, nonce, hn, happ, -⟩ := h
  obtain ⟨v', nonce', hn', happ', -⟩ := h'
  obtain rfl : nonce = nonce' := Option.some.inj (hn.symm.trans hn')
  exact Except.ok.inj (happ.symm.trans happ')

/-! ## What the two messages did -/

section Messages

variable (hcons : RegistryConsistent k s.registry) (hp : Stored s.registry p)
  (howner : p.contractOwner = .OWNER_EXTERNAL)
include hcons hp howner

/-- A token message mints its amount and leaves the world the call left. -/
theorem minted_of_convertERC20 {msg : MsgConvertERC20}
    (hmsg : HexSpelling msg.contractAddress p.getERC20Contract)
    (h : convertERC20 k msg s = .ok u t) :
    ∃ res, Transfers k s (hexToAddress msg.sender) p.getERC20Contract k.moduleAddress
        msg.amount.val.toNat res ∧ t.evm = res.world ∧
      (t.bank.ledger p.denom).supply =
        (s.bank.ledger p.denom).supply + msg.amount.val.toNat := by
  obtain ⟨q, hadm, hflow⟩ := convertERC20_ok_iff.mp h
  obtain rfl := hcons.eq_of_found hp (hcons.getTokenPairID_of_hexSpelling hp hmsg) hadm.found
  rcases hflow with ⟨ho, -⟩ | ⟨-, hflow⟩
  · exact absurd (ho.symm.trans howner) (by decide)
  obtain ⟨res, v, hcom, -, -, -, -, rfl⟩ := convertERC20NativeToken_ok_iff.mp hflow
  refine ⟨res, ⟨v, hcom⟩, ?_, ?_⟩
  · rw [moved_evm, mintedCoin_evm, hcom.evm_eq]
  · have hmint := supply_mintedCoin (k := k) (s := v) (c := payout p msg) (d := p.denom) rfl
    rw [supply_moved, hmint, hcom.bank_eq]
    rfl

/-- A coin message leaves the world the call left. -/
theorem transferred_of_convertCoin {msg : MsgConvertCoin} (hd : msg.coin.denom = p.denom)
    (hhex : isHexAddress p.denom = false) (h : convertCoin k msg s = .ok u t) :
    ∃ res, Transfers k (escrowed k s (decodeOrEmpty k msg.sender) msg.coin) k.moduleAddress
      p.getERC20Contract (hexToAddress msg.receiver) msg.coin.nat res ∧ t.evm = res.world := by
  obtain ⟨q, hadm, hflow⟩ := convertCoin_ok_iff.mp h
  obtain rfl := hcons.eq_of_found hp (hd ▸ hcons.getTokenPairID_denom hp hhex) hadm.found
  rcases hflow with ⟨ho, -⟩ | ⟨-, hflow⟩
  · exact absurd (ho.symm.trans howner) (by decide)
  obtain ⟨-, -, res, v, hcom, -, -, -, -, rfl⟩ := convertCoinNativeERC20_ok_iff.mp hflow
  exact ⟨res, ⟨v, hcom⟩, by rw [burnedCoin_evm, hcom.evm_eq]⟩

end Messages

/-! ## What the hook did -/

/-- A completed conversion of a log mints the log's amount, if the denomination is valid. -/
theorem minted_of_convertLog {log : Log} {ev : TransferEvent} {contract : Address}
    (howner : p.contractOwner = .OWNER_EXTERNAL) (htr : transferOf log = some ev)
    (h : convertLog k p contract ev s = .ok u t) :
    t.evm = s.evm ∧ (t.bank.ledger p.denom).supply =
      (s.bank.ledger p.denom).supply +
        if reDnm p.denom.toList = true then ev.tokens else 0 := by
  have hvalid : coinsIsValid [logPayout p ev] = true ↔ reDnm p.denom.toList = true :=
    coinsIsValid_logPayout htr
  -- only an attempted mint is left: the other outcomes belong to pairs that the module owns
  rcases convertLog_ok h with hkept | ⟨v, htaken, hend⟩
  · cases hkept with
    | nothing ho => exact absurd howner ho
    | reverted res ho => exact absurd (ho.symm.trans howner) (by decide)
    | invalid _ hinvalid left =>
      subst left
      rw [hinvalid] at hvalid
      -- refused at the mint, so the denomination is none
      have hdenom : ¬ reDnm p.denom.toList = true := fun hd => Bool.false_ne_true (hvalid.mpr hd)
      refine ⟨s.ensureAccount_evm _, ?_⟩
      rw [if_neg hdenom, State.ensureAccount_bank]
      rfl
  · cases htaken with
    | burned res ho => exact absurd (ho.symm.trans howner) (by decide)
    | minted _ hmint left =>
      subst left
      have hsupply : ((mintedCoin k s (logPayout p ev)).bank.ledger p.denom).supply =
          (s.bank.ledger p.denom).supply + ev.tokens :=
        supply_mintedCoin (c := logPayout p ev) rfl
      rw [if_pos (hvalid.mp hmint.1)]
      -- the payout after the mint moves coins and changes no supply, whether it succeeds or not
      rcases hend with ⟨-, rfl⟩ | ⟨-, rfl⟩
      · exact ⟨by rw [moved_evm, mintedCoin_evm], by rw [supply_moved, hsupply]⟩
      · exact ⟨mintedCoin_evm, hsupply⟩

/-- The log loop on a contract's logs mints what they report as sent to the module. -/
theorem minted_of_processLogs {logs : List Log} (hcons : RegistryConsistent k s.registry)
    (hp : Stored s.registry p) (howner : p.contractOwner = .OWNER_EXTERNAL)
    (hlogs : ∀ log ∈ logs, log.address = p.getERC20Contract)
    (h : forM logs (processLog k) s = .ok u t) :
    t.evm = s.evm ∧ (t.bank.ledger p.denom).supply = (s.bank.ledger p.denom).supply +
      if reDnm p.denom.toList = true then logsAmount k p.getERC20Contract logs else 0 := by
  -- on the logs; the hook leaves the registry alone, so the pair stays stored
  induction logs generalizing s with
  | nil =>
    obtain rfl := Exec.forM_nil_ok_iff.mp h
    exact ⟨rfl, by simp [logsAmount, reportedBy_nil, amountsTo]⟩
  | cons log rest ih =>
    obtain ⟨v, hlog, hrest⟩ := Exec.forM_cons_ok_iff.mp h
    have haddr := hlogs log (List.mem_cons_self ..)
    have hreg := registry_processLog hlog
    -- what one log mints is what it reports to the module, or nothing
    have hround : v.evm = s.evm ∧ (v.bank.ledger p.denom).supply =
        (s.bank.ledger p.denom).supply +
          if reDnm p.denom.toList = true then logAmount k p.getERC20Contract log else 0 := by
      by_cases hask : ∃ ev, transferOf log = some ev ∧ ev.recipient = k.moduleAddress
      · obtain ⟨ev, htr, hrec⟩ := hask
        have hpair := hcons.pairOfContract_eq_some_iff.mpr ⟨hp, haddr.symm⟩
        rw [logAmount_of_transfer htr hrec haddr]
        exact minted_of_convertLog howner htr (processLog_ok_of_transfer htr hrec hpair hlog).2
      · -- the round skipped the log
        have hzero : logAmount k p.getERC20Contract log = 0 :=
          logAmount_eq_zero fun ev htr hrec => absurd ⟨ev, htr, hrec⟩ hask
        rcases processLog_ok hlog with rfl | ⟨ev, q, htr, hrec, -⟩
        · exact ⟨rfl, by simp [hzero]⟩
        · exact absurd ⟨ev, htr, hrec⟩ hask
    obtain ⟨hevm, hsupply⟩ := ih (hreg ▸ hcons) (hreg ▸ hp)
      (fun l hl => hlogs l (List.mem_cons_of_mem _ hl)) hrest
    refine ⟨hevm.trans hround.1, ?_⟩
    rw [hsupply, hround.2, logsAmount_cons]
    split <;> omega

/-! ## When coins are backed -/

/-- **The exact condition.** Whatever the contract is, a conversion creates backed coins exactly
when the contract credited the module with the tokens: in its `transfer` on the message path, and
with all the transfers its logs report on the path of the hook. And the receiver of a coin
conversion gains exactly what the contract's `transfer` credits him with. -/
theorem untrusted_safe_iff (balanceOf : W → Address → ℕ)
    (hcons : RegistryConsistent k s.registry) (hp : Stored s.registry p)
    (howner : p.contractOwner = .OWNER_EXTERNAL) :
    (∀ msg u t, HexSpelling msg.contractAddress p.getERC20Contract →
      convertERC20 k msg s = .ok u t →
      (MintsBacked k p balanceOf s.evm s t ↔
        ∀ res, Transfers k s (hexToAddress msg.sender) p.getERC20Contract k.moduleAddress
            msg.amount.val.toNat res →
          msg.amount.val.toNat ≤
            balanceOf res.world k.moduleAddress - balanceOf s.evm k.moduleAddress)) ∧
    (∀ before logs u t, (∀ log ∈ logs, log.address = p.getERC20Contract) →
      postTxProcessing k logs s = .ok u t →
      (MintsBacked k p balanceOf before s t ↔
        (reDnm p.denom.toList = true →
          logsAmount k p.getERC20Contract logs ≤
            balanceOf s.evm k.moduleAddress - balanceOf before k.moduleAddress))) ∧
    ∀ msg u t, msg.coin.denom = p.denom → isHexAddress p.denom = false →
      convertCoin k msg s = .ok u t →
      (balanceOf t.evm (hexToAddress msg.receiver) =
          balanceOf s.evm (hexToAddress msg.receiver) + msg.coin.nat ↔
        ∀ res, Transfers k (escrowed k s (decodeOrEmpty k msg.sender) msg.coin) k.moduleAddress
            p.getERC20Contract (hexToAddress msg.receiver) msg.coin.nat res →
          balanceOf res.world (hexToAddress msg.receiver) =
            balanceOf s.evm (hexToAddress msg.receiver) + msg.coin.nat) := by
  refine ⟨fun msg u t hmsg h => ?_, fun before logs u t hlogs h => ?_, fun msg u t hd hhex h => ?_⟩
  · -- the message mints the amount, whatever arrived
    obtain ⟨res, hres, hevm, hsupply⟩ := minted_of_convertERC20 hcons hp howner hmsg h
    rw [MintsBacked, hevm, hsupply, Nat.add_sub_cancel_left]
    constructor
    · intro hle res' hres'
      exact hres.eq hres' ▸ hle
    · intro hcredit
      exact hcredit res hres
  · -- the hook mints the sum of the reports
    obtain ⟨hevm, hsupply⟩ := minted_of_processLogs hcons hp howner hlogs
      (postTxProcessing_ok_iff.mp h).2
    rw [MintsBacked, hevm, hsupply, Nat.add_sub_cancel_left]
    by_cases hvalid : reDnm p.denom.toList = true
    · simp only [hvalid, if_true, true_imp_iff]
    · simp [hvalid]
  · -- the receiver gains what the call credited
    obtain ⟨res, hres, hevm⟩ := transferred_of_convertCoin hcons hp howner hd hhex h
    rw [hevm]
    constructor
    · intro hgain res' hres'
      exact hres.eq hres' ▸ hgain
    · intro hgain
      exact hgain res hres

/-! ## Honest and dishonest contracts -/

/-- A machine whose contracts say yes to everything and do nothing. A transaction with other
payload makes `tokenA` log a transfer of 7 tokens from alice to the module. -/
def idleEvm : Evm Unit where
  applyMessage w accounts msg :=
    match msg.data with
    | .raw _ => .ok ⟨w, accounts, "", [], [transferLog tokenA alice moduleAccount 7]⟩
    | _ => .ok ⟨w, accounts, "", word 1, []⟩

/-- What the idle contracts answer when they are asked for a balance. -/
def idleBalance : Unit → Address → ℕ := fun _ _ => 0

/-- Alice converts 5 tokens to her own coins. -/
def aliceConverts : MsgConvertERC20 :=
  ⟨"0x1111111111111111111111111111111111111111", newIntFromUint64 5, aliceBech32,
    "0x3333333333333333333333333333333333333333"⟩

/-- Alice takes 5 coins back to her own tokens. -/
def aliceRedeems : MsgConvertCoin :=
  ⟨⟨pairA.denom, newIntFromUint64 5⟩, "0x3333333333333333333333333333333333333333", aliceBech32⟩

/-- A transaction on which `tokenA` logs a transfer. -/
def forgedTransfer : Message := ⟨alice, some tokenA, 0, .raw []⟩

theorem untrusted_safe_iff_aliceConverts :
    ∃ t, convertERC20 plainKeeper aliceConverts (deployed plainEvm referenceWorld) = .ok () t ∧
      MintsBacked plainKeeper pairA (fun w => (tokenAt tokenA w).ledger.bal) referenceWorld
        (deployed plainEvm referenceWorld) t := by
  have hsupply : ((Exec.deliver (convertERC20 plainKeeper aliceConverts)
      (deployed plainEvm referenceWorld)).bank.ledger pairA.denom).supply = 5 := by
    decide +kernel
  obtain ⟨u, hok⟩ := Exec.ok_of_deliver_ne (x := convertERC20 plainKeeper aliceConverts)
    (s := deployed plainEvm referenceWorld) fun hsame => by
      rw [hsame] at hsupply
      exact absurd hsupply (by decide)
  refine ⟨_, hok, ((untrusted_safe_iff (fun w => (tokenAt tokenA w).ledger.bal)
    (consistent_deployed plainEvm referenceWorld)
    ((stored_deployed plainEvm referenceWorld).mpr (.inl rfl)) rfl).1 _ _ _
    ⟨"0x", by decide, "1111111111111111111111111111111111111111".toList, by decide, by decide⟩
    hok).mpr ?_⟩
  rintro res ⟨v, nonce, hnonce, happ, -⟩
  have hcontract : pairA.getERC20Contract = tokenA := by decide
  rw [hcontract] at happ
  -- the token executes the transfer, which credits the module
  obtain ⟨-, ⟨-, hnone⟩ | ⟨r, hexec, -, htok, -⟩⟩ :=
    (ozContract_plainKeeper tokenA).called (by decide) (fun _ => by decide) happ
  · exact absurd hnone (by decide)
  · obtain ⟨t', ht, rfl⟩ := OzToken.exec_transfer_iff.mp hexec
    obtain ⟨-, hledger, -⟩ := OzToken.transferred_some ht
    rw [htok, hledger, Ledger.bal_move_to (by decide)]
    exact Nat.le_sub_of_add_le (by omega)

/-- **A contract that lies gets coins for nothing.** Its tokens never move. Still alice is minted
5 coins for a `transfer` that returned true, 7 more for a log, and gives up 5 coins for a second
`transfer` that returned true. -/
theorem not_mintsBacked_idleEvm :
    (∃ t, convertERC20 (keeperOver idleEvm) aliceConverts (deployed idleEvm ()) = .ok () t ∧
      ¬ MintsBacked (keeperOver idleEvm) pairA idleBalance () (deployed idleEvm ()) t) ∧
    (∃ t, applyTransaction (keeperOver idleEvm) forgedTransfer (deployed idleEvm ()) = .ok () t ∧
      ¬ MintsBacked (keeperOver idleEvm) pairA idleBalance () (deployed idleEvm ()) t) ∧
    ∃ t, convertCoin (keeperOver idleEvm) aliceRedeems
        (step (keeperOver idleEvm) (deployed idleEvm ()) (.convertERC20 aliceConverts)) =
          .ok () t ∧
      idleBalance t.evm alice ≠ idleBalance () alice + aliceRedeems.coin.nat := by
  have hok : ∀ (op : Op) (s : State Unit),
      ((step (keeperOver idleEvm) s op).bank.ledger pairA.denom).supply ≠
        (s.bank.ledger pairA.denom).supply →
      ∃ u, op.exec (keeperOver idleEvm) s = .ok u (step (keeperOver idleEvm) s op) :=
    fun op s hne => Exec.ok_of_deliver_ne fun hsame => hne (by rw [step, hsame])
  refine ⟨?_, ?_, ?_⟩
  · obtain ⟨u, h⟩ := hok (.convertERC20 aliceConverts) (deployed idleEvm ()) (by decide +kernel)
    exact ⟨_, h, by unfold MintsBacked; decide +kernel⟩
  · obtain ⟨u, h⟩ := hok (.ethereumTx forgedTransfer) (deployed idleEvm ()) (by decide +kernel)
    exact ⟨_, h, by unfold MintsBacked; decide +kernel⟩
  · obtain ⟨u, h⟩ := hok (.convertCoin aliceRedeems)
      (step (keeperOver idleEvm) (deployed idleEvm ()) (.convertERC20 aliceConverts))
      (by decide +kernel)
    exact ⟨_, h, by decide⟩

end GenesisEthermint.Solvency
