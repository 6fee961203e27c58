import GenesisEthermint.Hook.Frame
import GenesisEthermint.Intrarelayer.Outcomes

/-!
# The Kill Switch

Governance can switch the module off, and every pair for itself. Registrations and messages ask
for the module's switch, and every path asks for the pair's. The hook does not ask for the
module's: it has a switch of its own. So while the module is off and the hook is on, a transfer
to the module is still converted.
-/

namespace GenesisEthermint.Hook

open GenesisEthermint.Foundation GenesisEthermint.Types GenesisEthermint.Chain
open GenesisEthermint.Intrarelayer GenesisEthermint.Registry GenesisEthermint.Tokens

variable {W : Type} {k : Keeper W} {s t : State W} {u : Unit} {logs : List Log} {p : TokenPair}

/-- The operation is one the module's switch is to stop. -/
def IsSwitched : Op → Prop
  | .registerCoin _ | .registerERC20 _ | .convertCoin _ | .convertERC20 _ | .ethereumTx _ => True
  | _ => False

/-- While the module is off, a transaction gives the hook nothing to convert: the hook is off
too, or no log is a transfer to the module by a registered contract, or some log is a transfer of
a disabled pair, which reverts them all. -/
def HookQuiet (k : Keeper W) (s : State W) : Op → Prop
  | .ethereumTx msg => s.params.enableIntrarelayer = false →
      s.params.enableEVMHook = false ∨ ∀ res, k.evm.applyMessage s.evm s.accounts msg = .ok res →
        NoConversion k s.registry res.logs ∨ ¬ NoneDisabled s.registry res.logs
  | _ => True

/-- The text names the pair, as the keeper looks it up. -/
def Names (r : Registry) (token : String) (p : TokenPair) : Prop :=
  ∃ id, getTokenPairID r token = some id ∧ getTokenPair r id = some p

/-- The operation converts the pair, on one of the three paths. -/
def Converts (k : Keeper W) (s : State W) (p : TokenPair) : Op → Prop
  | .convertCoin msg => Names s.registry msg.coin.denom p
  | .convertERC20 msg => Names s.registry msg.contractAddress p
  | .ethereumTx msg => ∃ res, k.evm.applyMessage s.evm s.accounts msg = .ok res ∧
      ∃ log ∈ res.logs, ∃ ev, transferOf log = some ev ∧ ev.recipient = k.moduleAddress ∧
        pairOfContract s.registry log.address = some p
  | _ => False

/-- What the two switches promise of one step. -/
structure KillSwitched (k : Keeper W) (s : State W) (op : Op) : Prop where
  /-- The registry stays, and so do all bank balances and supplies. -/
  registry : s.params.enableIntrarelayer = false → IsSwitched op →
    (step k s op).registry = s.registry
  ledger : s.params.enableIntrarelayer = false → IsSwitched op →
    (step k s op).bank.ledger = s.bank.ledger
  /-- The module makes no call: at most the transaction's own message changed the world. -/
  world : s.params.enableIntrarelayer = false → IsSwitched op →
    (step k s op).evm = s.evm ∨ ∃ msg res, op = .ethereumTx msg ∧
      k.evm.applyMessage s.evm s.accounts msg = .ok res ∧ (step k s op).evm = res.world
  /-- A disabled pair is not converted. -/
  disabled : ∀ p, p.enabled = false → Converts k s p op → step k s op = s

/-! ## What stops a conversion -/

/-- The hook never completes on a log of a disabled pair. -/
theorem noneDisabled_of_ok (h : postTxProcessing k logs s = .ok u t) :
    NoneDisabled s.registry logs := by
  rw [postTxProcessing_ok_iff] at h
  replace h := h.2
  induction logs generalizing s with
  | nil => exact fun log hlog => (List.not_mem_nil hlog).elim
  | cons log rest ih =>
    obtain ⟨v, hlog, hrest⟩ := Exec.forM_cons_ok_iff.mp h
    have hreg := registry_processLog hlog
    intro l hl ev p htr hp
    rcases List.mem_cons.mp hl with rfl | hl
    · by_contra hoff
      rw [processLog_of_disabled htr hp (by simpa using hoff)] at hlog
      cases hlog
    · exact ih hrest l hl ev p htr (hreg ▸ hp)

/-- A refused operation changes nothing. -/
theorem step_of_not_ok {op : Op} (h : ∀ u t, op.exec k s ≠ .ok u t) : step k s op = s :=
  (Exec.deliver_cases (op.exec k) s).resolve_left fun ⟨u, hok⟩ => h u _ hok

/-- While the module is off, no registration and no message goes through. -/
private theorem not_ok_of_off {op : Op} (hoff : s.params.enableIntrarelayer = false)
    (hop : IsSwitched op) (htx : ∀ msg, op ≠ .ethereumTx msg) :
    ∀ u t, op.exec k s ≠ .ok u t := by
  -- success of any of them says that the module is on
  have hon : s.params.enableIntrarelayer ≠ true := by simp [hoff]
  intro u t hok
  cases op with
  | registerCoin m =>
    obtain ⟨p, v, hp, -⟩ := Exec.bind_ok_iff.mp hok
    exact hon (registerCoin_ok hp).1
  | registerERC20 contract => exact hon (registerERC20_ok hok).1
  | convertCoin msg =>
    obtain ⟨q, hadm, -⟩ := convertCoin_ok_iff.mp hok
    exact hon hadm.on
  | convertERC20 msg =>
    obtain ⟨q, hadm, -⟩ := convertERC20_ok_iff.mp hok
    exact hon hadm.on
  | ethereumTx msg => exact htx msg rfl
  | _ => exact hop

/-- A transaction that gives the hook nothing to convert is its own message, or reverted. -/
private theorem applyTransaction_of_quiet {msg : Message}
    (hoff : s.params.enableIntrarelayer = false) (hquiet : HookQuiet k s (.ethereumTx msg))
    (h : applyTransaction k msg s = .ok u t) :
    ∃ res, k.evm.applyMessage s.evm s.accounts msg = .ok res ∧ t = afterTx s res := by
  obtain ⟨res, happ, -, hhook⟩ := applyTransaction_ok_iff.mp h
  refine ⟨res, happ, ?_⟩
  rcases hquiet hoff with hhookoff | hlogs
  · have hon : s.params.enableEVMHook = true := (postTxProcessing_ok_iff.mp hhook).1
    rw [hhookoff] at hon
    cases hon
  rcases hlogs res happ with hno | hsome
  · have hno' : NoConversion k (afterTx s res).registry res.logs := hno
    rcases postTxProcessing_of_noConversion hno' with ⟨-, -, hok⟩ | ⟨-, e, herr⟩
    · rw [hok] at hhook
      exact (EStateM.Result.ok.inj hhook).2.symm
    · rw [herr] at hhook
      cases hhook
  · exact absurd (noneDisabled_of_ok hhook) hsome

/-- The admitted pair is the one the text leads to. -/
theorem Names.eq_of_admits {a b : AccAddress} {token : String} {q : TokenPair}
    (hn : Names s.registry token p) (h : Admits k s a b token q) : q = p := by
  obtain ⟨id, hid, hp⟩ := hn
  obtain ⟨id', hid', hq⟩ := h.found
  obtain rfl := Option.some.inj (hid.symm.trans hid')
  exact Option.some.inj (hq.symm.trans hp)

/-- A disabled pair is not converted on any path. -/
private theorem not_ok_of_disabled {op : Op} (hoff : p.enabled = false)
    (hconv : Converts k s p op) : ∀ u t, op.exec k s ≠ .ok u t := by
  -- admission refuses a token that resolves to a disabled pair
  have hadmits : ∀ {a b : AccAddress} {token : String} {q : TokenPair},
      Admits k s a b token q → ¬ Names s.registry token p := by
    intro a b token q hadm hn
    have hen := hn.eq_of_admits hadm ▸ hadm.enabled
    rw [hoff] at hen
    cases hen
  intro u t hok
  cases op with
  | convertCoin msg =>
    obtain ⟨q, hadm, -⟩ := convertCoin_ok_iff.mp hok
    exact hadmits hadm hconv
  | convertERC20 msg =>
    obtain ⟨q, hadm, -⟩ := convertERC20_ok_iff.mp hok
    exact hadmits hadm hconv
  | ethereumTx msg =>
    -- the hook fails on the first log of a disabled pair, and the transaction with it
    obtain ⟨res, happ, log, hlog, ev, htr, -, hp⟩ := hconv
    obtain ⟨res', happ', -, hhook⟩ := applyTransaction_ok_iff.mp hok
    obtain rfl := Except.ok.inj (happ.symm.trans happ')
    have hen := noneDisabled_of_ok hhook log hlog ev p htr hp
    rw [hoff] at hen
    cases hen
  | _ => exact hconv

/-! ## Steps and runs -/

/-- **One step under both switches.** -/
theorem killSwitched_of_quiet {op : Op} (hquiet : HookQuiet k s op) : KillSwitched k s op := by
  -- off and quiet, only the Ethereum transaction changes anything, and only what it ran
  have hframe : s.params.enableIntrarelayer = false → IsSwitched op →
      step k s op = s ∨ ∃ msg res, op = .ethereumTx msg ∧
        k.evm.applyMessage s.evm s.accounts msg = .ok res ∧ step k s op = afterTx s res := by
    intro hoff hop
    by_cases htx : ∃ msg, op = .ethereumTx msg
    · obtain ⟨msg, rfl⟩ := htx
      rcases Exec.deliver_cases (applyTransaction k msg) s with ⟨u, hok⟩ | hfail
      · obtain ⟨res, happ, ht⟩ := applyTransaction_of_quiet hoff hquiet hok
        exact .inr ⟨msg, res, rfl, happ, ht⟩
      · exact .inl hfail
    · exact .inl (step_of_not_ok (not_ok_of_off hoff hop fun msg heq => htx ⟨msg, heq⟩))
  refine ⟨fun hoff hop => ?_, fun hoff hop => ?_, fun hoff hop => ?_,
    fun p hoff hconv => step_of_not_ok (not_ok_of_disabled hoff hconv)⟩
  -- bank, registry and world are read off the two outcomes
  · rcases hframe hoff hop with h | ⟨msg, res, -, -, h⟩
    · rw [h]
    · rw [h]
      rfl
  · rcases hframe hoff hop with h | ⟨msg, res, -, -, h⟩
    · rw [h]
    · rw [h]
      rfl
  · rcases hframe hoff hop with h | ⟨msg, res, rfl, happ, h⟩
    · exact .inl (congrArg State.evm h)
    · exact .inr ⟨msg, res, rfl, happ, congrArg State.evm h⟩

/-- A switched operation leaves the parameters alone. -/
private theorem params_step {op : Op} (hop : IsSwitched op)
    (hoff : s.params.enableIntrarelayer = false) (hquiet : HookQuiet k s op) :
    (step k s op).params = s.params := by
  by_cases htx : ∃ msg, op = .ethereumTx msg
  · obtain ⟨msg, rfl⟩ := htx
    rcases Exec.deliver_cases (applyTransaction k msg) s with ⟨u, hok⟩ | hfail
    · obtain ⟨res, -, ht⟩ := applyTransaction_of_quiet hoff hquiet hok
      rw [step, Op.exec, ht]
      rfl
    · rw [step, Op.exec, hfail]
  · rw [step_of_not_ok (not_ok_of_off hoff hop fun msg heq => htx ⟨msg, heq⟩)]

/-- **The kill switch over whole runs.** If no transaction that runs while the module is off
gives the hook something to convert, then every step of the run honours both switches, and
registrations, conversions and transactions, however many, leave a module that is off with the
registry, the balances and the supplies it had. -/
theorem kill_switch_of_run (s₀ : State W) (ops : List Op)
    (hquiet : Along (step k) (HookQuiet k) s₀ ops) :
    Along (step k) (KillSwitched k) s₀ ops ∧
      (s₀.params.enableIntrarelayer = false → (∀ op ∈ ops, IsSwitched op) →
        (run (step k) s₀ ops).registry = s₀.registry ∧
        (run (step k) s₀ ops).bank.ledger = s₀.bank.ledger) := by
  refine ⟨hquiet.mono fun s op hop => killSwitched_of_quiet hop, fun hoff hops => ?_⟩
  have hall := hquiet.and (along_of_mem hops)
  have hinv := run_preserves (P := fun s => s.params.enableIntrarelayer = false ∧
      s.registry = s₀.registry ∧ s.bank.ledger = s₀.bank.ledger)
    (fun s op hs hop => ?_) ⟨hoff, rfl, rfl⟩ hall
  · exact hinv.2
  · obtain ⟨hoff', hreg, hledger⟩ := hs
    have hstep := killSwitched_of_quiet hop.1
    refine ⟨?_, (hstep.registry hoff' hop.2).trans hreg, (hstep.ledger hoff' hop.2).trans hledger⟩
    rw [params_step hop.2 hoff' hop.1]
    exact hoff'

/-! ## The switch and the hook -/

/-- The deployment with the module switched off; its hook stays on. -/
def moduleOff : State TokenWorld :=
  step plainKeeper (deployed plainEvm referenceWorld) (.setParams ⟨false, 172800000000000, true⟩)

/-- Alice sends 5 tokens to the module. -/
def sentToModule : Op :=
  .ethereumTx ⟨alice, some tokenE, 0, .call .transfer [.address moduleAccount, .uint256 5]⟩

/-- A transfer of tokens from alice to bob, and a message to convert some of hers. -/
def quietOps : List Op := [
  .ethereumTx ⟨alice, some tokenE, 0, .call .transfer [.address bob, .uint256 5]⟩,
  .convertERC20 ⟨"0x5555555555555555555555555555555555555555", newIntFromUint64 3, aliceBech32,
    "0x3333333333333333333333333333333333333333"⟩]

theorem kill_switch_of_run_quietOps :
    (run (step plainKeeper) moduleOff quietOps).registry = moduleOff.registry ∧
      (run (step plainKeeper) moduleOff quietOps).bank.ledger = moduleOff.bank.ledger := by
  refine (kill_switch_of_run moduleOff quietOps ⟨fun _ => .inr fun res happ => .inl ?_, trivial,
    trivial⟩).2 (by decide) (by simp [quietOps, IsSwitched])
  have hlogs : (match plainKeeper.evm.applyMessage moduleOff.evm moduleOff.accounts
        ⟨alice, some tokenE, 0, .call .transfer [.address bob, .uint256 5]⟩ with
      | .ok res => res.logs
      | .error _ => []) = [transferLog tokenE alice bob 5] := by decide +kernel
  rw [happ] at hlogs
  -- the only log is a transfer to bob
  intro log hlog ev htr hrec
  have hsingle : res.logs = [transferLog tokenE alice bob 5] := hlogs
  rw [hsingle] at hlog
  obtain rfl := List.mem_singleton.mp hlog
  have hbob : (transferOf (transferLog tokenE alice bob 5)).map (·.recipient) = some bob := by
    decide
  rw [htr] at hbob
  exact absurd ((Option.some.inj hbob).symm.trans hrec) (by decide)

/-- **The hook converts while the module is off**: the tokens are burned, and coins leave the
escrow. -/
theorem kill_switch_ignored_sentToModule :
    moduleOff.params.enableIntrarelayer = false ∧
      ¬ KillSwitched plainKeeper moduleOff sentToModule := by
  refine ⟨by decide, fun h => ?_⟩
  have hledger := h.ledger (by decide) trivial
  have hbal : ((step plainKeeper moduleOff sentToModule).bank.ledger "acoin").bal alice.bytes =
      65 := by decide +kernel
  rw [hledger] at hbal
  exact absurd hbal (by decide)

end GenesisEthermint.Hook
