import GenesisEthermint.Registry.Bijection

/-!
# Transactions that Convert Nothing

The hook runs after every Ethereum transaction, and its failure reverts the transaction. So it
matters what it does to the transactions it has no business with. It leaves the state alone, but
it does not always succeed: it fails while it is switched off, and it asks for an enabled pair
before it looks where a transfer goes.
-/

namespace GenesisEthermint.Hook

open GenesisEthermint.Foundation GenesisEthermint.Types GenesisEthermint.Chain
open GenesisEthermint.Intrarelayer GenesisEthermint.Registry GenesisEthermint.Tokens

variable {W : Type} {k : Keeper W} {r : Registry} {s t : State W} {u : Unit} {log : Log}
  {logs : List Log} {msg : Message}

/-- No log is a positive transfer to the module account by a registered contract. -/
def NoConversion (k : Keeper W) (r : Registry) (logs : List Log) : Prop :=
  ∀ log ∈ logs, ∀ ev, transferOf log = some ev → ev.recipient = k.moduleAddress →
    pairOfContract r log.address = none

/-- No log is a positive transfer, to whomever, by the contract of a disabled pair. -/
def NoneDisabled (r : Registry) (logs : List Log) : Prop :=
  ∀ log ∈ logs, ∀ ev p, transferOf log = some ev → pairOfContract r log.address = some p →
    p.enabled = true

/-! ## One log -/

/-- A log of a disabled pair ends the loop. -/
theorem processLog_of_disabled {ev : TransferEvent} {p : TokenPair}
    (htr : transferOf log = some ev) (hp : pairOfContract s.registry log.address = some p)
    (hoff : p.enabled = false) :
    processLog k log s = .error (.error (errPairDisabled k log.address)) s := by
  simp only [processLog, Exec.get_bind, htr, hp, Exec.failIf_bind]
  rw [if_pos (by simp [hoff])]

/-- A log that converts nothing is skipped unless its pair is disabled. -/
theorem processLog_eq_skip
    (hno : ∀ ev, transferOf log = some ev → ev.recipient = k.moduleAddress →
      pairOfContract s.registry log.address = none)
    (hen : ∀ ev p, transferOf log = some ev → pairOfContract s.registry log.address = some p →
      p.enabled = true) : processLog k log s = .ok () s := by
  simp only [processLog, Exec.get_bind]
  cases htr : transferOf log with
  | none => rfl
  | some ev =>
    cases hp : pairOfContract s.registry log.address with
    | none => rfl
    | some p =>
      have hne : ev.recipient ≠ k.moduleAddress := by
        intro hrec
        rw [hno ev htr hrec] at hp
        cases hp
      simp only [Exec.failIf_bind]
      rw [if_neg (by simp [hen ev p htr hp]), if_pos hne]
      rfl

/-! ## All logs -/

/-- **What the hook does to a transaction that converts nothing**: it skips every log, or it
stops at the first one of a disabled pair. Either way nothing is written. -/
theorem forM_processLog_of_noConversion (hno : NoConversion k s.registry logs) :
    (NoneDisabled s.registry logs ∧ forM logs (processLog k) s = .ok ⟨⟩ s) ∨
      (¬ NoneDisabled s.registry logs ∧ ∃ e, forM logs (processLog k) s = .error (.error e) s) := by
  -- on the logs; the first one is skipped or ends the run
  induction logs with
  | nil => exact .inl ⟨fun log hlog => (List.not_mem_nil hlog).elim, rfl⟩
  | cons log rest ih =>
    have hin := List.mem_cons_self (a := log) (l := rest)
    by_cases hen : ∀ ev p, transferOf log = some ev →
        pairOfContract s.registry log.address = some p → p.enabled = true
    · -- the first log is skipped, and the rest decide
      have hskip := processLog_eq_skip (k := k) (fun ev => hno log hin ev) hen
      have hrun : forM (log :: rest) (processLog k) s = forM rest (processLog k) s := by
        rw [List.forM_cons]
        exact Exec.bind_of_ok hskip
      rw [hrun]
      rcases ih fun l hl => hno l (List.mem_cons_of_mem _ hl) with ⟨hnone, hok⟩ | ⟨hsome, herr⟩
      · refine .inl ⟨fun l hl => ?_, hok⟩
        rcases List.mem_cons.mp hl with rfl | hl
        · exact hen
        · exact hnone l hl
      · exact .inr ⟨fun h => hsome fun l hl => h l (List.mem_cons_of_mem _ hl), herr⟩
    · -- the first log is one of a disabled pair
      refine .inr ⟨fun h => hen (h log hin), ?_⟩
      simp only [not_forall] at hen
      obtain ⟨ev, p, htr, hp, hoff⟩ := hen
      refine ⟨errPairDisabled k log.address, ?_⟩
      rw [List.forM_cons]
      exact Exec.bind_of_error (processLog_of_disabled htr hp (by simpa using hoff))

/-- A loop that completes, over whatever logs, met none of a disabled pair. -/
theorem noneDisabled_of_forM_ok {u : PUnit} (h : forM logs (processLog k) s = .ok u t) :
    NoneDisabled s.registry logs := by
  induction logs generalizing s with
  | nil => exact fun log hlog => (List.not_mem_nil hlog).elim
  | cons log rest ih =>
    obtain ⟨v, hlog, hrest⟩ := Exec.forM_cons_ok_iff.mp h
    intro l hl ev p htr hp
    rcases List.mem_cons.mp hl with rfl | hl
    · cases hen : p.enabled with
      | true => rfl
      | false =>
        rw [processLog_of_disabled htr hp hen] at hlog
        cases hlog
    · -- the rest ran on the registry of the beginning
      rw [← registry_processLog hlog] at hp
      exact ih hrest l hl ev p htr hp

/-- The hook on such a transaction. -/
theorem postTxProcessing_of_noConversion (hno : NoConversion k s.registry logs) :
    (s.params.enableEVMHook = true ∧ NoneDisabled s.registry logs ∧
        postTxProcessing k logs s = .ok () s) ∨
      (¬ (s.params.enableEVMHook = true ∧ NoneDisabled s.registry logs) ∧
        ∃ e, postTxProcessing k logs s = .error (.error e) s) := by
  have hrun : postTxProcessing k logs s = if ¬ s.params.enableEVMHook = true then
      .error (.error errHookDisabled) s else forM logs (processLog k) s := by
    rw [postTxProcessing, Exec.get_bind, Exec.failIf_bind]
  by_cases hon : s.params.enableEVMHook = true
  · rw [hrun, if_neg (not_not.mpr hon)]
    rcases forM_processLog_of_noConversion hno with ⟨hnone, hok⟩ | ⟨hsome, herr⟩
    · exact .inl ⟨hon, hnone, hok⟩
    · exact .inr ⟨fun h => hsome h.2, herr⟩
  · rw [hrun, if_pos hon]
    exact .inr ⟨fun h => hon h.1, _, rfl⟩

/-- **When the hook does not interfere.** On logs that convert nothing the hook returns nil, with
the state unchanged, exactly when it is switched on and no log is a transfer by the contract of a
disabled pair. And a transaction with such logs succeeds exactly when its execution does and that
holds, in whatever state it runs. -/
theorem hook_frame_iff (k : Keeper W) :
    (∀ (s : State W) (logs : List Log), NoConversion k s.registry logs →
      (postTxProcessing k logs s = .ok () s ↔
        s.params.enableEVMHook = true ∧ NoneDisabled s.registry logs)) ∧
    ∀ (s : State W) (msg : Message) (res : EvmResult W),
      k.evm.applyMessage s.evm s.accounts msg = .ok res → NoConversion k s.registry res.logs →
      ((∃ t, applyTransaction k msg s = .ok () t) ↔ res.failed = false ∧
        s.params.enableEVMHook = true ∧ NoneDisabled s.registry res.logs) := by
  refine ⟨fun s logs hno => ?_, fun s msg res happ hno => ?_⟩
  -- without a conversion the hook changes nothing, so only its error is in question
  · rcases postTxProcessing_of_noConversion hno with ⟨hon, hnone, hok⟩ | ⟨hnot, e, herr⟩
    · exact iff_of_true hok ⟨hon, hnone⟩
    · refine iff_of_false ?_ hnot
      rw [herr]
      exact fun h => by cases h
  -- the message does not touch the registry that the hook reads
  · have hno' : NoConversion k (afterTx s res).registry res.logs := hno
    constructor
    · rintro ⟨t, ht⟩
      obtain ⟨res', happ', hf, hhook⟩ := applyTransaction_ok_iff.mp ht
      obtain rfl := Except.ok.inj (happ.symm.trans happ')
      rcases postTxProcessing_of_noConversion hno' with ⟨hon, hnone, -⟩ | ⟨-, e, herr⟩
      · exact ⟨hf, hon, hnone⟩
      · rw [herr] at hhook
        cases hhook
    · rintro ⟨hf, hon, hnone⟩
      rcases postTxProcessing_of_noConversion hno' with ⟨-, -, hok⟩ | ⟨hnot, -⟩
      · exact ⟨_, applyTransaction_ok_iff.mpr ⟨res, happ, hf, hok⟩⟩
      · exact absurd ⟨hon, hnone⟩ hnot

/-- A transfer of one token between users. -/
def userTransfer : List Log := [transferLog tokenA alice bob 1]

theorem noConversion_userTransfer (r : Registry) : NoConversion plainKeeper r userTransfer := by
  intro log hlog ev htr hrec
  obtain rfl := List.mem_singleton.mp hlog
  have hbob : (transferOf (transferLog tokenA alice bob 1)).map (·.recipient) = some bob := by
    decide
  rw [htr] at hbob
  have hne : bob ≠ plainKeeper.moduleAddress := by decide
  exact absurd ((Option.some.inj hbob).symm.trans hrec) hne

theorem hook_frame_iff_userTransfer :
    postTxProcessing plainKeeper userTransfer (deployed plainEvm referenceWorld) =
      .ok () (deployed plainEvm referenceWorld) := by
  refine ((hook_frame_iff plainKeeper).1 _ _ (noConversion_userTransfer _)).mpr
    ⟨rfl, fun log _ ev p _ hp => ?_⟩
  obtain ⟨hstored, -⟩ :=
    (consistent_deployed plainEvm referenceWorld).pairOfContract_eq_some_iff.mp hp
  rcases (stored_deployed plainEvm referenceWorld).mp hstored with rfl | rfl <;> rfl

/-! ## Hooks that interfere -/

/-- The deployment with the hook switched off. -/
def hookOff : State TokenWorld :=
  step plainKeeper (deployed plainEvm referenceWorld) (.setParams ⟨true, 172800000000000, false⟩)

/-- The deployment with the third party's pair switched off. -/
def pairOff : State TokenWorld :=
  step plainKeeper (deployed plainEvm referenceWorld)
    (.toggleRelay "0x1111111111111111111111111111111111111111")

/-- **Switching off blocks the others too.** With the hook off every transaction fails, even one
without logs, and with one pair off a transfer of its tokens between users fails. -/
theorem hook_interferes :
    (NoConversion plainKeeper hookOff.registry [] ∧
      postTxProcessing plainKeeper [] hookOff ≠ .ok () hookOff) ∧
    NoConversion plainKeeper pairOff.registry userTransfer ∧
      postTxProcessing plainKeeper userTransfer pairOff ≠ .ok () pairOff := by
  refine ⟨⟨fun log hlog => (List.not_mem_nil hlog).elim, fun h => ?_⟩,
    noConversion_userTransfer _, fun h => ?_⟩
  · have hon := (postTxProcessing_ok_iff.mp h).1
    cases hon
  · have hfails : (match postTxProcessing plainKeeper userTransfer pairOff with
        | .ok _ _ => true
        | .error _ _ => false) = false := by decide +kernel
    rw [h] at hfails
    cases hfails

end GenesisEthermint.Hook
