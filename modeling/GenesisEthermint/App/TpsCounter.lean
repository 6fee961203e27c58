import GenesisEthermint.Foundation.Exec
import GenesisEthermint.Foundation.Run
import GenesisEthermint.Types.Errors
import Mathlib.Algebra.BigOperators.Group.List.Basic
import Mathlib.Algebra.Field.Rat
import Mathlib.Data.Int.Cast.Lemmas

/-!
# Transactions per Second

`tpsCounter` counts delivered transactions in two atomic counters, and a goroutine reports on every
tick of a timer how much each has grown. The reporter loads the counters one after the other, and
transactions are delivered at any moment between. It remembers what it loaded for both counters,
but takes the second difference against the first counter: what it records as failures is how far
the successes are ahead of the failures of the tick before.

The rate it logs is the exact quotient here. The source divides two `float64`, which rounds.
-/

namespace GenesisEthermint.App

open GenesisEthermint.Foundation GenesisEthermint.Types

/-! ## The counter -/

/-- `tpsCounter`: the counters, and the period in nanoseconds. -/
structure TpsCounter where
  nSuccessful : UInt64
  nFailed : UInt64
  reportPeriod : ℤ

/-- `incrementSuccess`. -/
def TpsCounter.incrementSuccess (tpc : TpsCounter) : TpsCounter :=
  { tpc with nSuccessful := tpc.nSuccessful + 1 }

/-- `incrementFailure`. -/
def TpsCounter.incrementFailure (tpc : TpsCounter) : TpsCounter :=
  { tpc with nFailed := tpc.nFailed + 1 }

/-- What `DeliverTx` counts when the response has this code: `IsErr` is a code other than 0. -/
def TpsCounter.deliverTx (tpc : TpsCounter) (code : ℕ) : TpsCounter :=
  if code ≠ 0 then tpc.incrementFailure else tpc.incrementSuccess

/-- `time.Second`, in nanoseconds. -/
def second : ℤ := 10 ^ 9

/-- `defaultTPSReportPeriod`. -/
def defaultTPSReportPeriod : ℤ := 10 * second

/-- `tpsReportPeriod`. -/
def TpsCounter.tpsReportPeriod (tpc : TpsCounter) : ℤ :=
  if 0 < tpc.reportPeriod then tpc.reportPeriod else defaultTPSReportPeriod

/-! ## A report -/

/-- The conversion of a `uint64` to `int64`. -/
def int64 (x : UInt64) : ℤ := Int.bmod x.toNat (2 ^ 64)

/-- Addition of `int64` values. -/
def addInt64 (a b : ℤ) : ℤ := Int.bmod (a + b) (2 ^ 64)

def statusSuccess : String := "success"

def statusFailure : String := "failure"

/-- `statusValue`: the text a status is recorded under. -/
def statusValue (status : String) : String := if status = statusFailure then "ERR" else "OK"

/-- `checkValue` of the tag package. -/
def checkValue (v : String) : Bool :=
  v.length ≤ 255 && v.toList.all fun c => 32 ≤ c.toNat && c.toNat ≤ 126

/-- `errInvalidValue`. -/
def errInvalidValue : GoError :=
  .errorf "invalid value: only ASCII characters accepted; max length must be 255 characters"

/-- A value recorded under a status. -/
structure Measurement where
  status : String
  value : ℤ
  deriving DecidableEq

/-- The variables of the reporter, with what it recorded and what it logged as transactions per
second. -/
structure Reporter where
  lastNSuccessful : UInt64
  lastNFailed : UInt64
  recorded : List Measurement
  logged : List ℚ

/-- `stats.Record`. -/
def Reporter.record (r : Reporter) (m : Measurement) : Reporter :=
  { r with recorded := r.recorded ++ [m] }

/-- `recordValue`. -/
def recordValue (latest previous : UInt64) (status : String) : Exec GoError Reporter ℤ :=
  if latest < previous then pure 0
  else
    -- the conversion of a difference from `2 ^ 63` on is negative
    let n := int64 (latest - previous)
    if n < 0 then pure 0
    else do
      Exec.failIf (¬ checkValue (statusValue status)) errInvalidValue
      modify fun r => r.record ⟨statusValue status, n⟩
      return n

/-- `if err == nil { .. } else { panic(err) }`. -/
def orPanicWith {α : Type} (x : Exec GoError Reporter α) : Exec GoError Reporter α := do
  match ← Exec.attempt x with
  | .ok a => return a
  | .error e => Exec.panicWith e.error

/-- What the reporter does after it loaded the counters. -/
def report (tpsReportPeriod : ℤ) (latestNSuccessful latestNFailed : UInt64) :
    Exec GoError Reporter Unit := do
  let r ← get
  let nSuccess ← orPanicWith (recordValue latestNSuccessful r.lastNSuccessful statusSuccess)
  -- the first operand is the counter of the successes here as well
  let nFailed ← orPanicWith (recordValue latestNSuccessful r.lastNFailed statusFailure)
  let nTxn := addInt64 nSuccess nFailed
  let secs : ℚ := tpsReportPeriod / second
  if nTxn ≠ 0 then modify fun r => { r with logged := r.logged ++ [nTxn / secs] }
  -- the failures are kept as they were loaded, for the next comparison
  modify fun r =>
    { r with lastNFailed := latestNFailed, lastNSuccessful := latestNSuccessful }

/-! ## The goroutine among the deliveries -/

/-- Where the goroutine is: it waits for a tick, has loaded one counter or both, or is gone. -/
inductive Phase where
  | waiting
  | loadedSuccessful (latestNSuccessful : UInt64)
  | loaded (latestNSuccessful latestNFailed : UInt64)
  | returned
  | panicked

/-- The counter and the goroutine that `start` runs. -/
structure Machine where
  tpc : TpsCounter
  reporter : Reporter
  phase : Phase

/-- The atomic steps: `DeliverTx` counts a transaction, and the goroutine takes a tick and loads
one counter, loads the other, reports, or sees that the context is done. -/
inductive Action where
  | deliverTx (code : ℕ)
  | loadSuccessful
  | loadFailed
  | report
  | done

/-- One step. A step of the goroutine that is not its next one does nothing. -/
def Machine.step (m : Machine) : Action → Machine
  | .deliverTx code => { m with tpc := m.tpc.deliverTx code }
  | .loadSuccessful =>
    match m.phase with
    | .waiting => { m with phase := .loadedSuccessful m.tpc.nSuccessful }
    | _ => m
  | .loadFailed =>
    match m.phase with
    | .loadedSuccessful latestNSuccessful =>
      { m with phase := .loaded latestNSuccessful m.tpc.nFailed }
    | _ => m
  | .report =>
    match m.phase with
    | .loaded latestNSuccessful latestNFailed =>
      match App.report m.tpc.tpsReportPeriod latestNSuccessful latestNFailed m.reporter with
      | .ok _ r => { m with reporter := r, phase := .waiting }
      | .error _ r => { m with reporter := r, phase := .panicked }
    | _ => m
  | .done =>
    match m.phase with
    | .waiting => { m with phase := .returned }
    | _ => m

/-- `newTPSCounter` and the start of `start`. -/
def startMachine (reportPeriod : ℤ) : Machine := ⟨⟨0, 0, reportPeriod⟩, ⟨0, 0, [], []⟩, .waiting⟩

/-! ## What was counted -/

/-- The machine under observation: how many successes and failures were counted so far, up to the
loads of the present tick, and up to those of the tick reported last. -/
structure Observed where
  machine : Machine
  successes : ℕ
  failures : ℕ
  loadedSuccesses : ℕ
  loadedFailures : ℕ
  reportedSuccesses : ℕ
  reportedFailures : ℕ

/-- One step, observed. -/
def observe (o : Observed) (a : Action) : Observed :=
  let o' := { o with machine := o.machine.step a }
  match a, o.machine.phase with
  | .deliverTx code, _ =>
    if code ≠ 0 then { o' with failures := o.failures + 1 }
    else { o' with successes := o.successes + 1 }
  | .loadSuccessful, .waiting => { o' with loadedSuccesses := o.successes }
  | .loadFailed, .loadedSuccessful _ => { o' with loadedFailures := o.failures }
  | .report, .loaded _ _ =>
    { o' with reportedSuccesses := o.loadedSuccesses, reportedFailures := o.loadedFailures }
  | _, _ => o'

/-- Nothing has been counted when the goroutine starts. -/
def startObserved (reportPeriod : ℤ) : Observed := ⟨startMachine reportPeriod, 0, 0, 0, 0, 0, 0⟩

/-- The sum of what is recorded under a status. -/
def recordedUnder (status : String) (r : Reporter) : ℤ :=
  ((r.recorded.filter (·.status = status)).map (·.value)).sum

/-- The transactions of the period that ends with the present tick. -/
def Observed.periodTxs (o : Observed) : ℕ :=
  (o.loadedSuccesses - o.reportedSuccesses) + (o.loadedFailures - o.reportedFailures)

/-- Both counters stay below `2^63`. -/
def StaysBelow (o : Observed) (a : Action) : Prop :=
  (observe o a).machine.tpc.nSuccessful.toNat < 2 ^ 63 ∧
    (observe o a).machine.tpc.nFailed.toNat < 2 ^ 63

/-- The step completes a tick. -/
def Completes (o : Observed) (a : Action) : Prop :=
  a = .report ∧ ∃ latestNSuccessful latestNFailed,
    o.machine.phase = .loaded latestNSuccessful latestNFailed

/-- After a tick the sums of what was recorded are what was counted up to its loads, and what it
logged, if there were any, are the transactions of the period by its length. -/
def TickExact (o : Observed) (a : Action) : Prop :=
  Completes o a →
    recordedUnder "OK" (observe o a).machine.reporter = o.loadedSuccesses ∧
    recordedUnder "ERR" (observe o a).machine.reporter = o.loadedFailures ∧
    (observe o a).machine.reporter.logged = o.machine.reporter.logged ++
      if o.periodTxs = 0 then []
      else [(o.periodTxs : ℚ) / (o.machine.tpc.tpsReportPeriod / second : ℚ)]

/-- At a tick as many successes as failures have been counted, and the period's transactions fit
into an `int64`. -/
def Balanced (o : Observed) (a : Action) : Prop :=
  Completes o a → o.loadedSuccesses = o.loadedFailures ∧ o.periodTxs < 2 ^ 63

/-! ## One report -/

section Report

variable {latest previous : UInt64} {r r' : Reporter} {α : Type} {a : α}
  {x : Exec GoError Reporter α}

/-- An integer in the range of `int64` converts to itself. -/
private theorem bmod_of_lt {n : ℤ} (hpos : 0 ≤ n) (hlt : n < 2 ^ 63) : Int.bmod n (2 ^ 64) = n := by
  apply Int.bmod_eq_of_le
  · omega
  · omega

/-- A counter below `2^63` that has not shrunk is recorded by its growth. -/
theorem recordValue_of_le (status : String) (hle : previous ≤ latest)
    (hlt : latest.toNat < 2 ^ 63) :
    recordValue latest previous status r = .ok (latest.toNat - previous.toNat : ℤ)
      (r.record ⟨statusValue status, latest.toNat - previous.toNat⟩) := by
  have hnat : previous.toNat ≤ latest.toNat := UInt64.le_iff_toNat_le.mp hle
  have hn : int64 (latest - previous) = latest.toNat - previous.toNat := by
    have hsub : ((latest - previous).toNat : ℤ) = latest.toNat - previous.toNat := by
      rw [UInt64.toNat_sub_of_le _ _ hle]
      omega
    exact (congrArg (Int.bmod · (2 ^ 64)) hsub).trans (bmod_of_lt (by omega) (by omega))
  have hcheck : checkValue (statusValue status) = true := by
    unfold statusValue
    split <;> decide
  rw [recordValue, if_neg (UInt64.not_lt.mpr hle), hn]
  have hpos : ¬ (latest.toNat - previous.toNat : ℤ) < 0 := by omega
  simp only [if_neg hpos]
  refine (Exec.failIf_bind ..).trans ?_
  refine (if_neg (not_not_intro hcheck)).trans ?_
  rfl

theorem recordValue_of_lt {status : String} (hlt : latest < previous) :
    recordValue latest previous status r = .ok 0 r := by
  rw [recordValue, if_pos hlt]
  rfl

theorem orPanicWith_of_ok (h : x r = .ok a r') : orPanicWith x r = .ok a r' := by
  refine (Exec.bind_of_ok (Exec.attempt_ok_iff.mpr (.inl ⟨a, rfl, h⟩))).trans ?_
  rfl

/-- What a report takes for the growth of the failures. -/
def countedFailures (latestNSuccessful lastNFailed : UInt64) : ℤ :=
  if latestNSuccessful < lastNFailed then 0 else latestNSuccessful.toNat - lastNFailed.toNat

theorem recordedUnder_record_self {status : String} {m : Measurement} (h : m.status = status) :
    recordedUnder status (r.record m) = recordedUnder status r + m.value := by
  simp [recordedUnder, Reporter.record, h]

theorem recordedUnder_record_of_ne {status : String} {m : Measurement} (h : m.status ≠ status) :
    recordedUnder status (r.record m) = recordedUnder status r := by
  simp [recordedUnder, Reporter.record, h]

theorem statusValue_success : statusValue statusSuccess = "OK" := by decide

theorem statusValue_failure : statusValue statusFailure = "ERR" := by decide

/-- Failures are recorded by what the report takes for their growth. -/
theorem recordValue_failure (latestNSuccessful previous : UInt64) (r : Reporter)
    (hlt : latestNSuccessful.toNat < 2 ^ 63) :
    ∃ r', recordValue latestNSuccessful previous statusFailure r =
        .ok (countedFailures latestNSuccessful previous) r' ∧
      recordedUnder "OK" r' = recordedUnder "OK" r ∧
      recordedUnder "ERR" r' =
        recordedUnder "ERR" r + countedFailures latestNSuccessful previous ∧
      r'.logged = r.logged := by
  unfold countedFailures
  split
  case isTrue hless => exact ⟨r, recordValue_of_lt hless, rfl, (add_zero _).symm, rfl⟩
  case isFalse hmore =>
    refine ⟨_, recordValue_of_le _ (UInt64.not_lt.mp hmore) hlt, ?_, ?_, rfl⟩
    · rw [statusValue_failure]
      exact recordedUnder_record_of_ne (by decide : "ERR" ≠ "OK")
    · exact recordedUnder_record_self statusValue_failure

/-- **What a report does**, as long as the counter of the successes has not shrunk. -/
theorem report_ok (period : ℤ) {latestNSuccessful : UInt64} (latestNFailed : UInt64)
    (hle : r.lastNSuccessful ≤ latestNSuccessful) (hlt : latestNSuccessful.toNat < 2 ^ 63) :
    ∃ r', report period latestNSuccessful latestNFailed r = .ok () r' ∧
      r'.lastNSuccessful = latestNSuccessful ∧ r'.lastNFailed = latestNFailed ∧
      recordedUnder "OK" r' = recordedUnder "OK" r +
        (latestNSuccessful.toNat - r.lastNSuccessful.toNat) ∧
      recordedUnder "ERR" r' =
        recordedUnder "ERR" r + countedFailures latestNSuccessful r.lastNFailed ∧
      r'.logged = r.logged ++
        let nTxn := addInt64 (latestNSuccessful.toNat - r.lastNSuccessful.toNat)
          (countedFailures latestNSuccessful r.lastNFailed)
        if nTxn = 0 then [] else [(nTxn : ℚ) / (period / second : ℚ)] := by
  -- the record of the successes
  have hsuccess := orPanicWith_of_ok (recordValue_of_le (r := r) statusSuccess hle hlt)
  rw [statusValue_success] at hsuccess
  generalize hr₁ : r.record ⟨"OK", _⟩ = r₁ at hsuccess
  have hok₁ : recordedUnder "OK" r₁ = recordedUnder "OK" r +
      (latestNSuccessful.toNat - r.lastNSuccessful.toNat) :=
    hr₁ ▸ recordedUnder_record_self rfl
  have herr₁ : recordedUnder "ERR" r₁ = recordedUnder "ERR" r :=
    hr₁ ▸ recordedUnder_record_of_ne (by decide : "OK" ≠ "ERR")
  have hlogged₁ : r₁.logged = r.logged := hr₁ ▸ rfl
  -- the record of the failures
  obtain ⟨r₂, hfailure, hok, herr, hlogged⟩ :=
    recordValue_failure latestNSuccessful r.lastNFailed r₁ hlt
  rw [hok₁] at hok
  rw [herr₁] at herr
  rw [hlogged₁] at hlogged
  generalize hn : addInt64 (latestNSuccessful.toNat - r.lastNSuccessful.toNat)
    (countedFailures latestNSuccessful r.lastNFailed) = nTxn
  have hrun : report period latestNSuccessful latestNFailed r =
      (do
        if nTxn ≠ 0 then
          modify fun r => { r with logged := r.logged ++ [(nTxn : ℚ) / (period / second : ℚ)] }
        modify fun r =>
          { r with lastNFailed := latestNFailed, lastNSuccessful := latestNSuccessful } :
        Exec GoError Reporter Unit) r₂ := by
    refine (Exec.get_bind _ _).trans ?_
    refine (Exec.bind_of_ok hsuccess).trans ?_
    refine (Exec.bind_of_ok (orPanicWith_of_ok hfailure)).trans ?_
    rw [hn]
  rw [hrun]
  by_cases hzero : nTxn = 0
  · rw [if_neg (not_not_intro hzero)]
    refine ⟨_, rfl, rfl, rfl, hok, herr, ?_⟩
    simp only [if_pos hzero, List.append_nil]
    exact hlogged
  · rw [if_pos hzero]
    refine ⟨_, rfl, rfl, rfl, hok, herr, ?_⟩
    simp only [if_neg hzero]
    exact congrArg (· ++ _) hlogged

end Report

/-! ## The machine and what was counted -/

/-- What the goroutine has loaded is what was counted up to its loads. -/
def LoadsAgree (o : Observed) : Prop :=
  match o.machine.phase with
  | .loadedSuccessful latestNSuccessful =>
    latestNSuccessful.toNat = o.loadedSuccesses ∧
      o.reportedSuccesses ≤ o.loadedSuccesses ∧ o.loadedSuccesses ≤ o.successes
  | .loaded latestNSuccessful latestNFailed =>
    latestNSuccessful.toNat = o.loadedSuccesses ∧ latestNFailed.toNat = o.loadedFailures ∧
      o.reportedSuccesses ≤ o.loadedSuccesses ∧ o.loadedSuccesses ≤ o.successes ∧
      o.reportedFailures ≤ o.loadedFailures ∧ o.loadedFailures ≤ o.failures
  | _ => True

/-- The machine holds what was counted, and the reporter what was reported of it. The sum under
OK is right in every run. -/
structure Tracks (o : Observed) : Prop where
  successes : o.machine.tpc.nSuccessful.toNat = o.successes
  failures : o.machine.tpc.nFailed.toNat = o.failures
  successes_lt : o.successes < 2 ^ 63
  failures_lt : o.failures < 2 ^ 63
  lastSuccessful : o.machine.reporter.lastNSuccessful.toNat = o.reportedSuccesses
  lastFailed : o.machine.reporter.lastNFailed.toNat = o.reportedFailures
  reportedSuccesses_le : o.reportedSuccesses ≤ o.successes
  reportedFailures_le : o.reportedFailures ≤ o.failures
  loads : LoadsAgree o
  recordedOk : recordedUnder "OK" o.machine.reporter = o.reportedSuccesses

variable {o : Observed} {a : Action} {latestNSuccessful latestNFailed : UInt64}

/-- What a report takes for the growth of the failures, of what was counted. -/
def Observed.countedFailures (o : Observed) : ℤ :=
  if o.loadedSuccesses < o.reportedFailures then 0 else o.loadedSuccesses - o.reportedFailures

/-- **The report, observed.** -/
theorem observe_report (h : Tracks o)
    (hphase : o.machine.phase = .loaded latestNSuccessful latestNFailed) :
    ∃ r', observe o .report = { o with
        machine := ⟨o.machine.tpc, r', .waiting⟩
        reportedSuccesses := o.loadedSuccesses
        reportedFailures := o.loadedFailures } ∧
      r'.lastNSuccessful.toNat = o.loadedSuccesses ∧ r'.lastNFailed.toNat = o.loadedFailures ∧
      recordedUnder "OK" r' = o.loadedSuccesses ∧
      recordedUnder "ERR" r' =
        recordedUnder "ERR" o.machine.reporter + o.countedFailures ∧
      r'.logged = o.machine.reporter.logged ++
        let nTxn := addInt64 (o.loadedSuccesses - o.reportedSuccesses) o.countedFailures
        if nTxn = 0 then [] else [(nTxn : ℚ) / (o.machine.tpc.tpsReportPeriod / second : ℚ)] := by
  have hloads := h.loads
  rw [LoadsAgree, hphase] at hloads
  obtain ⟨hs, hf, hles, hsle, hlef, hfle⟩ := hloads
  -- the counter of the successes has not shrunk since the last tick
  have hle : o.machine.reporter.lastNSuccessful ≤ latestNSuccessful := by
    rw [UInt64.le_iff_toNat_le, h.lastSuccessful, hs]
    exact hles
  have hlt : latestNSuccessful.toNat < 2 ^ 63 := by
    rw [hs]
    exact lt_of_le_of_lt hsle h.successes_lt
  obtain ⟨r', hrun, hlastS, hlastF, hok, herr, hlogged⟩ := report_ok
    o.machine.tpc.tpsReportPeriod latestNFailed hle hlt
  have hcounted : App.countedFailures latestNSuccessful o.machine.reporter.lastNFailed =
      o.countedFailures := by
    simp only [App.countedFailures, Observed.countedFailures, UInt64.lt_iff_toNat_lt, hs,
      h.lastFailed]
  -- in terms of what was counted, the OK record completes the sum of those before it
  rw [hs, h.lastSuccessful, h.recordedOk] at hok
  rw [hcounted] at herr
  rw [hcounted, hs, h.lastSuccessful] at hlogged
  refine ⟨r', ?_, ?_, ?_, ?_, herr, hlogged⟩
  · simp only [observe, Machine.step, hphase, hrun]
  · rw [hlastS, hs]
  · rw [hlastF, hf]
  · rw [hok]
    omega

/-- A counter below `2^63` counts one more. -/
private theorem toNat_add_one {n : UInt64} (h : n.toNat < 2 ^ 63) :
    (n + 1).toNat = n.toNat + 1 := by
  rw [UInt64.toNat_add]
  have hone : (1 : UInt64).toNat = 1 := rfl
  omega

/-- A step of the goroutine that only loads needs to keep what was loaded right. -/
private theorem Tracks.load (h : Tracks o) (phase : Phase) (loadedSuccesses loadedFailures : ℕ)
    (hloads : LoadsAgree
      { o with machine := { o.machine with phase }, loadedSuccesses, loadedFailures }) :
    Tracks { o with machine := { o.machine with phase }, loadedSuccesses, loadedFailures } :=
  ⟨h.successes, h.failures, h.successes_lt, h.failures_lt, h.lastSuccessful, h.lastFailed,
    h.reportedSuccesses_le, h.reportedFailures_le, hloads, h.recordedOk⟩

/-- What is counted after the loads does not touch them. -/
private theorem LoadsAgree.count (h : LoadsAgree o) (tpc : TpsCounter) {successes failures : ℕ}
    (hs : o.successes ≤ successes) (hf : o.failures ≤ failures) :
    LoadsAgree { o with machine := { o.machine with tpc }, successes, failures } := by
  unfold LoadsAgree at h ⊢
  cases hphase : o.machine.phase with
  | loadedSuccessful n =>
    rw [hphase] at h
    obtain ⟨hn, hles, hsle⟩ := h
    exact ⟨hn, hles, hsle.trans hs⟩
  | loaded n m =>
    rw [hphase] at h
    obtain ⟨hn, hm, hles, hsle, hlef, hfle⟩ := h
    exact ⟨hn, hm, hles, hsle.trans hs, hlef, hfle.trans hf⟩
  | waiting => trivial
  | returned => trivial
  | panicked => trivial

/-- **Step lemma.** Every step keeps the machine in accord with what was counted. -/
theorem tracks_observe (h : Tracks o) (hbelow : StaysBelow o a) : Tracks (observe o a) := by
  have hloads := h.loads
  cases a with
  | deliverTx code =>
    obtain ⟨hbelowS, hbelowF⟩ := hbelow
    by_cases hcode : code = 0
    · -- a success: nothing that was loaded or reported before has changed
      have hcount : (o.machine.tpc.nSuccessful + 1).toNat = o.successes + 1 := by
        rw [toNat_add_one (h.successes ▸ h.successes_lt), h.successes]
      simp only [observe, Machine.step, TpsCounter.deliverTx, TpsCounter.incrementSuccess, hcode,
        ne_eq, not_true_eq_false, if_false] at hbelowS ⊢
      exact ⟨hcount, h.failures, hcount ▸ hbelowS, h.failures_lt, h.lastSuccessful, h.lastFailed,
        Nat.le_succ_of_le h.reportedSuccesses_le, h.reportedFailures_le,
        hloads.count _ (Nat.le_succ _) le_rfl, h.recordedOk⟩
    · -- a failure, in the same way
      have hcount : (o.machine.tpc.nFailed + 1).toNat = o.failures + 1 := by
        rw [toNat_add_one (h.failures ▸ h.failures_lt), h.failures]
      simp only [observe, Machine.step, TpsCounter.deliverTx, TpsCounter.incrementFailure, hcode,
        ne_eq, not_false_eq_true, if_true] at hbelowF ⊢
      exact ⟨h.successes, hcount, h.successes_lt, hcount ▸ hbelowF, h.lastSuccessful,
        h.lastFailed, h.reportedSuccesses_le, Nat.le_succ_of_le h.reportedFailures_le,
        hloads.count _ le_rfl (Nat.le_succ _), h.recordedOk⟩
  | loadSuccessful =>
    cases hphase : o.machine.phase with
    | waiting =>
      -- all that was reported had been counted when the first counter is loaded
      simp only [observe, Machine.step, hphase]
      exact h.load (.loadedSuccessful _) o.successes o.loadedFailures
        ⟨h.successes, h.reportedSuccesses_le, le_rfl⟩
    | _ =>
      -- not the next step of the goroutine, so nothing changes
      simp only [observe, Machine.step, hphase]
      exact h
  | loadFailed =>
    cases hphase : o.machine.phase with
    | loadedSuccessful n =>
      rw [LoadsAgree, hphase] at hloads
      obtain ⟨hs, hles, hsle⟩ := hloads
      simp only [observe, Machine.step, hphase]
      exact h.load (.loaded n _) o.loadedSuccesses o.failures
        ⟨hs, h.failures, hles, hsle, h.reportedFailures_le, le_rfl⟩
    | _ =>
      simp only [observe, Machine.step, hphase]
      exact h
  | report =>
    cases hphase : o.machine.phase with
    | loaded n m =>
      rw [LoadsAgree, hphase] at hloads
      obtain ⟨-, -, -, hsle, -, hfle⟩ := hloads
      -- the loads of this tick become those of the tick reported last
      obtain ⟨r', hnext, hlastS, hlastF, hok, -⟩ := observe_report h hphase
      rw [hnext]
      exact ⟨h.successes, h.failures, h.successes_lt, h.failures_lt, hlastS, hlastF, hsle, hfle,
        trivial, hok⟩
    | _ =>
      simp only [observe, Machine.step, hphase]
      exact h
  | done =>
    cases hphase : o.machine.phase with
    | waiting =>
      simp only [observe, Machine.step, hphase]
      exact h.load .returned o.loadedSuccesses o.loadedFailures trivial
    | _ =>
      simp only [observe, Machine.step, hphase]
      exact h

/-! ## Ticks that are exact -/

/-- At the last tick the sum under ERR was right, and the counts were equal. -/
def Settled (o : Observed) : Prop :=
  recordedUnder "ERR" o.machine.reporter = o.reportedFailures ∧
    o.reportedSuccesses = o.reportedFailures

/-- What a report takes for the growth of the failures leads to their number exactly if the counts
are equal. -/
theorem countedFailures_eq_iff (hles : o.reportedSuccesses ≤ o.loadedSuccesses)
    (hequal : o.reportedSuccesses = o.reportedFailures) :
    o.reportedFailures + o.countedFailures = o.loadedFailures ↔
      o.loadedSuccesses = o.loadedFailures := by
  have hmore : ¬ o.loadedSuccesses < o.reportedFailures := by omega
  rw [Observed.countedFailures, if_neg hmore]
  omega

theorem tpsReportPeriod_pos (tpc : TpsCounter) : 0 < tpc.tpsReportPeriod := by
  unfold TpsCounter.tpsReportPeriod
  split
  case isTrue hpos => exact hpos
  case isFalse => decide

/-- The line that is logged for a number of transactions. -/
def logLine (nTxn : ℤ) (period : ℤ) : List ℚ :=
  if nTxn = 0 then [] else [(nTxn : ℚ) / (period / second : ℚ)]

/-- The logged line is that of the period's transactions exactly if they fit into an `int64`. -/
theorem logLine_addInt64_iff {n m : ℕ} {period : ℤ} (hpos : 0 < period) (hn : n < 2 ^ 63)
    (hm : m < 2 ^ 63) :
    logLine (addInt64 n m) period = logLine ↑(n + m) period ↔ n + m < 2 ^ 63 := by
  -- the rate determines the count, because the period is not zero
  have hsecs : (period / second : ℚ) ≠ 0 := by
    have hperiod : (period : ℚ) ≠ 0 := Int.cast_ne_zero.mpr (by omega)
    have hsecond : (second : ℚ) ≠ 0 := Int.cast_ne_zero.mpr (by decide)
    exact div_ne_zero hperiod hsecond
  by_cases hfits : n + m < 2 ^ 63
  · have hadd : addInt64 n m = ↑(n + m) := bmod_of_lt (by omega) (by omega)
    exact iff_of_true (by rw [hadd]) hfits
  · -- the sum wraps around and is negative
    have hwrap : addInt64 n m = ↑n + ↑m - 2 ^ 64 := by
      have hbmod : Int.bmod (↑n + ↑m - ↑(2 ^ 64 : ℕ)) (2 ^ 64) = ↑n + ↑m - 2 ^ 64 :=
        Int.bmod_eq_of_le (by omega) (by omega)
      rw [Int.sub_bmod_right] at hbmod
      exact hbmod
    refine iff_of_false ?_ hfits
    unfold logLine
    rw [if_neg (by omega), if_neg (by omega)]
    intro heq
    have hcast := (div_left_inj' hsecs).mp (List.cons.inj heq).1
    have hsame : addInt64 n m = ↑(n + m) := Int.cast_injective hcast
    omega

/-- What a tick logs when the counts were equal before it and are equal at it. -/
theorem logged_iff (h : Tracks o) (hles : o.reportedSuccesses ≤ o.loadedSuccesses)
    (hsle : o.loadedSuccesses ≤ o.successes)
    (hequal : o.reportedSuccesses = o.reportedFailures)
    (hbalanced : o.loadedSuccesses = o.loadedFailures) :
    logLine (addInt64 (o.loadedSuccesses - o.reportedSuccesses) o.countedFailures)
        o.machine.tpc.tpsReportPeriod =
      logLine o.periodTxs o.machine.tpc.tpsReportPeriod ↔ o.periodTxs < 2 ^ 63 := by
  have hgrowth := (countedFailures_eq_iff hles hequal).mpr hbalanced
  have hs : (o.loadedSuccesses - o.reportedSuccesses : ℤ) =
      ↑(o.loadedSuccesses - o.reportedSuccesses) := by omega
  have hf : o.countedFailures = ↑(o.loadedFailures - o.reportedFailures) := by omega
  have hlt := h.successes_lt
  rw [hs, hf]
  apply logLine_addInt64_iff (tpsReportPeriod_pos _)
  · omega
  · omega

/-- A tick is exact exactly if it is balanced, when those before it were. -/
theorem tickExact_iff (h : Tracks o) (hsettled : Settled o) : TickExact o a ↔ Balanced o a := by
  obtain ⟨hrecorded, hequal⟩ := hsettled
  apply forall_congr'
  rintro ⟨rfl, n, m, hphase⟩
  have hloads := h.loads
  rw [LoadsAgree, hphase] at hloads
  obtain ⟨-, -, hles, hsle, -, -⟩ := hloads
  -- the sum under OK is right at any tick, so the other two parts decide
  obtain ⟨r', hnext, -, -, hok, herr, hlogged⟩ := observe_report h hphase
  have hline : (if o.periodTxs = 0 then []
      else [(o.periodTxs : ℚ) / (o.machine.tpc.tpsReportPeriod / second : ℚ)]) =
        logLine o.periodTxs o.machine.tpc.tpsReportPeriod := by
    simp only [logLine, Int.natCast_eq_zero, Int.cast_natCast]
  have hlogged' : r'.logged = o.machine.reporter.logged ++
      logLine (addInt64 (o.loadedSuccesses - o.reportedSuccesses) o.countedFailures)
        o.machine.tpc.tpsReportPeriod := hlogged
  rw [hnext]
  show recordedUnder "OK" r' = _ ∧ recordedUnder "ERR" r' = _ ∧ r'.logged = _ ++ _ ↔ _
  rw [hline, herr, hrecorded, countedFailures_eq_iff hles hequal, hlogged',
    List.append_cancel_left_eq, and_iff_right hok]
  apply and_congr_right
  intro hbalanced
  exact logged_iff h hles hsle hequal hbalanced

/-- A balanced tick leaves the sum under ERR right, and nothing but a tick changes it. -/
theorem settled_observe (h : Tracks o) (hsettled : Settled o) (hbalanced : Balanced o a) :
    Settled (observe o a) := by
  cases a with
  | report =>
    cases hphase : o.machine.phase with
    | loaded n m =>
      have hloads := h.loads
      rw [LoadsAgree, hphase] at hloads
      obtain ⟨-, -, hles, -, -, -⟩ := hloads
      obtain ⟨r', hnext, -, -, -, herr, -⟩ := observe_report h hphase
      -- the counts are equal, so what was recorded under ERR is the growth of the failures
      obtain ⟨hcounts, -⟩ := hbalanced ⟨rfl, n, m, hphase⟩
      have hgrowth := (countedFailures_eq_iff hles hsettled.2).mpr hcounts
      rw [hnext]
      refine ⟨?_, hcounts⟩
      show recordedUnder "ERR" r' = o.loadedFailures
      rw [herr, hsettled.1, hgrowth]
    | _ =>
      simp only [observe, Machine.step, hphase]
      exact hsettled
  | deliverTx code =>
    simp only [observe, Machine.step]
    split
    · exact hsettled
    · exact hsettled
  | _ =>
    cases hphase : o.machine.phase with
    | _ =>
      simp only [observe, Machine.step, hphase]
      exact hsettled

theorem tracks_startObserved (period : ℤ) : Tracks (startObserved period) :=
  ⟨rfl, rfl, Nat.two_pow_pos 63, Nat.two_pow_pos 63, rfl, rfl, le_rfl, le_rfl, trivial, rfl⟩

/-- **In every run what is recorded under OK is what was counted up to the tick reported last.** -/
theorem recordedOk_run (period : ℤ) (acts : List Action)
    (hbelow : Along observe StaysBelow (startObserved period) acts) :
    recordedUnder "OK" (run observe (startObserved period) acts).machine.reporter =
      (run observe (startObserved period) acts).reportedSuccesses :=
  (run_preserves (fun _ _ => tracks_observe) (tracks_startObserved period) hbelow).recordedOk

/-- **The ticks of a run are all exact exactly if they are all balanced.** -/
theorem ticksExact_iff (period : ℤ) (acts : List Action)
    (hbelow : Along observe StaysBelow (startObserved period) acts) :
    Along observe TickExact (startObserved period) acts ↔
      Along observe Balanced (startObserved period) acts := by
  apply along_congr (P := fun o => Tracks o ∧ Settled o) (B := StaysBelow)
  · intro o a h _
    exact tickExact_iff h.1 h.2
  · intro o a h hstays hbalanced
    exact ⟨tracks_observe h.1 hstays, settled_observe h.1 h.2 hbalanced⟩
  · exact ⟨tracks_startObserved period, rfl, rfl⟩
  · exact hbelow

/-- One success and one failure between two loads and the report. -/
def balancedRun : List Action :=
  [.deliverTx 0, .deliverTx 5, .loadSuccessful, .loadFailed, .report]

theorem ticksExact_balancedRun : Along observe TickExact (startObserved 0) balancedRun := by
  apply (ticksExact_iff 0 balancedRun ?below).mpr
  case below =>
    refine ⟨⟨?_, ?_⟩, ⟨?_, ?_⟩, ⟨?_, ?_⟩, ⟨?_, ?_⟩, ⟨?_, ?_⟩, trivial⟩
    all_goals decide +kernel
  refine ⟨?_, ?_, ?_, ?_, fun _ => ⟨?_, ?_⟩, trivial⟩
  iterate 4 exact fun ⟨h, _⟩ => by cases h
  all_goals decide +kernel

/-- One success before a tick. -/
def lonelySuccess : List Action := [.deliverTx 0, .loadSuccessful, .loadFailed, .report]

/-- **The tick records a failure where there was none.** -/
theorem lonelySuccess_notExact :
    Along observe StaysBelow (startObserved 0) lonelySuccess ∧
      ¬ Along observe TickExact (startObserved 0) lonelySuccess := by
  constructor
  · refine ⟨⟨?_, ?_⟩, ⟨?_, ?_⟩, ⟨?_, ?_⟩, ⟨?_, ?_⟩, trivial⟩
    all_goals decide +kernel
  · rintro ⟨-, -, -, hexact, -⟩
    obtain ⟨-, herr, -⟩ := hexact ⟨rfl, 1, 0, rfl⟩
    revert herr
    decide +kernel

end GenesisEthermint.App
