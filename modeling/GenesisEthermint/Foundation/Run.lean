import Mathlib.Order.Defs.Unbundled

/-!
# Runs of a State Machine

A machine is a step function `step : σ → ι → σ`, and a run applies a list of operations in
order. Statements about every reachable state are proved once here, from what one step
preserves. The side condition a step may need is carried by `Along`: each operation of the
run meets it in the state it is applied to.
-/

namespace GenesisEthermint.Foundation

variable {σ ι : Type} (step : σ → ι → σ)

/-- The state after applying the operations in order. -/
def run (s : σ) (ops : List ι) : σ := ops.foldl step s

/-- Every operation of the run meets `C` in the state it is applied to. -/
def Along (C : σ → ι → Prop) : σ → List ι → Prop
  | _, [] => True
  | s, op :: ops => C s op ∧ Along C (step s op) ops

@[simp] theorem run_nil (s : σ) : run step s [] = s := rfl

@[simp] theorem run_cons (s : σ) (op : ι) (ops : List ι) :
    run step s (op :: ops) = run step (step s op) ops := rfl

theorem run_append (s : σ) (l r : List ι) :
    run step s (l ++ r) = run step (run step s l) r :=
  List.foldl_append

variable {step} {C D : σ → ι → Prop} {P : σ → Prop} {R : σ → σ → Prop}

theorem Along.mono (h : ∀ s op, C s op → D s op) {s : σ} {ops : List ι}
    (hs : Along step C s ops) : Along step D s ops := by
  induction ops generalizing s with
  | nil => trivial
  | cons op ops ih => exact ⟨h _ _ hs.1, ih hs.2⟩

theorem Along.and {s : σ} {ops : List ι} (hC : Along step C s ops) (hD : Along step D s ops) :
    Along step (fun s op => C s op ∧ D s op) s ops := by
  induction ops generalizing s with
  | nil => trivial
  | cons op ops ih => exact ⟨⟨hC.1, hD.1⟩, ih hC.2 hD.2⟩

/-- The condition along a run in two parts. -/
theorem along_append {s : σ} {l r : List ι} :
    Along step C s (l ++ r) ↔ Along step C s l ∧ Along step C (run step s l) r := by
  induction l generalizing s with
  | nil => exact ⟨fun h => ⟨trivial, h⟩, fun h => h.2⟩
  | cons op l ih =>
    show C s op ∧ Along step C (step s op) (l ++ r) ↔ _
    rw [ih, ← and_assoc]
    rfl

/-- A condition on the operations alone is checked once for each of them. -/
theorem along_of_mem {E : ι → Prop} {s : σ} {ops : List ι} (h : ∀ op ∈ ops, E op) :
    Along step (fun _ op => E op) s ops := by
  induction ops generalizing s with
  | nil => trivial
  | cons op ops ih =>
    exact ⟨h op (List.mem_cons_self ..), ih fun op' hop' => h op' (List.mem_cons_of_mem _ hop')⟩

/-- **Invariant rule.** What every step under the side condition preserves holds after the
whole run. -/
theorem run_preserves (hstep : ∀ s op, P s → C s op → P (step s op))
    {s : σ} {ops : List ι} (hs : P s) (ha : Along step C s ops) : P (run step s ops) := by
  induction ops generalizing s with
  | nil => exact hs
  | cons op ops ih => exact ih (hstep s op hs ha.1) ha.2

/-- **Equivalence rule.** Two conditions that an invariant makes equivalent at every step are
equivalent along the run, if the invariant is preserved where they hold. -/
theorem along_congr {B : σ → ι → Prop} (hiff : ∀ s op, P s → B s op → (C s op ↔ D s op))
    (hstep : ∀ s op, P s → B s op → D s op → P (step s op)) {s : σ} {ops : List ι} (hs : P s)
    (hB : Along step B s ops) : Along step C s ops ↔ Along step D s ops := by
  induction ops generalizing s with
  | nil => exact Iff.rfl
  | cons op ops ih =>
    show C s op ∧ Along step C (step s op) ops ↔ D s op ∧ Along step D (step s op) ops
    rw [hiff s op hs hB.1]
    exact and_congr_right fun hD => ih (hstep s op hs hB.1 hD) hB.2

/-- **Trace rule.** A preorder that relates the ends of every step relates the ends of the
run. -/
theorem run_related [Std.Refl R] [IsTrans σ R] (hstep : ∀ s op, C s op → R s (step s op))
    {s : σ} {ops : List ι} (ha : Along step C s ops) : R s (run step s ops) := by
  induction ops generalizing s with
  | nil => exact Std.Refl.refl s
  | cons op ops ih => exact Trans.trans (hstep s op ha.1) (ih ha.2)

end GenesisEthermint.Foundation
