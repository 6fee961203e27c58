import Mathlib.Data.Finset.Dedup
import Mathlib.Data.List.Basic

/-!
# Interleaved Runs

Several parties run side by side, and one log holds entries of all of them and of strangers.
Each party's own steps are known in their order, and so is which of them it reported. This file
puts the runs back together: there is one run of all the parties that has each party's steps in
its order and leaves the log entry by entry.
-/

namespace GenesisEthermint.Foundation

/-- One moment of the common run: an entry that no party's step left, or a step of the party
`a` with the entry it left, if it left one. -/
inductive Happening (α β δ : Type) where
  | outside (entry : δ)
  | step (a : α) (b : β) (entry : Option δ)

namespace Happening

variable {α β γ δ : Type} [DecidableEq α]

/-- The entry left in the log. -/
def entry : Happening α β δ → Option δ
  | outside e => some e
  | step _ _ e => e

/-- The step, if it is one of the party `a`. -/
def stepOf (a : α) : Happening α β δ → Option β
  | outside _ => none
  | step a' b _ => if a' = a then some b else none

/-- The steps of the party `a`, in order. -/
def stepsOf (a : α) (hs : List (Happening α β δ)) : List β := hs.filterMap (stepOf a)

/-- What the log says about the party `a`, when `read` tells who left an entry and what it
says. -/
def reportsOf (read : δ → Option (α × γ)) (a : α) (log : List δ) : List γ :=
  log.filterMap fun d => (read d).bind fun x => if x.1 = a then some x.2 else none

/-- The happening is what the log makes of it: an outside entry is of no party in `S`, and the
entry of a step says what the step reports. -/
def Fits (S : Finset α) (report : β → Option γ) (read : δ → Option (α × γ)) :
    Happening α β δ → Prop
  | outside d => ∀ x, read d = some x → x.1 ∉ S
  | step a b e => a ∈ S ∧ e.bind read = (report b).map (a, ·)

section StepsOf

variable {a : α} {h : Happening α β δ} {hs hs' : List (Happening α β δ)}

@[simp] theorem stepsOf_nil : stepsOf a ([] : List (Happening α β δ)) = [] := rfl

@[simp] theorem stepsOf_outside (d : δ) : stepsOf a (outside d :: hs) = stepsOf a hs := rfl

@[simp] theorem stepsOf_step_self (b : β) (e : Option δ) :
    stepsOf a (step a b e :: hs) = b :: stepsOf a hs := by
  simp [stepsOf, stepOf]

theorem stepsOf_step_of_ne {a' : α} (b : β) (e : Option δ) (ha : a' ≠ a) :
    stepsOf a (step a' b e :: hs) = stepsOf a hs := by
  simp [stepsOf, stepOf, ha]

theorem stepsOf_append : stepsOf a (hs ++ hs') = stepsOf a hs ++ stepsOf a hs' :=
  List.filterMap_append

/-- Steps of one party that leave no entry. -/
theorem stepsOf_silent (a' : α) (bs : List β) :
    stepsOf a (bs.map fun b => (step a' b none : Happening α β δ)) =
      if a' = a then bs else [] := by
  induction bs with
  | nil => simp
  | cons b bs ih =>
    rw [List.map_cons]
    by_cases ha : a' = a
    · subst ha
      rw [stepsOf_step_self, ih, if_pos rfl, if_pos rfl]
    · rw [stepsOf_step_of_ne b none ha, ih, if_neg ha, if_neg ha]

omit [DecidableEq α] in
theorem entries_silent (a : α) (bs : List β) :
    (bs.map fun b => (step a b none : Happening α β δ)).filterMap entry = [] := by
  induction bs with
  | nil => rfl
  | cons b bs ih => exact ih

end StepsOf

variable {S : Finset α} (report : β → Option γ) (read : δ → Option (α × γ))

omit [DecidableEq α] in
/-- Steps that report nothing need no entry. -/
private theorem fits_silent {a : α} {bs : List β} (ha : a ∈ S) (hbs : ∀ b ∈ bs, report b = none) :
    ∀ h ∈ bs.map (fun b => (step a b none : Happening α β δ)), h.Fits S report read := by
  intro h hh
  obtain ⟨b, hb, rfl⟩ := List.mem_map.mp hh
  exact ⟨ha, by rw [hbs b hb]; rfl⟩

/-- When nothing is left to report, the parties finish one after the other. -/
private theorem exists_silent (l : List α) (hl : l.Nodup) (steps : α → List β)
    (hin : ∀ a ∈ l, a ∈ S) (hsilent : ∀ a ∈ l, ∀ b ∈ steps a, report b = none) :
    ∃ hs : List (Happening α β δ), hs.filterMap entry = [] ∧
      (∀ a, stepsOf a hs = if a ∈ l then steps a else []) ∧
      ∀ h ∈ hs, h.Fits S report read := by
  -- on the parties; each appends its steps, none with an entry of its own
  induction l with
  | nil => exact ⟨[], rfl, fun a => by simp, fun _ h => (List.not_mem_nil h).elim⟩
  | cons a l ih =>
    obtain ⟨hal, hl⟩ := List.nodup_cons.mp hl
    obtain ⟨hs, hentries, hsteps, hfits⟩ := ih hl (fun x hx => hin x (List.mem_cons_of_mem _ hx))
      fun x hx => hsilent x (List.mem_cons_of_mem _ hx)
    refine ⟨(steps a).map (fun b => step a b none) ++ hs, ?_, fun x => ?_, fun h hh => ?_⟩
    · rw [List.filterMap_append, entries_silent, hentries]
      rfl
    · rw [stepsOf_append, stepsOf_silent, hsteps]
      by_cases hx : a = x
      · subst hx
        simp [hal]
      · simp [hx, Ne.symm hx]
    · rcases List.mem_append.mp hh with hh | hh
      · exact fits_silent report read (hin a (List.mem_cons_self ..))
          (hsilent a (List.mem_cons_self ..)) h hh
      · exact hfits h hh

/-- **The runs interleave.** If the log tells of each party exactly what its steps report, then
some common run has each party's steps in its order, leaves the log, and fits. -/
theorem exists_interleaving (log : List δ) (steps : α → List β)
    (hlog : ∀ a ∈ S, (steps a).filterMap report = reportsOf read a log) :
    ∃ hs : List (Happening α β δ), hs.filterMap entry = log ∧
      (∀ a ∈ S, stepsOf a hs = steps a) ∧ ∀ h ∈ hs, h.Fits S report read := by
  induction log generalizing steps with
  | nil =>
    -- no entries are left, so the steps that are left report nothing
    obtain ⟨hs, hentries, hsteps, hfits⟩ := exists_silent report read
      S.toList S.nodup_toList steps (fun a => Finset.mem_toList.mp) fun a ha =>
        List.filterMap_eq_nil_iff.mp (hlog a (Finset.mem_toList.mp ha))
    refine ⟨hs, hentries, fun a ha => ?_, hfits⟩
    rw [hsteps, if_pos (Finset.mem_toList.mpr ha)]
  | cons d log ih =>
    by_cases hd : ∀ x, read d = some x → x.1 ∉ S
    · -- nobody's entry
      have hrest : ∀ a ∈ S, (steps a).filterMap report = reportsOf read a log := by
        intro a ha
        rw [hlog a ha, reportsOf, reportsOf, List.filterMap_cons]
        cases hread : read d with
        | none => rfl
        | some x =>
          have hne : x.1 ≠ a := by
            rintro rfl
            exact hd x hread ha
          simp [hne]
      obtain ⟨hs, hentries, hsteps, hfits⟩ := ih steps hrest
      refine ⟨outside d :: hs, ?_, hsteps, fun h hh => ?_⟩
      · rw [List.filterMap_cons, entry, hentries]
      · rcases List.mem_cons.mp hh with rfl | hh
        · exact hd
        · exact hfits h hh
    · -- an entry of the party `a`: its silent steps come first, then the one it reports
      simp only [not_forall, not_not] at hd
      obtain ⟨⟨a, c⟩, hread, ha⟩ := hd
      have hhead : (steps a).filterMap report = c :: reportsOf read a log := by
        rw [hlog a ha, reportsOf, List.filterMap_cons, hread]
        simp [reportsOf]
      obtain ⟨before, b, after, hsplit, hbefore, hb, hafter⟩ :=
        List.filterMap_eq_cons_iff.mp hhead
      -- the other parties are not in this entry, and `a` goes on after the step it reports
      have hrest : ∀ x ∈ S, (Function.update steps a after x).filterMap report =
          reportsOf read x log := by
        intro x hx
        by_cases hxa : x = a
        · subst hxa
          rw [Function.update_self, hafter]
        · rw [Function.update_of_ne hxa, hlog x hx, reportsOf, reportsOf, List.filterMap_cons,
            hread]
          simp [Ne.symm hxa]
      obtain ⟨hs, hentries, hsteps, hfits⟩ := ih (Function.update steps a after) hrest
      refine ⟨before.map (fun b => step a b none) ++ step a b (some d) :: hs, ?_, fun x hx => ?_,
        fun h hh => ?_⟩
      · rw [List.filterMap_append, entries_silent, List.filterMap_cons, entry, hentries]
        rfl
      · rw [stepsOf_append, stepsOf_silent]
        by_cases hxa : a = x
        · subst hxa
          rw [if_pos rfl, stepsOf_step_self, hsteps a hx, Function.update_self, hsplit]
        · rw [if_neg hxa, stepsOf_step_of_ne b _ hxa, hsteps x hx,
            Function.update_of_ne (Ne.symm hxa)]
          rfl
      · rcases List.mem_append.mp hh with hh | hh
        · exact fits_silent report read ha hbefore h hh
        · rcases List.mem_cons.mp hh with rfl | hh
          · exact ⟨ha, by rw [Option.bind_some, hread, hb]; rfl⟩
          · exact hfits h hh

end Happening

end GenesisEthermint.Foundation
