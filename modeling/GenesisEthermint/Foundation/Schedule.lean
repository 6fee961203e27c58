import GenesisEthermint.Foundation.Store
import Mathlib.Data.List.Nodup
import Mathlib.Logic.Function.Basic

/-!
# Deadline Queues

A store can keep track of deadlines: an entry for each item under the key of its time and
itself, so that an iterator visits the items in the order they fall due. The queue is an index
of something else, a deadline `f i` for some of the items `i`, and `Lists q f` says that it is
the right index: every item with a deadline has its one entry, and there is no other.
-/

namespace GenesisEthermint.Foundation

/-- The key of a queue entry. -/
structure Slot (τ ι : Type) where
  time : τ
  item : ι
  deriving DecidableEq

namespace Slot

variable {τ ι : Type} [Ord τ] [Ord ι]

/-- Earlier times come first. -/
instance : Ord (Slot τ ι) := ⟨compareLex (compareOn Slot.time) (compareOn Slot.item)⟩

instance [Std.TransOrd τ] [Std.TransOrd ι] : Std.TransOrd (Slot τ ι) :=
  inferInstanceAs (Std.TransCmp (compareLex (compareOn Slot.time) (compareOn Slot.item)))

instance [Std.LawfulEqOrd τ] [Std.LawfulEqOrd ι] [Std.TransOrd τ] [Std.TransOrd ι] :
    Std.LawfulEqOrd (Slot τ ι) where
  eq_of_compare {a b} h := by
    have hlex : (compare a.time b.time).then (compare a.item b.item) = .eq := h
    rw [Ordering.then_eq_eq, Std.LawfulEqOrd.compare_eq_iff_eq,
      Std.LawfulEqOrd.compare_eq_iff_eq] at hlex
    cases a
    cases b
    simp_all

end Slot

/-- A queue of deadlines. -/
abbrev DeadlineQueue (τ ι : Type) [Ord τ] [Ord ι] := KVStore (Slot τ ι) ι

namespace DeadlineQueue

variable {τ ι : Type} [Ord τ] [Ord ι] [Std.TransOrd τ] [Std.TransOrd ι]

/-- Enter an item under a time. -/
def insert (q : DeadlineQueue τ ι) (i : ι) (t : τ) : DeadlineQueue τ ι := KVStore.set q ⟨t, i⟩ i

/-- Take out an item's entry under a time. -/
def remove (q : DeadlineQueue τ ι) (i : ι) (t : τ) : DeadlineQueue τ ι := KVStore.delete q ⟨t, i⟩

/-- The items due by a time, in the order of their entries. -/
def due [LE τ] [DecidableLE τ] (q : DeadlineQueue τ ι) (now : τ) : List ι :=
  ((KVStore.entries q).filter (·.1.time ≤ now)).map (·.1.item)

variable [DecidableEq τ]

/-- The queue lists exactly the items with a deadline, each under its own. -/
def Lists (q : DeadlineQueue τ ι) (f : ι → Option τ) : Prop :=
  ∀ t i, KVStore.lookup q ⟨t, i⟩ = if f i = some t then some i else none

theorem lists_empty : Lists (∅ : DeadlineQueue τ ι) fun _ => none := by
  intro t i
  rw [KVStore.lookup_empty, if_neg (by simp)]

variable [Std.LawfulEqOrd τ] [Std.LawfulEqOrd ι] {q : DeadlineQueue τ ι} {f : ι → Option τ}
  {i : ι} {t : τ}

/-- What an iterator over the queue sees. -/
theorem Lists.mem_entries_iff (h : Lists q f) {e : Slot τ ι × ι} :
    e ∈ KVStore.entries q ↔ f e.1.item = some e.1.time ∧ e.2 = e.1.item := by
  obtain ⟨⟨t, i⟩, j⟩ := e
  rw [KVStore.mem_entries_iff, h]
  by_cases hf : f i = some t
  · simp [hf, eq_comm]
  · simp [hf]

section Due

variable [LE τ] [DecidableLE τ]

theorem Lists.mem_due_iff (h : Lists q f) {now : τ} :
    i ∈ due q now ↔ ∃ t ≤ now, f i = some t := by
  simp only [due, List.mem_map, List.mem_filter, h.mem_entries_iff, decide_eq_true_eq]
  constructor
  · rintro ⟨e, ⟨⟨hf, -⟩, hle⟩, rfl⟩
    exact ⟨e.1.time, hle, hf⟩
  · rintro ⟨t, hle, hf⟩
    exact ⟨(⟨t, i⟩, i), ⟨⟨hf, rfl⟩, hle⟩, rfl⟩

/-- No item is due twice. -/
theorem Lists.nodup_due (h : Lists q f) (now : τ) : (due q now).Nodup := by
  -- two entries of one item have its time as their time, so they are one entry
  refine List.Nodup.map_on ?_ ?_
  · intro x hx y hy hxy
    obtain ⟨hfx, hvx⟩ := h.mem_entries_iff.mp (List.mem_of_mem_filter hx)
    obtain ⟨hfy, hvy⟩ := h.mem_entries_iff.mp (List.mem_of_mem_filter hy)
    obtain ⟨⟨t, i⟩, v⟩ := x
    obtain ⟨⟨t', i'⟩, v'⟩ := y
    simp only at hxy hfx hvx hfy hvy
    subst hxy hvx hvy
    rw [hfx] at hfy
    rw [Option.some.inj hfy]
  · exact List.Nodup.filter _
      (KVStore.pairwise_entries.imp fun hne heq => hne (congrArg Prod.fst heq))

end Due

variable [DecidableEq ι]

/-- An item without a deadline, or with this one, can be entered. -/
theorem Lists.insert (h : Lists q f) (hi : f i = none ∨ f i = some t) :
    Lists (DeadlineQueue.insert q i t) (Function.update f i (some t)) := by
  intro t' j
  rw [DeadlineQueue.insert, KVStore.lookup_set, h, Function.update_apply]
  by_cases hj : j = i
  · subst hj
    by_cases ht : t' = t
    · simp [ht]
    · have hne : f j ≠ some t' := by
        rcases hi with hi | hi
        · simp [hi]
        · simp [hi, Ne.symm ht]
      simp [ht, Ne.symm ht, hne]
  · simp [hj]

/-- An item's own entry can be taken out. -/
theorem Lists.remove (h : Lists q f) (hi : f i = none ∨ f i = some t) :
    Lists (DeadlineQueue.remove q i t) (Function.update f i none) := by
  intro t' j
  rw [DeadlineQueue.remove, KVStore.lookup_delete, h, Function.update_apply]
  by_cases hj : j = i
  · subst hj
    by_cases ht : t' = t
    · simp [ht]
    · have hne : f j ≠ some t' := by
        rcases hi with hi | hi
        · simp [hi]
        · simp [hi, Ne.symm ht]
      simp [ht, hne]
  · simp [hj]

/-- An item with a deadline has one entry. -/
theorem Lists.entries_of_item (h : Lists q f) (hi : f i = some t) :
    (KVStore.entries q).filter (·.1.item = i) = [(⟨t, i⟩, i)] := by
  have hmem : ∀ e, e ∈ (KVStore.entries q).filter (·.1.item = i) ↔ e = (⟨t, i⟩, i) := by
    intro e
    rw [List.mem_filter, h.mem_entries_iff, decide_eq_true_eq]
    constructor
    · rintro ⟨⟨hf, hv⟩, rfl⟩
      obtain rfl := Option.some.inj (hi.symm.trans hf)
      exact Prod.ext rfl hv
    · rintro rfl
      exact ⟨⟨hi, rfl⟩, rfl⟩
  have hpair : ((KVStore.entries q).filter (·.1.item = i)).Pairwise (· ≠ ·) :=
    (KVStore.pairwise_entries.filter _).imp fun hne heq => hne (congrArg Prod.fst heq)
  exact List.perm_singleton.mp (List.perm_ext_iff_of_nodup hpair (List.nodup_singleton _) |>.mpr
    fun e => by rw [hmem, List.mem_singleton])

end DeadlineQueue

end GenesisEthermint.Foundation
