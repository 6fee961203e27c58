import Mathlib.Data.List.Sort

/-!
# Sorting without Stability

A library sort promises a sorted rearrangement and nothing about the order of elements that
compare equal. `Sorter` is any function that keeps this promise, so what is proved of programs
that use one does not depend on how the library breaks ties. It breaks none when the keys are
distinct: then the result is strictly sorted.
-/

namespace GenesisEthermint.Foundation

/-- A sorting function: it rearranges a list so that its keys ascend. -/
structure Sorter where
  sort : {α κ : Type} → [LinearOrder κ] → (α → κ) → List α → List α
  perm : ∀ {α κ : Type} [LinearOrder κ] (key : α → κ) (l : List α), (sort key l).Perm l
  sorted : ∀ {α κ : Type} [LinearOrder κ] (key : α → κ) (l : List α),
    (sort key l).Pairwise fun a b => key a ≤ key b

namespace Sorter

variable {α κ : Type} [LinearOrder κ] (srt : Sorter) (key : α → κ) (l : List α)

theorem mem_sort {a : α} : a ∈ srt.sort key l ↔ a ∈ l := (srt.perm key l).mem_iff

/-- Sorting is strict exactly if no two elements have the same key. -/
theorem pairwise_lt_sort_iff :
    ((srt.sort key l).Pairwise fun a b => key a < key b) ↔ (l.map key).Nodup := by
  have hmap : (l.map key).Nodup ↔ ((srt.sort key l).map key).Nodup :=
    ((srt.perm key l).map key).nodup_iff.symm
  rw [hmap, List.Nodup, List.pairwise_map]
  constructor
  · exact fun h => h.imp fun hlt => ne_of_lt hlt
  · exact fun h => (h.and (srt.sorted key l)).imp fun ⟨hne, hle⟩ => lt_of_le_of_ne hle hne

/-- Insertion sort is a sorter. -/
def insertion : Sorter where
  sort key l := l.insertionSort fun a b => key a ≤ key b
  perm key l := List.perm_insertionSort _ l
  sorted key l := by
    have htotal : Std.Total fun a b => key a ≤ key b := ⟨fun a b => le_total (key a) (key b)⟩
    have htrans : IsTrans _ fun a b => key a ≤ key b := ⟨fun _ _ _ => le_trans⟩
    exact List.pairwise_insertionSort _ l

end Sorter

end GenesisEthermint.Foundation
