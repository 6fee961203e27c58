import Mathlib.Algebra.BigOperators.Group.List.Basic
import Mathlib.Order.Lattice

/-!
# Tallies

A list of entries, each with a key and an amount, stands for a function from keys to amounts: what
its entries with a key add up to. A tally does not depend on the order of the entries, and entries
of no amount do not show. The tally of a key that occurs once is the amount of its entry, and in a
sorted list it can be found by halving the list, whatever other keys occur twice.
-/

namespace GenesisEthermint.Foundation

section Tally

variable {ρ κ M : Type} [DecidableEq κ] [AddCommMonoid M] {key : ρ → κ} {val : ρ → M}
  {l r : List ρ} {k : κ}

/-- What the entries with the key `k` add up to. -/
def tally (key : ρ → κ) (val : ρ → M) (l : List ρ) (k : κ) : M :=
  (l.map fun e => if key e = k then val e else 0).sum

@[simp] theorem tally_nil : tally key val [] k = 0 := rfl

@[simp] theorem tally_cons {e : ρ} :
    tally key val (e :: l) k = (if key e = k then val e else 0) + tally key val l k := rfl

theorem tally_append : tally key val (l ++ r) k = tally key val l k + tally key val r k := by
  simp [tally]

theorem tally_perm (h : l.Perm r) : tally key val l k = tally key val r k :=
  (h.map _).sum_eq

/-- Entries of no amount do not show. -/
theorem tally_filter {p : ρ → Bool} (hp : ∀ e, p e = false → val e = 0) :
    tally key val (l.filter p) k = tally key val l k := by
  induction l with
  | nil => rfl
  | cons e l ih =>
    cases he : p e with
    | true => rw [List.filter_cons_of_pos he, tally_cons, tally_cons, ih]
    | false =>
      rw [List.filter_cons_of_neg (by simp [he]), ih, tally_cons, hp e he, ite_self, zero_add]

theorem tally_eq_zero (h : ∀ e ∈ l, key e ≠ k) : tally key val l k = 0 := by
  induction l with
  | nil => rfl
  | cons e l ih =>
    rw [tally_cons, if_neg (h e (List.mem_cons_self ..)), zero_add]
    exact ih fun e' he' => h e' (List.mem_cons_of_mem _ he')

theorem tally_eq_zero_of_count (h : (l.map key).count k = 0) : tally key val l k = 0 :=
  tally_eq_zero fun _ he heq => List.count_eq_zero.mp h (heq ▸ List.mem_map_of_mem he)

/-- The tally of a key that occurs once is the amount of its entry. -/
theorem tally_of_mem {e : ρ} (honce : (l.map key).count (key e) ≤ 1) (he : e ∈ l) :
    tally key val l (key e) = val e := by
  obtain ⟨before, after, rfl⟩ := List.append_of_mem he
  rw [List.map_append, List.map_cons, List.count_append, List.count_cons_self] at honce
  rw [tally_append, tally_cons, if_pos rfl, tally_eq_zero_of_count (l := before) (by omega),
    tally_eq_zero_of_count (l := after) (by omega), zero_add, add_zero]

end Tally

/-! ## Finding a key by halving -/

section Halving

variable {ρ κ M : Type} [LinearOrder κ] [AddCommMonoid M] (key : ρ → κ) (val : ρ → M)

/-- Look for the key in the middle, then in the half where it must be. -/
def findWithin : ℕ → List ρ → κ → M
  | 0, _, _ => 0
  | fuel + 1, l, k =>
    match l[l.length / 2]? with
    | none => 0
    | some e =>
      if k < key e then findWithin fuel (l.take (l.length / 2)) k
      else if k = key e then val e
      else findWithin fuel (l.drop (l.length / 2 + 1)) k

variable {key val}

/-- In a sorted list, halving finds the tally of a key that occurs once at most. -/
theorem findWithin_eq_tally {fuel : ℕ} {l : List ρ} {k : κ}
    (hsorted : l.Pairwise fun a b => key a ≤ key b) (honce : (l.map key).count k ≤ 1)
    (hfuel : l.length ≤ fuel) : findWithin key val fuel l k = tally key val l k := by
  induction fuel generalizing l with
  | zero =>
    rw [List.length_eq_zero_iff.mp (Nat.le_zero.mp hfuel)]
    rfl
  | succ fuel ih =>
    unfold findWithin
    cases hmid : l[l.length / 2]? with
    | none =>
      have hlen := List.getElem?_eq_none_iff.mp hmid
      have hnil : l = [] := List.length_eq_zero_iff.mp (by omega)
      rw [hnil]
      rfl
    | some e =>
      obtain ⟨hlt, he⟩ := List.getElem?_eq_some_iff.mp hmid
      -- the list around its middle entry
      have hsplit : l = l.take (l.length / 2) ++ e :: l.drop (l.length / 2 + 1) := by
        rw [← he, List.getElem_cons_drop, List.take_append_drop]
      have hhalves := hsorted
      rw [hsplit, List.pairwise_append, List.pairwise_cons] at hhalves
      obtain ⟨hleft, ⟨hright, hrest⟩, hacross⟩ := hhalves
      have hbefore : ∀ a ∈ l.take (l.length / 2), key a ≤ key e :=
        fun a ha => hacross a ha e (List.mem_cons_self ..)
      have hcount : (l.map key).count k = ((l.take (l.length / 2)).map key).count k +
          ((key e :: (l.drop (l.length / 2 + 1)).map key).count k) := by
        conv_lhs => rw [hsplit]
        rw [List.map_append, List.map_cons, List.count_append]
      rw [hcount] at honce
      have htally : tally key val l k = tally key val (l.take (l.length / 2)) k +
          ((if key e = k then val e else 0) + tally key val (l.drop (l.length / 2 + 1)) k) := by
        conv_lhs => rw [hsplit]
        rw [tally_append, tally_cons]
      dsimp only
      rw [htally]
      rcases lt_trichotomy k (key e) with hk | hk | hk
      · -- the key can only be in the left half
        rw [if_pos hk, ih hleft (by omega) (by rw [List.length_take]; omega),
          if_neg (ne_of_gt hk), tally_eq_zero fun a ha => ne_of_gt (hk.trans_le (hright a ha)),
          add_zero, add_zero]
      · -- this is the one entry, so neither half has another
        rw [hk, List.count_cons_self] at honce
        rw [if_neg (by rw [hk]; exact lt_irrefl _), if_pos hk, if_pos hk.symm, hk,
          tally_eq_zero_of_count (l := l.take (l.length / 2)) (by omega),
          tally_eq_zero_of_count (l := l.drop (l.length / 2 + 1)) (by omega), zero_add, add_zero]
      · rw [List.count_cons_of_ne (ne_of_lt hk)] at honce
        rw [if_neg (not_lt_of_gt hk), if_neg (ne_of_gt hk),
          ih hrest (by omega) (by rw [List.length_drop]; omega), if_neg (ne_of_lt hk),
          tally_eq_zero fun a ha => ne_of_lt ((hbefore a ha).trans_lt hk), zero_add, zero_add]

end Halving

end GenesisEthermint.Foundation
