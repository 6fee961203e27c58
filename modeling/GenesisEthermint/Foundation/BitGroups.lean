import Mathlib.Algebra.GroupWithZero.Nat
import Mathlib.Data.List.Basic

/-!
# Bits in Groups

A byte stands for its low `w` bits, the highest first, and a list of bytes for the bits of all of
them. Cutting the same bits into groups of another width gives another list of bytes; how a list
of bits is cut into groups of one width is determined by the bits.
-/

namespace GenesisEthermint.Foundation

/-- The low `w` bits of a byte, the highest first. -/
def lowBits (w : ℕ) (x : BitVec 8) : List Bool := (List.range w).map fun i => x.getLsbD (w - 1 - i)

/-- The high `w` bits of a byte, the highest first. -/
def topBits (w : ℕ) (x : BitVec 8) : List Bool := (List.range w).map x.getMsbD

variable {w e f r : ℕ} {x y b n : BitVec 8}

@[simp] theorem length_lowBits : (lowBits w x).length = w := by simp [lowBits]

@[simp] theorem length_topBits : (topBits w x).length = w := by simp [topBits]

@[simp] theorem lowBits_zero : lowBits 0 x = [] := rfl

@[simp] theorem topBits_zero : topBits 0 x = [] := rfl

/-- Bits that are shifted in follow those that were there. -/
theorem lowBits_shift_or (he : e ≤ 8) (hf : f + e ≤ 8) :
    lowBits (f + e) (n <<< e ||| b >>> (8 - e)) = lowBits f n ++ topBits e b := by
  apply List.ext_getElem
  · simp
  · intro j hj hj'
    simp only [length_lowBits] at hj
    rw [List.getElem_append]
    split
    · rename_i hlt
      simp only [length_lowBits] at hlt
      simp only [lowBits, List.getElem_map, List.getElem_range, BitVec.getLsbD_or,
        BitVec.getLsbD_shiftLeft, BitVec.getLsbD_ushiftRight]
      have hsub : f + e - 1 - j - e = f - 1 - j := by omega
      have hge : 8 ≤ 8 - e + (f + e - 1 - j) := by omega
      rw [BitVec.getLsbD_of_ge b _ hge, hsub]
      simp
      omega
    · rename_i hge
      simp only [length_lowBits, Nat.not_lt] at hge
      simp only [lowBits, topBits, List.getElem_map, List.getElem_range, BitVec.getLsbD_or,
        BitVec.getLsbD_shiftLeft, BitVec.getLsbD_ushiftRight, BitVec.getMsbD]
      have hlt : f + e - 1 - j < e := by omega
      have hidx : 8 - e + (f + e - 1 - j) = 8 - 1 - (j - f) := by omega
      rw [hidx]
      simp [hlt]
      omega

theorem topBits_add : topBits (e + r) b = topBits e b ++ topBits r (b <<< e) := by
  apply List.ext_getElem
  · simp
  · intro j hj hj'
    simp only [length_topBits] at hj
    rw [List.getElem_append]
    split
    · simp [topBits]
    · rename_i hge
      simp only [length_topBits, Nat.not_lt] at hge
      have hidx : j - e + e = j := by omega
      simp only [length_topBits]
      simp only [topBits, List.getElem_map, List.getElem_range, BitVec.getMsbD_shiftLeft, hidx]

theorem topBits_shiftLeft (h : w ≤ 8) : topBits w (b <<< (8 - w)) = lowBits w b := by
  apply List.ext_getElem
  · simp
  · intro j hj hj'
    simp only [length_topBits] at hj
    simp only [topBits, lowBits, List.getElem_map, List.getElem_range, BitVec.getMsbD_shiftLeft]
    have hidx : 8 - 1 - (j + (8 - w)) = w - 1 - j := by omega
    have hlt : j + (8 - w) < 8 := by omega
    simp [BitVec.getMsbD, hidx, hlt]

/-- A byte of `w` bits is determined by them. -/
theorem lowBits_inj (hx : x.toNat < 2 ^ w) (hy : y.toNat < 2 ^ w) :
    lowBits w x = lowBits w y ↔ x = y := by
  constructor
  · intro h
    apply BitVec.eq_of_getLsbD_eq
    intro i _
    by_cases hi : i < w
    · have hget := congrArg (fun l => l[w - 1 - i]?) h
      have hlt : w - 1 - i < w := by omega
      have hback : w - 1 - (w - 1 - i) = i := by omega
      simpa [lowBits, hlt, hback] using hget
    · have hpow : 2 ^ w ≤ 2 ^ i := Nat.pow_le_pow_right (by decide) (Nat.le_of_not_lt hi)
      rw [BitVec.getLsbD, BitVec.getLsbD, Nat.testBit_lt_two_pow (Nat.lt_of_lt_of_le hx hpow),
        Nat.testBit_lt_two_pow (Nat.lt_of_lt_of_le hy hpow)]
  · exact congrArg _

theorem lowBits_of_zero : lowBits w 0#8 = List.replicate w false := by
  apply List.ext_getElem
  · simp
  · intro j hj hj'
    simp [lowBits]

theorem topBits_of_zero : topBits w 0#8 = List.replicate w false := by
  apply List.ext_getElem
  · simp
  · intro j hj hj'
    simp [topBits]

/-- The bits of a list of bytes. -/
def groupBits (w : ℕ) (bytes : List (BitVec 8)) : List Bool := bytes.flatMap (lowBits w)

@[simp] theorem groupBits_nil : groupBits w [] = [] := rfl

@[simp] theorem groupBits_cons {bytes : List (BitVec 8)} :
    groupBits w (x :: bytes) = lowBits w x ++ groupBits w bytes := rfl

theorem groupBits_append {xs ys : List (BitVec 8)} :
    groupBits w (xs ++ ys) = groupBits w xs ++ groupBits w ys := List.flatMap_append

theorem length_groupBits {bytes : List (BitVec 8)} :
    (groupBits w bytes).length = bytes.length * w := by
  induction bytes with
  | nil => simp
  | cons x bytes ih =>
    rw [groupBits_cons, List.length_append, length_lowBits, ih, List.length_cons, Nat.succ_mul,
      Nat.add_comm]

/-- **Groups are determined by their bits**, and so is what does not fill a group. -/
theorem groupBits_append_inj {xs ys : List (BitVec 8)} {l l' : List Bool}
    (hx : ∀ x ∈ xs, x.toNat < 2 ^ w) (hy : ∀ y ∈ ys, y.toNat < 2 ^ w) (hl : l.length < w)
    (hl' : l'.length < w) (h : groupBits w xs ++ l = groupBits w ys ++ l') :
    xs = ys ∧ l = l' := by
  induction xs generalizing ys with
  | nil =>
    cases ys with
    | nil => exact ⟨rfl, h⟩
    | cons y ys =>
      have := congrArg List.length h
      simp only [groupBits_nil, groupBits_cons, List.length_append, List.nil_append,
        length_lowBits] at this
      omega
  | cons x xs ih =>
    cases ys with
    | nil =>
      have := congrArg List.length h
      simp only [groupBits_nil, groupBits_cons, List.length_append, List.nil_append,
        length_lowBits] at this
      omega
    | cons y ys =>
      rw [groupBits_cons, groupBits_cons, List.append_assoc, List.append_assoc] at h
      obtain ⟨hfirst, hrest⟩ := List.append_inj h (by simp)
      obtain ⟨rfl, rfl⟩ := ih (fun z hz => hx z (List.mem_cons_of_mem _ hz))
        (fun z hz => hy z (List.mem_cons_of_mem _ hz)) hrest
      rw [(lowBits_inj (hx x List.mem_cons_self) (hy y List.mem_cons_self)).mp hfirst]
      exact ⟨rfl, rfl⟩

/-- A list of bits, filled up to whole groups, is cut into as many groups in only one way. -/
theorem groupBits_inj_of_pad {xs ys : List (BitVec 8)} {l : List Bool} {i j : ℕ}
    (hx : ∀ x ∈ xs, x.toNat < 2 ^ w) (hy : ∀ y ∈ ys, y.toNat < 2 ^ w) (hi : i < w) (hj : j < w)
    (hxs : groupBits w xs = l ++ List.replicate i false)
    (hys : groupBits w ys = l ++ List.replicate j false) : xs = ys := by
  have hxlen := congrArg List.length hxs
  have hylen := congrArg List.length hys
  rw [length_groupBits, List.length_append, List.length_replicate] at hxlen hylen
  have hlen : xs.length = ys.length := by
    apply Nat.le_antisymm
    · apply Nat.le_of_lt_succ
      apply Nat.lt_of_mul_lt_mul_right (a := w)
      rw [Nat.succ_mul]
      omega
    · apply Nat.le_of_lt_succ
      apply Nat.lt_of_mul_lt_mul_right (a := w)
      rw [Nat.succ_mul]
      omega
  rw [hlen] at hxlen
  have hij : i = j := by omega
  subst hij
  have heq : groupBits w xs ++ [] = groupBits w ys ++ [] := by
    rw [hxs, hys]
  exact (groupBits_append_inj hx hy (Nat.lt_of_le_of_lt (Nat.zero_le i) hi)
    (Nat.lt_of_le_of_lt (Nat.zero_le i) hi) heq).1

end GenesisEthermint.Foundation
