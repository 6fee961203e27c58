import Mathlib.Data.LawfulXor.Basic
import Mathlib.Data.List.Basic
import Mathlib.Data.Nat.Digits.Defs
import Mathlib.Tactic.Ring

/-!
# Shift Registers

A register of `n` digits of `w` bits is fed one digit at a time: its contents move up by a digit,
what falls out at the top is fed back, and the digit that arrives is added without carry. When the
move is linear and loses nothing, the register sees every change of its input that is confined to
`n` digits in a row, and exactly one choice of the last `n` digits leaves a given value in it.
-/

namespace GenesisEthermint.Foundation

/-- The register after the digits, the first of them first. -/
def feed (shift : ℕ → ℕ) (c : ℕ) (digits : List ℕ) : ℕ :=
  digits.foldl (fun c d => shift c ^^^ d) c

/-- The low `n` digits of a number, the highest first. -/
def digitsOf (w n x : ℕ) : List ℕ :=
  (List.range n).map fun i => (x >>> (w * (n - 1 - i))) &&& (2 ^ w - 1)

/-- How the contents of a register of `n` digits move up. -/
structure IsRegister (shift : ℕ → ℕ) (w n : ℕ) : Prop where
  lt : ∀ {c}, c < 2 ^ (w * n) → shift c < 2 ^ (w * n)
  xor : ∀ a b, shift (a ^^^ b) = shift a ^^^ shift b
  eq_zero : ∀ {c}, c < 2 ^ (w * n) → shift c = 0 → c = 0
  /-- Nothing is fed back while the top digit is empty. -/
  plain : ∀ {c}, c < 2 ^ (w * (n - 1)) → shift c = c <<< w

variable {shift : ℕ → ℕ} {w n a b c d x : ℕ} {ds es : List ℕ}

@[simp] theorem feed_nil : feed shift c [] = c := rfl

@[simp] theorem feed_cons : feed shift c (d :: ds) = feed shift (shift c ^^^ d) ds := rfl

theorem feed_append : feed shift c (ds ++ es) = feed shift (feed shift c ds) es :=
  List.foldl_append

/-! ## §1 Numbers and their digits -/

/-- A digit that fits is written below the others. -/
theorem shiftLeft_xor_eq_add (hd : d < 2 ^ w) : c <<< w ^^^ d = 2 ^ w * c + d := by
  apply Nat.eq_of_testBit_eq
  intro i
  rw [Nat.testBit_two_pow_mul_add c hd, Nat.testBit_xor, Nat.testBit_shiftLeft]
  by_cases hi : i < w
  · simp [hi, Nat.not_le.mpr hi]
  · have hzero : d.testBit i = false := by
      apply Nat.testBit_lt_two_pow
      exact Nat.lt_of_lt_of_le hd (Nat.pow_le_pow_right Nat.two_pos (Nat.le_of_not_lt hi))
    simp [hi, hzero, Nat.le_of_not_lt hi]

/-- A register that feeds nothing back holds the number its digits spell. -/
theorem feed_shiftLeft (h : ∀ d ∈ ds, d < 2 ^ w) :
    feed (· <<< w) c ds = (2 ^ w) ^ ds.length * c + Nat.ofDigits (2 ^ w) ds.reverse := by
  induction ds generalizing c with
  | nil => simp
  | cons d ds ih =>
    rw [feed_cons, ih fun e he => h e (List.mem_cons_of_mem d he),
      shiftLeft_xor_eq_add (h d List.mem_cons_self), List.reverse_cons, Nat.ofDigits_append,
      Nat.ofDigits_singleton, List.length_reverse, List.length_cons]
    ring

/-- As many digits spell different numbers. -/
theorem feed_shiftLeft_inj (hw : 0 < w) (hlen : ds.length = es.length) (hds : ∀ d ∈ ds, d < 2 ^ w)
    (hes : ∀ d ∈ es, d < 2 ^ w) (h : feed (· <<< w) 0 ds = feed (· <<< w) 0 es) : ds = es := by
  rw [feed_shiftLeft hds, feed_shiftLeft hes, Nat.mul_zero, Nat.mul_zero, Nat.zero_add,
    Nat.zero_add] at h
  have hrev : ds.reverse = es.reverse := by
    apply Nat.ofDigits_inj_of_len_eq (Nat.one_lt_two_pow (Nat.pos_iff_ne_zero.mp hw)) _ _ _ h
    · simp [hlen]
    · simpa using hds
    · simpa using hes
  exact List.reverse_injective hrev

@[simp] theorem length_digitsOf : (digitsOf w n x).length = n := by simp [digitsOf]

theorem digitsOf_lt (h : d ∈ digitsOf w n x) : d < 2 ^ w := by
  obtain ⟨i, -, rfl⟩ := List.mem_map.mp h
  rw [Nat.and_two_pow_sub_one_eq_mod]
  exact Nat.mod_lt _ (Nat.two_pow_pos w)

theorem digitsOf_succ :
    digitsOf w (n + 1) x = digitsOf w n (x >>> w) ++ [x &&& (2 ^ w - 1)] := by
  rw [digitsOf, List.range_succ, List.map_append, digitsOf]
  congr 1
  · apply List.map_congr_left
    intro i hi
    have hi := List.mem_range.mp hi
    have hadd : w * (n + 1 - 1 - i) = w + w * (n - 1 - i) := by
      have hsucc : n + 1 - 1 - i = (n - 1 - i) + 1 := by omega
      rw [hsucc, Nat.mul_succ, Nat.add_comm]
    rw [hadd, Nat.shiftRight_add]
  · simp

theorem feed_digitsOf (h : x < 2 ^ (w * n)) : feed (· <<< w) 0 (digitsOf w n x) = x := by
  induction n generalizing x with
  | zero =>
    have hx : x = 0 := by simpa using h
    rw [hx]
    rfl
  | succ n ih =>
    have hlt : x >>> w < 2 ^ (w * n) := by
      rw [Nat.shiftRight_eq_div_pow]
      apply Nat.div_lt_of_lt_mul
      rwa [← Nat.pow_add, Nat.add_comm, ← Nat.mul_succ]
    rw [digitsOf_succ, feed_append, ih hlt, feed_cons, feed_nil, Nat.and_two_pow_sub_one_eq_mod,
      shiftLeft_xor_eq_add (Nat.mod_lt _ (Nat.two_pow_pos w)), Nat.shiftRight_eq_div_pow,
      Nat.div_add_mod]

/-! ## §2 What a register sees -/

namespace IsRegister

theorem lt_of_digit (hn : 0 < n) (hd : d < 2 ^ w) : d < 2 ^ (w * n) :=
  Nat.lt_of_lt_of_le hd (Nat.pow_le_pow_right Nat.two_pos (Nat.le_mul_of_pos_right w hn))

theorem feed_lt (h : IsRegister shift w n) (hn : 0 < n) (hc : c < 2 ^ (w * n))
    (hds : ∀ d ∈ ds, d < 2 ^ w) : feed shift c ds < 2 ^ (w * n) := by
  induction ds generalizing c with
  | nil => exact hc
  | cons d ds ih =>
    apply ih
    · exact Nat.xor_lt_two_pow (h.lt hc) (lt_of_digit hn (hds d List.mem_cons_self))
    · exact fun e he => hds e (List.mem_cons_of_mem d he)

/-- What the register holds and what arrives contribute separately. -/
theorem feed_xor (h : IsRegister shift w n) (ds : List ℕ) :
    feed shift (a ^^^ b) ds = feed shift a (List.replicate ds.length 0) ^^^ feed shift b ds := by
  induction ds generalizing a b with
  | nil => rfl
  | cons d ds ih =>
    rw [feed_cons, h.xor, Nat.xor_assoc, ih, List.length_cons, List.replicate_succ, feed_cons,
      Nat.xor_zero, feed_cons]

theorem feed_eq_xor (h : IsRegister shift w n) (ds : List ℕ) :
    feed shift a ds = feed shift a (List.replicate ds.length 0) ^^^ feed shift 0 ds := by
  have hsplit := h.feed_xor (a := a) (b := 0) ds
  rwa [Nat.xor_zero] at hsplit

/-- Nothing that the register holds is forgotten. -/
theorem feed_inj (h : IsRegister shift w n) (hn : 0 < n) (ha : a < 2 ^ (w * n))
    (hb : b < 2 ^ (w * n)) (hds : ∀ d ∈ ds, d < 2 ^ w) (heq : feed shift a ds = feed shift b ds) :
    a = b := by
  induction ds generalizing a b with
  | nil => exact heq
  | cons d ds ih =>
    have hd := lt_of_digit hn (hds d List.mem_cons_self)
    have hstep : shift a ^^^ d = shift b ^^^ d := by
      apply ih
      · exact Nat.xor_lt_two_pow (h.lt ha) hd
      · exact Nat.xor_lt_two_pow (h.lt hb) hd
      · exact fun e he => hds e (List.mem_cons_of_mem d he)
      · exact heq
    have hshift : shift (a ^^^ b) = 0 := by
      rw [h.xor, xor_eq_zero_iff]
      exact (xor_left_involutive d).injective hstep
    exact xor_eq_zero_iff.mp (h.eq_zero (Nat.xor_lt_two_pow ha hb) hshift)

/-- The first `n` digits are only written one after the other. -/
theorem feed_eq_shiftLeft (h : IsRegister shift w n) (hds : ∀ d ∈ ds, d < 2 ^ w)
    (hlen : ds.length ≤ n) : feed shift 0 ds = feed (· <<< w) 0 ds := by
  -- `m` digits are in the register, and fill its low end
  have hfrom : ∀ m c, c < 2 ^ (w * m) → m + ds.length ≤ n →
      feed shift c ds = feed (· <<< w) c ds := by
    clear hlen
    induction ds with
    | nil => exact fun _ _ _ _ => rfl
    | cons d ds ih =>
      intro m c hc hlen
      rw [List.length_cons] at hlen
      have hd := hds d List.mem_cons_self
      have hmove : shift c = c <<< w := by
        apply h.plain
        apply Nat.lt_of_lt_of_le hc
        apply Nat.pow_le_pow_right Nat.two_pos
        apply Nat.mul_le_mul_left
        omega
      rw [feed_cons, feed_cons, hmove]
      apply ih (fun e he => hds e (List.mem_cons_of_mem d he)) (m + 1)
      · rw [shiftLeft_xor_eq_add hd, Nat.mul_succ, Nat.pow_add, Nat.mul_comm]
        calc c * 2 ^ w + d < c * 2 ^ w + 2 ^ w := Nat.add_lt_add_left hd _
          _ = (c + 1) * 2 ^ w := (Nat.succ_mul c _).symm
          _ ≤ 2 ^ (w * m) * 2 ^ w := Nat.mul_le_mul_right _ hc
      · omega
  exact hfrom 0 0 (Nat.two_pow_pos _) (by omega)

/-- **A change confined to `n` digits in a row is seen**, whatever comes before and after. -/
theorem eq_of_feed_eq (h : IsRegister shift w n) (hw : 0 < w) (hn : 0 < n)
    (hc : c < 2 ^ (w * n)) {before after : List ℕ} (hbefore : ∀ d ∈ before, d < 2 ^ w)
    (hafter : ∀ d ∈ after, d < 2 ^ w) (hds : ∀ d ∈ ds, d < 2 ^ w) (hes : ∀ d ∈ es, d < 2 ^ w)
    (hlen : ds.length = es.length) (hle : ds.length ≤ n)
    (heq : feed shift c (before ++ ds ++ after) = feed shift c (before ++ es ++ after)) :
    ds = es := by
  rw [feed_append, feed_append, feed_append, feed_append] at heq
  have hstart := h.feed_lt hn hc hbefore
  have hmid := h.feed_inj hn (h.feed_lt hn hstart hds) (h.feed_lt hn hstart hes) hafter heq
  rw [h.feed_eq_xor ds, h.feed_eq_xor es, hlen] at hmid
  have hzero := (xor_right_involutive _).injective hmid
  rw [h.feed_eq_shiftLeft hds hle, h.feed_eq_shiftLeft hes (hlen ▸ hle)] at hzero
  exact feed_shiftLeft_inj hw hlen hds hes hzero

/-- **One choice of the last `n` digits leaves a given value in the register.** -/
theorem feed_append_eq_iff (h : IsRegister shift w n) (hw : 0 < w) (hn : 0 < n)
    (hc : c < 2 ^ (w * n)) (hx : x < 2 ^ (w * n)) (hds : ∀ d ∈ ds, d < 2 ^ w)
    (hes : ∀ d ∈ es, d < 2 ^ w) (hlen : es.length = n) :
    feed shift c (ds ++ es) = x ↔
      es = digitsOf w n (feed shift c (ds ++ List.replicate n 0) ^^^ x) := by
  have hzeros : ∀ d ∈ List.replicate n 0, d < 2 ^ w := by
    intro d hd
    rw [List.eq_of_mem_replicate hd]
    exact Nat.two_pow_pos w
  have hsplit : feed shift c (ds ++ es) =
      feed shift c (ds ++ List.replicate n 0) ^^^ feed (· <<< w) 0 es := by
    rw [feed_append, h.feed_eq_xor, hlen, ← feed_append, h.feed_eq_shiftLeft hes hlen.le]
  have hbase : feed shift c (ds ++ List.replicate n 0) < 2 ^ (w * n) := by
    apply h.feed_lt hn hc
    intro d hd
    exact (List.mem_append.mp hd).elim (hds d) (hzeros d)
  have hspelled := feed_digitsOf (Nat.xor_lt_two_pow hbase hx)
  rw [hsplit]
  constructor
  · rintro rfl
    apply feed_shiftLeft_inj hw (by simp [hlen]) hes fun d hd => digitsOf_lt hd
    rw [hspelled, ← Nat.xor_assoc, Nat.xor_self, Nat.zero_xor]
  · intro hes'
    rw [hes', hspelled, ← Nat.xor_assoc, Nat.xor_self, Nat.zero_xor]

end IsRegister

end GenesisEthermint.Foundation
