import Mathlib.Algebra.BigOperators.Group.Finset.Piecewise
import Mathlib.Algebra.GroupWithZero.Nat
import Mathlib.Algebra.Order.BigOperators.Group.Finset

/-!
# Ledgers

A ledger records, for one kind of unit, what every account holds and how much exists in
total. Coins of one denomination are a ledger over the bank's accounts, and a token contract
is a ledger over Ethereum addresses, so the development uses this one structure for both.

The central notion is `Covered`: no set of accounts holds more than the recorded supply.
It needs no finiteness of the account type, and every well-posted entry keeps it.
-/

namespace GenesisEthermint.Foundation

/-- What each account holds of one unit, and the recorded total. -/
@[ext]
structure Ledger (α : Type) where
  bal : α → ℕ
  supply : ℕ

namespace Ledger

variable {α : Type}

/-! ## Elementary bookings -/

/-- Raise the recorded supply. -/
def issue (L : Ledger α) (n : ℕ) : Ledger α := { L with supply := L.supply + n }

/-- Lower the recorded supply. -/
def retire (L : Ledger α) (n : ℕ) : Ledger α := { L with supply := L.supply - n }

/-- No set of accounts holds more than the recorded supply. -/
def Covered (L : Ledger α) : Prop := ∀ S : Finset α, ∑ a ∈ S, L.bal a ≤ L.supply

theorem Covered.bal_le {L : Ledger α} (h : L.Covered) (a : α) : L.bal a ≤ L.supply := by
  simpa using h {a}

theorem bal_retire (L : Ledger α) (n : ℕ) : (L.retire n).bal = L.bal := rfl

variable [DecidableEq α]

/-- Add `n` to the account `a`. -/
def credit (L : Ledger α) (a : α) (n : ℕ) : Ledger α :=
  { L with bal := Function.update L.bal a (L.bal a + n) }

/-- Take `n` from the account `a`. -/
def debit (L : Ledger α) (a : α) (n : ℕ) : Ledger α :=
  { L with bal := Function.update L.bal a (L.bal a - n) }

/-- Move `n` from `a` to `b`. -/
def move (L : Ledger α) (a b : α) (n : ℕ) : Ledger α := (L.debit a n).credit b n

/-- Create `n` in the account `a`. -/
def mint (L : Ledger α) (a : α) (n : ℕ) : Ledger α := (L.credit a n).issue n

/-- Destroy `n` held by the account `a`. -/
def burn (L : Ledger α) (a : α) (n : ℕ) : Ledger α := (L.debit a n).retire n

variable {L : Ledger α} {a b c : α} {n m : ℕ}

theorem bal_credit : (L.credit a n).bal c = if c = a then L.bal a + n else L.bal c := by
  simp [credit, Function.update_apply]

theorem bal_debit : (L.debit a n).bal c = if c = a then L.bal a - n else L.bal c := by
  simp [debit, Function.update_apply]

@[simp] theorem supply_credit : (L.credit a n).supply = L.supply := rfl

@[simp] theorem supply_debit : (L.debit a n).supply = L.supply := rfl

@[simp] theorem supply_move : (L.move a b n).supply = L.supply := rfl

@[simp] theorem supply_mint : (L.mint a n).supply = L.supply + n := rfl

@[simp] theorem supply_burn : (L.burn a n).supply = L.supply - n := rfl

theorem bal_mint : (L.mint a n).bal c = if c = a then L.bal a + n else L.bal c := bal_credit

theorem bal_burn : (L.burn a n).bal c = if c = a then L.bal a - n else L.bal c := bal_debit

theorem bal_mint_self : (L.mint a n).bal a = L.bal a + n := by
  rw [bal_mint, if_pos rfl]

theorem bal_burn_of_ne (h : c ≠ a) : (L.burn a n).bal c = L.bal c := by
  rw [bal_burn, if_neg h]

theorem bal_move_to (h : a ≠ b) : (L.move a b n).bal b = L.bal b + n := by
  simp [move, bal_credit, bal_debit, h.symm]

theorem bal_move_from (h : a ≠ b) : (L.move a b n).bal a = L.bal a - n := by
  simp [move, bal_credit, bal_debit, h]

theorem bal_move_of_ne (ha : c ≠ a) (hb : c ≠ b) : (L.move a b n).bal c = L.bal c := by
  simp [move, bal_credit, bal_debit, ha, hb]

/-- A move can only raise the balance of an account it does not debit. -/
theorem bal_le_bal_move (h : c ≠ a) : L.bal c ≤ (L.move a b n).bal c := by
  by_cases hb : c = b
  · subst hb
    rw [bal_move_to (Ne.symm h)]
    omega
  · rw [bal_move_of_ne h hb]

/-- A move takes no more than its amount from anybody. -/
theorem bal_sub_le_bal_move : L.bal c - n ≤ (L.move a b n).bal c := by
  by_cases ha : c = a
  · have hd : (L.debit a n).bal c = L.bal c - n := by rw [bal_debit, if_pos ha, ha]
    rw [move, bal_credit]
    split
    · rename_i hb
      rw [← hb, hd]
      omega
    · exact le_of_eq hd.symm
  · exact (Nat.sub_le ..).trans (bal_le_bal_move ha)

/-- Moving nothing changes nothing. -/
theorem move_zero : L.move a b 0 = L := by
  ext c
  · simp only [move, bal_credit, bal_debit, Nat.sub_zero, Nat.add_zero]
    split <;> split <;> simp_all
  · rfl

/-- Moving to `b` and burning there is burning at the source. -/
theorem burn_move : (L.move a b n).burn b n = L.burn a n := by
  ext c
  · by_cases hb : c = b
    · subst hb
      simp [move, bal_burn, bal_credit, bal_debit]
    · by_cases ha : c = a
      · subst ha
        simp [move, bal_burn, bal_credit, bal_debit, hb]
      · simp [move, bal_burn, bal_credit, bal_debit, ha, hb]
  · rfl

/-- Creating at `a` and moving to `b` is creating at `b`. -/
theorem move_mint : (L.mint a n).move a b n = L.mint b n := by
  ext c
  · by_cases hb : c = b
    · subst hb
      by_cases ha : c = a
      · subst ha
        simp [move, bal_mint, bal_credit, bal_debit]
      · simp [move, bal_mint, bal_credit, bal_debit, ha]
    · by_cases ha : c = a
      · subst ha
        simp [move, bal_mint, bal_credit, bal_debit, hb]
      · simp [move, bal_mint, bal_credit, bal_debit, ha, hb]
  · rfl

/-! ## Covered ledgers -/

theorem Covered.bal_add_bal_le (h : L.Covered) (hab : a ≠ b) :
    L.bal a + L.bal b ≤ L.supply := by
  simpa [Finset.sum_pair hab] using h {a, b}

private theorem sum_update (f : α → ℕ) (x : ℕ) (S : Finset α) :
    ∑ c ∈ S, Function.update f a x c + (if a ∈ S then f a else 0) =
      ∑ c ∈ S, f c + (if a ∈ S then x else 0) := by
  by_cases ha : a ∈ S
  · rw [Finset.sum_update_of_mem ha, ← Finset.sum_sdiff (Finset.singleton_subset_iff.mpr ha)]
    simp only [ha, if_true, Finset.sum_singleton]
    omega
  · rw [Finset.sum_update_of_notMem ha]
    simp [ha]

theorem sum_credit (S : Finset α) :
    ∑ c ∈ S, (L.credit a n).bal c = ∑ c ∈ S, L.bal c + (if a ∈ S then n else 0) := by
  have h := sum_update (a := a) L.bal (L.bal a + n) S
  simp only [credit]
  by_cases ha : a ∈ S
  · simp only [ha, if_true] at h ⊢
    omega
  · simp only [ha, if_false] at h ⊢
    omega

theorem sum_debit (hn : n ≤ L.bal a) (S : Finset α) :
    ∑ c ∈ S, (L.debit a n).bal c + (if a ∈ S then n else 0) = ∑ c ∈ S, L.bal c := by
  have h := sum_update (a := a) L.bal (L.bal a - n) S
  simp only [debit]
  by_cases ha : a ∈ S
  · simp only [ha, if_true] at h ⊢
    omega
  · simp only [ha, if_false] at h ⊢
    omega

/-- Adding to an account what the rest of the supply leaves room for. -/
theorem covered_mint (h : L.Covered) : (L.mint a n).Covered := by
  intro S
  have hS := h S
  have hc : ∑ c ∈ S, (L.mint a n).bal c = _ := sum_credit (L := L) (a := a) (n := n) S
  rw [hc, supply_mint]
  split <;> omega

/-- After a debit of what is there, the accounts of `S` leave room for it below the supply. -/
private theorem sum_debit_add_le (h : L.Covered) (hn : n ≤ L.bal a) (S : Finset α) :
    ∑ c ∈ S, (L.debit a n).bal c + n ≤ L.supply := by
  -- the accounts of `S` together with `a` held at most the supply
  have hS := h (insert a S)
  have hd := sum_debit hn (insert a S)
  have hsub : ∑ c ∈ S, (L.debit a n).bal c ≤ ∑ c ∈ insert a S, (L.debit a n).bal c :=
    Finset.sum_le_sum_of_subset (Finset.subset_insert a S)
  simp only [Finset.mem_insert_self, if_true] at hd
  omega

theorem covered_burn (h : L.Covered) (hn : n ≤ L.bal a) : (L.burn a n).Covered := by
  intro S
  have hroom := sum_debit_add_le h hn S
  have hb : ∑ c ∈ S, (L.burn a n).bal c = ∑ c ∈ S, (L.debit a n).bal c := rfl
  rw [hb, supply_burn]
  omega

theorem covered_move (h : L.Covered) (hn : n ≤ L.bal a) : (L.move a b n).Covered := by
  intro S
  have hroom := sum_debit_add_le h hn S
  have hm : ∑ c ∈ S, (L.move a b n).bal c = _ :=
    sum_credit (L := L.debit a n) (a := b) (n := n) S
  rw [hm, supply_move]
  split <;> omega

/-! ## Entries -/

/-- One booking on a ledger. -/
inductive Entry (α : Type) where
  | move (a b : α) (n : ℕ)
  | mint (a : α) (n : ℕ)
  | burn (a : α) (n : ℕ)
  deriving DecidableEq, Repr

/-- The entry takes nothing from the account `a`. -/
def Entry.Spares (a : α) : Entry α → Prop
  | .move x _ n => x = a → n = 0
  | .mint _ _ => True
  | .burn x n => x = a → n = 0

/-- What the entry adds to the account `a`. -/
def Entry.received (a : α) : Entry α → ℕ
  | .move _ y n => if y = a then n else 0
  | .mint y n => if y = a then n else 0
  | .burn _ _ => 0

/-- The ledger after an entry. -/
def post (L : Ledger α) : Entry α → Ledger α
  | .move a b n => L.move a b n
  | .mint a n => L.mint a n
  | .burn a n => L.burn a n

/-- The debited account holds what the entry takes. -/
def Allows (L : Ledger α) : Entry α → Prop
  | .move a _ n => n ≤ L.bal a
  | .mint _ _ => True
  | .burn a n => n ≤ L.bal a

/-- `L'` is `L` after the entries in order, each of them allowed when it was posted. -/
inductive Posts : Ledger α → List (Entry α) → Ledger α → Prop
  | nil (L : Ledger α) : Posts L [] L
  | cons {L L' : Ledger α} {e : Entry α} {es : List (Entry α)} :
      L.Allows e → Posts (L.post e) es L' → Posts L (e :: es) L'

theorem posts_cons_iff {L' : Ledger α} {e : Entry α} {es : List (Entry α)} :
    Posts L (e :: es) L' ↔ L.Allows e ∧ Posts (L.post e) es L' := by
  constructor
  · intro h
    cases h with
    | cons hallow hrest => exact ⟨hallow, hrest⟩
  · rintro ⟨hallow, hrest⟩
    exact .cons hallow hrest

theorem Posts.eq_of_nil {L' : Ledger α} (h : Posts L [] L') : L' = L := by
  cases h
  rfl

theorem covered_post {e : Entry α} (h : L.Covered) (he : L.Allows e) : (L.post e).Covered := by
  cases e with
  | move x y k => exact covered_move h he
  | mint x k => exact covered_mint h
  | burn x k => exact covered_burn h he

theorem Posts.covered {L' : Ledger α} {es : List (Entry α)} (h : Posts L es L')
    (hL : L.Covered) : L'.Covered := by
  induction h with
  | nil L => exact hL
  | cons he _ ih => exact ih (covered_post hL he)

theorem Posts.append {L' L'' : Ledger α} {es fs : List (Entry α)} (h : Posts L es L')
    (h' : Posts L' fs L'') : Posts L (es ++ fs) L'' := by
  induction h with
  | nil L => exact h'
  | cons he _ ih => exact .cons he (ih h')

theorem bal_post_of_spares {e : Entry α} (h : e.Spares a) :
    (L.post e).bal a = L.bal a + e.received a := by
  -- `a` is no payer with a positive amount, so every entry adds what it pays to `a`
  cases e with
  | move x y k =>
    by_cases hx : x = a
    · obtain rfl := h hx
      simp only [post, Entry.received, move_zero, ite_self, Nat.add_zero]
    · by_cases hy : y = a
      · subst hy
        simp only [post, Entry.received, bal_move_to hx, if_true]
      · simp only [post, Entry.received, hy, if_false]
        exact bal_move_of_ne (Ne.symm hx) (Ne.symm hy)
  | mint y k =>
    by_cases hy : y = a
    · subst hy
      simp only [post, Entry.received, bal_mint_self, if_true]
    · simp only [post, Entry.received, bal_mint, hy, Ne.symm hy, if_false, Nat.add_zero]
  | burn x k =>
    simp only [post, Entry.received, Nat.add_zero]
    by_cases hx : x = a
    · obtain rfl := h hx
      simp only [bal_burn, Nat.sub_zero]
      split <;> simp_all
    · exact bal_burn_of_ne (Ne.symm hx)

/-- An account that no entry debits gains exactly what the entries bring it. -/
theorem Posts.bal_of_spares {L' : Ledger α} {es : List (Entry α)} (h : Posts L es L')
    (hs : ∀ e ∈ es, e.Spares a) :
    L'.bal a = L.bal a + (es.map (Entry.received a)).sum := by
  induction h with
  | nil L => simp
  | @cons M _ e es _ _ ih =>
    have he := bal_post_of_spares (L := M) (hs e (List.mem_cons_self ..))
    rw [ih fun f hf => hs f (List.mem_cons_of_mem _ hf), he, List.map_cons, List.sum_cons]
    omega

/-! ## Burning early and burning late -/

/-- An entry that spares `a` does not notice that units of `a` were burned before it. -/
private theorem post_burn_of_spares {e : Entry α} (h : L.Covered) (he : L.Allows e)
    (hs : e.Spares a) (hn : n ≤ L.bal a) :
    (L.burn a n).Allows e ∧ (L.burn a n).post e = (L.post e).burn a n := by
  have hsupply := h.bal_le a
  cases e with
  -- a move by somebody else debits the same account either way
  | move x y m =>
    by_cases hx : x = a
    · obtain rfl := hs hx
      exact ⟨Nat.zero_le _, by simp only [post, move_zero]⟩
    · refine ⟨?_, ?_⟩
      · simp only [Allows, bal_burn_of_ne hx]
        exact he
      · ext z
        · simp only [post, move, burn, bal_credit, bal_debit, bal_retire]
          split <;> split <;> split <;> simp_all
          omega
        · rfl
  | mint x m =>
    refine ⟨trivial, ?_⟩
    ext z
    · simp only [post, bal_mint, bal_burn]
      split <;> split <;> simp_all
      omega
    · simp only [post, supply_mint, supply_burn]
      omega
  | burn x m =>
    -- a burn of `a` itself is one of nothing
    by_cases hx : x = a
    · obtain rfl := hs hx
      refine ⟨Nat.zero_le _, ?_⟩
      ext z
      · simp only [post, bal_burn]
        split <;> split <;> simp_all
      · simp only [post, supply_burn]
        omega
    · refine ⟨?_, ?_⟩
      · simp only [Allows, bal_burn_of_ne hx]
        exact he
      · ext z
        · simp only [post, bal_burn]
          split <;> split <;> simp_all
        · simp only [post, supply_burn]
          omega

/-- **Burning can wait.** When the entries take nothing from `a`, it is the same to burn units of
`a` before them or after them. -/
theorem Posts.burn_of_spares {L' : Ledger α} {es : List (Entry α)} (h : Posts L es L')
    (hL : L.Covered) (hs : ∀ e ∈ es, e.Spares a) (hn : n ≤ L.bal a) :
    Posts (L.burn a n) es (L'.burn a n) := by
  induction h with
  | nil L => exact .nil _
  | @cons M _ e es he _ ih =>
    have hspares := hs e (List.mem_cons_self ..)
    obtain ⟨hallow, hpost⟩ := post_burn_of_spares hL he hspares hn
    refine .cons hallow ?_
    rw [hpost]
    refine ih (covered_post hL he) (fun f hf => hs f (List.mem_cons_of_mem _ hf)) ?_
    rw [bal_post_of_spares hspares]
    omega

end Ledger

end GenesisEthermint.Foundation
