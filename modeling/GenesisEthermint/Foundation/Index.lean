import Mathlib.Logic.Function.Basic

/-!
# Records under two Unique Indexes

A table of records, each stored under its own key, with two secondary indexes that lead from
a value to the key of the record that has it. `OneToOne` says that the three maps agree, and
with it the two indexed values determine each other.

Inserting a fresh record, removing a stored one, moving a stored one to free keys, and rewriting
a record without touching its key or its indexed values all keep `OneToOne`.

`Sound` is what is left of it when records are written without looking whether they are fresh.
-/

namespace GenesisEthermint.Foundation

/-- The lookups of a table of records `ρ` with indexes on `α` and `β`. -/
@[ext]
structure Index (κ α β ρ : Type) where
  recs : κ → Option ρ
  byA : α → Option κ
  byB : β → Option κ

/-- Where a record belongs: its key, and its value in either index. -/
structure IndexKeys (κ α β ρ : Type) where
  key : ρ → κ
  a : ρ → α
  b : ρ → β

namespace Index

variable {κ α β ρ : Type} (K : IndexKeys κ α β ρ)

/-- The table and its indexes agree, with no dangling entry. -/
structure OneToOne (I : Index κ α β ρ) : Prop where
  keyed : ∀ {i p}, I.recs i = some p → i = K.key p
  byA_of_rec : ∀ {i p}, I.recs i = some p → I.byA (K.a p) = some (K.key p)
  byB_of_rec : ∀ {i p}, I.recs i = some p → I.byB (K.b p) = some (K.key p)
  rec_of_byA : ∀ {x i}, I.byA x = some i → ∃ p, I.recs i = some p ∧ K.a p = x
  rec_of_byB : ∀ {y i}, I.byB y = some i → ∃ p, I.recs i = some p ∧ K.b p = y

variable {K} {I : Index κ α β ρ} {p q : ρ} {i j : κ}

/-- Two records that share their key are the same record. -/
theorem OneToOne.eq_of_key (h : I.OneToOne K) (hp : I.recs i = some p) (hq : I.recs j = some q)
    (hk : K.key p = K.key q) : p = q := by
  rw [h.keyed hp, hk, ← h.keyed hq, hq] at hp
  exact (Option.some.inj hp).symm

/-- The first index is unique. -/
theorem OneToOne.eq_of_a (h : I.OneToOne K) (hp : I.recs i = some p) (hq : I.recs j = some q)
    (ha : K.a p = K.a q) : p = q := by
  have hpa := h.byA_of_rec hp
  rw [ha, h.byA_of_rec hq] at hpa
  exact h.eq_of_key hp hq (Option.some.inj hpa).symm

/-- The second index is unique. -/
theorem OneToOne.eq_of_b (h : I.OneToOne K) (hp : I.recs i = some p) (hq : I.recs j = some q)
    (hb : K.b p = K.b q) : p = q := by
  have hpb := h.byB_of_rec hp
  rw [hb, h.byB_of_rec hq] at hpb
  exact h.eq_of_key hp hq (Option.some.inj hpb).symm

variable (K) [DecidableEq κ] [DecidableEq α] [DecidableEq β]

/-- Store a record and point both indexes at it. -/
def insert (p : ρ) (I : Index κ α β ρ) : Index κ α β ρ where
  recs := Function.update I.recs (K.key p) (some p)
  byA := Function.update I.byA (K.a p) (some (K.key p))
  byB := Function.update I.byB (K.b p) (some (K.key p))

/-- Delete a record and both its index entries. -/
def remove (p : ρ) (I : Index κ α β ρ) : Index κ α β ρ where
  recs := Function.update I.recs (K.key p) none
  byA := Function.update I.byA (K.a p) none
  byB := Function.update I.byB (K.b p) none

omit [DecidableEq α] [DecidableEq β] in
/-- Overwrite the record under a key. -/
def rewrite (p : ρ) (I : Index κ α β ρ) : Index κ α β ρ :=
  { I with recs := Function.update I.recs (K.key p) (some p) }

variable {K}

/-- A record whose key and indexed values are all free can be inserted. -/
theorem OneToOne.insert (h : I.OneToOne K) (hk : I.recs (K.key p) = none)
    (ha : I.byA (K.a p) = none) (hb : I.byB (K.b p) = none) : (I.insert K p).OneToOne K := by
  -- a record that was there before differs from `p` in its key and both values
  have hold : ∀ {i q}, (I.insert K p).recs i = some q →
      (q = p ∧ i = K.key p) ∨ (I.recs i = some q ∧ K.key q ≠ K.key p ∧ K.a q ≠ K.a p ∧
        K.b q ≠ K.b p) := by
    intro i q hq
    simp only [Index.insert, Function.update_apply] at hq
    split at hq
    · rename_i hi
      exact .inl ⟨(Option.some.inj hq).symm, hi⟩
    · rename_i hi
      refine .inr ⟨hq, fun e => hi ((h.keyed hq).trans e), fun e => ?_, fun e => ?_⟩
      · have hqa := h.byA_of_rec hq
        rw [e, ha] at hqa
        cases hqa
      · have hqb := h.byB_of_rec hq
        rw [e, hb] at hqb
        cases hqb
  -- an entry of either index led to a record other than under the new key
  have hkey : ∀ {i q}, I.recs i = some q → i ≠ K.key p := by
    rintro i q hq rfl
    rw [hk] at hq
    cases hq
  constructor
  · intro i q hq
    rcases hold hq with ⟨rfl, hi⟩ | ⟨hq, -⟩
    · exact hi
    · exact h.keyed hq
  · intro i q hq
    rcases hold hq with ⟨rfl, -⟩ | ⟨hq, -, hqa, -⟩
    · exact Function.update_self ..
    · exact (Function.update_of_ne hqa ..).trans (h.byA_of_rec hq)
  · intro i q hq
    rcases hold hq with ⟨rfl, -⟩ | ⟨hq, -, -, hqb⟩
    · exact Function.update_self ..
    · exact (Function.update_of_ne hqb ..).trans (h.byB_of_rec hq)
  · intro x i hx
    simp only [Index.insert, Function.update_apply] at hx ⊢
    split at hx
    · rename_i hxa
      obtain rfl := Option.some.inj hx
      exact ⟨p, if_pos rfl, hxa.symm⟩
    · obtain ⟨q, hq, hqx⟩ := h.rec_of_byA hx
      exact ⟨q, by rw [if_neg (hkey hq), hq], hqx⟩
  · intro y i hy
    simp only [Index.insert, Function.update_apply] at hy ⊢
    split at hy
    · rename_i hyb
      obtain rfl := Option.some.inj hy
      exact ⟨p, if_pos rfl, hyb.symm⟩
    · obtain ⟨q, hq, hqy⟩ := h.rec_of_byB hy
      exact ⟨q, by rw [if_neg (hkey hq), hq], hqy⟩

/-- A stored record can be removed. -/
theorem OneToOne.remove (h : I.OneToOne K) (hp : I.recs i = some p) :
    (I.remove K p).OneToOne K := by
  -- a record that is left differs from `p` in both values
  have hold : ∀ {j q}, (I.remove K p).recs j = some q →
      I.recs j = some q ∧ K.a q ≠ K.a p ∧ K.b q ≠ K.b p := by
    intro j q hq
    simp only [Index.remove, Function.update_apply] at hq
    split at hq
    · cases hq
    · rename_i hj
      have hne : q ≠ p := fun e => hj ((h.keyed hq).trans (congrArg K.key e))
      exact ⟨hq, fun e => hne (h.eq_of_a hq hp e), fun e => hne (h.eq_of_b hq hp e)⟩
  constructor
  · exact fun hq => h.keyed (hold hq).1
  · intro j q hq
    obtain ⟨hq, hqa, -⟩ := hold hq
    exact (Function.update_of_ne hqa ..).trans (h.byA_of_rec hq)
  · intro j q hq
    obtain ⟨hq, -, hqb⟩ := hold hq
    exact (Function.update_of_ne hqb ..).trans (h.byB_of_rec hq)
  · intro x j hx
    simp only [Index.remove, Function.update_apply] at hx ⊢
    split at hx
    · cases hx
    · rename_i hxa
      obtain ⟨q, hq, rfl⟩ := h.rec_of_byA hx
      have hj : j ≠ K.key p := fun e =>
        hxa (congrArg K.a (h.eq_of_key hq hp ((h.keyed hq).symm.trans e)))
      exact ⟨q, by rw [if_neg hj, hq], rfl⟩
  · intro y j hy
    simp only [Index.remove, Function.update_apply] at hy ⊢
    split at hy
    · cases hy
    · rename_i hyb
      obtain ⟨q, hq, rfl⟩ := h.rec_of_byB hy
      have hj : j ≠ K.key p := fun e =>
        hyb (congrArg K.b (h.eq_of_key hq hp ((h.keyed hq).symm.trans e)))
      exact ⟨q, by rw [if_neg hj, hq], rfl⟩

omit [DecidableEq α] [DecidableEq β] in
/-- A stored record can be rewritten as long as it stays under its key and both values. -/
theorem OneToOne.rewrite (h : I.OneToOne K) (hp : I.recs i = some p) (hk : K.key q = K.key p)
    (ha : K.a q = K.a p) (hb : K.b q = K.b p) : (I.rewrite K q).OneToOne K := by
  -- every record stands for an old one with the same key and values, and the other way round
  have hold : ∀ {j r}, (I.rewrite K q).recs j = some r →
      ∃ r', I.recs j = some r' ∧ K.key r = K.key r' ∧ K.a r = K.a r' ∧ K.b r = K.b r' := by
    intro j r hr
    simp only [Index.rewrite, Function.update_apply] at hr
    split at hr
    · rename_i hj
      obtain rfl := Option.some.inj hr
      exact ⟨p, by rw [hj, hk, ← h.keyed hp, hp], hk, ha, hb⟩
    · exact ⟨r, hr, rfl, rfl, rfl⟩
  have hnew : ∀ {j r}, I.recs j = some r →
      ∃ r', (I.rewrite K q).recs j = some r' ∧ K.a r' = K.a r ∧ K.b r' = K.b r := by
    intro j r hr
    simp only [Index.rewrite, Function.update_apply]
    split
    · rename_i hj
      obtain rfl := h.eq_of_key hr hp ((h.keyed hr).symm.trans (hj.trans hk))
      exact ⟨q, rfl, ha, hb⟩
    · exact ⟨r, hr, rfl, rfl⟩
  constructor
  · intro j r hr
    obtain ⟨r', hr', hrk, -⟩ := hold hr
    rw [hrk]
    exact h.keyed hr'
  · intro j r hr
    obtain ⟨r', hr', hrk, hra, -⟩ := hold hr
    rw [hra, hrk]
    exact h.byA_of_rec hr'
  · intro j r hr
    obtain ⟨r', hr', hrk, -, hrb⟩ := hold hr
    rw [hrb, hrk]
    exact h.byB_of_rec hr'
  · intro x j hx
    obtain ⟨r, hr, rfl⟩ := h.rec_of_byA hx
    obtain ⟨r', hr', hra, -⟩ := hnew hr
    exact ⟨r', hr', hra⟩
  · intro y j hy
    obtain ⟨r, hr, rfl⟩ := h.rec_of_byB hy
    obtain ⟨r', hr', -, hrb⟩ := hnew hr
    exact ⟨r', hr', hrb⟩

/-- A stored record can be moved to another key and another value of the second index, as long
as no other record is there. -/
theorem OneToOne.rekey (h : I.OneToOne K) (hp : I.recs i = some p)
    (hk : ∀ r, I.recs (K.key q) = some r → r = p) (ha : K.a q = K.a p)
    (hb : K.b q = K.b p ∨ I.byB (K.b q) = none) :
    ((I.remove K p).insert K q).OneToOne K := by
  -- with `p` gone, its key and its second value are free
  refine (h.remove hp).insert ?_ ?_ ?_
  · simp only [Index.remove, Function.update_apply]
    split
    · rfl
    · rename_i hne
      cases hr : I.recs (K.key q) with
      | none => rfl
      | some r => exact absurd ((h.keyed hr).trans (congrArg K.key (hk r hr))) hne
  · simp only [Index.remove, Function.update_apply, ha, if_true]
  · simp only [Index.remove, Function.update_apply]
    rcases hb with hb | hb
    · rw [if_pos hb]
    · rw [hb]
      split <;> rfl

/-! ## Tables without the freshness checks -/

/-- Records sit under their keys, no record's first value is missing from its index, and the second
index does not dangle. Two records may share a value, and an index may lead to the other one. -/
structure Sound (K : IndexKeys κ α β ρ) (I : Index κ α β ρ) : Prop where
  keyed : ∀ {i p}, I.recs i = some p → i = K.key p
  byA_of_rec : ∀ {i p}, I.recs i = some p → I.byA (K.a p) ≠ none
  rec_of_byB : ∀ {y i}, I.byB y = some i → ∃ p, I.recs i = some p ∧ K.b p = y

omit [DecidableEq κ] [DecidableEq α] [DecidableEq β] in
/-- Two records that share their key are the same record. -/
theorem Sound.eq_of_key (h : I.Sound K) (hp : I.recs i = some p) (hq : I.recs j = some q)
    (hk : K.key p = K.key q) : p = q := by
  rw [h.keyed hp, hk, ← h.keyed hq, hq] at hp
  exact (Option.some.inj hp).symm

/-- Any record can be inserted, as long as the record it may replace has the same second value. -/
theorem Sound.insert (h : I.Sound K) (hb : ∀ r, I.recs (K.key p) = some r → K.b r = K.b p) :
    (I.insert K p).Sound K := by
  constructor
  · intro i q hq
    simp only [Index.insert, Function.update_apply] at hq
    split at hq
    · rename_i hi
      exact hi.trans (congrArg K.key (Option.some.inj hq))
    · exact h.keyed hq
  -- the first index may lead to another record, but it leads somewhere
  · intro i q hq
    simp only [Index.insert, Function.update_apply] at hq ⊢
    split at hq
    · obtain rfl := Option.some.inj hq
      rw [if_pos rfl]
      exact Option.some_ne_none _
    · split
      · exact Option.some_ne_none _
      · exact h.byA_of_rec hq
  · intro y i hy
    simp only [Index.insert, Function.update_apply] at hy ⊢
    split at hy
    · rename_i hyb
      obtain rfl := Option.some.inj hy
      exact ⟨p, if_pos rfl, hyb.symm⟩
    · obtain ⟨q, hq, hqy⟩ := h.rec_of_byB hy
      by_cases hi : i = K.key p
      · -- the record that is replaced has the second value of the new one
        subst hi
        exact ⟨p, if_pos rfl, (hb q hq).symm.trans hqy⟩
      · exact ⟨q, by rw [if_neg hi, hq], hqy⟩

omit [DecidableEq α] [DecidableEq β] in
/-- A stored record can be rewritten as long as it stays under its key and both values. -/
theorem Sound.rewrite (h : I.Sound K) (hp : I.recs i = some p) (hk : K.key q = K.key p)
    (ha : K.a q = K.a p) (hb : K.b q = K.b p) : (I.rewrite K q).Sound K := by
  constructor
  · intro j r hr
    simp only [Index.rewrite, Function.update_apply] at hr
    split at hr
    · rename_i hj
      exact hj.trans (congrArg K.key (Option.some.inj hr))
    · exact h.keyed hr
  · intro j r hr
    simp only [Index.rewrite, Function.update_apply] at hr ⊢
    split at hr
    · rw [← Option.some.inj hr, ha]
      exact h.byA_of_rec hp
    · exact h.byA_of_rec hr
  -- an entry that led to the rewritten record still does
  · intro y j hy
    obtain ⟨r, hr, rfl⟩ := h.rec_of_byB hy
    simp only [Index.rewrite, Function.update_apply]
    by_cases hj : j = K.key q
    · obtain rfl := h.eq_of_key hr hp ((h.keyed hr).symm.trans (hj.trans hk))
      exact ⟨q, by rw [if_pos hj], hb⟩
    · exact ⟨r, by rw [if_neg hj, hr], rfl⟩

/-- A stored record can be moved to another key and another second value, as long as the record it
may replace has that value. -/
theorem Sound.rekey (h : I.Sound K) (hp : I.recs i = some p)
    (hb : ∀ r, I.recs (K.key q) = some r → K.b r = K.b q) (ha : K.a q = K.a p) :
    ((I.remove K p).insert K q).Sound K := by
  constructor
  · intro j r hr
    simp only [Index.insert, Index.remove, Function.update_apply] at hr
    split at hr
    · rename_i hj
      exact hj.trans (congrArg K.key (Option.some.inj hr))
    · split at hr
      · cases hr
      · exact h.keyed hr
  -- the first index is written over at `p`'s value, which is that of `q`
  · intro j r hr
    simp only [Index.insert, Index.remove, Function.update_apply] at hr ⊢
    split
    · exact Option.some_ne_none _
    · rename_i hra
      rw [if_neg (ha ▸ hra)]
      split at hr
      · exact absurd (congrArg K.a (Option.some.inj hr).symm) hra
      · split at hr
        · cases hr
        · exact h.byA_of_rec hr
  · intro y j hy
    simp only [Index.insert, Index.remove, Function.update_apply] at hy ⊢
    split at hy
    · rename_i hyb
      obtain rfl := Option.some.inj hy
      exact ⟨q, if_pos rfl, hyb.symm⟩
    · rename_i hyq
      split at hy
      · cases hy
      · -- the entry led to a record that is neither the moved one nor under its new key
        rename_i hyp
        obtain ⟨r, hr, rfl⟩ := h.rec_of_byB hy
        have hj : j ≠ K.key q := fun e => hyq (hb r (e ▸ hr))
        have hne : j ≠ K.key p := fun e =>
          hyp (congrArg K.b (h.eq_of_key hr hp ((h.keyed hr).symm.trans e)))
        exact ⟨r, by rw [if_neg hj, if_neg hne, hr], rfl⟩

end Index

end GenesisEthermint.Foundation
