import GenesisEthermint.Foundation.Pages
import GenesisEthermint.Foundation.Store
import Mathlib.Data.List.TakeWhile
import Mathlib.Order.RelClasses

/-!
# Prefix Stores

A module has one flat store of bytes, and gives each kind of entry a prefix of its own. A prefix
store is the part of the flat store under one prefix: its keys are what follows the prefix, and
its iterator runs over the range of keys from the prefix up to the prefix's successor.

That range holds exactly the keys that begin with the prefix, so the iterator of the flat store
visits the entries of the prefix store, in the order of their own keys.
-/

namespace GenesisEthermint.Foundation

/-- A flat store. -/
abbrev ByteStore := KVStore (List UInt8) (List UInt8)

/-! ## §1 The order of keys -/

/-- `bytes.Compare(a, b) < 0`. -/
def KeyLt (a b : List UInt8) : Prop := compare a b = .lt

instance (a b : List UInt8) : Decidable (KeyLt a b) := inferInstanceAs (Decidable (_ = _))

theorem keyLt_irrefl (a : List UInt8) : ¬ KeyLt a a := by
  rw [KeyLt, Std.LawfulEqOrd.compare_eq_iff_eq.mpr rfl]
  decide

theorem keyLt_trans {a b c : List UInt8} (hab : KeyLt a b) (hbc : KeyLt b c) : KeyLt a c :=
  Std.TransCmp.lt_trans hab hbc

theorem keyLt_asymm {a b : List UInt8} (h : KeyLt a b) : ¬ KeyLt b a := fun h' =>
  keyLt_irrefl a (keyLt_trans h h')

theorem keyLt_trichotomy (a b : List UInt8) : KeyLt a b ∨ a = b ∨ KeyLt b a := by
  cases h : compare a b with
  | lt => exact .inl h
  | eq => exact .inr (.inl (Std.LawfulEqOrd.compare_eq_iff_eq.mp h))
  | gt => exact .inr (.inr (Std.OrientedCmp.lt_of_gt h))

instance : IsStrictTotalOrder (List UInt8) KeyLt where
  trichotomous a b hab hba := ((keyLt_trichotomy a b).resolve_left hab).resolve_right hba
  irrefl := keyLt_irrefl
  trans _ _ _ := keyLt_trans

/-- The order an iterator visits keys in, forward or in reverse. -/
def KeyBefore (reverse : Bool) (a b : List UInt8) : Prop := if reverse then KeyLt b a else KeyLt a b

instance (reverse : Bool) : DecidableRel (KeyBefore reverse) := fun a b =>
  inferInstanceAs (Decidable (if reverse = true then KeyLt b a else KeyLt a b))

instance (reverse : Bool) : IsStrictTotalOrder (List UInt8) (KeyBefore reverse) := by
  cases reverse with
  | false => exact inferInstanceAs (IsStrictTotalOrder _ KeyLt)
  | true => exact inferInstanceAs (IsStrictTotalOrder _ (Function.swap KeyLt))

theorem compare_cons (a b : UInt8) (as bs : List UInt8) :
    compare (a :: as) (b :: bs) = (compare a b).then (compare as bs) :=
  List.compareLex_cons_cons

/-- Keys with a common first byte are ordered by what follows it. -/
theorem keyLt_cons_self {a : UInt8} {as bs : List UInt8} :
    KeyLt (a :: as) (a :: bs) ↔ KeyLt as bs := by
  rw [KeyLt, KeyLt, compare_cons, Std.LawfulEqOrd.compare_eq_iff_eq.mpr rfl]
  rfl

theorem keyLt_cons_of_lt {a b : UInt8} {as bs : List UInt8} (h : a < b) :
    KeyLt (a :: as) (b :: bs) := by
  rw [KeyLt, compare_cons, Std.compare_eq_lt.mpr h]
  rfl

theorem keyLt_nil {a : List UInt8} : ¬ KeyLt a [] := by
  cases a with
  | nil => exact keyLt_irrefl []
  | cons a as => exact fun h => nomatch h

theorem keyLt_append {p a b : List UInt8} : KeyLt (p ++ a) (p ++ b) ↔ KeyLt a b := by
  induction p with
  | nil => rfl
  | cons c p ih => rw [List.cons_append, List.cons_append, keyLt_cons_self, ih]

/-! ## §2 The successor of a prefix -/

/-- The loop of `PrefixEndBytes`, over the bytes from the last one on. -/
def prefixEndLoop : List UInt8 → Option (List UInt8)
  | [] => none
  | b :: rest => if b ≠ 255 then some ((b + 1) :: rest).reverse else prefixEndLoop rest

/-- `PrefixEndBytes`: the first key behind all keys with the prefix, if there is one. -/
def prefixEndBytes (pre : List UInt8) : Option (List UInt8) := prefixEndLoop pre.reverse

theorem prefixEndLoop_append {rest : List UInt8} {a : UInt8} :
    prefixEndLoop (rest ++ [a]) =
      match prefixEndLoop rest with
      | some e => some (a :: e)
      | none => if a ≠ 255 then some [a + 1] else none := by
  induction rest with
  | nil =>
    simp only [List.nil_append, prefixEndLoop]
    split <;> rfl
  | cons b rest ih =>
    simp only [List.cons_append, prefixEndLoop, ih]
    by_cases hb : b = 255
    · simp [hb]
    · simp [hb]

theorem prefixEndBytes_cons {a : UInt8} {pre : List UInt8} :
    prefixEndBytes (a :: pre) =
      match prefixEndBytes pre with
      | some e => some (a :: e)
      | none => if a ≠ 255 then some [a + 1] else none := by
  rw [prefixEndBytes, List.reverse_cons, prefixEndLoop_append]
  rfl

/-- `start ≤ key < end`, an absent end being no bound. -/
def InRange (start : List UInt8) (stop : Option (List UInt8)) (key : List UInt8) : Prop :=
  ¬ KeyLt key start ∧ ∀ e, stop = some e → KeyLt key e

instance (start : List UInt8) (stop : Option (List UInt8)) (key : List UInt8) :
    Decidable (InRange start stop key) :=
  match stop with
  | none => decidable_of_iff (¬ KeyLt key start) (by simp [InRange])
  | some e => decidable_of_iff (¬ KeyLt key start ∧ KeyLt key e) (by simp [InRange])

theorem lt_add_one_of_ne {a : UInt8} (h : a ≠ 255) : a < a + 1 := by
  have hne : a.toNat ≠ 255 := fun h' => h (UInt8.toNat_inj.mp h')
  have hlt := a.toNat_lt
  rw [UInt8.lt_iff_toNat_lt, UInt8.toNat_add]
  show a.toNat < (a.toNat + 1) % 256
  omega

theorem eq_or_add_one_lt_of_lt {a b : UInt8} (h : a < b) : b = a + 1 ∨ a + 1 < b := by
  have hlt := b.toNat_lt
  rw [UInt8.lt_iff_toNat_lt] at h
  have hsucc : (a + 1).toNat = a.toNat + 1 := by
    rw [UInt8.toNat_add]
    show (a.toNat + 1) % 256 = a.toNat + 1
    omega
  rw [← UInt8.toNat_inj, UInt8.lt_iff_toNat_lt, hsucc]
  omega

theorem ne_255_of_lt {a b : UInt8} (h : a < b) : a ≠ 255 := by
  rintro rfl
  have := b.toNat_lt
  rw [UInt8.lt_iff_toNat_lt] at h
  exact absurd h (show ¬ 255 < b.toNat by omega)

section Range

variable {a b : UInt8} {pre key : List UInt8}

/-- A higher first byte is behind the successor. -/
theorem not_inRange_of_lt (h : a < b) :
    ¬ InRange (a :: pre) (prefixEndBytes (a :: pre)) (b :: key) := by
  rintro ⟨-, hstop⟩
  rw [prefixEndBytes_cons] at hstop
  cases hend : prefixEndBytes pre with
  | some e =>
    rw [hend] at hstop
    exact keyLt_asymm (hstop _ rfl) (keyLt_cons_of_lt h)
  | none =>
    rw [hend] at hstop
    have hlt := hstop _ (if_pos (ne_255_of_lt h))
    rcases eq_or_add_one_lt_of_lt h with rfl | h
    · exact keyLt_nil (keyLt_cons_self.mp hlt)
    · exact keyLt_asymm hlt (keyLt_cons_of_lt h)

/-- Behind a common first byte the bounds are those of what follows. -/
theorem inRange_cons_self :
    InRange (a :: pre) (prefixEndBytes (a :: pre)) (a :: key) ↔
      InRange pre (prefixEndBytes pre) key := by
  rw [InRange, InRange, keyLt_cons_self, prefixEndBytes_cons]
  cases prefixEndBytes pre with
  | some e => simp [keyLt_cons_self]
  | none =>
    by_cases h255 : a = 255
    · simp [h255]
    · simp [h255, keyLt_cons_of_lt (lt_add_one_of_ne h255)]

end Range

/-- **The range of a prefix holds the keys that begin with it**, and no others. The induction
is on the prefix, with the first bytes compared. -/
theorem inRange_prefix_iff {pre key : List UInt8} :
    InRange pre (prefixEndBytes pre) key ↔ pre <+: key := by
  induction pre generalizing key with
  | nil =>
    have hend : prefixEndBytes [] = none := rfl
    simp [InRange, hend, keyLt_nil]
  | cons a pre ih =>
    cases key with
    | nil =>
      have hlt : KeyLt [] (a :: pre) := rfl
      simp [InRange, hlt]
    | cons b key =>
      rw [List.cons_prefix_cons]
      rcases Std.lt_trichotomy a b with hlt | rfl | hlt
      · have hne : a ≠ b := UInt8.ne_of_lt hlt
        simp [not_inRange_of_lt hlt, hne]
      · rw [inRange_cons_self, ih]
        simp
      · have hne : a ≠ b := (UInt8.ne_of_lt hlt).symm
        simp [InRange, keyLt_cons_of_lt hlt, hne]

/-! ## §3 The store under a prefix -/

namespace ByteStore

/-- `prefix.NewStore(store, pre).Get(key)`. -/
def get (pre : List UInt8) (m : ByteStore) (key : List UInt8) : Option (List UInt8) :=
  m.lookup (pre ++ key)

/-- `prefix.NewStore(store, pre).Has(key)`. -/
def has (pre : List UInt8) (m : ByteStore) (key : List UInt8) : Bool := KVStore.has m (pre ++ key)

/-- `prefix.NewStore(store, pre).Set(key, value)`; `none` is the panic on an empty key. -/
def set (pre : List UInt8) (m : ByteStore) (key value : List UInt8) : Option ByteStore :=
  if key = [] then none else some (KVStore.set m (pre ++ key) value)

/-- `prefix.NewStore(store, pre).Delete(key)`. -/
def delete (pre : List UInt8) (m : ByteStore) (key : List UInt8) : ByteStore :=
  KVStore.delete m (pre ++ key)

/-- The entries `store.Iterator(start, stop)` visits. -/
def iterator (start : List UInt8) (stop : Option (List UInt8)) (m : ByteStore) :
    List (List UInt8 × List UInt8) :=
  m.entries.filter fun e => InRange start stop e.1

/-- `KVStorePrefixIterator`. -/
def prefixIterator (pre : List UInt8) (m : ByteStore) : List (List UInt8 × List UInt8) :=
  m.iterator pre (prefixEndBytes pre)

/-- The entries of the store under a prefix: the iterator's, without the prefix. -/
def subEntries (pre : List UInt8) (m : ByteStore) : List (List UInt8 × List UInt8) :=
  (m.prefixIterator pre).map fun e => (e.1.drop pre.length, e.2)

variable {pre other start key key' value : List UInt8} {stop : Option (List UInt8)}
  {m m' : ByteStore}

theorem mem_iterator_iff :
    (key, value) ∈ m.iterator start stop ↔ m.lookup key = some value ∧ InRange start stop key := by
  rw [iterator, List.mem_filter, KVStore.mem_entries_iff, decide_eq_true_iff]

theorem mem_prefixIterator_iff :
    (key, value) ∈ m.prefixIterator pre ↔ m.lookup key = some value ∧ pre <+: key := by
  rw [prefixIterator, mem_iterator_iff, inRange_prefix_iff]

/-- An iterator visits the keys in ascending order. -/
theorem ordered_iterator : Ordered Prod.fst KeyLt (m.iterator start stop) :=
  Std.ExtTreeMap.ordered_keys_toList.filter _

theorem mem_subEntries_iff :
    (key, value) ∈ m.subEntries pre ↔ m.get pre key = some value := by
  rw [subEntries, List.mem_map]
  constructor
  · rintro ⟨⟨k, v⟩, hmem, heq⟩
    obtain ⟨hlookup, rest, rfl⟩ := mem_prefixIterator_iff.mp hmem
    simp only [List.drop_left, Prod.mk.injEq] at heq
    obtain ⟨rfl, rfl⟩ := heq
    exact hlookup
  · intro h
    refine ⟨(pre ++ key, value), mem_prefixIterator_iff.mpr ⟨h, List.prefix_append _ _⟩, ?_⟩
    rw [List.drop_left]

/-- Entries with a common prefix are in the order of what follows it. -/
theorem ordered_drop_prefix {es : List (List UInt8 × List UInt8)}
    (h : Ordered Prod.fst KeyLt es) (hpre : ∀ x ∈ es, pre <+: x.1) :
    Ordered Prod.fst KeyLt (es.map fun e => (e.1.drop pre.length, e.2)) := by
  rw [Ordered, List.pairwise_map]
  apply List.Pairwise.imp_of_mem _ h
  intro x y hx hy hlt
  obtain ⟨restx, hrestx⟩ := hpre x hx
  obtain ⟨resty, hresty⟩ := hpre y hy
  rw [← hrestx, ← hresty, keyLt_append] at hlt
  rwa [← hrestx, ← hresty, List.drop_left, List.drop_left]

/-- The entries under a prefix come in the order of their own keys. -/
theorem ordered_subEntries : Ordered Prod.fst KeyLt (m.subEntries pre) :=
  ordered_drop_prefix ordered_iterator fun _ hx => (mem_prefixIterator_iff.mp hx).2

/-! ### The iterator of a prefix store -/

/-- The end of a range under a prefix as a key of the flat store. -/
def flatBound (pre : List UInt8) : Option (List UInt8) → Option (List UInt8)
  | none => prefixEndBytes pre
  | some e => some (pre ++ e)

/-- `prefix.NewStore(store, pre).Iterator(start, stop)`: it ends at the first key of the flat
store that does not begin with the prefix. -/
def subIterator (pre start : List UInt8) (stop : Option (List UInt8)) (m : ByteStore) :
    List (List UInt8 × List UInt8) :=
  ((m.iterator (pre ++ start) (flatBound pre stop)).takeWhile fun e =>
    pre.isPrefixOf e.1).map fun e => (e.1.drop pre.length, e.2)

/-- `prefix.NewStore(store, pre).ReverseIterator(start, stop)`. -/
def subReverseIterator (pre start : List UInt8) (stop : Option (List UInt8)) (m : ByteStore) :
    List (List UInt8 × List UInt8) :=
  ((m.iterator (pre ++ start) (flatBound pre stop)).reverse.takeWhile fun e =>
    pre.isPrefixOf e.1).map fun e => (e.1.drop pre.length, e.2)

theorem keyLt_of_keyLt_append (h : KeyLt key pre) : KeyLt key (pre ++ start) := by
  cases start with
  | nil => rwa [List.append_nil]
  | cons a start =>
    have hlt : KeyLt (pre ++ []) (pre ++ a :: start) := keyLt_append.mpr rfl
    rw [List.append_nil] at hlt
    exact keyLt_trans h hlt

/-- A key between two keys with a common prefix has it too. -/
theorem prefix_of_inRange_append {e : List UInt8}
    (h : InRange (pre ++ start) (some (pre ++ e)) key) : pre <+: key := by
  induction pre generalizing key with
  | nil => exact List.nil_prefix
  | cons a pre ih =>
    obtain ⟨hstart, hstop⟩ := h
    have hstop := hstop _ rfl
    cases key with
    | nil => exact absurd rfl hstart
    | cons b key =>
      rw [List.cons_append] at hstart hstop
      rcases Std.lt_trichotomy a b with hlt | rfl | hlt
      · exact absurd (keyLt_cons_of_lt hlt) (keyLt_asymm hstop)
      · rw [keyLt_cons_self] at hstart hstop
        rw [List.cons_prefix_cons]
        exact ⟨rfl, ih ⟨hstart, fun _ heq => Option.some.inj heq ▸ hstop⟩⟩
      · exact absurd (keyLt_cons_of_lt hlt) hstart

theorem prefix_of_inRange_flatBound (h : InRange (pre ++ start) (flatBound pre stop) key) :
    pre <+: key := by
  cases stop with
  | none => exact inRange_prefix_iff.mp ⟨fun hlt => h.1 (keyLt_of_keyLt_append hlt), h.2⟩
  | some e => exact prefix_of_inRange_append h

/-- The bounds of the flat range are those of the keys behind the prefix. -/
theorem inRange_flatBound_iff :
    InRange (pre ++ start) (flatBound pre stop) (pre ++ key) ↔ InRange start stop key := by
  rw [InRange, InRange, keyLt_append]
  cases stop with
  | none =>
    have hself := inRange_prefix_iff.mpr (List.prefix_append pre key)
    simp only [reduceCtorEq, false_implies, implies_true, and_true]
    exact ⟨fun h => h.1, fun h => ⟨h, hself.2⟩⟩
  | some e => simp [flatBound, keyLt_append]

/-- The prefix store's iterator never meets a key without the prefix. -/
theorem isPrefixOf_of_mem_iterator {x : List UInt8 × List UInt8}
    (hx : x ∈ m.iterator (pre ++ start) (flatBound pre stop)) : pre.isPrefixOf x.1 = true :=
  List.isPrefixOf_iff_prefix.mpr (prefix_of_inRange_flatBound (mem_iterator_iff.mp hx).2)

theorem subIterator_eq_map :
    m.subIterator pre start stop =
      (m.iterator (pre ++ start) (flatBound pre stop)).map fun e =>
        (e.1.drop pre.length, e.2) := by
  rw [subIterator, List.takeWhile_eq_self_iff.mpr fun x hx => isPrefixOf_of_mem_iterator hx]

/-- The reverse iterator visits the same entries from the last to the first. -/
theorem subReverseIterator_eq_reverse :
    m.subReverseIterator pre start stop = (m.subIterator pre start stop).reverse := by
  rw [subReverseIterator, subIterator_eq_map, ← List.map_reverse,
    List.takeWhile_eq_self_iff.mpr fun x hx => isPrefixOf_of_mem_iterator (List.mem_reverse.mp hx)]

theorem mem_subIterator_iff :
    (key, value) ∈ m.subIterator pre start stop ↔
      m.get pre key = some value ∧ InRange start stop key := by
  rw [subIterator_eq_map, List.mem_map]
  constructor
  · rintro ⟨⟨k, v⟩, hmem, heq⟩
    obtain ⟨hlookup, hrange⟩ := mem_iterator_iff.mp hmem
    obtain ⟨rest, rfl⟩ := prefix_of_inRange_flatBound hrange
    simp only [List.drop_left, Prod.mk.injEq] at heq
    obtain ⟨rfl, rfl⟩ := heq
    exact ⟨hlookup, inRange_flatBound_iff.mp hrange⟩
  · rintro ⟨hget, hrange⟩
    refine ⟨(pre ++ key, value),
      mem_iterator_iff.mpr ⟨hget, inRange_flatBound_iff.mpr hrange⟩, ?_⟩
    rw [List.drop_left]

/-- **The iterator of a prefix store** visits its entries in the range of their own keys. -/
theorem subIterator_eq_filter :
    m.subIterator pre start stop =
      (m.subEntries pre).filter fun e => InRange start stop e.1 := by
  have hiterator : Ordered Prod.fst KeyLt (m.subIterator pre start stop) := by
    rw [subIterator_eq_map]
    apply ordered_drop_prefix ordered_iterator
    intro x hx
    exact prefix_of_inRange_flatBound (mem_iterator_iff.mp hx).2
  apply hiterator.eq_of_mem_iff
  · exact ordered_subEntries.filter _
  · rintro ⟨key, value⟩
    rw [mem_subIterator_iff, List.mem_filter, mem_subEntries_iff, decide_eq_true_iff]

/-! ### Writes under one prefix and reads under another -/

/-- Two prefixes of which neither begins the other. -/
def Apart (pre other : List UInt8) : Prop := ¬ pre <+: other ∧ ¬ other <+: pre

theorem Apart.append_ne (h : Apart pre other) : pre ++ key ≠ other ++ key' := by
  intro heq
  rcases List.append_eq_append_iff.mp heq with ⟨t, ht, -⟩ | ⟨t, ht, -⟩
  · exact h.1 ⟨t, ht.symm⟩
  · exact h.2 ⟨t, ht.symm⟩

theorem get_set_self (h : m.set pre key value = some m') :
    m'.get pre key' = if key' = key then some value else m.get pre key' := by
  unfold set at h
  split at h
  · cases h
  · cases h
    rw [get, KVStore.lookup_set]
    simp only [List.append_cancel_left_eq]
    rfl

theorem get_set_apart (hapart : Apart other pre) (h : m.set pre key value = some m') :
    m'.get other key' = m.get other key' := by
  unfold set at h
  split at h
  · cases h
  · cases h
    rw [get, KVStore.lookup_set, if_neg hapart.append_ne]
    rfl

theorem get_delete_self :
    (m.delete pre key).get pre key' = if key' = key then none else m.get pre key' := by
  rw [get, delete, KVStore.lookup_delete]
  simp only [List.append_cancel_left_eq]
  rfl

theorem get_delete_apart (hapart : Apart other pre) :
    (m.delete pre key).get other key' = m.get other key' := by
  rw [get, delete, KVStore.lookup_delete, if_neg hapart.append_ne]
  rfl

end ByteStore

/-! ## §4 Typed values under a prefix -/

section Typed

variable {β : Type}

/-- **A store of values under a prefix**: if the flat store holds under the prefix the bytes of
the values of a typed store, its iterator visits the bytes of the typed store's entries. -/
theorem subEntries_eq_map {pre : List UInt8} {m : ByteStore} {store : KVStore (List UInt8) β}
    {bytes : β → List UInt8} (h : ∀ key, m.get pre key = (store.lookup key).map bytes) :
    m.subEntries pre = store.entries.map fun e => (e.1, bytes e.2) := by
  apply ByteStore.ordered_subEntries.eq_of_mem_iff
  · rw [Ordered, List.pairwise_map]
    exact Std.ExtTreeMap.ordered_keys_toList
  · rintro ⟨key, value⟩
    rw [ByteStore.mem_subEntries_iff, h, List.mem_map, Option.map_eq_some_iff]
    constructor
    · rintro ⟨v, hlookup, rfl⟩
      exact ⟨(key, v), KVStore.mem_entries_iff.mpr hlookup, rfl⟩
    · rintro ⟨⟨k, v⟩, hmem, heq⟩
      simp only [Prod.mk.injEq] at heq
      obtain ⟨rfl, rfl⟩ := heq
      exact ⟨v, KVStore.mem_entries_iff.mp hmem, rfl⟩

end Typed

end GenesisEthermint.Foundation
