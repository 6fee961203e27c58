import Std.Data.ExtTreeMap.Lemmas

/-!
# Key-value Stores

A chain keeps its state in ordered key-value stores: a key is looked up, overwritten or
deleted, and a prefix is iterated in key order. `KVStore κ ν` is such a store over typed
keys and values, with the lookup laws stated once for every caller.
-/

namespace GenesisEthermint.Foundation

/-- An ordered key-value store. Two stores with the same lookups are equal. -/
abbrev KVStore (κ ν : Type) [Ord κ] := Std.ExtTreeMap κ ν compare

namespace KVStore

variable {κ ν : Type} [Ord κ] [Std.TransOrd κ]

/-- `store.Get(key)`. -/
def lookup (m : KVStore κ ν) (k : κ) : Option ν := m[k]?

/-- `store.Set(key, value)`. -/
def set (m : KVStore κ ν) (k : κ) (v : ν) : KVStore κ ν := m.insert k v

/-- `store.Delete(key)`. -/
def delete (m : KVStore κ ν) (k : κ) : KVStore κ ν := m.erase k

/-- `store.Has(key)`. -/
def has (m : KVStore κ ν) (k : κ) : Bool := (m.lookup k).isSome

/-- The entries in key order, as an iterator visits them. -/
def entries (m : KVStore κ ν) : List (κ × ν) := m.toList

variable {m : KVStore κ ν} {a k : κ} {v : ν}

theorem lookup_empty : (∅ : KVStore κ ν).lookup a = none := by
  simp [lookup]

theorem has_eq_false_iff : m.has a = false ↔ m.lookup a = none := by
  simp [has]

/-- The iterator visits exactly the stored entries. -/
theorem mem_entries_iff [Std.LawfulEqOrd κ] : (k, v) ∈ m.entries ↔ m.lookup k = some v :=
  Std.ExtTreeMap.mem_toList_iff_getElem?_eq_some

/-- A store is what its lookups say. -/
theorem ext_lookup [Std.LawfulEqOrd κ] {m n : KVStore κ ν}
    (h : ∀ k, m.lookup k = n.lookup k) : m = n :=
  Std.ExtTreeMap.ext_getElem? h

/-- The iterator visits no key twice. -/
theorem pairwise_entries [Std.LawfulEqOrd κ] : m.entries.Pairwise fun x y => x.1 ≠ y.1 :=
  Std.ExtTreeMap.distinct_keys_toList.imp fun h heq =>
    h (Std.LawfulEqOrd.compare_eq_iff_eq.mpr heq)

variable [Std.LawfulEqOrd κ] [DecidableEq κ]

theorem lookup_set : (m.set k v).lookup a = if a = k then some v else m.lookup a := by
  simp only [lookup, set, Std.ExtTreeMap.getElem?_insert, Std.LawfulEqOrd.compare_eq_iff_eq]
  simp only [eq_comm]

theorem lookup_delete : (m.delete k).lookup a = if a = k then none else m.lookup a := by
  simp only [lookup, delete, Std.ExtTreeMap.getElem?_erase, Std.LawfulEqOrd.compare_eq_iff_eq]
  simp only [eq_comm]

theorem lookup_set_self : (m.set k v).lookup k = some v := by
  rw [lookup_set, if_pos rfl]

theorem lookup_set_of_ne (h : a ≠ k) : (m.set k v).lookup a = m.lookup a := by
  rw [lookup_set, if_neg h]

end KVStore

end GenesisEthermint.Foundation
