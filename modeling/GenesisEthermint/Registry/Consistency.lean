import GenesisEthermint.Foundation.Index
import GenesisEthermint.Intrarelayer.System

/-!
# Registry Consistency

The three sub-stores are one table of pairs under two unique indexes, by denomination and by
contract address. The registry writes of the keeper are the table operations: a registration
and a genesis import insert, a toggle rewrites, and an update of the contract removes a pair
and inserts it again under its new key.
-/

namespace GenesisEthermint.Registry

open GenesisEthermint.Foundation GenesisEthermint.Types GenesisEthermint.Chain
open GenesisEthermint.Intrarelayer

variable {W : Type} (k : Keeper W)

/-! ## The registry as an indexed table -/

/-- Where a pair belongs: its ID, its denomination and its contract. -/
def pairKeys : IndexKeys (List UInt8) String Address TokenPair where
  key p := (p.getID k.tmhashSum).bytes
  a := TokenPair.denom
  b := TokenPair.getERC20Contract

/-- The lookups of the three sub-stores. -/
def table (r : Registry) : Index (List UInt8) String Address TokenPair where
  recs key := r.tokenPairs.lookup key
  byA d := (getDenomMap r d).map Hash.bytes
  byB a := (getERC20Map r a).map Hash.bytes

/-- **Consistency**: every pair sits under its ID and both its indexes lead to it, and every
index entry leads to a stored pair with that denomination or that contract. The contract of a
stored pair is spelled as an address. -/
structure RegistryConsistent (r : Registry) : Prop where
  stored_key : ∀ {key p}, r.tokenPairs.lookup key = some p → key = (p.getID k.tmhashSum).bytes
  stored_hex : ∀ {key p}, r.tokenPairs.lookup key = some p → isHexAddress p.erc20Address = true
  denom_of_stored : ∀ {key p}, r.tokenPairs.lookup key = some p →
    getDenomMap r p.denom = some (p.getID k.tmhashSum)
  erc20_of_stored : ∀ {key p}, r.tokenPairs.lookup key = some p →
    getERC20Map r p.getERC20Contract = some (p.getID k.tmhashSum)
  stored_of_denom : ∀ {d id}, getDenomMap r d = some id →
    ∃ p, r.tokenPairs.lookup id.bytes = some p ∧ p.denom = d
  stored_of_erc20 : ∀ {a id}, getERC20Map r a = some id →
    ∃ p, r.tokenPairs.lookup id.bytes = some p ∧ p.getERC20Contract = a

/-- The pair is in the store. -/
def Stored (r : Registry) (p : TokenPair) : Prop := ∃ key, r.tokenPairs.lookup key = some p

variable {k} {r : Registry} {p q : TokenPair} {id : Hash}

private theorem map_bytes_eq_some {o : Option Hash} :
    o.map Hash.bytes = some id.bytes ↔ o = some id := by
  cases o with
  | none => simp
  | some x => simp [Hash.ext_iff]

/-- Consistency is the one-to-one table, with contracts spelled as addresses. -/
theorem registryConsistent_iff_oneToOne : RegistryConsistent k r ↔
    (table r).OneToOne (pairKeys k) ∧
      ∀ key p, r.tokenPairs.lookup key = some p → isHexAddress p.erc20Address = true := by
  -- field by field; the index keeps the bytes of an identifier and no identifier
  constructor
  · intro h
    refine ⟨⟨h.stored_key, fun hp => ?_, fun hp => ?_, fun hd => ?_, fun ha => ?_⟩,
      fun _ _ hp => h.stored_hex hp⟩
    · exact map_bytes_eq_some.mpr (h.denom_of_stored hp)
    · exact map_bytes_eq_some.mpr (h.erc20_of_stored hp)
    · obtain ⟨id, hid, rfl⟩ := Option.map_eq_some_iff.mp hd
      exact h.stored_of_denom hid
    · obtain ⟨id, hid, rfl⟩ := Option.map_eq_some_iff.mp ha
      exact h.stored_of_erc20 hid
  · rintro ⟨h, hhex⟩
    refine ⟨h.keyed, fun hp => hhex _ _ hp, fun hp => ?_, fun hp => ?_, fun hd => ?_,
      fun ha => ?_⟩
    · exact map_bytes_eq_some.mp (h.byA_of_rec hp)
    · exact map_bytes_eq_some.mp (h.byB_of_rec hp)
    · exact h.rec_of_byA (map_bytes_eq_some.mpr hd)
    · exact h.rec_of_byB (map_bytes_eq_some.mpr ha)

namespace RegistryConsistent

/-- No two stored pairs share a denomination. -/
theorem eq_of_denom (h : RegistryConsistent k r) {i j : List UInt8}
    (hp : r.tokenPairs.lookup i = some p) (hq : r.tokenPairs.lookup j = some q)
    (hd : p.denom = q.denom) : p = q :=
  (registryConsistent_iff_oneToOne.mp h).1.eq_of_a hp hq hd

/-- No two stored pairs share a contract address. -/
theorem eq_of_contract (h : RegistryConsistent k r) {i j : List UInt8}
    (hp : r.tokenPairs.lookup i = some p) (hq : r.tokenPairs.lookup j = some q)
    (ha : p.getERC20Contract = q.getERC20Contract) : p = q :=
  (registryConsistent_iff_oneToOne.mp h).1.eq_of_b hp hq ha

/-- In a consistent registry a pair is found exactly where it is stored. -/
theorem getTokenPair_eq (h : RegistryConsistent k r) (id : Hash) :
    getTokenPair r id = r.tokenPairs.lookup id.bytes := by
  cases hp : r.tokenPairs.lookup id.bytes with
  | none => simp [getTokenPair, hp]
  | some p =>
    exact getTokenPair_eq_some_iff.mpr ⟨hp, ne_zeroPair_of_isHexAddress (h.stored_hex hp)⟩

/-- The pair a denomination leads to has that denomination. -/
theorem denom_of_getDenomMap (h : RegistryConsistent k r) {d : String}
    (hd : getDenomMap r d = some id) (hp : getTokenPair r id = some p) : p.denom = d := by
  obtain ⟨q, hq, hqd⟩ := h.stored_of_denom hd
  rw [h.getTokenPair_eq, hq] at hp
  exact Option.some.inj hp ▸ hqd

/-- The pair an address leads to has that contract. -/
theorem contract_of_getERC20Map (h : RegistryConsistent k r) {a : Address}
    (ha : getERC20Map r a = some id) (hp : getTokenPair r id = some p) :
    p.getERC20Contract = a := by
  obtain ⟨q, hq, hqa⟩ := h.stored_of_erc20 ha
  rw [h.getTokenPair_eq, hq] at hp
  exact Option.some.inj hp ▸ hqa

/-- Two stored pairs are the same pair or have nothing in common. -/
theorem apart (h : RegistryConsistent k r) (hp : Stored r p) (hq : Stored r q) :
    q = p ∨ (q.denom ≠ p.denom ∧ q.getERC20Contract ≠ p.getERC20Contract) := by
  obtain ⟨_, hp⟩ := hp
  obtain ⟨_, hq⟩ := hq
  by_cases heq : q = p
  · exact .inl heq
  · exact .inr ⟨fun hd => heq (h.eq_of_denom hq hp hd), fun ha => heq (h.eq_of_contract hq hp ha)⟩

/-- The pair a token text leads to: by contract if it is spelled as an address, and by
denomination otherwise. -/
theorem stored_of_found {token : String} (h : RegistryConsistent k r)
    (hid : getTokenPairID r token = some id) (hp : getTokenPair r id = some p) :
    Stored r p ∧ (isHexAddress token = true → p.getERC20Contract = hexToAddress token) ∧
      (isHexAddress token = false → p.denom = token) := by
  refine ⟨⟨id.bytes, (h.getTokenPair_eq id).symm.trans hp⟩, fun hx => ?_, fun hx => ?_⟩
  · rw [getTokenPairID_of_isHexAddress hx] at hid
    exact h.contract_of_getERC20Map hid hp
  · rw [getTokenPairID_of_not_isHexAddress hx] at hid
    exact h.denom_of_getDenomMap hid hp

/-- The hook finds a stored pair exactly at its contract. -/
theorem pairOfContract_eq_some_iff {a : Address} (h : RegistryConsistent k r) :
    pairOfContract r a = some p ↔ Stored r p ∧ p.getERC20Contract = a := by
  rw [pairOfContract, Option.bind_eq_some_iff]
  constructor
  · rintro ⟨id, hid, hp⟩
    exact ⟨⟨id.bytes, (h.getTokenPair_eq id).symm.trans hp⟩, h.contract_of_getERC20Map hid hp⟩
  · rintro ⟨⟨key, hp⟩, rfl⟩
    refine ⟨_, h.erc20_of_stored hp, ?_⟩
    rw [h.getTokenPair_eq, ← h.stored_key hp]
    exact hp

/-- A stored pair is found under its ID. -/
theorem getTokenPair_getID (h : RegistryConsistent k r) (hp : Stored r p) :
    getTokenPair r (p.getID k.tmhashSum) = some p := by
  obtain ⟨key, hp⟩ := hp
  rw [h.getTokenPair_eq, ← h.stored_key hp, hp]

/-- Every spelling of the contract leads to the pair. -/
theorem getTokenPairID_of_hexSpelling {token : String} (h : RegistryConsistent k r)
    (hp : Stored r p) (hx : HexSpelling token p.getERC20Contract) :
    getTokenPairID r token = some (p.getID k.tmhashSum) := by
  obtain ⟨key, hp⟩ := hp
  obtain ⟨hhex, haddr⟩ := hexSpelling_iff.mp hx
  rw [getTokenPairID_of_isHexAddress hhex, haddr]
  exact h.erc20_of_stored hp

/-- The denomination leads to the pair, unless it is spelled as an address. -/
theorem getTokenPairID_denom (h : RegistryConsistent k r) (hp : Stored r p)
    (hx : isHexAddress p.denom = false) :
    getTokenPairID r p.denom = some (p.getID k.tmhashSum) := by
  obtain ⟨key, hp⟩ := hp
  rw [getTokenPairID_of_not_isHexAddress hx]
  exact h.denom_of_stored hp

/-- A token that leads to the ID of a stored pair leads to no other pair. -/
theorem eq_of_found {token : String} {q : TokenPair} (h : RegistryConsistent k r)
    (hp : Stored r p) (hid : getTokenPairID r token = some (p.getID k.tmhashSum))
    (hfound : ∃ id, getTokenPairID r token = some id ∧ getTokenPair r id = some q) : p = q := by
  obtain ⟨id, hid', hq⟩ := hfound
  obtain rfl := Option.some.inj (hid.symm.trans hid')
  exact Option.some.inj ((h.getTokenPair_getID hp).symm.trans hq)

end RegistryConsistent

/-! ## Registry writes as table operations -/

variable (k) (p r)

theorem table_setTokenPair : table (setTokenPair k p r) = (table r).rewrite (pairKeys k) p := by
  ext1
  · funext key
    simp only [table, setTokenPair, KVStore.lookup_set, Index.rewrite, Function.update_apply,
      pairKeys]
  · rfl
  · rfl

theorem table_importPair : table (importPair k r p) = (table r).insert (pairKeys k) p := by
  ext1
  · funext key
    simp only [table, importPair, setERC20Map, setDenomMap, setTokenPair, KVStore.lookup_set,
      Index.insert, Function.update_apply, pairKeys]
  · funext d
    simp only [table, importPair, setERC20Map, setDenomMap, setTokenPair, getDenomMap,
      KVStore.lookup_set, Index.insert, Function.update_apply, pairKeys]
    split <;> rfl
  · funext a
    simp only [table, importPair, getERC20Map_set, Index.insert, Function.update_apply,
      pairKeys]
    split <;> rfl

/-- A registration writes what a genesis import writes. -/
theorem registerPair_eq_importPair : registerPair k p r = importPair k r p := rfl

theorem table_movePair (old new : Address) (hold : p.getERC20Contract = old) :
    table (movePair k p old new r) =
      ((table r).remove (pairKeys k) p).insert (pairKeys k)
        { p with erc20Address := new.hex k.keccak256 } := by
  -- the three tables; the keys differ in the contract table only through `hold`
  ext1
  · funext key
    simp only [table, movePair, setERC20Map, deleteERC20Map, setDenomMap, setTokenPair,
      deleteTokenPair, KVStore.lookup_set, KVStore.lookup_delete, Index.insert, Index.remove,
      Function.update_apply, pairKeys]
  · funext d
    simp only [table, movePair, setERC20Map, deleteERC20Map, setDenomMap, setTokenPair,
      deleteTokenPair, getDenomMap, KVStore.lookup_set, Index.insert, Index.remove,
      Function.update_apply, pairKeys]
    split <;> rfl
  · funext a
    subst hold
    simp only [table, movePair, getERC20Map_set, getERC20Map_delete, Index.insert,
      Index.remove, Function.update_apply, pairKeys, TokenPair.getERC20Contract]
    split
    · rfl
    · split <;> rfl

end GenesisEthermint.Registry
