import GenesisEthermint.Foundation.PrefixStore
import GenesisEthermint.Wire.RoundTrip
import GenesisEthermint.Registry.Genesis

/-!
# The Token Pair Store in Bytes

The keeper's three sub-stores are one store of bytes: a pair is kept as its protobuf bytes under
the first prefix, and its ID under the second by the contract's bytes and under the third by the
denomination's. The functions here are the keeper's on that store.

The registry of pairs is what they store: every write of the one is a write of the other, and
every read returns the same, so that what is proved about the registry holds of the bytes.
-/

namespace GenesisEthermint.Wire

open GenesisEthermint.Foundation
open GenesisEthermint.Types (Address Hash isHexAddress hexToAddress)

/-! ## §1 The keeper on bytes -/

def KeyPrefixTokenPair : GoString := [1]
def KeyPrefixTokenPairByERC20 : GoString := [2]
def KeyPrefixTokenPairByDenom : GoString := [3]

/-- How the keeper's use of the store stops with a panic. -/
inductive StorePanic where
  /-- An index out of range in `MustMarshal`. -/
  | marshal
  | mustUnmarshal (e : WireError)
  /-- `key is nil`, which an empty key is taken for. -/
  | keyIsNil
  deriving DecidableEq, Repr

/-- `TokenPair.GetID`. -/
def TokenPair.getID (sum : GoString → Hash) (p : TokenPair) : Hash :=
  sum (p.erc20Address ++ utf8 "|" ++ p.denom)

/-- `store.Set` under a prefix. -/
def storeSet (pre : List UInt8) (m : ByteStore) (key value : List UInt8) :
    Except StorePanic ByteStore :=
  match m.set pre key value with
  | none => .error .keyIsNil
  | some m' => .ok m'

/-- `cdc.MustUnmarshal`. -/
def mustUnmarshal (bz : List UInt8) : Except StorePanic TokenPair :=
  match TokenPair.unmarshal bz with
  | .error e => .error (.mustUnmarshal e)
  | .ok p => .ok p

/-- `GetAllTokenPairs`. -/
def getAllTokenPairs (m : ByteStore) : Except StorePanic (List TokenPair) :=
  (m.prefixIterator KeyPrefixTokenPair).mapM fun e => mustUnmarshal e.2

/-- `GetERC20Map`. -/
def getERC20Map (m : ByteStore) (erc20 : Address) : Option (List UInt8) :=
  m.get KeyPrefixTokenPairByERC20 erc20.bytes

/-- `GetDenomMap`. -/
def getDenomMap (m : ByteStore) (denom : String) : Option (List UInt8) :=
  m.get KeyPrefixTokenPairByDenom (utf8 denom)

/-- `GetTokenPairID`. -/
def getTokenPairID (m : ByteStore) (token : String) : Option (List UInt8) :=
  if isHexAddress token then getERC20Map m (hexToAddress token) else getDenomMap m token

/-- `GetTokenPair`, of a `nil` ID or of bytes. -/
def getTokenPair (m : ByteStore) (id : Option (List UInt8)) :
    Except StorePanic (Option TokenPair) :=
  match id with
  | none => .ok none
  | some id =>
    match m.get KeyPrefixTokenPair id with
    | none => .ok none
    | some bz => if bz = [] then .ok none else (mustUnmarshal bz).map some

/-- `SetTokenPair`. -/
def setTokenPair (sum : GoString → Hash) (p : TokenPair) (m : ByteStore) :
    Except StorePanic ByteStore :=
  match p.marshal with
  | none => .error .marshal
  | some bz => storeSet KeyPrefixTokenPair m (p.getID sum).bytes bz

/-- `DeleteTokenPair`. -/
def deleteTokenPair (sum : GoString → Hash) (p : TokenPair) (m : ByteStore) : ByteStore :=
  m.delete KeyPrefixTokenPair (p.getID sum).bytes

/-- `SetERC20Map`. -/
def setERC20Map (erc20 : Address) (id : List UInt8) (m : ByteStore) :
    Except StorePanic ByteStore :=
  storeSet KeyPrefixTokenPairByERC20 m erc20.bytes id

/-- `DeleteERC20Map`. -/
def deleteERC20Map (erc20 : Address) (m : ByteStore) : ByteStore :=
  m.delete KeyPrefixTokenPairByERC20 erc20.bytes

/-- `SetDenomMap`. -/
def setDenomMap (denom : String) (id : List UInt8) (m : ByteStore) :
    Except StorePanic ByteStore :=
  storeSet KeyPrefixTokenPairByDenom m (utf8 denom) id

/-- `IsTokenPairRegistered`. -/
def isTokenPairRegistered (m : ByteStore) (id : List UInt8) : Bool := m.has KeyPrefixTokenPair id

/-- `IsERC20Registered`. -/
def isERC20Registered (m : ByteStore) (erc20 : Address) : Bool :=
  m.has KeyPrefixTokenPairByERC20 erc20.bytes

/-- `IsDenomRegistered`. -/
def isDenomRegistered (m : ByteStore) (denom : String) : Bool :=
  m.has KeyPrefixTokenPairByDenom (utf8 denom)

/-! ## §2 Pairs and their bytes -/

/-- The number of an owner. -/
def ownerValue : Types.Owner → BitVec 32
  | .OWNER_UNSPECIFIED => 0
  | .OWNER_MODULE => 1
  | .OWNER_EXTERNAL => 2

/-- A pair of the registry as the Go structure. -/
def ofPair (p : Types.TokenPair) : TokenPair where
  erc20Address := utf8 p.erc20Address
  denom := utf8 p.denom
  enabled := p.enabled
  contractOwner := ownerValue p.contractOwner

/-- The bytes a pair is stored as. -/
def pairBytes (p : Types.TokenPair) : List UInt8 := (ofPair p).fields.encode

theorem utf8_append {s t : String} : utf8 (s ++ t) = utf8 s ++ utf8 t := by
  simp [utf8, String.toByteArray_append]

/-- A character takes at most four bytes. -/
theorem length_utf8_le (s : String) : (utf8 s).length ≤ 4 * s.toList.length := by
  have h : ∀ cs : List Char, (utf8 (String.ofList cs)).length ≤ 4 * cs.length := by
    intro cs
    induction cs with
    | nil => exact Nat.le_of_eq rfl
    | cons c cs ih =>
      have hc : (utf8 (String.singleton c)).length = c.utf8Size := String.utf8ByteSize_singleton
      have hle := Char.utf8Size_le_four c
      rw [String.ofList_cons, utf8_append, List.length_append, hc, List.length_cons]
      omega
  have := h s.toList
  rwa [String.ofList_toList] at this

/-- Whole numbers below `2 ^ 63` take at most nine digits. -/
theorem sov_le_nine {n : ℕ} (h : n < 2 ^ 63) : sov n ≤ 9 := by
  rw [← length_varintBytes, length_varintBytes_le_iff (by decide)]
  exact h

/-- A pair that validates is a few hundred bytes long. -/
theorem size_ofPair_lt {p : Types.TokenPair} (h : p.validate = .ok ()) :
    (ofPair p).size < 2 ^ 63 := by
  obtain ⟨hdenom, haddr⟩ := Types.TokenPair.validate_ok_iff.mp h
  have hd : (utf8 p.denom).length ≤ 4 * 128 := by
    apply Nat.le_trans (length_utf8_le _)
    apply Nat.mul_le_mul_left
    unfold Types.reDnm at hdenom
    split at hdenom
    · rename_i c rest heq
      simp only [Bool.and_eq_true, decide_eq_true_eq] at hdenom
      rw [heq, List.length_cons]
      omega
    · cases hdenom
  have ha : (utf8 p.erc20Address).length ≤ 4 * 42 := by
    apply Nat.le_trans (length_utf8_le _)
    exact Nat.mul_le_mul_left _ (Registry.denomChars_of_isHexAddress haddr).2
  have hstring : ∀ {n s}, n < 16 → s.length < 2 ^ 63 →
      (stringFields n s).encode.length ≤ 10 + s.length := by
    intro n s hn hs
    unfold stringFields
    split
    · simp
    · rw [length_encode_bytes hn]
      have := sov_le_nine hs
      omega
  have hbool : ∀ b, (boolFields 3 b).encode.length ≤ 2 := by
    intro b
    cases b with
    | false => decide
    | true =>
      rw [boolFields, if_pos rfl, encode_one (by decide)]
      decide
  have howner : ∀ x : BitVec 32, (enumFields 4 x).encode.length ≤ 11 := by
    intro x
    unfold enumFields
    split
    · decide
    · rw [length_encode_varint (by decide), ← length_varintBytes]
      have : (varintBytes (x.signExtend 64).toNat).length ≤ 10 := by
        rw [length_varintBytes_le_iff (by decide)]
        exact Nat.lt_trans (x.signExtend 64).isLt (by decide)
      omega
  have h1 := hstring (n := 1) (s := utf8 p.erc20Address) (by decide) (by omega)
  have h2 := hstring (n := 2) (s := utf8 p.denom) (by decide) (by omega)
  have h3 := hbool p.enabled
  have h4 := howner (ownerValue p.contractOwner)
  rw [TokenPair.size, TokenPair.emits.size_eq]
  simp only [TokenPair.fields, ofPair, WireFields.encode_append, List.length_append,
    WireFields.encode_nil, List.length_nil]
  omega

theorem mustUnmarshal_pairBytes {p : Types.TokenPair} (h : p.validate = .ok ()) :
    mustUnmarshal (pairBytes p) = .ok (ofPair p) := by
  have hlen : (ofPair p).fields.encode.length < 2 ^ 63 := by
    rw [← TokenPair.emits.size_eq]
    exact size_ofPair_lt h
  rw [mustUnmarshal, pairBytes, TokenPair.unmarshal,
    unmarshal_encode (TokenPair.emits.wellFormed _) hlen, TokenPair.receiveAll_fields,
    TokenPair.overlay_zero]

/-- Only a pair with an empty contract and an empty denomination is stored as nothing. -/
theorem pairBytes_ne_nil {p : Types.TokenPair} (h : p.validate = .ok ()) : pairBytes p ≠ [] := by
  intro hnil
  have hread := mustUnmarshal_pairBytes h
  rw [hnil] at hread
  have hzero : mustUnmarshal [] = .ok TokenPair.zero := by
    rw [mustUnmarshal, TokenPair.unmarshal, MessageType.unmarshal, unmarshalLoop_nil]
  rw [hzero] at hread
  have hdenom : utf8 "" = utf8 p.denom := congrArg TokenPair.denom (Except.ok.inj hread)
  obtain ⟨hreDnm, -⟩ := Types.TokenPair.validate_ok_iff.mp h
  rw [← utf8_inj.mp hdenom] at hreDnm
  exact absurd hreDnm (by decide)

/-! ## §3 The registry the bytes stand for -/

open Chain (Registry Keeper)

/-- The store of bytes holds the pairs, the IDs by contract and the IDs by denomination of a
registry, each under its prefix. -/
structure Represents (m : ByteStore) (r : Registry) : Prop where
  pairs : ∀ id, m.get KeyPrefixTokenPair id = (r.tokenPairs.lookup id).map pairBytes
  erc20s : ∀ a, m.get KeyPrefixTokenPairByERC20 a = (r.erc20Map.lookup a).map Hash.bytes
  denoms : ∀ d, m.get KeyPrefixTokenPairByDenom (utf8 d) =
    (r.denomMap.lookup d).map Hash.bytes

/-- A write of the keeper. -/
inductive RegistryWrite where
  | setTokenPair (p : Types.TokenPair)
  | deleteTokenPair (p : Types.TokenPair)
  | setDenomMap (denom : String) (id : Hash)
  | setERC20Map (erc20 : Address) (id : Hash)
  | deleteERC20Map (erc20 : Address)

namespace RegistryWrite

/-- The write on the registry. -/
def onRegistry {W : Type} (k : Keeper W) (r : Registry) : RegistryWrite → Registry
  | setTokenPair p => Intrarelayer.setTokenPair k p r
  | deleteTokenPair p => Intrarelayer.deleteTokenPair k p r
  | setDenomMap denom id => Intrarelayer.setDenomMap denom id r
  | setERC20Map erc20 id => Intrarelayer.setERC20Map erc20 id r
  | deleteERC20Map erc20 => Intrarelayer.deleteERC20Map erc20 r

/-- The write on the bytes. -/
def onBytes (sum : GoString → Hash) (m : ByteStore) : RegistryWrite → Except StorePanic ByteStore
  | setTokenPair p => Wire.setTokenPair sum (ofPair p) m
  | deleteTokenPair p => .ok (Wire.deleteTokenPair sum (ofPair p) m)
  | setDenomMap denom id => Wire.setDenomMap denom id.bytes m
  | setERC20Map erc20 id => Wire.setERC20Map erc20 id.bytes m
  | deleteERC20Map erc20 => .ok (Wire.deleteERC20Map erc20 m)

/-- The write has a key: only an empty denomination has none. -/
def HasKey : RegistryWrite → Prop
  | setDenomMap denom _ => denom ≠ ""
  | _ => True

end RegistryWrite

theorem apart_of_ne {a b : UInt8} (h : a ≠ b) : ByteStore.Apart [a] [b] := by
  constructor
  · intro hpre
    exact h (List.cons_prefix_cons.mp hpre).1
  · intro hpre
    exact h (List.cons_prefix_cons.mp hpre).1.symm

section Write

variable {W : Type} {k : Keeper W} {sum : GoString → Hash} {m : ByteStore} {r : Registry}

theorem getID_ofPair (hsum : ∀ s, k.tmhashSum s = sum (utf8 s)) (p : Types.TokenPair) :
    (ofPair p).getID sum = p.getID k.tmhashSum := by
  rw [TokenPair.getID, Types.TokenPair.getID, hsum, Types.TokenPair.idText, utf8_append,
    utf8_append]
  rfl

theorem hash_ne_nil (id : Hash) : id.bytes ≠ [] := by
  intro h
  have := id.length_eq
  rw [h] at this
  cases this

theorem address_ne_nil (a : Address) : a.bytes ≠ [] := by
  intro h
  have := a.length_eq
  rw [h] at this
  cases this

theorem storeSet_ok {pre key value : List UInt8} (h : key ≠ []) :
    ∃ m', storeSet pre m key value = .ok m' ∧ m.set pre key value = some m' := by
  rw [storeSet, ByteStore.set, if_neg h]
  exact ⟨_, rfl, rfl⟩

theorem utf8_ne_nil {s : String} (h : s ≠ "") : utf8 s ≠ [] := by
  have hempty : utf8 "" = [] := by decide
  rwa [← hempty, ne_eq, utf8_inj]

/-- **A write of the bytes is the write of the registry.** -/
theorem represents_write (hsum : ∀ s, k.tmhashSum s = sum (utf8 s)) {w : RegistryWrite}
    (hw : w.HasKey) (h : Represents m r) :
    ∃ m', w.onBytes sum m = .ok m' ∧ Represents m' (w.onRegistry k r) := by
  have h12 : ByteStore.Apart KeyPrefixTokenPair KeyPrefixTokenPairByERC20 :=
    apart_of_ne (by decide)
  have h13 : ByteStore.Apart KeyPrefixTokenPair KeyPrefixTokenPairByDenom :=
    apart_of_ne (by decide)
  have h23 : ByteStore.Apart KeyPrefixTokenPairByERC20 KeyPrefixTokenPairByDenom :=
    apart_of_ne (by decide)
  cases w with
  | setTokenPair p =>
    obtain ⟨m', hok, hset⟩ := @storeSet_ok m KeyPrefixTokenPair _
      (pairBytes p) (hash_ne_nil ((ofPair p).getID sum))
    refine ⟨m', ?_, fun id => ?_, fun a => ?_, fun d => ?_⟩
    · simp only [RegistryWrite.onBytes, setTokenPair, TokenPair.marshal,
        TokenPair.emits.marshal_eq]
      exact hok
    · rw [ByteStore.get_set_self hset, h.pairs, getID_ofPair hsum]
      simp only [RegistryWrite.onRegistry, Intrarelayer.setTokenPair, KVStore.lookup_set]
      split <;> rfl
    · rw [ByteStore.get_set_apart ⟨h12.2, h12.1⟩ hset, h.erc20s]
      rfl
    · rw [ByteStore.get_set_apart ⟨h13.2, h13.1⟩ hset, h.denoms]
      rfl
  | deleteTokenPair p =>
    refine ⟨_, rfl, fun id => ?_, fun a => ?_, fun d => ?_⟩
    · rw [deleteTokenPair, ByteStore.get_delete_self, h.pairs, getID_ofPair hsum]
      simp only [RegistryWrite.onRegistry, Intrarelayer.deleteTokenPair, KVStore.lookup_delete]
      split <;> rfl
    · rw [deleteTokenPair, ByteStore.get_delete_apart ⟨h12.2, h12.1⟩, h.erc20s]
      rfl
    · rw [deleteTokenPair, ByteStore.get_delete_apart ⟨h13.2, h13.1⟩, h.denoms]
      rfl
  | setDenomMap denom id =>
    obtain ⟨m', hok, hset⟩ := @storeSet_ok m KeyPrefixTokenPairByDenom _
      id.bytes (utf8_ne_nil hw)
    refine ⟨m', hok, fun id => ?_, fun a => ?_, fun d => ?_⟩
    · rw [ByteStore.get_set_apart h13 hset, h.pairs]
      rfl
    · rw [ByteStore.get_set_apart h23 hset, h.erc20s]
      rfl
    · rw [ByteStore.get_set_self hset, h.denoms]
      simp only [RegistryWrite.onRegistry, Intrarelayer.setDenomMap, KVStore.lookup_set, utf8_inj]
      split <;> rfl
  | setERC20Map erc20 id =>
    obtain ⟨m', hok, hset⟩ := @storeSet_ok m KeyPrefixTokenPairByERC20 _
      id.bytes (address_ne_nil erc20)
    refine ⟨m', hok, fun id => ?_, fun a => ?_, fun d => ?_⟩
    · rw [ByteStore.get_set_apart h12 hset, h.pairs]
      rfl
    · rw [ByteStore.get_set_self hset, h.erc20s]
      simp only [RegistryWrite.onRegistry, Intrarelayer.setERC20Map, KVStore.lookup_set]
      split <;> rfl
    · rw [ByteStore.get_set_apart ⟨h23.2, h23.1⟩ hset, h.denoms]
      rfl
  | deleteERC20Map erc20 =>
    refine ⟨_, rfl, fun id => ?_, fun a => ?_, fun d => ?_⟩
    · rw [deleteERC20Map, ByteStore.get_delete_apart h12, h.pairs]
      rfl
    · rw [deleteERC20Map, ByteStore.get_delete_self, h.erc20s]
      simp only [RegistryWrite.onRegistry, Intrarelayer.deleteERC20Map, KVStore.lookup_delete]
      split <;> rfl
    · rw [deleteERC20Map, ByteStore.get_delete_apart ⟨h23.2, h23.1⟩, h.denoms]
      rfl

end Write

/-! ## §4 Reads -/

open GenesisEthermint.Registry (Storable ValidContent exportable_run registry_initGenesis
  storable_step writtenPair)
open GenesisEthermint.Intrarelayer (Op emptyRegistry initGenesis step)

/-- Every read of the keeper returns of the bytes what it returns of the registry. -/
structure ReadsAgree (m : ByteStore) (r : Registry) : Prop where
  pair : ∀ id : Hash, getTokenPair m (some id.bytes) =
    .ok ((Intrarelayer.getTokenPair r id).map ofPair)
  all : getAllTokenPairs m = .ok ((Intrarelayer.getAllTokenPairs r).map ofPair)
  tokenPairID : ∀ token, getTokenPairID m token =
    (Intrarelayer.getTokenPairID r token).map Hash.bytes
  pairRegistered : ∀ id : Hash, isTokenPairRegistered m id.bytes = r.tokenPairs.has id.bytes
  erc20Registered : ∀ a, isERC20Registered m a = Intrarelayer.isERC20Registered r a
  denomRegistered : ∀ d, isDenomRegistered m d = Intrarelayer.isDenomRegistered r d

section Read

variable {m : ByteStore} {r : Registry}

theorem has_eq_of_get_eq {β : Type} {pre key : List UInt8} {x : Option β} {f : β → List UInt8}
    (h : m.get pre key = x.map f) : m.has pre key = x.isSome := by
  have : m.has pre key = (m.get pre key).isSome := rfl
  rw [this, h, Option.isSome_map]

/-- The one pair that is stored as nothing does not validate, so the keeper's test for an empty
value turns nothing away. -/
theorem getTokenPair_of_represents (h : Represents m r) (hr : Storable r) (id : Hash) :
    getTokenPair m (some id.bytes) = .ok ((Intrarelayer.getTokenPair r id).map ofPair) := by
  simp only [getTokenPair, h.pairs, Intrarelayer.getTokenPair]
  cases hp : r.tokenPairs.lookup id.bytes with
  | none => rfl
  | some p =>
    have hvalid := hr.valid hp
    have hzero : p ≠ Intrarelayer.zeroPair :=
      Intrarelayer.ne_zeroPair_of_isHexAddress (Types.TokenPair.validate_ok_iff.mp hvalid).2
    simp [pairBytes_ne_nil hvalid, mustUnmarshal_pairBytes hvalid, hzero, Except.map,
      Option.filter]

/-- Decoding a list of stored pairs. -/
theorem mapM_mustUnmarshal {ps : List (List UInt8 × Types.TokenPair)}
    (h : ∀ e ∈ ps, e.2.validate = .ok ()) :
    (ps.map fun e => (e.1, pairBytes e.2)).mapM (fun e => mustUnmarshal e.2) =
      .ok (ps.map fun e => ofPair e.2) := by
  induction ps with
  | nil => rfl
  | cons e ps ih =>
    rw [List.map_cons, List.mapM_cons, mustUnmarshal_pairBytes (h e List.mem_cons_self),
      ih fun e he => h e (List.mem_cons_of_mem _ he)]
    rfl

/-- The keeper decodes the values, and never looks at the keys. -/
theorem getAllTokenPairs_eq (m : ByteStore) :
    getAllTokenPairs m = (m.subEntries KeyPrefixTokenPair).mapM fun e => mustUnmarshal e.2 := by
  rw [getAllTokenPairs, ByteStore.subEntries, List.mapM_map]
  rfl

theorem getAllTokenPairs_of_represents (h : Represents m r) (hr : Storable r) :
    getAllTokenPairs m = .ok ((Intrarelayer.getAllTokenPairs r).map ofPair) := by
  rw [getAllTokenPairs_eq, subEntries_eq_map h.pairs, mapM_mustUnmarshal,
    Intrarelayer.getAllTokenPairs, List.map_map]
  · rfl
  · rintro ⟨key, p⟩ hmem
    exact hr.valid (KVStore.mem_entries_iff.mp hmem)

theorem readsAgree_of_represents (h : Represents m r) (hr : Storable r) :
    ReadsAgree m r where
  pair := getTokenPair_of_represents h hr
  all := getAllTokenPairs_of_represents h hr
  tokenPairID token := by
    unfold getTokenPairID Intrarelayer.getTokenPairID
    split
    · exact h.erc20s _
    · exact h.denoms _
  pairRegistered id := has_eq_of_get_eq (h.pairs _)
  erc20Registered a := has_eq_of_get_eq (h.erc20s _)
  denomRegistered d := has_eq_of_get_eq (h.denoms _)

end Read

/-! ## §5 Runs of the module -/

section Run

variable {W : Type} {k : Keeper W} {sum : GoString → Hash}

/-- The writes, one after the other, on the bytes. -/
def writeAll (sum : GoString → Hash) (m : ByteStore) (ws : List RegistryWrite) :
    Except StorePanic ByteStore :=
  ws.foldlM (RegistryWrite.onBytes sum) m

theorem represents_writeAll (hsum : ∀ s, k.tmhashSum s = sum (utf8 s)) {ws : List RegistryWrite}
    (hws : ∀ w ∈ ws, w.HasKey) {m : ByteStore} {r : Registry} (h : Represents m r) :
    ∃ m', writeAll sum m ws = .ok m' ∧
      Represents m' (ws.foldl (RegistryWrite.onRegistry k) r) := by
  induction ws generalizing m r with
  | nil => exact ⟨m, rfl, h⟩
  | cons w ws ih =>
    obtain ⟨m₁, hfirst, h₁⟩ := represents_write hsum (hws w List.mem_cons_self) h
    obtain ⟨m', hrest, h'⟩ := ih (fun w hw => hws w (List.mem_cons_of_mem _ hw)) h₁
    refine ⟨m', ?_, h'⟩
    rw [writeAll, List.foldlM_cons, hfirst]
    exact hrest

theorem represents_empty : Represents ∅ emptyRegistry := by
  constructor <;> intro key <;>
    simp [ByteStore.get, emptyRegistry, KVStore.lookup_empty]

/-- The writes that store a new pair with its two indices. -/
def importWrites (k : Keeper W) (p : Types.TokenPair) : List RegistryWrite :=
  [.setTokenPair p, .setDenomMap p.denom (p.getID k.tmhashSum),
    .setERC20Map p.getERC20Contract (p.getID k.tmhashSum)]

/-- The writes that file a pair under another contract. -/
def moveWrites (k : Keeper W) (p : Types.TokenPair) (old new : Address) : List RegistryWrite :=
  let moved := { p with erc20Address := new.hex k.keccak256 }
  [.deleteTokenPair p, .setTokenPair moved, .setDenomMap moved.denom (moved.getID k.tmhashSum),
    .deleteERC20Map old,
    .setERC20Map (hexToAddress moved.erc20Address) (moved.getID k.tmhashSum)]

/-- The writes of `InitGenesis`. -/
def genesisWrites (k : Keeper W) (gs : Types.GenesisState) : List RegistryWrite :=
  gs.tokenPairs.flatMap (importWrites k)

/-- The writes of an operation that goes through, in the order in which its method makes them. -/
def operationWrites (k : Keeper W) (s : Chain.State W) (op : Op) : List RegistryWrite :=
  match op with
  | .registerCoin _ | .registerERC20 _ =>
    match writtenPair k s op with
    | some p => importWrites k p
    | none => []
  | .toggleRelay token =>
    match (Intrarelayer.getTokenPairID s.registry token).bind
        (Intrarelayer.getTokenPair s.registry) with
    | some p => [.setTokenPair { p with enabled := !p.enabled }]
    | none => []
  | .updateTokenPairERC20 old new =>
    match Intrarelayer.pairOfContract s.registry old with
    | some p => moveWrites k p old new
    | none => []
  | _ => []

/-- The writes of a step. What fails is rolled back. -/
def stepWrites (k : Keeper W) (s : Chain.State W) (op : Op) : List RegistryWrite :=
  if (op.exec k).succeeds s then operationWrites k s op else []

/-- The writes of a run, step by step. -/
def runWrites (k : Keeper W) : Chain.State W → List Op → List RegistryWrite
  | _, [] => []
  | s, op :: ops => stepWrites k s op ++ runWrites k (step k s op) ops

theorem operationWrites_of_isUserOp {op : Op} (h : op.IsUserOp) (s : Chain.State W) :
    operationWrites k s op = [] := by
  cases op with
  | convertCoin msg => rfl
  | convertERC20 msg => rfl
  | ethereumTx msg => rfl
  | bankSend msg => rfl
  | _ => exact h.elim

/-- What an operation that goes through makes of the registry, from what each method says. -/
theorem registry_of_exec_ok {s t : Chain.State W} {op : Op} (h : op.exec k s = .ok () t) :
    t.registry = (operationWrites k s op).foldl (RegistryWrite.onRegistry k) s.registry := by
  by_cases huser : op.IsUserOp
  · -- a user operation has no access to the registry
    have hconfig := Intrarelayer.config_step_of_isUserOp k huser s
    rw [step, Exec.deliver_of_ok h] at hconfig
    rw [operationWrites_of_isUserOp huser]
    exact congrArg Chain.Config.registry hconfig
  cases op with
  | registerCoin metadata =>
    obtain ⟨p, hp⟩ := Exec.discard_ok h
    obtain ⟨-, -, ⟨nonce, hnonce, rfl⟩, hr, -⟩ := Intrarelayer.registerCoin_ok hp
    simp only [operationWrites, writtenPair, hnonce, Option.map_some]
    exact hr
  | registerERC20 contract =>
    obtain ⟨-, -, -, hr, -⟩ := Intrarelayer.registerERC20_ok h
    exact hr
  | toggleRelay token =>
    obtain ⟨p, hp⟩ := Exec.discard_ok h
    obtain ⟨id, q, hid, hq, rfl, rfl⟩ := Intrarelayer.toggleRelay_ok hp
    simp only [operationWrites, hid, hq, Option.bind_some]
    rfl
  | updateTokenPairERC20 old new =>
    obtain ⟨p, hp⟩ := Exec.discard_ok h
    obtain ⟨id, q, -, -, hid, hq, -, -, hr, -⟩ := Intrarelayer.updateTokenPairERC20_ok hp
    simp only [operationWrites, Intrarelayer.pairOfContract, hid, hq, Option.bind_some]
    exact hr
  | setParams params =>
    rw [Exec.modify_ok_iff.mp h]
    rfl
  | _ => exact absurd trivial huser

/-- **A step writes its writes** to the registry, and nothing else. -/
theorem registry_step (s : Chain.State W) (op : Op) :
    (step k s op).registry =
      (stepWrites k s op).foldl (RegistryWrite.onRegistry k) s.registry := by
  by_cases hok : (op.exec k).succeeds s = true
  · obtain ⟨t, ht⟩ := Exec.exists_ok hok
    rw [stepWrites, if_pos hok, step, Exec.deliver_of_ok ht]
    exact registry_of_exec_ok ht
  · rw [stepWrites, if_neg hok, step]
    rcases Exec.deliver_cases (op.exec k) s with ⟨u, hrun⟩ | heq
    · exact absurd hrun (Exec.ne_ok_of_succeeds (Bool.not_eq_true _ ▸ hok) u _)
    · rw [heq]
      rfl

/-- The registry of a run is what the writes of the run make of it. -/
theorem registry_run (s : Chain.State W) (ops : List Op) :
    (run (step k) s ops).registry =
      (runWrites k s ops).foldl (RegistryWrite.onRegistry k) s.registry := by
  induction ops generalizing s with
  | nil => rfl
  | cons op ops ih => rw [run_cons, ih, registry_step, runWrites, List.foldl_append]

theorem registry_genesis {gs : Types.GenesisState} {s₀ : Chain.State W}
    (hempty : s₀.registry = emptyRegistry) : (initGenesis k gs s₀).registry =
      (genesisWrites k gs).foldl (RegistryWrite.onRegistry k) emptyRegistry := by
  rw [registry_initGenesis hempty, genesisWrites, List.foldl_flatMap]
  rfl

theorem denom_ne_empty {p : Types.TokenPair} (h : p.validate = .ok ()) : p.denom ≠ "" := by
  obtain ⟨hdenom, -⟩ := Types.TokenPair.validate_ok_iff.mp h
  intro hempty
  rw [hempty] at hdenom
  exact absurd hdenom (by decide)

theorem createDenom_ne_empty (s : String) : Types.createDenom s ≠ "" := by
  intro h
  have := congrArg String.toList h
  simp [Types.createDenom, Types.ModuleName, String.toList_append] at this

theorem hasKey_importWrites {p : Types.TokenPair} (hp : p.denom ≠ "") :
    ∀ w ∈ importWrites k p, w.HasKey := by
  intro w hw
  simp only [importWrites, List.mem_cons, List.not_mem_nil, or_false] at hw
  rcases hw with rfl | rfl | rfl
  · trivial
  · exact hp
  · trivial

theorem hasKey_moveWrites {p : Types.TokenPair} (hp : p.denom ≠ "") (old new : Address) :
    ∀ w ∈ moveWrites k p old new, w.HasKey := by
  intro w hw
  simp only [moveWrites, List.mem_cons, List.not_mem_nil, or_false] at hw
  rcases hw with rfl | rfl | rfl | rfl | rfl
  · trivial
  · trivial
  · exact hp
  · trivial
  · trivial

/-- No write of a step has an empty key, where the registry holds valid pairs. -/
theorem hasKey_stepWrites {s : Chain.State W} {op : Op} (hop : ValidContent op)
    (hs : Storable s.registry) : ∀ w ∈ stepWrites k s op, w.HasKey := by
  have hfound : ∀ {id p}, Intrarelayer.getTokenPair s.registry id = some p → p.denom ≠ "" :=
    fun hp => denom_ne_empty (hs.valid (Intrarelayer.getTokenPair_eq_some_iff.mp hp).1)
  intro w hw
  unfold stepWrites at hw
  split at hw
  · cases op with
    | registerCoin metadata =>
      cases hp : writtenPair k s (.registerCoin metadata) with
      | none => simp [operationWrites, hp] at hw
      | some p =>
        rw [operationWrites, hp] at hw
        obtain ⟨nonce, -, rfl⟩ := Option.map_eq_some_iff.mp hp
        refine hasKey_importWrites (?_ : metadata.base ≠ "") w hw
        intro hempty
        obtain ⟨-, -, hbase, -⟩ := Types.Metadata.validate_ok_iff.mp hop
        rw [hempty] at hbase
        exact absurd hbase (by decide)
    | registerERC20 contract => exact hasKey_importWrites (createDenom_ne_empty _) w hw
    | toggleRelay token =>
      simp only [operationWrites] at hw
      split at hw
      · rw [List.mem_singleton.mp hw]
        trivial
      · cases hw
    | updateTokenPairERC20 old new =>
      cases hp : Intrarelayer.pairOfContract s.registry old with
      | none => simp [operationWrites, hp] at hw
      | some p =>
        rw [operationWrites, hp] at hw
        obtain ⟨id, -, hq⟩ := Option.bind_eq_some_iff.mp hp
        exact hasKey_moveWrites (hfound hq) old new w hw
    | _ => cases hw
  · cases hw

theorem hasKey_runWrites {s : Chain.State W} {ops : List Op} (hops : ∀ op ∈ ops, ValidContent op)
    (hs : Storable s.registry) : ∀ w ∈ runWrites k s ops, w.HasKey := by
  induction ops generalizing s with
  | nil =>
    intro w hw
    cases hw
  | cons op ops ih =>
    have hop := hops op List.mem_cons_self
    intro w hw
    rcases List.mem_append.mp hw with hw | hw
    · exact hasKey_stepWrites hop hs w hw
    · exact ih (fun op hmem => hops op (List.mem_cons_of_mem _ hmem)) (storable_step hop hs) w hw

/-- The writes made from genesis on. -/
def writesOf (k : Keeper W) (gs : Types.GenesisState) (s₀ : Chain.State W) (ops : List Op) :
    List RegistryWrite :=
  genesisWrites k gs ++ runWrites k (initGenesis k gs s₀) ops

/-- The registry of every run from a valid genesis is kept in bytes. -/
theorem kept_run (hsum : ∀ s, k.tmhashSum s = sum (utf8 s)) {gs : Types.GenesisState}
    {s₀ : Chain.State W} {ops : List Op} (hempty : s₀.registry = emptyRegistry)
    (hvalid : gs.validate = .ok ()) (hops : ∀ op ∈ ops, ValidContent op) :
    (run (step k) (initGenesis k gs s₀) ops).registry =
        (writesOf k gs s₀ ops).foldl (RegistryWrite.onRegistry k) emptyRegistry ∧
      ∃ m, writeAll sum ∅ (writesOf k gs s₀ ops) = .ok m ∧
        Represents m (run (step k) (initGenesis k gs s₀) ops).registry := by
  have hregistry : (run (step k) (initGenesis k gs s₀) ops).registry =
      (writesOf k gs s₀ ops).foldl (RegistryWrite.onRegistry k) emptyRegistry := by
    rw [registry_run, registry_genesis hempty, writesOf, List.foldl_append]
  have hstorable : Storable (initGenesis k gs s₀).registry :=
    (@exportable_run _ k _ _ [] hempty hvalid (by simp)).storable
  have hkeys : ∀ w ∈ writesOf k gs s₀ ops, w.HasKey := by
    intro w hw
    rcases List.mem_append.mp hw with hw | hw
    · obtain ⟨p, hp, hw⟩ := List.mem_flatMap.mp hw
      obtain ⟨hpairs, -⟩ := Types.GenesisState.validate_ok_iff.mp hvalid
      exact hasKey_importWrites (denom_ne_empty (hpairs p hp)) w hw
    · exact hasKey_runWrites hops hstorable w hw
  obtain ⟨m, hm, hrep⟩ := represents_writeAll hsum hkeys represents_empty
  refine ⟨hregistry, m, hm, ?_⟩
  rw [hregistry]
  exact hrep

/-- **The bytes follow the module**: from any valid genesis and through any operations, the
writes that genesis and the steps make, one after the other, are what the registry is made of,
none of them panics on the bytes, and every read of the bytes is the read of the registry. -/
theorem readsAgree_run (hsum : ∀ s, k.tmhashSum s = sum (utf8 s)) {gs : Types.GenesisState}
    {s₀ : Chain.State W} {ops : List Op} (hempty : s₀.registry = emptyRegistry)
    (hvalid : gs.validate = .ok ()) (hops : ∀ op ∈ ops, ValidContent op) :
    (run (step k) (initGenesis k gs s₀) ops).registry =
        (writesOf k gs s₀ ops).foldl (RegistryWrite.onRegistry k) emptyRegistry ∧
      ∃ m, writeAll sum ∅ (writesOf k gs s₀ ops) = .ok m ∧
        ReadsAgree m (run (step k) (initGenesis k gs s₀) ops).registry := by
  obtain ⟨hregistry, m, hm, hrep⟩ := kept_run (k := k) hsum hempty hvalid hops
  exact ⟨hregistry, m, hm,
    readsAgree_of_represents hrep (exportable_run hempty hvalid hops).storable⟩

/-- A hash of the bytes that stands for Tendermint's. -/
def byteSum (bz : List UInt8) : Hash := Tokens.hashOf (Chain.beNat bz)

/-- The keeper of the reference deployment, its hash taken of the bytes of a text. -/
def bytesKeeper : Keeper Tokens.TokenWorld :=
  { Tokens.plainKeeper with tmhashSum := fun s => byteSum (utf8 s) }

/-- After a genesis of two pairs the toggle is the seventh write. -/
theorem readsAgree_run_reference :
    let writes := writesOf bytesKeeper Tokens.referenceGenesis
      (Tokens.referenceState Tokens.referenceWorld) [.toggleRelay "acoin"]
    let reached := run (step bytesKeeper) (initGenesis bytesKeeper Tokens.referenceGenesis
      (Tokens.referenceState Tokens.referenceWorld)) [.toggleRelay "acoin"]
    writes.length = 7 ∧
      reached.registry = writes.foldl (RegistryWrite.onRegistry bytesKeeper) emptyRegistry ∧
      ∃ m, writeAll byteSum ∅ writes = .ok m ∧ ReadsAgree m reached.registry :=
  ⟨by decide +kernel, readsAgree_run (fun _ => rfl) rfl (by decide) (by simp [ValidContent])⟩

end Run

end GenesisEthermint.Wire
