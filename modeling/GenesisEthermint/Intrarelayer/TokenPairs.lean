import GenesisEthermint.Chain.Bank

/-!
# The Token Pair Store

Reads and writes of the three sub-stores. A pair is found by the text of a token, which is
taken for a contract address whenever it is spelled like one, and for a denomination
otherwise.
-/

namespace GenesisEthermint.Intrarelayer

open GenesisEthermint.Foundation GenesisEthermint.Types GenesisEthermint.Chain

variable {W : Type} (k : Keeper W)

/-! ## Reads -/

/-- `GetERC20Map`. -/
def getERC20Map (r : Registry) (erc20 : Address) : Option Hash := r.erc20Map.lookup erc20.bytes

/-- `GetDenomMap`. -/
def getDenomMap (r : Registry) (denom : String) : Option Hash := r.denomMap.lookup denom

/-- `GetTokenPairID`. -/
def getTokenPairID (r : Registry) (token : String) : Option Hash :=
  if isHexAddress token then getERC20Map r (hexToAddress token) else getDenomMap r token

/-- The one pair that is marshalled to no bytes at all. -/
def zeroPair : TokenPair := ⟨"", "", false, .OWNER_UNSPECIFIED⟩

/-- `GetTokenPair`: an entry of no bytes counts as absent. -/
def getTokenPair (r : Registry) (id : Hash) : Option TokenPair :=
  (r.tokenPairs.lookup id.bytes).filter (· ≠ zeroPair)

/-- `GetAllTokenPairs`, in the order of the IDs. -/
def getAllTokenPairs (r : Registry) : List TokenPair := r.tokenPairs.entries.map Prod.snd

/-- `IsERC20Registered`. -/
def isERC20Registered (r : Registry) (erc20 : Address) : Bool := r.erc20Map.has erc20.bytes

/-- `IsDenomRegistered`. -/
def isDenomRegistered (r : Registry) (denom : String) : Bool := r.denomMap.has denom

/-- A gRPC status error. -/
private def statusErrorf (code msg : String) : GoError :=
  .errorf ("rpc error: code = " ++ code ++ " desc = " ++ msg)

/-- The format check of the `TokenPair` query: an address, or else a denomination. -/
def checkTokenFormat (token : String) : Except GoError Unit :=
  match TokenPair.validateAddress token, validateDenom token with
  | .error _, .error _ => .error (statusErrorf "InvalidArgument" ("invalid format for token "
      ++ token ++ ", should be either hex ('0x...') cosmos denom"))
  | _, _ => .ok ()

/-- The `TokenPair` query. -/
def tokenPair (r : Registry) (token : String) : Except GoError TokenPair := do
  checkTokenFormat token
  let notFound := statusErrorf "NotFound" ("token pair with token '" ++ token ++ "'")
  match getTokenPairID r token with
  | none => throw notFound
  | some id =>
    match getTokenPair r id with
    | none => throw notFound
    | some pair => return pair

/-! ## Writes -/

/-- `SetTokenPair`. -/
def setTokenPair (p : TokenPair) (r : Registry) : Registry :=
  { r with tokenPairs := r.tokenPairs.set (p.getID k.tmhashSum).bytes p }

/-- `DeleteTokenPair`. -/
def deleteTokenPair (p : TokenPair) (r : Registry) : Registry :=
  { r with tokenPairs := r.tokenPairs.delete (p.getID k.tmhashSum).bytes }

/-- `SetDenomMap`. -/
def setDenomMap (denom : String) (id : Hash) (r : Registry) : Registry :=
  { r with denomMap := r.denomMap.set denom id }

/-- `SetERC20Map`. -/
def setERC20Map (erc20 : Address) (id : Hash) (r : Registry) : Registry :=
  { r with erc20Map := r.erc20Map.set erc20.bytes id }

/-- `DeleteERC20Map`. -/
def deleteERC20Map (erc20 : Address) (r : Registry) : Registry :=
  { r with erc20Map := r.erc20Map.delete erc20.bytes }

/-- Run a registry write on the state. -/
def updateRegistry (g : Registry → Registry) : Exec GoError (State W) Unit :=
  modify fun s => { s with registry := g s.registry }

/-! ## What is found -/

variable {k} {r : Registry} {p q : TokenPair} {id : Hash}

theorem getTokenPair_eq_some_iff :
    getTokenPair r id = some p ↔ r.tokenPairs.lookup id.bytes = some p ∧ p ≠ zeroPair := by
  simp [getTokenPair, Option.filter_eq_some_iff]

/-- A query that succeeds returns what the two lookups lead to. -/
theorem tokenPair_ok {token : String} (h : tokenPair r token = .ok p) :
    ∃ id, getTokenPairID r token = some id ∧ getTokenPair r id = some p := by
  obtain ⟨_, -, h⟩ := except_bind_ok_iff.mp h
  cases hid : getTokenPairID r token with
  | none =>
    simp only [hid] at h
    cases h
  | some id =>
    cases hp : getTokenPair r id with
    | none =>
      simp only [hid, hp] at h
      cases h
    | some q =>
      simp only [hid, hp] at h
      obtain rfl := Except.ok.inj h
      exact ⟨id, rfl, hp⟩

theorem isERC20Registered_eq_false_iff {a : Address} :
    isERC20Registered r a = false ↔ getERC20Map r a = none :=
  KVStore.has_eq_false_iff

theorem isDenomRegistered_eq_false_iff {d : String} :
    isDenomRegistered r d = false ↔ getDenomMap r d = none :=
  KVStore.has_eq_false_iff

theorem getTokenPairID_of_isHexAddress {t : String} (h : isHexAddress t = true) :
    getTokenPairID r t = getERC20Map r (hexToAddress t) := by
  rw [getTokenPairID, if_pos h]

theorem getTokenPairID_of_not_isHexAddress {t : String} (h : isHexAddress t = false) :
    getTokenPairID r t = getDenomMap r t := by
  rw [getTokenPairID, if_neg (by simp [h])]

theorem ne_zeroPair_of_isHexAddress (h : isHexAddress p.erc20Address = true) :
    p ≠ zeroPair := by
  rintro rfl
  exact absurd h (by decide)

theorem getERC20Map_set {a b : Address} :
    getERC20Map (setERC20Map a id r) b = if b = a then some id else getERC20Map r b := by
  simp only [getERC20Map, setERC20Map, KVStore.lookup_set, Address.ext_iff]

theorem getERC20Map_delete {a b : Address} :
    getERC20Map (deleteERC20Map a r) b = if b = a then none else getERC20Map r b := by
  simp only [getERC20Map, deleteERC20Map, KVStore.lookup_delete, Address.ext_iff]

end GenesisEthermint.Intrarelayer
