import GenesisEthermint.Chain.Abi
import GenesisEthermint.Foundation.Exec
import GenesisEthermint.Foundation.Store
import GenesisEthermint.Types.Address

/-!
# The Staking Store

The records of the staking module that an export reads and rewrites, and the keys the SDK builds
for them: a prefix byte, and addresses with their length in front. Records name addresses by their
Bech32 text, keys by their bytes, so a record can be stored only where its text decodes to.
-/

namespace GenesisEthermint.Staking

open GenesisEthermint.Foundation GenesisEthermint.Types GenesisEthermint.Chain

/-- What a function returns that only reads, and may return an error or panic. -/
abbrev Reading (α : Type) := Except (Failure GoError) α

/-- `if err != nil { panic(err) }`. -/
def orPanic {α : Type} : Except GoError α → Reading α
  | .ok a => .ok a
  | .error e => .error (.panic e.error)

/-! ## Addresses -/

/-- `sdk.ValAddress`. -/
abbrev ValAddress := List UInt8

/-- `sdk.ConsAddress`. -/
abbrev ConsAddress := List UInt8

def Bech32PrefixAccAddr : String := "genesis"

def Bech32PrefixValAddr : String := "genesisvaloper"

def Bech32PrefixConsAddr : String := "genesisvalcons"

/-- The Bech32 codec. -/
structure Bech32 where
  getFromBech32 : (bech32str hrp : String) → Except GoError (List UInt8)
  convertAndEncode : (hrp : String) → (data : List UInt8) → String

/-- `address.MaxAddrLen`. -/
def MaxAddrLen : ℕ := 255

/-- `VerifyAddressFormat`. -/
def verifyAddressFormat (bz : List UInt8) : Except GoError Unit := do
  rejectIf (bz.length = 0) (.wrap ErrUnknownAddress "addresses cannot be empty")
  rejectIf (MaxAddrLen < bz.length)
    (.wrap ErrUnknownAddress s!"address max length is {MaxAddrLen}, got {bz.length}")

/-- `AccAddressFromBech32` and `ValAddressFromBech32`, for the human-readable part of either. -/
def addressFromBech32 (codec : Bech32) (hrp address : String) : Except GoError (List UInt8) := do
  rejectIf (isBlank address) (.errorf "empty address string is not allowed")
  let bz ← codec.getFromBech32 address hrp
  verifyAddressFormat bz
  return bz

def accAddressFromBech32 (codec : Bech32) (address : String) : Except GoError AccAddress :=
  addressFromBech32 codec Bech32PrefixAccAddr address

def valAddressFromBech32 (codec : Bech32) (address : String) : Except GoError ValAddress :=
  addressFromBech32 codec Bech32PrefixValAddr address

/-- `Bech32ifyAddressBytes`, and the `String` of an address. -/
def bech32ifyAddressBytes (codec : Bech32) (hrp : String) (bs : List UInt8) : String :=
  if bs.length = 0 then "" else codec.convertAndEncode hrp bs

/-- An address that decodes is a valid one. -/
theorem addressFromBech32_ok {codec : Bech32} {hrp address : String} {bz : List UInt8}
    (h : addressFromBech32 codec hrp address = .ok bz) :
    bz ≠ [] ∧ bz.length ≤ MaxAddrLen := by
  obtain ⟨_, -, h⟩ := except_bind_ok_iff.mp h
  obtain ⟨bz', -, h⟩ := except_bind_ok_iff.mp h
  obtain ⟨_, hformat, h⟩ := except_bind_ok_iff.mp h
  obtain rfl := Except.ok.inj h
  obtain ⟨_, hempty, hlen⟩ := except_bind_ok_iff.mp hformat
  exact ⟨fun hnil => rejectIf_ok_iff.mp hempty (List.length_eq_zero_iff.mpr hnil),
    Nat.le_of_not_lt (rejectIf_ok_iff.mp hlen)⟩

/-! ## Keys -/

/-- `address.MustLengthPrefix`. -/
def mustLengthPrefix (bz : List UInt8) : Reading (List UInt8) :=
  if bz.length = 0 then .ok bz
  else if MaxAddrLen < bz.length then
    orPanic (.error (.wrap ErrUnknownAddress
      s!"address length should be max {MaxAddrLen} bytes, got {bz.length}"))
  else .ok (UInt8.ofNat bz.length :: bz)

/-- A prefix byte and an address with its length: the shape of most keys. -/
def addressKey (first : UInt8) (addr : List UInt8) : Reading (List UInt8) := do
  return first :: (← mustLengthPrefix addr)

/-- `GetValidatorKey`. -/
def getValidatorKey (operatorAddr : ValAddress) : Reading (List UInt8) :=
  addressKey 0x21 operatorAddr

/-- `GetLastValidatorPowerKey`. -/
def getLastValidatorPowerKey (operator : ValAddress) : Reading (List UInt8) :=
  addressKey 0x11 operator

/-- `AddressFromLastValidatorPowerKey`: without the prefix byte and the length. -/
def addressFromLastValidatorPowerKey (key : List UInt8) : ValAddress := key.drop 2

/-- `ValidatorSigningInfoKey` of the slashing module. -/
def validatorSigningInfoKey (addr : ConsAddress) : Reading (List UInt8) := addressKey 0x01 addr

/-- `ValidatorSigningInfoAddress`. -/
def validatorSigningInfoAddress (key : List UInt8) : ConsAddress := key.drop 2

/-- A key of several addresses, each with its length. -/
def addressesKey (first : UInt8) (addrs : List (List UInt8)) : Reading (List UInt8) := do
  return first :: (← addrs.mapM mustLengthPrefix).flatten

/-- `GetDelegationKey`. -/
def getDelegationKey (delAddr : AccAddress) (valAddr : ValAddress) : Reading (List UInt8) :=
  addressesKey 0x31 [delAddr, valAddr]

/-- `GetUBDKey`. -/
def getUBDKey (delAddr : AccAddress) (valAddr : ValAddress) : Reading (List UInt8) :=
  addressesKey 0x32 [delAddr, valAddr]

/-- `GetUBDByValIndexKey`. -/
def getUBDByValIndexKey (delAddr : AccAddress) (valAddr : ValAddress) : Reading (List UInt8) :=
  addressesKey 0x33 [valAddr, delAddr]

/-- `GetREDKey`. -/
def getREDKey (delAddr : AccAddress) (valSrcAddr valDstAddr : ValAddress) :
    Reading (List UInt8) :=
  addressesKey 0x34 [delAddr, valSrcAddr, valDstAddr]

/-- `GetREDByValSrcIndexKey`. -/
def getREDByValSrcIndexKey (delAddr : AccAddress) (valSrcAddr valDstAddr : ValAddress) :
    Reading (List UInt8) :=
  addressesKey 0x35 [valSrcAddr, delAddr, valDstAddr]

/-- `GetREDByValDstIndexKey`. -/
def getREDByValDstIndexKey (delAddr : AccAddress) (valSrcAddr valDstAddr : ValAddress) :
    Reading (List UInt8) :=
  addressesKey 0x36 [valDstAddr, delAddr, valSrcAddr]

/-- The key of a valid address. -/
theorem addressKey_of_valid {first : UInt8} {addr : List UInt8} (hne : addr ≠ [])
    (hlen : addr.length ≤ MaxAddrLen) :
    addressKey first addr = .ok (first :: UInt8.ofNat addr.length :: addr) := by
  have hpos : ¬ addr.length = 0 := fun h => hne (List.length_eq_zero_iff.mp h)
  simp only [addressKey, mustLengthPrefix, if_neg hpos, if_neg (Nat.not_lt.mpr hlen)]
  rfl

/-- Valid addresses have a common key. -/
theorem addressesKey_of_valid (first : UInt8) {addrs : List (List UInt8)}
    (h : ∀ addr ∈ addrs, addr ≠ [] ∧ addr.length ≤ MaxAddrLen) :
    ∃ key, addressesKey first addrs = .ok key := by
  have hall : ∃ bzs, addrs.mapM mustLengthPrefix = Except.ok (ε := Failure GoError) bzs := by
    induction addrs with
    | nil => exact ⟨[], rfl⟩
    | cons addr addrs ih =>
      obtain ⟨bzs, hbzs⟩ := ih fun a ha => h a (List.mem_cons_of_mem _ ha)
      obtain ⟨hne, hlen⟩ := h addr (List.mem_cons_self ..)
      have hpos : ¬ addr.length = 0 := fun h => hne (List.length_eq_zero_iff.mp h)
      refine ⟨(UInt8.ofNat addr.length :: addr) :: bzs, ?_⟩
      rw [List.mapM_cons, hbzs, mustLengthPrefix, if_neg hpos, if_neg (Nat.not_lt.mpr hlen)]
      rfl
  obtain ⟨bzs, hbzs⟩ := hall
  exact ⟨first :: bzs.flatten, by rw [addressesKey, hbzs]; rfl⟩

/-- The key of a non-empty address is longer than the address by two bytes. -/
theorem length_addressKey {first : UInt8} {addr key : List UInt8} (hne : addr ≠ [])
    (h : addressKey first addr = .ok key) : key.length = addr.length + 2 := by
  have hpos : ¬ addr.length = 0 := fun h => hne (List.length_eq_zero_iff.mp h)
  obtain ⟨bz, hbz, h⟩ := except_bind_ok_iff.mp h
  obtain rfl := Except.ok.inj h
  rw [mustLengthPrefix, if_neg hpos] at hbz
  split at hbz
  · cases hbz
  · obtain rfl := Except.ok.inj hbz
    rfl

/-! ## Records -/

/-- `BondStatus`. -/
inductive BondStatus where
  | unspecified
  | unbonded
  | unbonding
  | bonded
  deriving DecidableEq, Repr

/-- A consensus public key, by its bytes. -/
abbrev PubKey := List UInt8

/-- `Validator`: the fields that are read or written here. The key is `none` if the value packed
into `ConsensusPubkey` is not a public key. Shares count in units of `10⁻¹⁸`. -/
structure Validator where
  operatorAddress : String
  consensusPubkey : Option PubKey
  jailed : Bool
  status : BondStatus
  tokens : ℤ
  delegatorShares : ℤ
  unbondingHeight : ℤ
  unbondingTime : ℤ
  deriving DecidableEq

/-- `Delegation`. -/
structure Delegation where
  delegatorAddress : String
  validatorAddress : String
  shares : ℤ

/-- `UnbondingDelegationEntry`. -/
structure UnbondingDelegationEntry where
  creationHeight : ℤ
  completionTime : ℤ
  initialBalance : ℤ
  balance : ℤ

/-- `UnbondingDelegation`. -/
structure UnbondingDelegation where
  delegatorAddress : String
  validatorAddress : String
  entries : List UnbondingDelegationEntry

/-- `RedelegationEntry`. -/
structure RedelegationEntry where
  creationHeight : ℤ
  completionTime : ℤ
  initialBalance : ℤ
  sharesDst : ℤ

/-- `Redelegation`. -/
structure Redelegation where
  delegatorAddress : String
  validatorSrcAddress : String
  validatorDstAddress : String
  entries : List RedelegationEntry

/-- `ValidatorSigningInfo` of the slashing module. -/
structure ValidatorSigningInfo where
  address : String
  startHeight : ℤ
  indexOffset : ℤ
  jailedUntil : ℤ
  tombstoned : Bool
  missedBlocksCounter : ℤ

/-- `Params`: the parameters that are read here. -/
structure Params where
  unbondingTime : ℤ
  maxValidators : ℕ
  bondDenom : String

/-- The staking store, one table for each prefix byte. The queue of unbonding validators is keyed
by completion time and height. -/
structure Store where
  params : Params
  lastValidatorPower : KVStore (List UInt8) ℤ
  lastTotalPower : Option ℤ
  validators : KVStore (List UInt8) Validator
  validatorsByPowerIndex : KVStore (List UInt8) ValAddress
  delegations : KVStore (List UInt8) Delegation
  unbondingDelegations : KVStore (List UInt8) UnbondingDelegation
  unbondingDelegationsByValIndex : KVStore (List UInt8) Unit
  redelegations : KVStore (List UInt8) Redelegation
  redelegationsByValSrcIndex : KVStore (List UInt8) Unit
  redelegationsByValDstIndex : KVStore (List UInt8) Unit
  validatorQueue : KVStore (List ℤ) (List String)

/-- The stores an export works on. Of the modules other than staking and slashing only the keepers
know what they keep. -/
structure State (O : Type) where
  staking : Store
  signingInfos : KVStore (List UInt8) ValidatorSigningInfo
  others : O

/-! ## Validators -/

/-- `GetOperator`. -/
def Validator.getOperator (codec : Bech32) (v : Validator) : Reading ValAddress :=
  if v.operatorAddress = "" then .ok [] else orPanic (valAddressFromBech32 codec v.operatorAddress)

/-- `sdk.DefaultPowerReduction`, as the application sets it. -/
def DefaultPowerReduction : ℤ := 10 ^ 18

/-- `TokensToConsensusPower`. -/
def tokensToConsensusPower (tokens powerReduction : ℤ) : Reading ℤ :=
  let power := tokens.tdiv powerReduction
  if - 2 ^ 63 ≤ power ∧ power < 2 ^ 63 then .ok power else .error (.panic "Int64() out of bound")

/-- `PotentialConsensusPower`. -/
def Validator.potentialConsensusPower (v : Validator) (r : ℤ) : Reading ℤ :=
  tokensToConsensusPower v.tokens r

/-- `ConsensusPower`. -/
def Validator.consensusPower (v : Validator) (r : ℤ) : Reading ℤ :=
  if v.status = .bonded then v.potentialConsensusPower r else .ok 0

/-- `GetValidatorsByPowerIndexKey`: the power big-endian, then the operator with all bits flipped,
so that of two validators of one power the smaller address comes first in a reverse scan. -/
def getValidatorsByPowerIndexKey (codec : Bech32) (v : Validator) (powerReduction : ℤ) :
    Reading (List UInt8) := do
  let consensusPower ← tokensToConsensusPower v.tokens powerReduction
  let addr ← orPanic (valAddressFromBech32 codec v.operatorAddress)
  return 0x23 :: beBytes 8 (consensusPower % 2 ^ 64).toNat ++
    UInt8.ofNat addr.length :: addr.map (~~~ ·)

/-- `GetValidator`. -/
def Store.getValidator (st : Store) (addr : ValAddress) : Reading (Option Validator) := do
  return st.validators.lookup (← getValidatorKey addr)

/-- `mustGetValidator`. -/
def Store.mustGetValidator (st : Store) (addr : ValAddress) : Reading Validator := do
  match ← st.getValidator addr with
  | some v => return v
  | none => throw (.panic ("validator record not found for address: " ++
      String.ofList ((hexEncode addr).map Char.toUpper) ++ "\n"))

/-- `GetAllValidators`, and what `IterateValidators` visits. -/
def Store.getAllValidators (st : Store) : List Validator := st.validators.entries.map Prod.snd

/-- `GetAllDelegations`. -/
def Store.getAllDelegations (st : Store) : List Delegation := st.delegations.entries.map Prod.snd

/-- The operator of a validator whose address decodes. -/
theorem Validator.getOperator_of_ok {codec : Bech32} {v : Validator} {addr : ValAddress}
    (h : valAddressFromBech32 codec v.operatorAddress = .ok addr) :
    v.getOperator codec = .ok addr := by
  have hne : v.operatorAddress ≠ "" := by
    intro hempty
    rw [hempty] at h
    cases h
  rw [Validator.getOperator, if_neg hne, h]
  rfl

variable {O : Type}

/-- Put a changed staking store in place. -/
def setStaking (f : Store → Store) : Exec GoError (State O) Unit :=
  modify fun s => { s with staking := f s.staking }

/-- `SetValidator`. -/
def setValidator (codec : Bech32) (v : Validator) : Exec GoError (State O) Unit := do
  let key ← Exec.ofRead (do getValidatorKey (← v.getOperator codec))
  setStaking fun st => { st with validators := st.validators.set key v }

/-- `SetUnbondingDelegation`. -/
def setUnbondingDelegation (codec : Bech32) (ubd : UnbondingDelegation) :
    Exec GoError (State O) Unit := do
  let delegatorAddress ← Exec.ofRead (orPanic (accAddressFromBech32 codec ubd.delegatorAddress))
  let addr ← Exec.ofRead (orPanic (valAddressFromBech32 codec ubd.validatorAddress))
  let key ← Exec.ofRead (getUBDKey delegatorAddress addr)
  setStaking fun st => { st with unbondingDelegations := st.unbondingDelegations.set key ubd }
  let indexKey ← Exec.ofRead (getUBDByValIndexKey delegatorAddress addr)
  setStaking fun st => { st with
    unbondingDelegationsByValIndex := st.unbondingDelegationsByValIndex.set indexKey () }

/-- `SetRedelegation`. -/
def setRedelegation (codec : Bech32) (red : Redelegation) : Exec GoError (State O) Unit := do
  let delegatorAddress ← Exec.ofRead (orPanic (accAddressFromBech32 codec red.delegatorAddress))
  let valSrcAddr ← Exec.ofRead (orPanic (valAddressFromBech32 codec red.validatorSrcAddress))
  let valDestAddr ← Exec.ofRead (orPanic (valAddressFromBech32 codec red.validatorDstAddress))
  let key ← Exec.ofRead (getREDKey delegatorAddress valSrcAddr valDestAddr)
  setStaking fun st => { st with redelegations := st.redelegations.set key red }
  let srcKey ← Exec.ofRead (getREDByValSrcIndexKey delegatorAddress valSrcAddr valDestAddr)
  setStaking fun st => { st with
    redelegationsByValSrcIndex := st.redelegationsByValSrcIndex.set srcKey () }
  let dstKey ← Exec.ofRead (getREDByValDstIndexKey delegatorAddress valSrcAddr valDestAddr)
  setStaking fun st => { st with
    redelegationsByValDstIndex := st.redelegationsByValDstIndex.set dstKey () }

end GenesisEthermint.Staking
