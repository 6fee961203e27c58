import GenesisEthermint.Staking.Store

/-!
# Updates of the Validator Set

`ApplyAndReturnValidatorSetUpdates` walks down the power index, bonds what it finds there up to the
maximal number of validators, and unbonds what was bonded before and was not found. It trusts the
index: an entry that leads to no validator, or to a jailed one, is a panic.
-/

namespace GenesisEthermint.Staking

open GenesisEthermint.Foundation GenesisEthermint.Types

/-- `ErrInvalidType`. -/
def ErrInvalidType : GoError := .registered "sdk" 29 "invalid type"

/-- The time and height a call runs at. -/
structure Context where
  blockHeight : ℤ
  blockTime : ℤ

/-- What the staking keeper is given: the codec, the public keys, and the bank keeper. -/
structure Keeper (O : Type) where
  bech32 : Bech32
  pubKeyAddress : PubKey → ConsAddress
  toTmProtoPublicKey : PubKey → Except GoError PubKey
  getBalance : O → (pool denom : String) → ℤ
  sendCoinsFromModuleToModule : (sender recipient denom : String) → (amount : ℤ) →
    Exec GoError O Unit

/-- `abci.ValidatorUpdate`. -/
structure ValidatorUpdate where
  pubKey : PubKey
  power : ℤ

def NotBondedPoolName : String := "not_bonded_tokens_pool"

def BondedPoolName : String := "bonded_tokens_pool"

variable {O : Type}

/-- Run what works on the stores of the other modules. -/
def onOthers {α : Type} (x : Exec GoError O α) : Exec GoError (State O) α := fun s =>
  match x s.others with
  | .ok a o => .ok a { s with others := o }
  | .error f o => .error f { s with others := o }

/-! ## Keys of a validator -/

/-- `ConsPubKey`. -/
def Validator.consPubKey (v : Validator) : Except GoError PubKey :=
  match v.consensusPubkey with
  | some pk => .ok pk
  | none => .error (.wrap ErrInvalidType "expecting cryptotypes.PubKey, got <nil>")

/-- `GetConsAddr`. -/
def Validator.getConsAddr (k : Keeper O) (v : Validator) : Except GoError ConsAddress := do
  return k.pubKeyAddress (← v.consPubKey)

/-- `TmConsPublicKey`. -/
def Validator.tmConsPublicKey (k : Keeper O) (v : Validator) : Except GoError PubKey := do
  k.toTmProtoPublicKey (← v.consPubKey)

/-- `ABCIValidatorUpdate`. -/
def Validator.abciValidatorUpdate (k : Keeper O) (v : Validator) (r : ℤ) :
    Reading ValidatorUpdate := do
  let tmProtoPk ← orPanic (v.tmConsPublicKey k)
  return ⟨tmProtoPk, ← v.consensusPower r⟩

/-- `ABCIValidatorUpdateZero`. -/
def Validator.abciValidatorUpdateZero (k : Keeper O) (v : Validator) : Reading ValidatorUpdate := do
  return ⟨← orPanic (v.tmConsPublicKey k), 0⟩

/-! ## The power index and the queue -/

/-- `SetValidatorByPowerIndex`: jailed validators are not kept in the power index. -/
def setValidatorByPowerIndex (k : Keeper O) (v : Validator) : Exec GoError (State O) Unit :=
  if v.jailed then pure ()
  else do
    let key ← Exec.ofRead (getValidatorsByPowerIndexKey k.bech32 v DefaultPowerReduction)
    let operator ← Exec.ofRead (v.getOperator k.bech32)
    setStaking fun st =>
      { st with validatorsByPowerIndex := st.validatorsByPowerIndex.set key operator }

/-- `DeleteValidatorByPowerIndex`. -/
def deleteValidatorByPowerIndex (k : Keeper O) (v : Validator) : Exec GoError (State O) Unit := do
  let key ← Exec.ofRead (getValidatorsByPowerIndexKey k.bech32 v DefaultPowerReduction)
  setStaking fun st => { st with validatorsByPowerIndex := st.validatorsByPowerIndex.delete key }

/-- `ValidatorsPowerStoreIterator`: the values of the index, from the largest key down. -/
def Store.validatorsPowerStore (st : Store) : List ValAddress :=
  (st.validatorsByPowerIndex.entries.map Prod.snd).reverse

/-- `GetValidatorQueueKey`. -/
def getValidatorQueueKey (timestamp height : ℤ) : List ℤ := [timestamp, height]

/-- `GetUnbondingValidators`. -/
def Store.getUnbondingValidators (st : Store) (endTime endHeight : ℤ) : List String :=
  (st.validatorQueue.lookup (getValidatorQueueKey endTime endHeight)).getD []

/-- `InsertUnbondingValidatorQueue`. -/
def insertUnbondingValidatorQueue (v : Validator) : Exec GoError (State O) Unit :=
  setStaking fun st =>
    let addrs := st.getUnbondingValidators v.unbondingTime v.unbondingHeight ++ [v.operatorAddress]
    { st with validatorQueue :=
        st.validatorQueue.set (getValidatorQueueKey v.unbondingTime v.unbondingHeight) addrs }

/-- `DeleteValidatorQueue`. -/
def deleteValidatorQueue (v : Validator) : Exec GoError (State O) Unit :=
  setStaking fun st =>
    let key := getValidatorQueueKey v.unbondingTime v.unbondingHeight
    let newAddrs := (st.getUnbondingValidators v.unbondingTime v.unbondingHeight).filter
      (· ≠ v.operatorAddress)
    if newAddrs = [] then { st with validatorQueue := st.validatorQueue.delete key }
    else { st with validatorQueue := st.validatorQueue.set key newAddrs }

/-! ## State transitions -/

/-- `SetValidatorSigningInfo` of the slashing module. -/
def setValidatorSigningInfo (addr : ConsAddress) (info : ValidatorSigningInfo) :
    Exec GoError (State O) Unit := do
  let key ← Exec.ofRead (validatorSigningInfoKey addr)
  modify fun s => { s with signingInfos := s.signingInfos.set key info }

/-- The hooks `AfterValidatorBonded`: the slashing module makes a record for a new validator, the
distribution module does nothing. `AfterValidatorBeginUnbonding` does nothing in both. -/
def afterValidatorBonded (k : Keeper O) (ctx : Context) (addr : ConsAddress) :
    Exec GoError (State O) Unit := do
  let key ← Exec.ofRead (validatorSigningInfoKey addr)
  let s ← get
  if ¬ s.signingInfos.has key then
    setValidatorSigningInfo addr
      ⟨bech32ifyAddressBytes k.bech32 Bech32PrefixConsAddr addr, ctx.blockHeight, 0, 0, false, 0⟩

/-- `bondValidator`. -/
def bondValidator (k : Keeper O) (ctx : Context) (v : Validator) :
    Exec GoError (State O) Validator := do
  deleteValidatorByPowerIndex k v
  -- out of the power index and in again, since the key depends on the validator
  let v := { v with status := .bonded }
  setValidator k.bech32 v
  setValidatorByPowerIndex k v
  deleteValidatorQueue v
  let consAddr ← Exec.ofExcept (v.getConsAddr k)
  afterValidatorBonded k ctx consAddr
  return v

/-- `beginUnbondingValidator`. -/
def beginUnbondingValidator (k : Keeper O) (ctx : Context) (v : Validator) :
    Exec GoError (State O) Validator := do
  let s ← get
  deleteValidatorByPowerIndex k v
  Exec.panicIf (v.status ≠ .bonded) "should not already be unbonded or unbonding"
  let v := { v with
    status := .unbonding
    unbondingTime := ctx.blockTime + s.staking.params.unbondingTime
    unbondingHeight := ctx.blockHeight }
  setValidator k.bech32 v
  setValidatorByPowerIndex k v
  insertUnbondingValidatorQueue v
  let _ ← Exec.ofExcept (v.getConsAddr k)
  return v

/-- `bondedToUnbonding`. -/
def bondedToUnbonding (k : Keeper O) (ctx : Context) (v : Validator) :
    Exec GoError (State O) Validator := do
  Exec.panicIf (v.status ≠ .bonded) "bad state transition bondedToUnbonding"
  beginUnbondingValidator k ctx v

/-- `unbondingToBonded`. -/
def unbondingToBonded (k : Keeper O) (ctx : Context) (v : Validator) :
    Exec GoError (State O) Validator := do
  Exec.panicIf (v.status ≠ .unbonding) "bad state transition unbondingToBonded"
  bondValidator k ctx v

/-- `unbondedToBonded`. -/
def unbondedToBonded (k : Keeper O) (ctx : Context) (v : Validator) :
    Exec GoError (State O) Validator := do
  Exec.panicIf (v.status ≠ .unbonded) "bad state transition unbondedToBonded"
  bondValidator k ctx v

/-! ## The update -/

/-- `getLastValidatorsByAddr`: the last powers by the Bech32 text of the operator. -/
def getLastValidatorsByAddr (k : Keeper O) (st : Store) : KVStore String ℤ :=
  st.lastValidatorPower.entries.foldl (fun last e => last.set
    (bech32ifyAddressBytes k.bech32 Bech32PrefixValAddr (addressFromLastValidatorPowerKey e.1))
    e.2) ∅

/-- `sortNoLongerBonded`: what is left of the last validators, decoded and sorted. -/
def sortNoLongerBonded (k : Keeper O) (last : KVStore String ℤ) :
    Except GoError (List ValAddress) := do
  let addrs ← last.entries.mapM fun e => valAddressFromBech32 k.bech32 e.1
  return addrs.mergeSort fun a b => compare a b ≠ .gt

/-- What the walk down the power index keeps track of. -/
structure Progress where
  last : KVStore String ℤ
  updates : List ValidatorUpdate
  totalPower : ℤ
  amtFromNotBondedToBonded : ℤ

/-- Bond a validator that is to be in the validator set; also what enters the bonded pool. -/
def enterBonded (k : Keeper O) (ctx : Context) (v : Validator) :
    Exec GoError (State O) (Validator × ℤ) := do
  match v.status with
  | .unbonded =>
    let v ← unbondedToBonded k ctx v
    return (v, v.tokens)
  | .unbonding =>
    let v ← unbondingToBonded k ctx v
    return (v, v.tokens)
  | .bonded => return (v, 0)
  | .unspecified => Exec.panicWith "unexpected validator status"

/-- `SetLastValidatorPower`. -/
def setLastValidatorPower (operator : ValAddress) (power : ℤ) : Exec GoError (State O) Unit := do
  let key ← Exec.ofRead (getLastValidatorPowerKey operator)
  setStaking fun st => { st with lastValidatorPower := st.lastValidatorPower.set key power }

/-- `DeleteLastValidatorPower`. -/
def deleteLastValidatorPower (operator : ValAddress) : Exec GoError (State O) Unit := do
  let key ← Exec.ofRead (getLastValidatorPowerKey operator)
  setStaking fun st => { st with lastValidatorPower := st.lastValidatorPower.delete key }

/-- The loop over the power index, for at most `n` validators. -/
def bondByPower (k : Keeper O) (ctx : Context) :
    ℕ → List ValAddress → Progress → Exec GoError (State O) Progress
  | 0, _, p => pure p
  | _, [], p => pure p
  | n + 1, valAddr :: rest, p => do
    let s ← get
    let validator ← Exec.ofRead (s.staking.mustGetValidator valAddr)
    Exec.panicIf (validator.jailed = true)
      "should never retrieve a jailed validator from the power store"
    let potential ← Exec.ofRead (validator.potentialConsensusPower DefaultPowerReduction)
    -- below a validator without power there is none with power
    if potential = 0 then return p
    -- what the validator was before decides whether its tokens enter the bonded pool
    let (validator, entered) ← enterBonded k ctx validator
    let valAddrStr := bech32ifyAddressBytes k.bech32 Bech32PrefixValAddr valAddr
    let newPower ← Exec.ofRead (validator.consensusPower DefaultPowerReduction)
    -- Tendermint hears of powers that changed only
    let updates ←
      if p.last.lookup valAddrStr ≠ some newPower then do
        let update ← Exec.ofRead (validator.abciValidatorUpdate k DefaultPowerReduction)
        setLastValidatorPower valAddr newPower
        pure (p.updates ++ [update])
      else pure p.updates
    bondByPower k ctx n rest
      { last := p.last.delete valAddrStr
        updates := updates
        totalPower := p.totalPower + newPower
        amtFromNotBondedToBonded := p.amtFromNotBondedToBonded + entered }

/-- Unbond a validator that was not found; the updates and what leaves the bonded pool so far. -/
def leaveBonded (k : Keeper O) (ctx : Context) (acc : List ValidatorUpdate × ℤ)
    (valAddr : ValAddress) : Exec GoError (State O) (List ValidatorUpdate × ℤ) := do
  let s ← get
  let validator ← Exec.ofRead (s.staking.mustGetValidator valAddr)
  let validator ← bondedToUnbonding k ctx validator
  let operator ← Exec.ofRead (validator.getOperator k.bech32)
  deleteLastValidatorPower operator
  let update ← Exec.ofRead (validator.abciValidatorUpdateZero k)
  return (acc.1 ++ [update], acc.2 + validator.tokens)

/-- `bondedTokensToNotBonded` and `notBondedTokensToBonded`: an error of the bank is a panic. -/
def moveTokens (k : Keeper O) (sender recipient : String) (tokens : ℤ) :
    Exec GoError (State O) Unit := do
  let s ← get
  match ← Exec.attempt (onOthers
    (k.sendCoinsFromModuleToModule sender recipient s.staking.params.bondDenom tokens)) with
  | .ok () => return ()
  | .error e => Exec.panicWith e.error

/-- `ApplyAndReturnValidatorSetUpdates`. -/
def applyAndReturnValidatorSetUpdates (k : Keeper O) (ctx : Context) :
    Exec GoError (State O) (List ValidatorUpdate) := do
  let s ← get
  let p ← bondByPower k ctx s.staking.params.maxValidators s.staking.validatorsPowerStore
    ⟨getLastValidatorsByAddr k s.staking, [], 0, 0⟩
  -- who is left in the last set was not found in the loop
  let noLongerBonded ← Exec.ofExcept (sortNoLongerBonded k p.last)
  let (updates, amtFromBondedToNotBonded) ←
    noLongerBonded.foldlM (leaveBonded k ctx) (p.updates, 0)
  -- one transfer between the pools, of the difference
  if amtFromBondedToNotBonded < p.amtFromNotBondedToBonded then
    moveTokens k NotBondedPoolName BondedPoolName
      (p.amtFromNotBondedToBonded - amtFromBondedToNotBonded)
  else if p.amtFromNotBondedToBonded < amtFromBondedToNotBonded then
    moveTokens k BondedPoolName NotBondedPoolName
      (amtFromBondedToNotBonded - p.amtFromNotBondedToBonded)
  if updates ≠ [] then
    setStaking fun st => { st with lastTotalPower := some p.totalPower }
  return updates

/-! ## Where there is nothing to do -/

variable {k : Keeper O} {ctx : Context} {s : State O}

/-- Where nothing is indexed and nothing was bonded, nothing is updated. -/
theorem applyAndReturn_of_idle (hindex : s.staking.validatorsByPowerIndex.entries = [])
    (hlast : s.staking.lastValidatorPower.entries = []) :
    applyAndReturnValidatorSetUpdates k ctx s = .ok [] s := by
  have hwalk : ∀ n p, bondByPower k ctx n [] p s = .ok p s := fun n p => by cases n <;> rfl
  have hnone : getLastValidatorsByAddr k s.staking = ∅ := by
    rw [getLastValidatorsByAddr, hlast]
    rfl
  have hsort : sortNoLongerBonded k ∅ = .ok [] := by
    have hentries : (∅ : KVStore String ℤ).entries = [] := rfl
    rw [sortNoLongerBonded, hentries, List.mapM_nil]
    show Except.ok (List.mergeSort [] _) = _
    rw [List.mergeSort_nil]
  have hstore : s.staking.validatorsPowerStore = [] := by
    rw [Store.validatorsPowerStore, hindex]
    rfl
  refine (Exec.get_bind _ _).trans ?_
  rw [hstore, hnone]
  refine (Exec.bind_of_ok (hwalk _ _)).trans ?_
  refine (Exec.bind_of_ok (Exec.ofExcept_ok_iff.mpr ⟨hsort, rfl⟩)).trans ?_
  rfl

end GenesisEthermint.Staking
