import GenesisEthermint.Staking.Invariants
import Mathlib.Data.Finset.Max

/-!
# Export at Height Zero

`prepForZeroHeightGenesis` prepares the stores for a chain that starts again: it pays out what the
distribution module owes, resets heights, jails the validators that are not on the allow-list, and
updates the validator set. The loop over the validators decodes the store's keys by hand. It cuts
off the prefix byte and leaves the length byte on the address, so it looks every validator up under
an address that is one byte longer than its own.
-/

namespace GenesisEthermint.App

open GenesisEthermint.Foundation GenesisEthermint.Types GenesisEthermint.Staking

/-! ## The keepers -/

/-- A coin of a decimal amount, in units of `10⁻¹⁸`. -/
structure DecCoin where
  denom : String
  amount : ℤ

/-- The keepers of the application that an export uses. The distribution and bank modules read the
staking store and write their own. -/
structure ExportKeepers (O : Type) where
  stakingKeeper : Keeper O
  invariants : List (Invariant O)
  withdrawValidatorCommission : Context → Store → ValAddress → Exec GoError O Unit
  withdrawDelegationRewards : Context → Store → AccAddress → ValAddress → Exec GoError O Unit
  deleteAllValidatorSlashEvents : O → O
  deleteAllValidatorHistoricalRewards : O → O
  getValidatorOutstandingRewardsCoins : O → ValAddress → List DecCoin
  getCommunityPool : Exec GoError O (List DecCoin)
  setCommunityPool : List DecCoin → O → O
  addDecCoins : List DecCoin → List DecCoin → List DecCoin
  afterValidatorCreated : Context → Store → ValAddress → Exec GoError O Unit
  beforeDelegationCreated : Context → Store → AccAddress → ValAddress → Exec GoError O Unit
  afterDelegationModified : Context → Store → AccAddress → ValAddress → Exec GoError O Unit

variable {O : Type}

/-- The codec the keepers share. -/
def ExportKeepers.codec (k : ExportKeepers O) : Bech32 := k.stakingKeeper.bech32

/-- Call a keeper that reads the staking store. -/
def callKeeper {α : Type} (f : Store → Exec GoError O α) : Exec GoError (State O) α := do
  let s ← get
  onOthers (f s.staking)

/-! ## Fee distribution -/

/-- Withdraw a validator's commission; an error is ignored. -/
def withdrawCommission (k : ExportKeepers O) (ctx : Context) (val : Validator) :
    Exec GoError (State O) Unit := do
  let operator ← Exec.ofRead (val.getOperator k.codec)
  let _ ← Exec.attempt (callKeeper fun st => k.withdrawValidatorCommission ctx st operator)

/-- The delegator and the validator of a delegation. -/
def delegationAddresses (k : ExportKeepers O) (del : Delegation) :
    Except GoError (AccAddress × ValAddress) := do
  let valAddr ← valAddressFromBech32 k.codec del.validatorAddress
  let delAddr ← accAddressFromBech32 k.codec del.delegatorAddress
  return (delAddr, valAddr)

/-- Withdraw the rewards of a delegation; an error of the keeper is ignored. -/
def withdrawRewards (k : ExportKeepers O) (ctx : Context) (del : Delegation) :
    Exec GoError (State O) Unit := do
  let (delAddr, valAddr) ← Exec.ofExcept (delegationAddresses k del)
  let _ ← Exec.attempt (callKeeper fun st => k.withdrawDelegationRewards ctx st delAddr valAddr)

/-- Donate what is left of a validator's rewards to the community pool, and start it anew. -/
def reinitializeValidator (k : ExportKeepers O) (ctx : Context) (val : Validator) :
    Exec GoError (State O) Unit := do
  let operator ← Exec.ofRead (val.getOperator k.codec)
  onOthers do
    let o ← get
    let scraps := k.getValidatorOutstandingRewardsCoins o operator
    let communityPool ← k.getCommunityPool
    modify (k.setCommunityPool (k.addDecCoins communityPool scraps))
  callKeeper fun st => k.afterValidatorCreated ctx st operator

/-- Start a delegation anew. -/
def reinitializeDelegation (k : ExportKeepers O) (ctx : Context) (del : Delegation) :
    Exec GoError (State O) Unit := do
  let (delAddr, valAddr) ← Exec.ofExcept (delegationAddresses k del)
  callKeeper fun st => k.beforeDelegationCreated ctx st delAddr valAddr
  callKeeper fun st => k.afterDelegationModified ctx st delAddr valAddr

/-- `GetAllValidators`, of the stores as they are. -/
def allValidators : Exec GoError (State O) (List Validator) := do
  let s ← get
  return s.staking.getAllValidators

/-- "Handle fee distribution state." -/
def handleFeeDistribution (k : ExportKeepers O) (ctx : Context) : Exec GoError (State O) Unit := do
  forM (← allValidators) (withdrawCommission k ctx)
  let s ← get
  -- read once, for both loops over the delegations
  let dels := s.staking.getAllDelegations
  forM dels (withdrawRewards k ctx)
  onOthers (modify k.deleteAllValidatorSlashEvents)
  onOthers (modify k.deleteAllValidatorHistoricalRewards)
  -- the modules initialize at height zero
  let ctx := { ctx with blockHeight := 0 }
  forM (← allValidators) (reinitializeValidator k ctx)
  forM dels (reinitializeDelegation k ctx)

/-! ## Staking -/

/-- Reset the creation heights of a redelegation. -/
def resetRedelegation (k : ExportKeepers O) (red : Redelegation) : Exec GoError (State O) Unit :=
  setRedelegation k.codec
    { red with entries := red.entries.map fun e => { e with creationHeight := 0 } }

/-- Reset the creation heights of an unbonding delegation. -/
def resetUnbondingDelegation (k : ExportKeepers O) (ubd : UnbondingDelegation) :
    Exec GoError (State O) Unit :=
  setUnbondingDelegation k.codec
    { ubd with entries := ubd.entries.map fun e => { e with creationHeight := 0 } }

/-- The loops over redelegations and unbonding delegations. -/
def resetCreationHeights (k : ExportKeepers O) : Exec GoError (State O) Unit := do
  let s ← get
  forM (s.staking.redelegations.entries.map Prod.snd) (resetRedelegation k)
  let s ← get
  forM (s.staking.unbondingDelegations.entries.map Prod.snd) (resetUnbondingDelegation k)

/-- `sdk.ValAddress(iter.Key()[1:])`. -/
def keyAddr (key : List UInt8) : ValAddress := key.drop 1

/-- The keys of the validators in the order of the loop. -/
def validatorKeys (st : Store) : List (List UInt8) := (st.validators.entries.map Prod.fst).reverse

/-- One round of the loop over the validators. `allowedAddrsMap` holds the texts of the list. -/
def resetValidator (k : ExportKeepers O) (jailAllowedAddrs : List String) (key : List UInt8) :
    Exec GoError (State O) Unit := do
  let addr := keyAddr key
  let addrString := bech32ifyAddressBytes k.codec Bech32PrefixValAddr addr
  let s ← get
  match ← Exec.ofRead (s.staking.getValidator addr) with
  | none => Exec.fail (.errorf ("expected validator " ++ addrString ++ " not found"))
  | some validator =>
    let jail : Bool := jailAllowedAddrs ≠ [] ∧ addrString ∉ jailAllowedAddrs
    setValidator k.codec
      { validator with unbondingHeight := 0, jailed := jail || validator.jailed }

/-- The loop over the validators. -/
def resetValidators (k : ExportKeepers O) (jailAllowedAddrs : List String) :
    Exec GoError (State O) Unit := do
  let s ← get
  forM (validatorKeys s.staking) (resetValidator k jailAllowedAddrs)

/-! ## The function -/

/-- Reset the start height of a signing info. -/
def resetSigningInfo (entry : List UInt8 × ValidatorSigningInfo) : Exec GoError (State O) Unit :=
  setValidatorSigningInfo (validatorSigningInfoAddress entry.1) { entry.2 with startHeight := 0 }

/-- "Handle slashing state." -/
def resetStartHeights : Exec GoError (State O) Unit := do
  let s ← get
  forM s.signingInfos.entries resetSigningInfo

/-- An address of the allow-list has to decode. -/
def checkAllowedAddr (k : ExportKeepers O) (addr : String) : Exec GoError (State O) Unit := do
  let _ ← Exec.ofExcept (valAddressFromBech32 k.codec addr)

/-- What comes before the loop over the validators. -/
def prepareStores (k : ExportKeepers O) (ctx : Context) (jailAllowedAddrs : List String) :
    Exec GoError (State O) Unit := do
  forM jailAllowedAddrs (checkAllowedAddr k)
  let s ← get
  Exec.ofRead (assertInvariants k.stakingKeeper k.invariants s)
  handleFeeDistribution k ctx
  resetCreationHeights k

/-- `prepForZeroHeightGenesis`. -/
def prepForZeroHeightGenesis (k : ExportKeepers O) (ctx : Context)
    (jailAllowedAddrs : List String) : Exec GoError (State O) Unit := do
  prepareStores k ctx jailAllowedAddrs
  resetValidators k jailAllowedAddrs
  let _ ← applyAndReturnValidatorSetUpdates k.stakingKeeper ctx
  resetStartHeights

/-! ## What comes before the loop leaves the validators alone -/

/-- What the loop over the validators and the steps after it work on. -/
def validatorStores (s : State O) :=
  (s.staking.validators, s.staking.validatorsByPowerIndex, s.staking.lastValidatorPower,
    s.signingInfos)

/-- Leaving the validators' stores as they are. -/
abbrev KeepsValidators {α : Type} (x : Exec GoError (State O) α) : Prop :=
  Exec.Relates (Exec.SameOn validatorStores) x

private theorem keeps_onOthers {α : Type} (x : Exec GoError O α) :
    KeepsValidators (onOthers x) := by
  intro s
  show validatorStores (Exec.after (onOthers x s)) = _
  unfold onOthers
  cases x s.others <;> rfl

private theorem keeps_callKeeper {α : Type} (f : Store → Exec GoError O α) :
    KeepsValidators (callKeeper f) :=
  Exec.relates_bind Exec.relates_get fun _ => keeps_onOthers _

private theorem keeps_setRedelegation (codec : Bech32) (red : Redelegation) :
    KeepsValidators (O := O) (setRedelegation codec red) := by
  unfold setRedelegation
  refine Exec.relates_bind (Exec.relates_ofRead _) fun _ => ?_
  refine Exec.relates_bind (Exec.relates_ofRead _) fun _ => ?_
  refine Exec.relates_bind (Exec.relates_ofRead _) fun _ => ?_
  refine Exec.relates_bind (Exec.relates_ofRead _) fun _ => ?_
  refine Exec.relates_bind (fun _ => rfl) fun _ => ?_
  refine Exec.relates_bind (Exec.relates_ofRead _) fun _ => ?_
  refine Exec.relates_bind (fun _ => rfl) fun _ => ?_
  exact Exec.relates_bind (Exec.relates_ofRead _) fun _ _ => rfl

private theorem keeps_setUnbondingDelegation (codec : Bech32) (ubd : UnbondingDelegation) :
    KeepsValidators (O := O) (setUnbondingDelegation codec ubd) := by
  unfold setUnbondingDelegation
  refine Exec.relates_bind (Exec.relates_ofRead _) fun _ => ?_
  refine Exec.relates_bind (Exec.relates_ofRead _) fun _ => ?_
  refine Exec.relates_bind (Exec.relates_ofRead _) fun _ => ?_
  refine Exec.relates_bind (fun _ => rfl) fun _ => ?_
  exact Exec.relates_bind (Exec.relates_ofRead _) fun _ _ => rfl

private theorem keeps_withdrawCommission (k : ExportKeepers O) (ctx : Context) (val : Validator) :
    KeepsValidators (withdrawCommission k ctx val) :=
  Exec.relates_bind (Exec.relates_ofRead _) fun _ =>
    Exec.relates_bind (Exec.relates_attempt (keeps_callKeeper _)) fun _ => Exec.relates_pure _

private theorem keeps_withdrawRewards (k : ExportKeepers O) (ctx : Context) (del : Delegation) :
    KeepsValidators (withdrawRewards k ctx del) :=
  Exec.relates_bind (Exec.relates_ofExcept _) fun _ =>
    Exec.relates_bind (Exec.relates_attempt (keeps_callKeeper _)) fun _ => Exec.relates_pure _

private theorem keeps_reinitializeValidator (k : ExportKeepers O) (ctx : Context)
    (val : Validator) : KeepsValidators (reinitializeValidator k ctx val) :=
  Exec.relates_bind (Exec.relates_ofRead _) fun _ =>
    Exec.relates_bind (keeps_onOthers _) fun _ => keeps_callKeeper _

private theorem keeps_reinitializeDelegation (k : ExportKeepers O) (ctx : Context)
    (del : Delegation) : KeepsValidators (reinitializeDelegation k ctx del) :=
  Exec.relates_bind (Exec.relates_ofExcept _) fun _ =>
    Exec.relates_bind (keeps_callKeeper _) fun _ => keeps_callKeeper _

private theorem keeps_allValidators : KeepsValidators (allValidators (O := O)) :=
  Exec.relates_bind Exec.relates_get fun _ => Exec.relates_pure _

private theorem keeps_handleFeeDistribution (k : ExportKeepers O) (ctx : Context) :
    KeepsValidators (handleFeeDistribution k ctx) := by
  unfold handleFeeDistribution
  refine Exec.relates_bind keeps_allValidators fun _ => ?_
  refine Exec.relates_bind
    (Exec.relates_forM _ fun _ _ => keeps_withdrawCommission k ctx _) fun _ => ?_
  refine Exec.relates_bind Exec.relates_get fun _ => ?_
  refine Exec.relates_bind
    (Exec.relates_forM _ fun _ _ => keeps_withdrawRewards k ctx _) fun _ => ?_
  refine Exec.relates_bind (keeps_onOthers _) fun _ => ?_
  refine Exec.relates_bind (keeps_onOthers _) fun _ => ?_
  refine Exec.relates_bind keeps_allValidators fun _ => ?_
  refine Exec.relates_bind (Exec.relates_forM _ fun _ _ => keeps_reinitializeValidator k _ _)
    fun _ => ?_
  exact Exec.relates_forM _ fun _ _ => keeps_reinitializeDelegation k _ _

private theorem keeps_resetCreationHeights (k : ExportKeepers O) :
    KeepsValidators (resetCreationHeights k) :=
  Exec.relates_bind Exec.relates_get fun _ =>
    Exec.relates_bind (Exec.relates_forM _ fun _ _ => keeps_setRedelegation _ _) fun _ =>
      Exec.relates_bind Exec.relates_get fun _ =>
        Exec.relates_forM _ fun _ _ => keeps_setUnbondingDelegation _ _

/-- Until the loop begins, the validators are as they were. -/
theorem keeps_prepareStores (k : ExportKeepers O) (ctx : Context) (jailAllowedAddrs : List String) :
    KeepsValidators (prepareStores k ctx jailAllowedAddrs) := by
  unfold prepareStores
  refine Exec.relates_bind (Exec.relates_forM _ fun _ _ =>
    Exec.relates_bind (Exec.relates_ofExcept _) fun _ => Exec.relates_pure _) fun _ => ?_
  refine Exec.relates_bind Exec.relates_get fun _ => ?_
  refine Exec.relates_bind (Exec.relates_ofRead _) fun _ => ?_
  refine Exec.relates_bind (keeps_handleFeeDistribution k ctx) fun _ => ?_
  exact keeps_resetCreationHeights k

/-! ## The loop never completes -/

/-- Every validator is stored under the key of its operator. -/
def Keyed (codec : Bech32) (st : Store) : Prop :=
  ∀ key v, st.validators.lookup key = some v → ∃ addr,
    valAddressFromBech32 codec v.operatorAddress = .ok addr ∧ getValidatorKey addr = .ok key

/-- The loop finds a validator under the address it decodes the key to. -/
def FindsValidator (st : Store) (key : List UInt8) : Prop :=
  ∃ found, getValidatorKey (keyAddr key) = .ok found ∧ st.validators.has found = true

variable {k : ExportKeepers O} {jailAllowedAddrs : List String} {s t : State O}
  {key : List UInt8}

/-- A round that completes found a validator, and wrote it back where it was. -/
theorem resetValidator_ok (hkeyed : Keyed k.codec s.staking)
    (h : resetValidator k jailAllowedAddrs key s = .ok () t) :
    FindsValidator s.staking key ∧ Keyed k.codec t.staking ∧
      ∀ x, t.staking.validators.has x = s.staking.validators.has x := by
  obtain ⟨s', _, hget, h⟩ := Exec.bind_ok_iff.mp h
  obtain ⟨rfl, rfl⟩ := Exec.get_ok_iff.mp hget
  obtain ⟨found?, _, hread, h⟩ := Exec.bind_ok_iff.mp h
  obtain ⟨hfound, rfl⟩ := Exec.ofRead_ok_iff.mp hread
  obtain ⟨found, hkey, hlookup⟩ := except_bind_ok_iff.mp hfound
  cases found? with
  | none => exact (Exec.fail_ok_iff.mp h).elim
  | some v =>
    have hv : s.staking.validators.lookup found = some v := Except.ok.inj hlookup
    obtain ⟨addr, haddr, hown⟩ := hkeyed found v hv
    -- the record is written under its operator's key, which is where it was found
    obtain ⟨written, _, hread, h⟩ := Exec.bind_ok_iff.mp h
    obtain ⟨hwritten, rfl⟩ := Exec.ofRead_ok_iff.mp hread
    obtain ⟨operator, hoperator, hwritten⟩ := except_bind_ok_iff.mp hwritten
    have hsame : operator = addr :=
      Except.ok.inj (hoperator.symm.trans (Validator.getOperator_of_ok haddr))
    obtain rfl : written = found := by
      rw [hsame, hown] at hwritten
      exact (Except.ok.inj hwritten).symm
    have ht := Exec.modify_ok_iff.mp h
    refine ⟨⟨written, hkey, by rw [KVStore.has, hv]; rfl⟩, ?_, fun x => ?_⟩
    · intro x w hw
      simp only [ht, KVStore.lookup_set] at hw
      split at hw
      · rename_i hx
        obtain rfl := Option.some.inj hw
        exact ⟨addr, haddr, hx ▸ hown⟩
      · exact hkeyed x w hw
    · simp only [ht, KVStore.has, KVStore.lookup_set]
      split
      · rename_i hx
        rw [hx, hv]
        rfl
      · rfl

/-- If the loop completes, every one of its rounds found a validator. -/
theorem forM_resetValidator_ok {keys : List (List UInt8)} (hkeyed : Keyed k.codec s.staking)
    (h : forM keys (resetValidator k jailAllowedAddrs) s = .ok () t) :
    ∀ key ∈ keys, FindsValidator s.staking key := by
  induction keys generalizing s with
  | nil => exact fun _ hmem => (List.not_mem_nil hmem).elim
  | cons first rest ih =>
    obtain ⟨u, hfirst, hrest⟩ := Exec.forM_cons_ok_iff.mp h
    obtain ⟨hfinds, hkeyed', hsame⟩ := resetValidator_ok hkeyed hfirst
    intro key hmem
    rcases List.mem_cons.mp hmem with rfl | hmem
    · exact hfinds
    · obtain ⟨found, hkey, hhas⟩ := ih hkeyed' hrest key hmem
      exact ⟨found, hkey, (hsame found).symm.trans hhas⟩

/-- The keys of the loop are those of the stored validators. -/
theorem mem_validatorKeys_iff {st : Store} :
    key ∈ validatorKeys st ↔ st.validators.has key = true := by
  simp only [validatorKeys, List.mem_reverse, List.mem_map, KVStore.has,
    Option.isSome_iff_exists]
  constructor
  · rintro ⟨⟨x, v⟩, hmem, rfl⟩
    exact ⟨v, KVStore.mem_entries_iff.mp hmem⟩
  · rintro ⟨v, hv⟩
    exact ⟨(key, v), KVStore.mem_entries_iff.mpr hv, rfl⟩

/-- The key under which the loop looks a validator up is longer than the validator's key. -/
theorem length_lt_of_findsValidator {st : Store} (hkeyed : Keyed k.codec st)
    (hkey : st.validators.has key = true) (hfinds : FindsValidator st key) :
    ∃ longer, st.validators.has longer = true ∧ key.length < longer.length := by
  obtain ⟨v, hv⟩ := Option.isSome_iff_exists.mp hkey
  obtain ⟨addr, haddr, hown⟩ := hkeyed key v hv
  obtain ⟨hne, hlen⟩ := addressFromBech32_ok haddr
  obtain ⟨found, hfound, hhas⟩ := hfinds
  -- the key is the prefix, the length and the address; the loop drops the prefix only
  have hform : key = 0x21 :: UInt8.ofNat addr.length :: addr :=
    Except.ok.inj (hown.symm.trans (addressKey_of_valid hne hlen))
  have hdecoded : keyAddr key = UInt8.ofNat addr.length :: addr := by
    rw [hform]
    rfl
  -- so it looks for the length and the address together, under a key two bytes longer
  have hlonger : found.length = (keyAddr key).length + 2 :=
    length_addressKey (by rw [hdecoded]; exact List.cons_ne_nil _ _) hfound
  refine ⟨found, hhas, ?_⟩
  rw [hlonger, hdecoded, hform]
  simp only [List.length_cons]
  omega

/-- **The loop fails wherever a validator is stored.** The longest of the keys leads to a key that
is longer still. -/
theorem resetValidators_ne_ok (hkeyed : Keyed k.codec s.staking)
    (hkey : s.staking.validators.has key = true) :
    resetValidators k jailAllowedAddrs s ≠ .ok () t := by
  intro h
  obtain ⟨s', _, hget, h⟩ := Exec.bind_ok_iff.mp h
  obtain ⟨rfl, rfl⟩ := Exec.get_ok_iff.mp hget
  have hfinds := forM_resetValidator_ok hkeyed h
  obtain ⟨longest, hmem, hmax⟩ := Finset.exists_max_image (validatorKeys s.staking).toFinset
    List.length ⟨key, List.mem_toFinset.mpr (mem_validatorKeys_iff.mpr hkey)⟩
  rw [List.mem_toFinset] at hmem
  obtain ⟨longer, hhas, hlt⟩ := length_lt_of_findsValidator hkeyed
    (mem_validatorKeys_iff.mp hmem) (hfinds longest hmem)
  have hle := hmax longer (List.mem_toFinset.mpr (mem_validatorKeys_iff.mpr hhas))
  omega

/-! ## Stores without validators -/

private theorem setRedelegation_ok (codec : Bech32) (red : Redelegation)
    {delAddr : AccAddress} {srcAddr dstAddr : ValAddress}
    (hdel : accAddressFromBech32 codec red.delegatorAddress = .ok delAddr)
    (hsrc : valAddressFromBech32 codec red.validatorSrcAddress = .ok srcAddr)
    (hdst : valAddressFromBech32 codec red.validatorDstAddress = .ok dstAddr) :
    ∃ t, setRedelegation codec red s = .ok () t ∧
      t.staking.unbondingDelegations = s.staking.unbondingDelegations := by
  -- the three keys list the three addresses in different orders
  have hvalid : ∀ addrs : List (List UInt8), (∀ addr ∈ addrs, addr ∈ [delAddr, srcAddr, dstAddr]) →
      ∀ addr ∈ addrs, addr ≠ [] ∧ addr.length ≤ MaxAddrLen := by
    intro addrs hsub addr hmem
    rcases List.mem_cons.mp (hsub addr hmem) with rfl | hmem
    · exact addressFromBech32_ok hdel
    rcases List.mem_cons.mp hmem with rfl | hmem
    · exact addressFromBech32_ok hsrc
    · obtain rfl := List.mem_singleton.mp hmem
      exact addressFromBech32_ok hdst
  obtain ⟨key, hkey⟩ := addressesKey_of_valid 0x34
    (hvalid [delAddr, srcAddr, dstAddr] (by simp))
  obtain ⟨srcKey, hsrcKey⟩ := addressesKey_of_valid 0x35
    (hvalid [srcAddr, delAddr, dstAddr] (by simp))
  obtain ⟨dstKey, hdstKey⟩ := addressesKey_of_valid 0x36
    (hvalid [dstAddr, delAddr, srcAddr] (by simp))
  -- the state after is whatever the writes give: the run is solved before `?after`
  rw [setRedelegation, hdel, hsrc, hdst]
  refine ⟨?after, ?run, ?same⟩
  case run =>
    refine (Exec.bind_of_ok (Exec.ofRead_ok_iff.mpr ⟨rfl, rfl⟩)).trans ?_
    refine (Exec.bind_of_ok (Exec.ofRead_ok_iff.mpr ⟨rfl, rfl⟩)).trans ?_
    refine (Exec.bind_of_ok (Exec.ofRead_ok_iff.mpr ⟨rfl, rfl⟩)).trans ?_
    refine (Exec.bind_of_ok (Exec.ofRead_ok_iff.mpr ⟨hkey, rfl⟩)).trans ?_
    refine (Exec.modify_bind ..).trans ?_
    refine (Exec.bind_of_ok (Exec.ofRead_ok_iff.mpr ⟨hsrcKey, rfl⟩)).trans ?_
    refine (Exec.modify_bind ..).trans ?_
    refine (Exec.bind_of_ok (Exec.ofRead_ok_iff.mpr ⟨hdstKey, rfl⟩)).trans ?_
    exact Exec.modify_run ..
  case same => rfl

private theorem setUnbondingDelegation_ok (codec : Bech32) (ubd : UnbondingDelegation)
    {delAddr : AccAddress} {valAddr : ValAddress}
    (hdel : accAddressFromBech32 codec ubd.delegatorAddress = .ok delAddr)
    (hval : valAddressFromBech32 codec ubd.validatorAddress = .ok valAddr) :
    ∃ t, setUnbondingDelegation codec ubd s = .ok () t := by
  have hvalid : ∀ addrs : List (List UInt8), (∀ addr ∈ addrs, addr ∈ [delAddr, valAddr]) →
      ∀ addr ∈ addrs, addr ≠ [] ∧ addr.length ≤ MaxAddrLen := by
    intro addrs hsub addr hmem
    rcases List.mem_cons.mp (hsub addr hmem) with rfl | hmem
    · exact addressFromBech32_ok hdel
    · obtain rfl := List.mem_singleton.mp hmem
      exact addressFromBech32_ok hval
  obtain ⟨key, hkey⟩ := addressesKey_of_valid 0x32 (hvalid [delAddr, valAddr] (by simp))
  obtain ⟨indexKey, hindexKey⟩ := addressesKey_of_valid 0x33
    (hvalid [valAddr, delAddr] (by simp))
  rw [setUnbondingDelegation, hdel, hval]
  refine ⟨?after, ?run⟩
  case run =>
    refine (Exec.bind_of_ok (Exec.ofRead_ok_iff.mpr ⟨rfl, rfl⟩)).trans ?_
    refine (Exec.bind_of_ok (Exec.ofRead_ok_iff.mpr ⟨rfl, rfl⟩)).trans ?_
    refine (Exec.bind_of_ok (Exec.ofRead_ok_iff.mpr ⟨hkey, rfl⟩)).trans ?_
    refine (Exec.modify_bind ..).trans ?_
    refine (Exec.bind_of_ok (Exec.ofRead_ok_iff.mpr ⟨hindexKey, rfl⟩)).trans ?_
    exact Exec.modify_run ..

private theorem mem_values {ν : Type} {m : KVStore (List UInt8) ν} {x : ν}
    (h : x ∈ m.entries.map Prod.snd) : ∃ key, m.lookup key = some x := by
  obtain ⟨⟨key, y⟩, hmem, rfl⟩ := List.mem_map.mp h
  exact ⟨key, KVStore.mem_entries_iff.mp hmem⟩

/-- The creation heights are reset in every well-formed store. -/
theorem resetCreationHeights_ok (hwf : s.staking.WellFormed k.codec) :
    ∃ t, resetCreationHeights k s = .ok () t := by
  -- redelegations are reset first, and leave the unbonding delegations alone
  have hreds : ∃ u, forM (s.staking.redelegations.entries.map Prod.snd) (resetRedelegation k) s =
      .ok ⟨⟩ u ∧ u.staking.unbondingDelegations = s.staking.unbondingDelegations := by
    apply Exec.forM_completes (P := fun u : State O =>
      u.staking.unbondingDelegations = s.staking.unbondingDelegations)
    · intro red hmem u hu
      obtain ⟨key, hlookup⟩ := mem_values hmem
      obtain ⟨delAddr, srcAddr, dstAddr, hdel, hsrc, hdst, -⟩ := hwf.redelegations key red hlookup
      obtain ⟨t, ht, hsame⟩ := setRedelegation_ok (s := u) k.codec
        { red with entries := red.entries.map fun e => { e with creationHeight := 0 } }
        hdel hsrc hdst
      exact ⟨t, ht, hsame.trans hu⟩
    · rfl
  obtain ⟨u, hreds, hsame⟩ := hreds
  -- so what the second loop reads is well formed as well
  have hubds : ∃ t, forM (u.staking.unbondingDelegations.entries.map Prod.snd)
      (resetUnbondingDelegation k) u = .ok ⟨⟩ t := by
    apply Exec.forM_completes_of_forall
    intro ubd hmem v
    rw [hsame] at hmem
    obtain ⟨key, hlookup⟩ := mem_values hmem
    obtain ⟨delAddr, valAddr, hdel, hval, -⟩ := hwf.unbondingDelegations key ubd hlookup
    exact setUnbondingDelegation_ok k.codec
      { ubd with entries := ubd.entries.map fun e => { e with creationHeight := 0 } }
      hdel hval
  obtain ⟨t, hubds⟩ := hubds
  refine ⟨t, ?_⟩
  refine (Exec.get_bind _ _).trans ?_
  refine (Exec.bind_of_ok hreds).trans ?_
  exact (Exec.get_bind _ _).trans hubds

private theorem onOthers_modify (g : O → O) (s : State O) :
    onOthers (modify g) s = .ok ⟨⟩ { s with others := g s.others } := rfl

/-- Without validators and delegations only the records of the distribution module are cleared. -/
theorem handleFeeDistribution_of_none (ctx : Context) (hvals : s.staking.getAllValidators = [])
    (hdels : s.staking.getAllDelegations = []) :
    ∃ o, handleFeeDistribution k ctx s = .ok () { s with others := o } := by
  have hall : ∀ o : O, allValidators { s with others := o } = .ok [] { s with others := o } := by
    intro o
    rw [← hvals]
    rfl
  have hnil : ∀ {ι : Type} (f : ι → Exec GoError (State O) PUnit) (u : State O),
      forM [] f u = .ok ⟨⟩ u := fun _ _ => rfl
  -- without validators and delegations only the two deletions are left
  refine ⟨k.deleteAllValidatorHistoricalRewards (k.deleteAllValidatorSlashEvents s.others), ?_⟩
  refine (Exec.bind_of_ok (hall s.others)).trans ?_
  refine (Exec.bind_of_ok (hnil _ _)).trans ?_
  refine (Exec.get_bind _ _).trans ?_
  rw [hdels]
  refine (Exec.bind_of_ok (hnil _ _)).trans ?_
  refine (Exec.bind_of_ok (onOthers_modify _ _)).trans ?_
  refine (Exec.bind_of_ok (onOthers_modify _ _)).trans ?_
  refine (Exec.bind_of_ok (hall _)).trans ?_
  exact (Exec.bind_of_ok (hnil _ _)).trans (hnil _ _)

/-- The start heights are reset wherever signing infos are stored under their own keys. -/
theorem resetStartHeights_ok (h : ∀ key info, s.signingInfos.lookup key = some info → ∃ addr,
    addr ≠ [] ∧ addr.length ≤ MaxAddrLen ∧ validatorSigningInfoKey addr = .ok key) :
    ∃ t, resetStartHeights s = .ok () t := by
  have hloop : ∃ t, forM s.signingInfos.entries resetSigningInfo s = .ok ⟨⟩ t := by
    apply Exec.forM_completes_of_forall
    rintro ⟨key, info⟩ hmem u
    obtain ⟨addr, hne, hlen, hkey⟩ := h key info (KVStore.mem_entries_iff.mp hmem)
    have hform := Except.ok.inj (hkey.symm.trans (addressKey_of_valid hne hlen))
    have hdecoded : validatorSigningInfoAddress key = addr := by
      rw [hform]
      rfl
    rw [resetSigningInfo, setValidatorSigningInfo, hdecoded]
    exact ⟨_, Exec.bind_of_ok (Exec.ofRead_ok_iff.mpr ⟨hkey, rfl⟩)⟩
  obtain ⟨t, ht⟩ := hloop
  exact ⟨t, (Exec.get_bind _ _).trans ht⟩

/-! ## The export -/

/-- What the export should make of a validator. -/
structure Reset (codec : Bech32) (jailAllowedAddrs : List String) (v v' : Validator) : Prop where
  unbondingHeight : v'.unbondingHeight = 0
  jailed : v'.jailed = true ↔ v.jailed = true ∨ jailAllowedAddrs ≠ [] ∧
    ∀ text ∈ jailAllowedAddrs,
      valAddressFromBech32 codec text ≠ valAddressFromBech32 codec v.operatorAddress
  operatorAddress : v'.operatorAddress = v.operatorAddress
  tokens : v'.tokens = v.tokens
  delegatorShares : v'.delegatorShares = v.delegatorShares

/-- The export completes, its loop visits each stored validator once and resets it, and the update
of the validator set succeeds on what the loop leaves. -/
structure ProcessesEveryValidator (k : ExportKeepers O) (ctx : Context)
    (jailAllowedAddrs : List String) (s : State O) : Prop where
  completes : ∃ t, prepForZeroHeightGenesis k ctx jailAllowedAddrs s = .ok () t
  visits : List.Perm ((validatorKeys s.staking).map fun key => Except.ok (keyAddr key))
    (s.staking.getAllValidators.map fun v => valAddressFromBech32 k.codec v.operatorAddress)
  resets : ∀ u, prepareStores k ctx jailAllowedAddrs s = .ok () u → ∃ t,
    resetValidators k jailAllowedAddrs u = .ok () t ∧
    (∀ key v, s.staking.validators.lookup key = some v → ∃ v',
      t.staking.validators.lookup key = some v' ∧ Reset k.codec jailAllowedAddrs v v') ∧
    ∃ updates w, applyAndReturnValidatorSetUpdates k.stakingKeeper ctx t = .ok updates w

variable {ctx : Context}

/-- The export fails wherever a validator is stored. -/
theorem prepForZeroHeightGenesis_ne_ok (hkeyed : Keyed k.codec s.staking)
    (hkey : s.staking.validators.has key = true) :
    prepForZeroHeightGenesis k ctx jailAllowedAddrs s ≠ .ok () t := by
  intro h
  obtain ⟨_, u, hprepare, h⟩ := Exec.bind_ok_iff.mp h
  obtain ⟨_, v, hloop, -⟩ := Exec.bind_ok_iff.mp h
  have hsame : u.staking.validators = s.staking.validators :=
    congrArg Prod.fst ((keeps_prepareStores k ctx jailAllowedAddrs).of_ok hprepare)
  have hkeyed' : Keyed k.codec u.staking := by
    rw [Keyed, hsame]
    exact hkeyed
  exact resetValidators_ne_ok hkeyed' (hsame ▸ hkey) hloop

private theorem lookup_eq_none {st : Store} (h : st.getAllValidators = []) (key : List UInt8) :
    st.validators.lookup key = none := by
  cases hv : st.validators.lookup key with
  | none => rfl
  | some v =>
    have hmem := List.mem_map_of_mem (f := Prod.snd) (KVStore.mem_entries_iff.mpr hv)
    rw [← Store.getAllValidators, h] at hmem
    exact (List.not_mem_nil hmem).elim

/-- Without validators nothing is in the way of the loop. -/
theorem prepareStores_ok (ctx : Context) (hwf : s.WellFormed k.codec)
    (hassert : assertInvariants k.stakingKeeper k.invariants s = .ok ())
    (hallowed : ∀ text ∈ jailAllowedAddrs, ∃ addr, valAddressFromBech32 k.codec text = .ok addr)
    (hnone : s.staking.getAllValidators = []) :
    ∃ u, prepareStores k ctx jailAllowedAddrs s = .ok () u := by
  -- the addresses of the flag parse, and nothing is written
  have hparse : ∃ u, forM jailAllowedAddrs (checkAllowedAddr k) s = .ok ⟨⟩ u ∧ u = s := by
    apply Exec.forM_completes (P := fun u : State O => u = s)
    · rintro text hmem u rfl
      obtain ⟨addr, haddr⟩ := hallowed text hmem
      exact ⟨u, Exec.bind_of_ok (Exec.ofExcept_ok_iff.mpr ⟨haddr, rfl⟩), rfl⟩
    · rfl
  obtain ⟨v, hparse, hv⟩ := hparse
  rw [hv] at hparse
  -- without validators there are no delegations either
  obtain ⟨o, hfees⟩ := handleFeeDistribution_of_none (k := k) ctx hnone
    (hwf.staking.getAllDelegations_eq_nil (lookup_eq_none hnone))
  obtain ⟨u, hheights⟩ := resetCreationHeights_ok (s := { s with others := o }) hwf.staking
  refine ⟨u, ?_⟩
  -- the steps of the function in their order
  refine (Exec.bind_of_ok hparse).trans ?_
  refine (Exec.get_bind _ _).trans ?_
  refine (Exec.bind_of_ok (Exec.ofRead_ok_iff.mpr ⟨hassert, rfl⟩)).trans ?_
  exact (Exec.bind_of_ok hfees).trans hheights

/-! ## A chain with one validator

The texts are the real ones of their addresses. The other modules keep the balances of the bonded
and of the not bonded pool. -/

/-- The operator, and its texts as an account and as a validator. -/
def operatorAddr : ValAddress := List.replicate 20 0x33

def operatorAccount : String := "genesis1xvenxvenxvenxvenxvenxvenxvenxvenzh30tl"

def operatorText : String := "genesisvaloper1xvenxvenxvenxvenxvenxvenxvenxvenx0mnve"

/-- The codec on the texts that occur. -/
def chainCodec : Bech32 where
  getFromBech32 text hrp :=
    if (text, hrp) = (operatorText, Bech32PrefixValAddr) ∨
        (text, hrp) = (operatorAccount, Bech32PrefixAccAddr) then .ok operatorAddr
    else .error (.errorf "decoding bech32 failed")
  convertAndEncode hrp data :=
    if data = operatorAddr ∧ hrp = Bech32PrefixValAddr then operatorText
    else if data = 20 :: operatorAddr then
      "genesisvaloper1zsenxvenxvenxvenxvenxvenxvenxvenxvlmfmcd"
    else "genesisvalcons1g3zyg3zyg3zyg3zyg3zyg3zyg3zyg3zydnqsxk"

/-- Keepers over a distribution module that owes nothing. -/
def chainKeepers : ExportKeepers (ℤ × ℤ) where
  stakingKeeper := {
    bech32 := chainCodec
    pubKeyAddress := fun _ => List.replicate 20 0x44
    toTmProtoPublicKey := fun pk => .ok pk
    getBalance := fun o pool _ => if pool = BondedPoolName then o.1 else o.2
    sendCoinsFromModuleToModule := fun sender _ _ amount => modify fun o =>
      if sender = BondedPoolName then (o.1 - amount, o.2 + amount)
      else (o.1 + amount, o.2 - amount) }
  invariants := []
  withdrawValidatorCommission _ _ _ := Exec.fail (.errorf "no validator commission to withdraw")
  withdrawDelegationRewards _ _ _ _ := pure ()
  deleteAllValidatorSlashEvents o := o
  deleteAllValidatorHistoricalRewards o := o
  getValidatorOutstandingRewardsCoins _ _ := []
  getCommunityPool := pure []
  setCommunityPool _ o := o
  addDecCoins l r := l ++ r
  afterValidatorCreated _ _ _ := pure ()
  beforeDelegationCreated _ _ _ _ := pure ()
  afterDelegationModified _ _ _ _ := pure ()

/-- A chain before its first validator. -/
def emptyChain : State (ℤ × ℤ) where
  staking := {
    params := ⟨1814400, 100, "aphoton"⟩
    lastValidatorPower := ∅
    lastTotalPower := none
    validators := ∅
    validatorsByPowerIndex := ∅
    delegations := ∅
    unbondingDelegations := ∅
    unbondingDelegationsByValIndex := ∅
    redelegations := ∅
    redelegationsByValSrcIndex := ∅
    redelegationsByValDstIndex := ∅
    validatorQueue := ∅ }
  signingInfos := ∅
  others := (0, 0)

/-- The validator, bonded with one token of its own. -/
def operatorValidator : Validator where
  operatorAddress := operatorText
  consensusPubkey := some (List.replicate 32 0x55)
  jailed := false
  status := .bonded
  tokens := 10 ^ 18
  delegatorShares := 10 ^ 36
  unbondingHeight := 0
  unbondingTime := 0

/-- The chain with this validator. -/
def oneValidatorChain : State (ℤ × ℤ) where
  staking := { emptyChain.staking with
    lastValidatorPower := KVStore.set ∅ (0x11 :: 20 :: operatorAddr) 1
    lastTotalPower := some 1
    validators := KVStore.set ∅ (0x21 :: 20 :: operatorAddr) operatorValidator
    validatorsByPowerIndex := KVStore.set ∅
      (0x23 :: [0, 0, 0, 0, 0, 0, 0, 1] ++ 20 :: List.replicate 20 0xcc) operatorAddr
    delegations := KVStore.set ∅ (0x31 :: 20 :: operatorAddr ++ 20 :: operatorAddr)
      ⟨operatorAccount, operatorText, 10 ^ 36⟩ }
  signingInfos := KVStore.set ∅ (0x01 :: 20 :: List.replicate 20 0x44)
    ⟨"genesisvalcons1g3zyg3zyg3zyg3zyg3zyg3zyg3zyg3zydnqsxk", 0, 0, 0, false, 0⟩
  others := (10 ^ 18, 0)

private theorem lookup_single {ν : Type} {key x : List UInt8} {v w : ν}
    (h : (KVStore.set (∅ : KVStore (List UInt8) ν) key v).lookup x = some w) : x = key ∧ v = w := by
  rw [KVStore.lookup_set, KVStore.lookup_empty] at h
  split at h
  · rename_i hx
    exact ⟨hx, Option.some.inj h⟩
  · cases h

theorem wellFormed_emptyChain : emptyChain.WellFormed chainCodec := by
  have hnone : ∀ {ν : Type} {key : List UInt8} {x : ν},
      (∅ : KVStore (List UInt8) ν).lookup key ≠ some x := by
    intro ν key x h
    rw [KVStore.lookup_empty] at h
    cases h
  refine ⟨⟨?_, ?_, ?_, ?_, ?_⟩, ?_⟩
  · exact fun _ _ h => (hnone h).elim
  · exact fun _ _ h => (hnone h).elim
  · exact fun _ _ h => (hnone h).elim
  · exact fun _ _ h => (hnone h).elim
  · exact fun _ _ h => (hnone h).elim
  · exact fun _ _ h => (hnone h).elim

theorem valAddressFromBech32_operatorText :
    valAddressFromBech32 chainCodec operatorText = .ok operatorAddr := by
  decide +kernel

theorem wellFormed_oneValidatorChain : oneValidatorChain.WellFormed chainCodec := by
  have hstored : oneValidatorChain.staking.getValidator operatorAddr =
      .ok (some operatorValidator) := by decide +kernel
  refine ⟨⟨fun key v h => ?_, fun key power h => ?_, fun key d h => ?_,
    wellFormed_emptyChain.staking.unbondingDelegations,
    wellFormed_emptyChain.staking.redelegations⟩, fun key info h => ?_⟩
  · obtain ⟨rfl, rfl⟩ := lookup_single h
    exact ⟨operatorAddr, valAddressFromBech32_operatorText, rfl⟩
  · obtain ⟨rfl, rfl⟩ := lookup_single h
    exact ⟨operatorAddr, operatorValidator, rfl, hstored⟩
  · obtain ⟨rfl, rfl⟩ := lookup_single h
    exact ⟨operatorAddr, operatorAddr, operatorValidator, by decide +kernel,
      valAddressFromBech32_operatorText, rfl, hstored⟩
  · obtain ⟨rfl, rfl⟩ := lookup_single h
    exact ⟨List.replicate 20 0x44, by decide, by decide, rfl⟩

/-! ## When the export works -/

/-- **The export at height zero works exactly if there is no validator.** -/
theorem processesEveryValidator_iff (hwf : s.WellFormed k.codec)
    (hassert : assertInvariants k.stakingKeeper k.invariants s = .ok ())
    (hallowed : ∀ text ∈ jailAllowedAddrs, ∃ addr, valAddressFromBech32 k.codec text = .ok addr) :
    ProcessesEveryValidator k ctx jailAllowedAddrs s ↔ s.staking.getAllValidators = [] := by
  constructor
  · intro h
    obtain ⟨t, hcompletes⟩ := h.completes
    apply List.eq_nil_iff_forall_not_mem.mpr
    intro v hmem
    obtain ⟨key, hv⟩ := mem_values hmem
    have hstored : s.staking.validators.has key = true := by
      rw [KVStore.has, hv]
      rfl
    exact prepForZeroHeightGenesis_ne_ok hwf.staking.validators hstored hcompletes
  · intro hnone
    have hlookup := lookup_eq_none hnone
    have hentries : s.staking.validators.entries = [] := List.map_eq_nil_iff.mp hnone
    have hkeys : ∀ st : Store, st.validators = s.staking.validators → validatorKeys st = [] := by
      intro st hst
      rw [validatorKeys, hst, hentries]
      rfl
    -- the loop has no rounds, and the update nothing to do
    have hrest : ∀ u, prepareStores k ctx jailAllowedAddrs s = .ok () u →
        resetValidators k jailAllowedAddrs u = .ok () u ∧
        applyAndReturnValidatorSetUpdates k.stakingKeeper ctx u = .ok [] u ∧
        u.signingInfos = s.signingInfos := by
      intro u hu
      have hsame : validatorStores u = validatorStores s :=
        (keeps_prepareStores k ctx jailAllowedAddrs).of_ok hu
      simp only [validatorStores, Prod.mk.injEq] at hsame
      obtain ⟨hvals, hindex, hlast, hinfos⟩ := hsame
      refine ⟨?_, applyAndReturn_of_idle ?_ ?_, hinfos⟩
      · refine (Exec.get_bind _ _).trans ?_
        rw [hkeys u.staking hvals]
        rfl
      · rw [hindex]
        exact validatorsByPowerIndex_eq_nil hassert hlookup
      · rw [hlast]
        exact hwf.staking.lastValidatorPower_eq_nil hlookup
    obtain ⟨u, hu⟩ := prepareStores_ok ctx hwf hassert hallowed hnone
    obtain ⟨hloop, hupdate, hinfos⟩ := hrest u hu
    obtain ⟨t, hstart⟩ := resetStartHeights_ok (s := u) (by rw [hinfos]; exact hwf.signingInfos)
    refine ⟨⟨t, ?_⟩, ?_, fun u' hu' => ?_⟩
    · refine (Exec.bind_of_ok hu).trans ?_
      refine (Exec.bind_of_ok hloop).trans ?_
      exact (Exec.bind_of_ok hupdate).trans hstart
    · rw [hkeys s.staking rfl, hnone]
      exact List.Perm.nil
    · obtain ⟨hloop', hupdate', -⟩ := hrest u' hu'
      refine ⟨u', hloop', fun key v hv => ?_, [], u', hupdate'⟩
      rw [hlookup key] at hv
      cases hv

theorem processesEveryValidator_iff_emptyChain :
    ProcessesEveryValidator chainKeepers ⟨100, 1000⟩ [operatorText] emptyChain :=
  (processesEveryValidator_iff (k := chainKeepers) (s := emptyChain) wellFormed_emptyChain
    (by decide +kernel) fun _ hmem => ⟨operatorAddr,
      List.mem_singleton.mp hmem ▸ valAddressFromBech32_operatorText⟩).mpr rfl

/-- With one validator, which is on the allow-list, every invariant holds and the export fails. -/
theorem not_processesEveryValidator_oneValidatorChain :
    oneValidatorChain.WellFormed chainCodec ∧
    assertInvariants chainKeepers.stakingKeeper chainKeepers.invariants oneValidatorChain =
      .ok () ∧
    valAddressFromBech32 chainCodec operatorText = .ok operatorAddr ∧
    ¬ ProcessesEveryValidator chainKeepers ⟨100, 1000⟩ [operatorText] oneValidatorChain := by
  refine ⟨wellFormed_oneValidatorChain, by decide +kernel, valAddressFromBech32_operatorText,
    fun h => ?_⟩
  obtain ⟨t, hcompletes⟩ := h.completes
  have hstored : oneValidatorChain.staking.validators.has (0x21 :: 20 :: operatorAddr) = true := by
    rw [KVStore.has]
    exact Option.isSome_iff_exists.mpr ⟨operatorValidator, KVStore.lookup_set_self⟩
  exact prepForZeroHeightGenesis_ne_ok (k := chainKeepers)
    wellFormed_oneValidatorChain.staking.validators hstored hcompletes

end GenesisEthermint.App
