import GenesisEthermint.Staking.ValidatorSet
import Mathlib.Algebra.BigOperators.Group.List.Basic

/-!
# Invariants of the Staking Module

The four invariants the staking module registers, as the crisis module asserts them, and what the
keepers maintain beside them: a record is stored under the key of the addresses it names, and what
refers to a validator refers to one that is stored.
-/

namespace GenesisEthermint.Staking

open GenesisEthermint.Foundation GenesisEthermint.Types

variable {O : Type}

/-! ## Registered invariants -/

/-- A registered invariant tells whether it is broken. -/
abbrev Invariant (O : Type) := State O → Reading Bool

/-- `ModuleAccountInvariants`: the pools hold what the validators and the unbonding delegations
add up to. -/
def moduleAccountInvariants (k : Keeper O) : Invariant O := fun s => do
  let validators := s.staking.getAllValidators
  if validators.any (·.status = .unspecified) then throw (.panic "invalid validator status")
  let tokensOf (bonded : Bool) : ℤ :=
    ((validators.filter fun v => (v.status = .bonded) = bonded).map (·.tokens)).sum
  let unbonding : ℤ := ((s.staking.unbondingDelegations.entries.flatMap (·.2.entries)).map
    (·.balance)).sum
  let poolBalance (pool : String) : ℤ := k.getBalance s.others pool s.staking.params.bondDenom
  return poolBalance BondedPoolName ≠ tokensOf true ∨
    poolBalance NotBondedPoolName ≠ tokensOf false + unbonding

/-- `NonNegativePowerInvariant`: every entry of the power index is the one its validator has. -/
def nonNegativePowerInvariant (k : Keeper O) : Invariant O := fun s => do
  let broken ← s.staking.validatorsByPowerIndex.entries.reverse.mapM fun (key, addr) => do
    let v ← s.staking.mustGetValidator addr
    let powerKey ← getValidatorsByPowerIndexKey k.bech32 v DefaultPowerReduction
    return decide (key ≠ powerKey) || decide (v.tokens < 0)
  return broken.any id

/-- `PositiveDelegationInvariant`. -/
def positiveDelegationInvariant : Invariant O := fun s =>
  return s.staking.getAllDelegations.any fun d => d.shares ≤ 0

/-- `GetValidatorDelegations`. -/
def Store.getValidatorDelegations (codec : Bech32) (st : Store) (valAddr : ValAddress) :
    Reading (List Delegation) :=
  st.getAllDelegations.filterM fun d => do
    return (← orPanic (valAddressFromBech32 codec d.validatorAddress)) = valAddr

/-- `DelegatorSharesInvariant`: a validator's shares are those of its delegations. -/
def delegatorSharesInvariant (k : Keeper O) : Invariant O := fun s => do
  let broken ← s.staking.getAllValidators.mapM fun v => do
    let delegations ← s.staking.getValidatorDelegations k.bech32 (← v.getOperator k.bech32)
    return decide (v.delegatorShares ≠ (delegations.map (·.shares)).sum)
  return broken.any id

/-- `AssertInvariants`: `others` are the invariants that other modules registered. -/
def assertInvariants (k : Keeper O) (others : List (Invariant O)) (s : State O) : Reading Unit :=
  forM (moduleAccountInvariants k :: nonNegativePowerInvariant k :: positiveDelegationInvariant ::
    delegatorSharesInvariant k :: others) fun invar => do
      if ← invar s then throw (.panic "invariant broken")

/-! ## Well-formed stores -/

/-- What the keepers keep true of the staking store. -/
structure Store.WellFormed (codec : Bech32) (st : Store) : Prop where
  /-- A validator is stored under the key of its operator. -/
  validators : ∀ key v, st.validators.lookup key = some v → ∃ addr,
    valAddressFromBech32 codec v.operatorAddress = .ok addr ∧ getValidatorKey addr = .ok key
  /-- What was bonded is stored. -/
  lastValidatorPower : ∀ key power, st.lastValidatorPower.lookup key = some power → ∃ addr v,
    getLastValidatorPowerKey addr = .ok key ∧ st.getValidator addr = .ok (some v)
  /-- A delegation is to a stored validator. -/
  delegations : ∀ key d, st.delegations.lookup key = some d → ∃ delAddr valAddr v,
    accAddressFromBech32 codec d.delegatorAddress = .ok delAddr ∧
    valAddressFromBech32 codec d.validatorAddress = .ok valAddr ∧
    getDelegationKey delAddr valAddr = .ok key ∧ st.getValidator valAddr = .ok (some v)
  unbondingDelegations : ∀ key ubd, st.unbondingDelegations.lookup key = some ubd →
    ∃ delAddr valAddr, accAddressFromBech32 codec ubd.delegatorAddress = .ok delAddr ∧
      valAddressFromBech32 codec ubd.validatorAddress = .ok valAddr ∧
      getUBDKey delAddr valAddr = .ok key
  redelegations : ∀ key red, st.redelegations.lookup key = some red →
    ∃ delAddr srcAddr dstAddr, accAddressFromBech32 codec red.delegatorAddress = .ok delAddr ∧
      valAddressFromBech32 codec red.validatorSrcAddress = .ok srcAddr ∧
      valAddressFromBech32 codec red.validatorDstAddress = .ok dstAddr ∧
      getREDKey delAddr srcAddr dstAddr = .ok key

/-- What the keepers keep true of the stores an export works on. -/
structure State.WellFormed (codec : Bech32) (s : State O) : Prop where
  staking : s.staking.WellFormed codec
  signingInfos : ∀ key info, s.signingInfos.lookup key = some info → ∃ addr, addr ≠ [] ∧
    addr.length ≤ MaxAddrLen ∧ validatorSigningInfoKey addr = .ok key

/-! ## Stores without validators -/

variable {codec : Bech32} {st : Store}

/-- Nothing is found where no validator is stored. -/
theorem getValidator_ne_of_none (hnone : ∀ key, st.validators.lookup key = none)
    (addr : ValAddress) (v : Validator) : st.getValidator addr ≠ .ok (some v) := by
  intro h
  obtain ⟨key, -, h⟩ := except_bind_ok_iff.mp h
  have hsome := Except.ok.inj h
  rw [hnone key] at hsome
  cases hsome

/-- A table whose entries would all lead to a validator is empty. -/
private theorem entries_eq_nil {ν : Type} {m : KVStore (List UInt8) ν}
    (h : ∀ key x, m.lookup key ≠ some x) : m.entries = [] := by
  apply List.eq_nil_iff_forall_not_mem.mpr
  rintro ⟨key, x⟩ hmem
  exact h key x (KVStore.mem_entries_iff.mp hmem)

/-- Without validators nothing was bonded. -/
theorem Store.WellFormed.lastValidatorPower_eq_nil (h : st.WellFormed codec)
    (hnone : ∀ key, st.validators.lookup key = none) : st.lastValidatorPower.entries = [] := by
  apply entries_eq_nil
  intro key power hpower
  obtain ⟨addr, v, -, hv⟩ := h.lastValidatorPower key power hpower
  exact getValidator_ne_of_none hnone addr v hv

/-- Without validators there are no delegations. -/
theorem Store.WellFormed.getAllDelegations_eq_nil (h : st.WellFormed codec)
    (hnone : ∀ key, st.validators.lookup key = none) : st.getAllDelegations = [] := by
  rw [Store.getAllDelegations, entries_eq_nil (m := st.delegations) ?_]
  · rfl
  · intro key d hd
    obtain ⟨_, valAddr, v, -, -, -, hv⟩ := h.delegations key d hd
    exact getValidator_ne_of_none hnone valAddr v hv

/-- Without validators the power index is empty, or an invariant panics. -/
theorem validatorsByPowerIndex_eq_nil {k : Keeper O} {others : List (Invariant O)} {s : State O}
    (hassert : assertInvariants k others s = .ok ())
    (hnone : ∀ key, s.staking.validators.lookup key = none) :
    s.staking.validatorsByPowerIndex.entries = [] := by
  -- the second invariant was read to its end
  rw [assertInvariants, List.forM_cons] at hassert
  obtain ⟨_, -, hassert⟩ := except_bind_ok_iff.mp hassert
  rw [List.forM_cons] at hassert
  obtain ⟨_, hpower, -⟩ := except_bind_ok_iff.mp hassert
  obtain ⟨_, hpower, -⟩ := except_bind_ok_iff.mp hpower
  obtain ⟨broken, hall, -⟩ := except_bind_ok_iff.mp hpower
  cases hrev : s.staking.validatorsByPowerIndex.entries.reverse with
  | nil => exact List.reverse_eq_nil_iff.mp hrev
  | cons e rest =>
    rw [hrev, List.mapM_cons] at hall
    obtain ⟨_, hfirst, -⟩ := except_bind_ok_iff.mp hall
    obtain ⟨v, hmust, -⟩ := except_bind_ok_iff.mp hfirst
    obtain ⟨found, hfound, hmust⟩ := except_bind_ok_iff.mp hmust
    cases found with
    | none => cases hmust
    | some w => exact absurd hfound (getValidator_ne_of_none hnone e.2 w)

end GenesisEthermint.Staking
