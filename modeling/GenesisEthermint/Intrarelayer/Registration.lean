import GenesisEthermint.Intrarelayer.EvmHooks
import GenesisEthermint.Intrarelayer.Proposals

/-!
# When a Registration Succeeds

Both registrations check a list of things and then write. Here is the list of each, as a condition
on the state before, and that a registration succeeds exactly if its list is met. What a contract
answers and whether a deployment is accepted is up to the EVM, which is asked in that state.
-/

namespace GenesisEthermint.Intrarelayer

open GenesisEthermint.Foundation GenesisEthermint.Types GenesisEthermint.Chain

variable {W : Type} {k : Keeper W} {s t v : State W} {m : Metadata} {p : TokenPair} {u : Unit}
  {contract : Address} {data : ERC20Data}

/-! ## ERC20 contracts -/

/-- The denomination of a contract's coins. -/
def derivedDenom (k : Keeper W) (contract : Address) : String :=
  createDenom (contract.hex k.keccak256)

/-- The pair of a contract that was registered from outside. -/
def externalPair (k : Keeper W) (contract : Address) : TokenPair :=
  newTokenPair k.keccak256 contract (derivedDenom k contract) true .OWNER_EXTERNAL

/-- The state after a registration: what the queries left, with the metadata and the pair. -/
def registeredERC20 (k : Keeper W) (contract : Address) (data : ERC20Data) (v : State W) :
    State W :=
  let v := v.setMetadata (erc20Metadata (contract.hex k.keccak256) data)
  { v with registry := registerPair k (externalPair k contract) v.registry }

/-- Everything `RegisterERC20` asks for: the module is on, neither the contract nor its derived
denomination is taken, and the contract answers with details that make valid metadata. -/
structure Registrable (k : Keeper W) (s : State W) (contract : Address) (data : ERC20Data)
    (v : State W) : Prop where
  enabled : s.params.enableIntrarelayer = true
  contract_free : getERC20Map s.registry contract = none
  metadata_free : getDenomMetaData s (derivedDenom k contract) = none
  denom_free : getDenomMap s.registry (derivedDenom k contract) = none
  answers : queryERC20 k contract s = .ok data v
  valid : (erc20Metadata (contract.hex k.keccak256) data).validate = .ok ()

/-- The queries touch neither the registry nor the metadata. -/
theorem queryERC20_keeps (h : queryERC20 k contract s = .ok data v) :
    v.registry = s.registry ∧ ∀ d, getDenomMetaData v d = getDenomMetaData s d := by
  have hcfg := (relates_queryERC20 evmBlind_config).of_ok h
  have hbank := (relates_queryERC20 evmBlind_bank).of_ok h
  exact ⟨congrArg Config.registry hcfg,
    fun d => congrArg (fun b : BankState => b.metadata.lookup d) hbank⟩

/-- **`RegisterERC20` succeeds exactly then.** -/
theorem registerERC20_ok_iff : registerERC20 k contract s = .ok u t ↔
    ∃ data v, Registrable k s contract data v ∧ t = registeredERC20 k contract data v := by
  simp only [registerERC20, createCoinMetadata, updateRegistry, Exec.bind_ok_iff,
    Exec.get_ok_iff, Exec.failIf_ok_iff, Exec.mapError_ok_iff, Exec.modify_ok_iff,
    Exec.pure_ok_iff, Exec.ofExcept_ok_iff, Bool.not_eq_true, Bool.not_eq_false,
    isERC20Registered_eq_false_iff, isDenomRegistered_eq_false_iff, Option.isSome_eq_false_iff,
    Option.isNone_iff_eq_none]
  constructor
  · rintro ⟨_, _, ⟨rfl, rfl⟩, _, _, ⟨hon, rfl⟩, _, _, ⟨hreg, rfl⟩, _, _, ⟨data, v, hq, _, _,
      ⟨rfl, rfl⟩, _, _, ⟨hmeta, rfl⟩, _, _, ⟨hden, rfl⟩, _, _, ⟨hvalid, rfl⟩, _, _, rfl, rfl,
      rfl⟩, rfl⟩
    obtain ⟨hr, hm⟩ := queryERC20_keeps hq
    exact ⟨data, v, ⟨hon, hreg, (hm _).symm.trans hmeta, hr ▸ hden, hq, hvalid⟩, rfl⟩
  · rintro ⟨data, v, ⟨hon, hreg, hmeta, hden, hq, hvalid⟩, rfl⟩
    obtain ⟨hr, hm⟩ := queryERC20_keeps hq
    exact ⟨_, _, ⟨rfl, rfl⟩, (), _, ⟨hon, rfl⟩, (), _, ⟨hreg, rfl⟩, _, _, ⟨data, v, hq, _, _,
      ⟨rfl, rfl⟩, (), _, ⟨(hm _).trans hmeta, rfl⟩, (), _, ⟨hr ▸ hden, rfl⟩, (), _,
      ⟨hvalid, rfl⟩, (), _, rfl, rfl, rfl⟩, rfl⟩

/-! ## Coins -/

/-- The metadata check passes: nothing is stored, or what is stored compares equal. -/
def MetadataAccepted (s : State W) (m : Metadata) : Prop :=
  ∀ stored, getDenomMetaData s m.base = some stored →
    equalMetadata (fun _ => false) stored m = .ok ()

/-- The EVM accepts the deployment of the coin's contract. -/
def Deployable (k : Keeper W) (s : State W) (m : Metadata) : Prop :=
  ∃ nonce res, s.accounts k.moduleAddress.bytes = some nonce ∧
    k.evm.applyMessage s.evm s.accounts ⟨k.moduleAddress, none, nonce, .create m.name m.symbol⟩ =
      .ok res ∧ res.failed = false

theorem verifyMetadata_ok_iff : verifyMetadata m s = .ok u t ↔
    MetadataAccepted s m ∧
      t = if getDenomMetaData s m.base = none then s.setMetadata m else s := by
  simp only [verifyMetadata, Exec.get_bind, MetadataAccepted]
  cases hm : getDenomMetaData s m.base with
  | none => simp [Exec.modify_ok_iff]
  | some stored =>
    simp only [Exec.ofExcept_ok_iff, Option.some.injEq, forall_eq', reduceCtorEq, if_false]
    exact and_congr_right fun _ => eq_comm

theorem deployERC20Contract_ok_iff : (∃ a t, deployERC20Contract k m s = .ok a t) ↔
    Deployable k s m := by
  constructor
  · rintro ⟨a, t, h⟩
    obtain ⟨nonce, res, hn, -, ⟨nonce', hn', happ, -⟩, hf⟩ := deployERC20Contract_ok h
    obtain rfl := Option.some.inj (hn.symm.trans hn')
    exact ⟨nonce, res, hn, happ, hf⟩
  · rintro ⟨nonce, res, hn, happ, hf⟩
    refine ⟨k.createAddress k.moduleAddress nonce,
      afterMessage s k.moduleAddress nonce res, ?_⟩
    simp only [deployERC20Contract, Exec.bind_ok_iff, Exec.get_ok_iff, Exec.ofExcept_ok_iff,
      Exec.mapError_ok_iff, Exec.pure_ok_iff]
    exact ⟨s, s, ⟨rfl, rfl⟩, nonce, s, ⟨getSequence_ok_iff.mpr hn, rfl⟩, _, _,
      callEVMWithPayload_ok_iff.mpr ⟨res, ⟨nonce, hn, happ, rfl⟩, hf, rfl⟩, rfl, rfl⟩

/-- Everything `RegisterCoin` asks for. It looks up the coin's name. -/
structure CoinRegistrable (k : Keeper W) (s : State W) (m : Metadata) : Prop where
  enabled : s.params.enableIntrarelayer = true
  name_free : getDenomMap s.registry m.name = none
  metadata : MetadataAccepted s m
  deployable : Deployable k s m

/-- **`RegisterCoin` succeeds exactly then.** -/
theorem registerCoin_ok_iff : (∃ p t, registerCoin k m s = .ok p t) ↔ CoinRegistrable k s m := by
  -- storing the metadata is nothing the EVM could notice
  have hdeploy (v : State W) (hv : v.accounts = s.accounts ∧ v.evm = s.evm) :
      Deployable k v m ↔ Deployable k s m := by
    rw [Deployable, hv.1, hv.2]
    rfl
  have hsame : (fun v : State W => v.accounts = s.accounts ∧ v.evm = s.evm)
      (if getDenomMetaData s m.base = none then s.setMetadata m else s) := by
    dsimp only
    split <;> exact ⟨rfl, rfl⟩
  constructor
  · rintro ⟨p, t, h⟩
    simp only [registerCoin, updateRegistry, Exec.bind_ok_iff, Exec.get_ok_iff,
      Exec.failIf_ok_iff, Exec.mapError_ok_iff, Bool.not_eq_true, Bool.not_eq_false,
      isDenomRegistered_eq_false_iff, verifyMetadata_ok_iff] at h
    obtain ⟨_, _, ⟨rfl, rfl⟩, _, _, ⟨hon, rfl⟩, _, _, ⟨hname, rfl⟩, _, v, ⟨hmeta, rfl⟩, addr, d,
      hd, -⟩ := h
    exact ⟨hon, hname, hmeta, (hdeploy _ hsame).mp (deployERC20Contract_ok_iff.mp ⟨_, _, hd⟩)⟩
  · rintro ⟨hon, hname, hmeta, hd⟩
    obtain ⟨a, t, hd⟩ := deployERC20Contract_ok_iff.mpr ((hdeploy _ hsame).mpr hd)
    simp only [registerCoin, updateRegistry, Exec.bind_ok_iff, Exec.get_ok_iff,
      Exec.failIf_ok_iff, Exec.mapError_ok_iff, Exec.modify_ok_iff, Exec.pure_ok_iff,
      Bool.not_eq_true, Bool.not_eq_false, isDenomRegistered_eq_false_iff, verifyMetadata_ok_iff]
    exact ⟨_, _, _, _, ⟨rfl, rfl⟩, (), _, ⟨hon, rfl⟩, (), _, ⟨hname, rfl⟩, (), _,
      ⟨hmeta, rfl⟩, a, t, hd, (), _, rfl, rfl, rfl⟩

/-! ## Updates of a contract -/

/-- Everything `UpdateTokenPairERC20` asks for: the old contract has a pair whose metadata is
stored and describes it, and the new contract answers with the details of that metadata. -/
structure Updatable (k : Keeper W) (s : State W) (old new : Address) (q : TokenPair)
    (m : Metadata) (data : ERC20Data) (v : State W) : Prop where
  found : pairOfContract s.registry old = some q
  metadata : getDenomMetaData s q.denom = some m
  units : m.denomUnits ≠ []
  answers : queryERC20 k new s = .ok data v
  display : m.display = data.name
  symbol : m.symbol = data.symbol
  description : m.description = createDenomDescription (old.hex k.keccak256)
  unit : checkDenomUnit q data m.denomUnits = .ok ()

/-- The state after an update. -/
def updatedERC20 (k : Keeper W) (old new : Address) (q : TokenPair) (m : Metadata) (v : State W) :
    State W :=
  let v := v.setMetadata { m with description := createDenomDescription (new.hex k.keccak256) }
  { v with registry := movePair k q old new v.registry }

/-- **`UpdateTokenPairERC20` succeeds exactly then.** -/
theorem updateTokenPairERC20_ok_iff {old new : Address} :
    updateTokenPairERC20 k old new s = .ok p t ↔ ∃ q m data v, Updatable k s old new q m data v ∧
      p = { q with erc20Address := new.hex k.keccak256 } ∧ t = updatedERC20 k old new q m v := by
  constructor
  · intro h
    obtain ⟨id, q, m, data, v, hid, hq, hm, hunits, hquery, ⟨hdisplay, hsymbol, hdesc⟩, hunit,
      hpair, ht⟩ := updateTokenPairERC20_inv h
    have hfound : pairOfContract s.registry old = some q := by
      rw [pairOfContract, hid]
      exact hq
    exact ⟨q, m, data, v, ⟨hfound, hm, fun hnil => hunits (by rw [hnil]; rfl), hquery, hdisplay,
      hsymbol, hdesc, hunit⟩, hpair, ht⟩
  · rintro ⟨q, m, data, v, ⟨hfound, hm, hunits, hquery, hdisplay, hsymbol, hdesc, hunit⟩, rfl,
      rfl⟩
    obtain ⟨id, hid, hq⟩ := Option.bind_eq_some_iff.mp hfound
    simp only [updateTokenPairERC20, Exec.get_bind, hid, hq, hm, updateRegistry, Exec.bind_ok_iff,
      Exec.failIf_ok_iff, Exec.mapError_ok_iff, Exec.ofExcept_ok_iff, Exec.modify_ok_iff,
      Exec.pure_ok_iff, not_or, not_not]
    exact ⟨(), _, ⟨fun hlen => hunits (List.length_eq_zero_iff.mp hlen), rfl⟩, data, v, hquery, (),
      _, ⟨⟨hdisplay, hsymbol, hdesc⟩, rfl⟩, (), _, ⟨hunit, rfl⟩, (), _, rfl, (), _, rfl, trivial,
      rfl⟩

/-! ## What is found after a write -/

section Found

variable {r : Registry} {q : TokenPair}

/-- The pair is stored under its ID, and its denomination and its contract lead there. -/
structure Resolvable (k : Keeper W) (r : Registry) (p : TokenPair) : Prop where
  stored : getTokenPair r (p.getID k.tmhashSum) = some p
  denom : getDenomMap r p.denom = some (p.getID k.tmhashSum)
  contract : getERC20Map r p.getERC20Contract = some (p.getID k.tmhashSum)

theorem Resolvable.pairOfContract (h : Resolvable k r p) :
    pairOfContract r p.getERC20Contract = some p := by
  rw [Intrarelayer.pairOfContract, h.contract]
  exact h.stored

theorem resolvable_registerPair (r : Registry) (contract : Address) (denom : String)
    (owner : Owner) :
    Resolvable k (registerPair k (newTokenPair k.keccak256 contract denom true owner) r)
      (newTokenPair k.keccak256 contract denom true owner) := by
  refine ⟨?_, ?_, ?_⟩
  · refine getTokenPair_eq_some_iff.mpr ⟨KVStore.lookup_set_self, ?_⟩
    exact ne_zeroPair_of_isHexAddress (isHexAddress_hex ..)
  · exact KVStore.lookup_set_self
  · exact getERC20Map_set.trans (if_pos rfl)

theorem resolvable_movePair (r : Registry) (q : TokenPair) (old new : Address) :
    Resolvable k (movePair k q old new r) { q with erc20Address := new.hex k.keccak256 } := by
  refine ⟨?_, ?_, ?_⟩
  · refine getTokenPair_eq_some_iff.mpr ⟨KVStore.lookup_set_self, ?_⟩
    exact ne_zeroPair_of_isHexAddress (isHexAddress_hex ..)
  · exact KVStore.lookup_set_self
  · exact getERC20Map_set.trans (if_pos rfl)

/-- A pair whose flag was flipped in place is found exactly if both indexes led to it before. -/
theorem resolvable_setTokenPair (r : Registry) (q : TokenPair) :
    Resolvable k (setTokenPair k { q with enabled := !q.enabled } r)
      { q with enabled := !q.enabled } ↔
    getDenomMap r q.denom = some (q.getID k.tmhashSum) ∧
      getERC20Map r q.getERC20Contract = some (q.getID k.tmhashSum) ∧
      { q with enabled := !q.enabled } ≠ zeroPair := by
  constructor
  · rintro ⟨hstored, hdenom, hcontract⟩
    exact ⟨hdenom, hcontract, (getTokenPair_eq_some_iff.mp hstored).2⟩
  · rintro ⟨hdenom, hcontract, hne⟩
    exact ⟨getTokenPair_eq_some_iff.mpr ⟨KVStore.lookup_set_self, hne⟩, hdenom, hcontract⟩

end Found

end GenesisEthermint.Intrarelayer
