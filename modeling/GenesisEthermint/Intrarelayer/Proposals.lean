import GenesisEthermint.Intrarelayer.MsgServer

/-!
# Proposals

The four governance operations on the registry, and the genesis import. Registration creates a
pair and writes all three sub-stores; toggling rewrites a pair in place; an update moves a pair
to another contract, which changes its key.
-/

namespace GenesisEthermint.Intrarelayer

open GenesisEthermint.Foundation GenesisEthermint.Types GenesisEthermint.Chain

variable {W : Type} (k : Keeper W)

/-- The three writes of a registration. -/
def registerPair (pair : TokenPair) (r : Registry) : Registry :=
  setERC20Map (hexToAddress pair.erc20Address) (pair.getID k.tmhashSum)
    (setDenomMap pair.denom (pair.getID k.tmhashSum) (setTokenPair k pair r))

/-- The error of either registration when the key it checks is taken. -/
def errRegistered (what detail : String) : GoError :=
  .wrap ErrInternalTokenPair (what ++ " already registered: " ++ detail)

/-! ## RegisterCoin -/

/-- `verifyMetadata`. The stored metadata is decoded afresh, so its denomination units are
pointers no other value holds. -/
def verifyMetadata (coinMetadata : Metadata) : Exec GoError (State W) Unit := do
  let s ← get
  match getDenomMetaData s coinMetadata.base with
  | none => modify fun s => s.setMetadata coinMetadata
  | some stored => Exec.ofExcept (equalMetadata (fun _ => false) stored coinMetadata)

/-- `DeployERC20Contract`. -/
def deployERC20Contract (coinMetadata : Metadata) : Exec GoError (State W) Address := do
  let s ← get
  let nonce ← Exec.ofExcept (getSequence k s k.moduleAddress.bytes)
  let contractAddr := k.createAddress k.moduleAddress nonce
  let _ ← Exec.mapError
    (fun _ => .errorf ("failed to deploy contract for " ++ coinMetadata.name))
    (callEVMWithPayload k k.moduleAddress none (.create coinMetadata.name coinMetadata.symbol))
  return contractAddr

/-- `RegisterCoin`. The check for an existing pair looks up the coin's name, the pair is
written under its base denomination. -/
def registerCoin (coinMetadata : Metadata) : Exec GoError (State W) TokenPair := do
  let s ← get
  Exec.failIf (¬ s.params.enableIntrarelayer) errDisabled
  Exec.failIf (isDenomRegistered s.registry coinMetadata.name)
    (errRegistered "coin denomination" coinMetadata.name)
  -- the text of the inner error is dropped here, and kept for the deployment
  Exec.mapError
    (fun _ => .wrap ErrInternalTokenPair ("coin metadata is invalid " ++ coinMetadata.name))
    (verifyMetadata coinMetadata)
  let addr ← Exec.mapError
    (fun e => .wrap e "failed to create wrapped coin denom metadata for ERC20")
    (deployERC20Contract k coinMetadata)
  let pair := newTokenPair k.keccak256 addr coinMetadata.base true .OWNER_MODULE
  updateRegistry (registerPair k pair)
  return pair

/-! ## RegisterERC20 -/

/-- The metadata `CreateCoinMetadata` builds from a contract's details. -/
def erc20Metadata (strContract : String) (erc20Data : ERC20Data) : Metadata where
  description := createDenomDescription strContract
  base := createDenom strContract
  denomUnits := [⟨createDenom strContract, 0, []⟩, ⟨erc20Data.name, erc20Data.decimals, []⟩]
  name := createDenom strContract
  symbol := erc20Data.symbol
  display := erc20Data.name

/-- `CreateCoinMetadata`. -/
def createCoinMetadata (contract : Address) : Exec GoError (State W) Metadata := do
  let strContract := contract.hex k.keccak256
  let erc20Data ← queryERC20 k contract
  let s ← get
  Exec.failIf (getDenomMetaData s (createDenom strContract)).isSome
    (.wrap ErrInternalTokenPair "coin denomination already registered")
  -- the denomination is looked up, and the message names the token
  Exec.failIf (isDenomRegistered s.registry (createDenom strContract))
    (errRegistered "coin denomination" erc20Data.name)
  let metadata := erc20Metadata strContract erc20Data
  Exec.mapError
    (fun e => .wrap e ("ERC20 token data is invalid for contract " ++ strContract))
    (Exec.ofExcept metadata.validate)
  modify fun s => s.setMetadata metadata
  return metadata

/-- `RegisterERC20`; it returns no pair. -/
def registerERC20 (contract : Address) : Exec GoError (State W) Unit := do
  let s ← get
  Exec.failIf (¬ s.params.enableIntrarelayer) errDisabled
  Exec.failIf (isERC20Registered s.registry contract)
    (errRegistered "token ERC20 contract" (contract.hex k.keccak256))
  let metadata ← Exec.mapError
    (fun e => .wrap e "failed to create wrapped coin denom metadata for ERC20")
    (createCoinMetadata k contract)
  updateRegistry
    (registerPair k (newTokenPair k.keccak256 contract metadata.name true .OWNER_EXTERNAL))

/-! ## ToggleRelay -/

/-- `ToggleRelay`. -/
def toggleRelay (token : String) : Exec GoError (State W) TokenPair := do
  let s ← get
  match getTokenPairID s.registry token with
  | none => Exec.fail (errNotRegistered token)
  | some id =>
    match getTokenPair s.registry id with
    | none => Exec.fail errNoPair
    | some pair =>
      let pair := { pair with enabled := !pair.enabled }
      updateRegistry (setTokenPair k pair)
      return pair

/-! ## UpdateTokenPairERC20 -/

/-- The search for the unit that carries the contract's name and decimals. -/
def checkDenomUnit (pair : TokenPair) (erc20Data : ERC20Data) :
    List DenomUnit → Except GoError Unit
  | [] => .error (.wrap ErrInternalTokenPair
      ("metadata doesn't contain denom unit found for ERC20 " ++ erc20Data.name
        ++ " (" ++ pair.erc20Address ++ ")"))
  | denomUnit :: rest =>
    -- the first unit of that name decides
    if denomUnit.denom ≠ erc20Data.name then checkDenomUnit pair erc20Data rest
    else if denomUnit.exponent ≠ erc20Data.decimals then
      .error (.wrap ErrInternalTokenPair
        ("metadata denom unit exponent doesn't match the ERC20 details from "
          ++ pair.erc20Address ++ ", expected " ++ toString erc20Data.decimals
          ++ ", got " ++ toString denomUnit.exponent))
    else .ok ()

/-- The registry writes of an update: the pair leaves its old key and its old contract. -/
def movePair (pair : TokenPair) (erc20Addr newERC20Addr : Address) (r : Registry) : Registry :=
  let moved := { pair with erc20Address := newERC20Addr.hex k.keccak256 }
  setERC20Map (hexToAddress moved.erc20Address) (moved.getID k.tmhashSum)
    (deleteERC20Map erc20Addr
      (setDenomMap moved.denom (moved.getID k.tmhashSum)
        (setTokenPair k moved (deleteTokenPair k pair r))))

/-- `UpdateTokenPairERC20`. -/
def updateTokenPairERC20 (erc20Addr newERC20Addr : Address) :
    Exec GoError (State W) TokenPair := do
  let s ← get
  match getERC20Map s.registry erc20Addr with
  | none => Exec.fail (errNotRegistered (erc20Addr.hex k.keccak256))
  | some id =>
    match getTokenPair s.registry id with
    | none => Exec.fail errNoPair
    | some pair =>
      match getDenomMetaData s pair.denom with
      | none => Exec.fail (.wrap ErrInternalTokenPair
          ("could not get metadata for " ++ pair.denom))
      | some metadata =>
        Exec.failIf (metadata.denomUnits.length = 0) (.wrap ErrInternalTokenPair
          ("metadata denom units for " ++ pair.erc20Address ++ " cannot be empty"))
        let erc20Data ← Exec.mapError
          (fun _ => .wrap ErrInternalTokenPair
            ("could not get token " ++ newERC20Addr.hex k.keccak256 ++ " erc20Data"))
          (queryERC20 k newERC20Addr)
        -- the description still names the old contract
        Exec.failIf (metadata.display ≠ erc20Data.name ∨ metadata.symbol ≠ erc20Data.symbol ∨
            metadata.description ≠ createDenomDescription (erc20Addr.hex k.keccak256))
          (.wrap ErrInternalTokenPair
            ("metadata details (display, symbol, description) don't match the ERC20 details from "
              ++ pair.erc20Address ++ " "))
        Exec.ofExcept (checkDenomUnit pair erc20Data metadata.denomUnits)
        modify fun s => s.setMetadata { metadata with
          description := createDenomDescription (newERC20Addr.hex k.keccak256) }
        -- whether the new contract has a pair of its own is not asked
        updateRegistry (movePair k pair erc20Addr newERC20Addr)
        return { pair with erc20Address := newERC20Addr.hex k.keccak256 }

/-! ## What a successful operation did -/

section Spec

variable {k} {s t : State W} {m : Metadata} {p : TokenPair} {u : Unit}
  {contract old new : Address} {token : String}

/-- The module's part of the state other than the registry and the metadata it describes. -/
structure SameLedgers (s t : State W) : Prop where
  params : t.params = s.params
  ledger : t.bank.ledger = s.bank.ledger

private theorem verifyMetadata_ok (h : verifyMetadata (W := W) m s = .ok u t) :
    t.registry = s.registry ∧ t.accounts = s.accounts ∧ t.evm = s.evm ∧ SameLedgers s t := by
  simp only [verifyMetadata, Exec.get_bind] at h
  cases hm : getDenomMetaData s m.base with
  | none =>
    simp only [hm, Exec.modify_ok_iff] at h
    subst h
    exact ⟨rfl, rfl, rfl, ⟨rfl, rfl⟩⟩
  | some stored =>
    simp only [hm, Exec.ofExcept_ok_iff] at h
    obtain ⟨-, rfl⟩ := h
    exact ⟨rfl, rfl, rfl, ⟨rfl, rfl⟩⟩

theorem deployERC20Contract_ok (h : deployERC20Contract k m s = .ok contract t) :
    ∃ nonce res, s.accounts k.moduleAddress.bytes = some nonce ∧
      contract = k.createAddress k.moduleAddress nonce ∧
      Committed k s k.moduleAddress none (.create m.name m.symbol) res t ∧
      res.failed = false := by
  simp only [deployERC20Contract, Exec.bind_ok_iff, Exec.get_ok_iff, Exec.ofExcept_ok_iff,
    Exec.mapError_ok_iff, Exec.pure_ok_iff] at h
  obtain ⟨_, _, ⟨rfl, rfl⟩, nonce, _, ⟨hn, rfl⟩, _, _, hcall, rfl, rfl⟩ := h
  obtain ⟨res, hc, hf, -⟩ := callEVMWithPayload_ok_iff.mp hcall
  exact ⟨nonce, res, getSequence_ok_iff.mp hn, rfl, hc, hf⟩

/-- A coin that was registered: the module was on, its *name* was not a registered
denomination, and the pair of its base denomination was written. -/
theorem registerCoin_ok (h : registerCoin k m s = .ok p t) :
    s.params.enableIntrarelayer = true ∧ getDenomMap s.registry m.name = none ∧
    (∃ nonce, s.accounts k.moduleAddress.bytes = some nonce ∧
      p = newTokenPair k.keccak256 (k.createAddress k.moduleAddress nonce) m.base true
        .OWNER_MODULE) ∧
    t.registry = registerPair k p s.registry ∧ SameLedgers s t := by
  -- the steps of the operation, each with the state it leaves
  simp only [registerCoin, updateRegistry, Exec.bind_ok_iff, Exec.get_ok_iff,
    Exec.failIf_ok_iff, Exec.mapError_ok_iff, Exec.modify_ok_iff, Exec.pure_ok_iff,
    Bool.not_eq_true, Bool.not_eq_false] at h
  obtain ⟨_, _, ⟨rfl, rfl⟩, _, _, ⟨hon, rfl⟩, _, _, ⟨hname, rfl⟩, _, v, hv, addr, d, hd, _, _,
    rfl, rfl, rfl⟩ := h
  -- checking the metadata and deploying leave registry, parameters and ledgers alone
  obtain ⟨hvr, hva, -, hvl⟩ := verifyMetadata_ok hv
  obtain ⟨nonce, res, hn, rfl, hc, -⟩ := deployERC20Contract_ok hd
  rw [hva] at hn
  have hcfg := hc.config_eq
  refine ⟨hon, isDenomRegistered_eq_false_iff.mp hname, ⟨nonce, hn, rfl⟩, ?_, ?_, ?_⟩
  · exact congrArg (registerPair k _) ((congrArg Config.registry hcfg).trans hvr)
  · exact (congrArg Config.params hcfg).trans hvl.params
  · exact (congrArg BankState.ledger hc.bank_eq).trans hvl.ledger

/-- The contract of a registered coin was created by a message of the module account, with the
sequence that the pair's address was computed from. -/
theorem registerCoin_deployed (h : registerCoin k m s = .ok p t) :
    ∃ nonce res, s.accounts k.moduleAddress.bytes = some nonce ∧
      p = newTokenPair k.keccak256 (k.createAddress k.moduleAddress nonce) m.base true
        .OWNER_MODULE ∧
      k.evm.applyMessage s.evm s.accounts
        ⟨k.moduleAddress, none, nonce, .create m.name m.symbol⟩ = .ok res ∧
      res.failed = false ∧ t.evm = res.world ∧
      t.accounts k.moduleAddress.bytes = some (nonce + 1) := by
  simp only [registerCoin, updateRegistry, Exec.bind_ok_iff, Exec.get_ok_iff,
    Exec.failIf_ok_iff, Exec.mapError_ok_iff, Exec.modify_ok_iff, Exec.pure_ok_iff] at h
  obtain ⟨_, _, ⟨rfl, rfl⟩, _, _, ⟨-, rfl⟩, _, _, ⟨-, rfl⟩, _, v, hv, addr, d, hd, _, _,
    rfl, rfl, rfl⟩ := h
  obtain ⟨-, hva, hve, -⟩ := verifyMetadata_ok hv
  obtain ⟨nonce, res, hn, rfl, ⟨nonce', hn', happ, rfl⟩, hf⟩ := deployERC20Contract_ok hd
  obtain rfl := Option.some.inj (hn.symm.trans hn')
  rw [hva] at hn
  rw [hva, hve] at happ
  exact ⟨nonce, res, hn, rfl, happ, hf, rfl, Function.update_self ..⟩

/-- An ERC20 that was registered: the module was on, neither the contract nor its derived
denomination was registered, and the pair of the two was written. -/
theorem registerERC20_ok (h : registerERC20 k contract s = .ok u t) :
    s.params.enableIntrarelayer = true ∧ getERC20Map s.registry contract = none ∧
    getDenomMap s.registry (createDenom (contract.hex k.keccak256)) = none ∧
    t.registry = registerPair k (newTokenPair k.keccak256 contract
      (createDenom (contract.hex k.keccak256)) true .OWNER_EXTERNAL) s.registry ∧
    SameLedgers s t := by
  simp only [registerERC20, createCoinMetadata, updateRegistry, Exec.bind_ok_iff,
    Exec.get_ok_iff, Exec.failIf_ok_iff, Exec.mapError_ok_iff, Exec.modify_ok_iff,
    Exec.pure_ok_iff, Exec.ofExcept_ok_iff, Bool.not_eq_true, Bool.not_eq_false] at h
  -- every guard and every read, in the order of the source
  obtain ⟨_, _, ⟨rfl, rfl⟩, _, _, ⟨hon, rfl⟩, _, _, ⟨hreg, rfl⟩, _, _, ⟨data, q, hq, _, _,
    ⟨rfl, rfl⟩, _, _, ⟨-, rfl⟩, _, _, ⟨hden, rfl⟩, _, _, ⟨-, rfl⟩, _, _, rfl, rfl, rfl⟩, rfl⟩ := h
  -- the query runs the contract, which is blind to the module's own state
  have hcfg := (relates_queryERC20 evmBlind_config).of_ok hq
  have hbank := (relates_queryERC20 evmBlind_bank).of_ok hq
  have hl : q.bank.ledger = s.bank.ledger := congrArg BankState.ledger hbank
  have hr : q.registry = s.registry := congrArg Config.registry hcfg
  rw [hr] at hden
  refine ⟨hon, isERC20Registered_eq_false_iff.mp hreg, isDenomRegistered_eq_false_iff.mp hden,
    ?_, ?_, ?_⟩
  · exact congrArg (registerPair k _) hr
  · exact congrArg Config.params hcfg
  · exact hl

/-- A toggle that went through found a pair and flipped its flag in place. -/
theorem toggleRelay_ok (h : toggleRelay k token s = .ok p t) :
    ∃ id q, getTokenPairID s.registry token = some id ∧ getTokenPair s.registry id = some q ∧
      p = { q with enabled := !q.enabled } ∧
      t = { s with registry := setTokenPair k p s.registry } := by
  simp only [toggleRelay, Exec.get_bind] at h
  cases hid : getTokenPairID s.registry token with
  | none => simp only [hid, Exec.fail_ok_iff] at h
  | some id =>
    cases hq : getTokenPair s.registry id with
    | none => simp only [hid, hq, Exec.fail_ok_iff] at h
    | some q =>
      simp only [hid, hq, updateRegistry, Exec.bind_ok_iff, Exec.modify_ok_iff,
        Exec.pure_ok_iff] at h
      obtain ⟨_, _, rfl, rfl, rfl⟩ := h
      exact ⟨id, q, rfl, hq, rfl, rfl⟩

/-- All that an update that went through has looked up, asked the new contract and written. -/
theorem updateTokenPairERC20_inv (h : updateTokenPairERC20 k old new s = .ok p t) :
    ∃ id q md data v, getERC20Map s.registry old = some id ∧ getTokenPair s.registry id = some q ∧
      getDenomMetaData s q.denom = some md ∧ md.denomUnits.length ≠ 0 ∧
      queryERC20 k new s = .ok data v ∧
      (md.display = data.name ∧ md.symbol = data.symbol ∧
        md.description = createDenomDescription (old.hex k.keccak256)) ∧
      checkDenomUnit q data md.denomUnits = .ok () ∧
      p = { q with erc20Address := new.hex k.keccak256 } ∧
      t = { v.setMetadata { md with
              description := createDenomDescription (new.hex k.keccak256) } with
            registry := movePair k q old new v.registry } := by
  simp only [updateTokenPairERC20, Exec.get_bind] at h
  cases hid : getERC20Map s.registry old with
  | none => simp only [hid, Exec.fail_ok_iff] at h
  | some id =>
    cases hq : getTokenPair s.registry id with
    | none => simp only [hid, hq, Exec.fail_ok_iff] at h
    | some q =>
      cases hmd : getDenomMetaData s q.denom with
      | none => simp only [hid, hq, hmd, Exec.fail_ok_iff] at h
      | some md =>
        simp only [hid, hq, hmd, updateRegistry, Exec.bind_ok_iff, Exec.failIf_ok_iff,
          Exec.mapError_ok_iff, Exec.ofExcept_ok_iff, Exec.modify_ok_iff,
          Exec.pure_ok_iff, not_or, not_not] at h
        obtain ⟨_, _, ⟨hunits, rfl⟩, data, v, hquery, _, _, ⟨hdetails, rfl⟩, _, _, ⟨hunit, rfl⟩,
          _, _, rfl, _, _, rfl, rfl, rfl⟩ := h
        exact ⟨id, q, md, data, v, rfl, hq, hmd, hunits, hquery, hdetails, hunit, rfl, rfl⟩

/-- An update that went through found the pair of the old contract, queried the new one, and
moved the pair there; balances and supplies are as they were. -/
theorem updateTokenPairERC20_ok (h : updateTokenPairERC20 k old new s = .ok p t) :
    ∃ id q data v, getERC20Map s.registry old = some id ∧ getTokenPair s.registry id = some q ∧
      queryERC20 k new s = .ok data v ∧
      p = { q with erc20Address := new.hex k.keccak256 } ∧
      t.registry = movePair k q old new s.registry ∧ t.evm = v.evm ∧ SameLedgers s t := by
  obtain ⟨id, q, md, data, v, hid, hq, -, -, hquery, -, -, hpair, rfl⟩ :=
    updateTokenPairERC20_inv h
  have hcfg := (relates_queryERC20 evmBlind_config).of_ok hquery
  have hbank := (relates_queryERC20 evmBlind_bank).of_ok hquery
  have hl : v.bank.ledger = s.bank.ledger := congrArg BankState.ledger hbank
  exact ⟨id, q, data, v, hid, hq, hquery, hpair,
    congrArg (movePair k q old new) (congrArg Config.registry hcfg), rfl,
    congrArg Config.params hcfg, hl⟩

end Spec

/-! ## What a proposal keeps -/

/-- A relation that holds across the writes of proposals, to the registry and to metadata. -/
structure ModuleKeeps (R : State W → State W → Prop) : Prop where
  registry : ∀ s r, R s { s with registry := r }
  setMetadata : ∀ s m, R s (s.setMetadata m)

section

variable {k} {R : State W → State W → Prop} [Std.Refl R] [IsTrans (State W) R]
  (hm : ModuleKeeps R) (he : EvmKeeps k R)
include hm

omit [Std.Refl R] [IsTrans (State W) R] in
private theorem relates_updateRegistry (f : Registry → Registry) :
    Exec.Relates R (updateRegistry (W := W) f) :=
  Exec.relates_modify fun s => hm.registry s (f s.registry)

omit [Std.Refl R] [IsTrans (State W) R] in
private theorem relates_setMetadata (m : Metadata) :
    Exec.Relates R (modify fun s => s.setMetadata m : Exec GoError (State W) Unit) :=
  Exec.relates_modify fun s => hm.setMetadata s m

theorem relates_toggleRelay (token : String) : Exec.Relates R (toggleRelay k token) := by
  refine Exec.relates_bind Exec.relates_get fun s => ?_
  split
  · exact Exec.relates_fail _
  · split
    · exact Exec.relates_fail _
    · exact Exec.relates_bind (relates_updateRegistry hm _) fun _ => Exec.relates_pure _

include he

theorem relates_registerCoin (m : Metadata) : Exec.Relates R (registerCoin k m) := by
  refine Exec.relates_bind Exec.relates_get fun _ =>
    Exec.relates_bind (Exec.relates_failIf _ _) fun _ =>
    Exec.relates_bind (Exec.relates_failIf _ _) fun _ =>
    Exec.relates_bind (Exec.relates_mapError ?_) fun _ =>
    Exec.relates_bind (Exec.relates_mapError ?_) fun _ =>
    Exec.relates_bind (relates_updateRegistry hm _) fun _ => Exec.relates_pure _
  · -- the metadata is written, or compared
    refine Exec.relates_bind Exec.relates_get fun s => ?_
    split
    · exact relates_setMetadata hm _
    · exact Exec.relates_ofExcept _
  · exact Exec.relates_bind Exec.relates_get fun _ =>
      Exec.relates_bind (Exec.relates_ofExcept _) fun _ =>
      Exec.relates_bind (Exec.relates_mapError (relates_callEVMWithPayload he)) fun _ =>
      Exec.relates_pure _

theorem relates_registerERC20 (contract : Address) :
    Exec.Relates R (registerERC20 k contract) := by
  refine Exec.relates_bind Exec.relates_get fun _ =>
    Exec.relates_bind (Exec.relates_failIf _ _) fun _ =>
    Exec.relates_bind (Exec.relates_failIf _ _) fun _ =>
    Exec.relates_bind (Exec.relates_mapError ?_) fun _ => relates_updateRegistry hm _
  exact Exec.relates_bind (relates_queryERC20 he) fun _ =>
    Exec.relates_bind Exec.relates_get fun _ =>
    Exec.relates_bind (Exec.relates_failIf _ _) fun _ =>
    Exec.relates_bind (Exec.relates_failIf _ _) fun _ =>
    Exec.relates_bind (Exec.relates_mapError (Exec.relates_ofExcept _)) fun _ =>
    Exec.relates_bind (relates_setMetadata hm _) fun _ => Exec.relates_pure _

theorem relates_updateTokenPairERC20 (old new : Address) :
    Exec.Relates R (updateTokenPairERC20 k old new) := by
  refine Exec.relates_bind Exec.relates_get fun s => ?_
  split
  · exact Exec.relates_fail _
  · split
    · exact Exec.relates_fail _
    · split
      · exact Exec.relates_fail _
      · exact Exec.relates_bind (Exec.relates_failIf _ _) fun _ =>
          Exec.relates_bind (Exec.relates_mapError (relates_queryERC20 he)) fun _ =>
          Exec.relates_bind (Exec.relates_failIf _ _) fun _ =>
          Exec.relates_bind (Exec.relates_ofExcept _) fun _ =>
          Exec.relates_bind (relates_setMetadata hm _) fun _ =>
          Exec.relates_bind (relates_updateRegistry hm _) fun _ => Exec.relates_pure _

end

/-! ## Proposals do not panic -/

section

variable {k} {s : State W} {text : String}

theorem avoids_registerCoin (m : Metadata) : Exec.Avoids (.panic text) (registerCoin k m) s := by
  refine Exec.avoids_bind Exec.avoids_get fun _ _ _ =>
    Exec.avoids_bind (Exec.avoids_failIf _ _) fun _ _ _ =>
    Exec.avoids_bind (Exec.avoids_failIf _ _) fun _ _ _ =>
    Exec.avoids_bind (Exec.avoids_mapError ?_) fun _ _ _ =>
    Exec.avoids_bind (Exec.avoids_mapError ?_) fun _ _ _ =>
    Exec.avoids_bind (Exec.avoids_modify _) fun _ _ _ => Exec.avoids_pure _
  · -- the metadata is written, or compared
    refine Exec.avoids_bind Exec.avoids_get fun s _ _ => ?_
    split
    · exact Exec.avoids_modify _
    · exact Exec.avoids_ofExcept _
  · exact Exec.avoids_bind Exec.avoids_get fun _ _ _ =>
      Exec.avoids_bind (Exec.avoids_ofExcept _) fun _ _ _ =>
      Exec.avoids_bind (Exec.avoids_mapError avoids_callEVMWithPayload) fun _ _ _ =>
      Exec.avoids_pure _

theorem avoids_registerERC20 (contract : Address) :
    Exec.Avoids (.panic text) (registerERC20 k contract) s := by
  refine Exec.avoids_bind Exec.avoids_get fun _ _ _ =>
    Exec.avoids_bind (Exec.avoids_failIf _ _) fun _ _ _ =>
    Exec.avoids_bind (Exec.avoids_failIf _ _) fun _ _ _ =>
    Exec.avoids_bind (Exec.avoids_mapError ?_) fun _ _ _ => Exec.avoids_modify _
  exact Exec.avoids_bind avoids_queryERC20 fun _ _ _ =>
    Exec.avoids_bind Exec.avoids_get fun _ _ _ =>
    Exec.avoids_bind (Exec.avoids_failIf _ _) fun _ _ _ =>
    Exec.avoids_bind (Exec.avoids_failIf _ _) fun _ _ _ =>
    Exec.avoids_bind (Exec.avoids_mapError (Exec.avoids_ofExcept _)) fun _ _ _ =>
    Exec.avoids_bind (Exec.avoids_modify _) fun _ _ _ => Exec.avoids_pure _

theorem avoids_toggleRelay (token : String) :
    Exec.Avoids (.panic text) (toggleRelay k token) s := by
  refine Exec.avoids_bind Exec.avoids_get fun s _ _ => ?_
  split
  · exact Exec.avoids_fail _
  · split
    · exact Exec.avoids_fail _
    · exact Exec.avoids_bind (Exec.avoids_modify _) fun _ _ _ => Exec.avoids_pure _

theorem avoids_updateTokenPairERC20 (old new : Address) :
    Exec.Avoids (.panic text) (updateTokenPairERC20 k old new) s := by
  refine Exec.avoids_bind Exec.avoids_get fun s _ _ => ?_
  split
  · exact Exec.avoids_fail _
  · split
    · exact Exec.avoids_fail _
    · split
      · exact Exec.avoids_fail _
      · exact Exec.avoids_bind (Exec.avoids_failIf _ _) fun _ _ _ =>
          Exec.avoids_bind (Exec.avoids_mapError avoids_queryERC20) fun _ _ _ =>
          Exec.avoids_bind (Exec.avoids_failIf _ _) fun _ _ _ =>
          Exec.avoids_bind (Exec.avoids_ofExcept _) fun _ _ _ =>
          Exec.avoids_bind (Exec.avoids_modify _) fun _ _ _ =>
          Exec.avoids_bind (Exec.avoids_modify _) fun _ _ _ => Exec.avoids_pure _

end

/-! ## Genesis -/

/-- The writes of `InitGenesis` for one pair. -/
def importPair (r : Registry) (pair : TokenPair) : Registry :=
  setERC20Map pair.getERC20Contract (pair.getID k.tmhashSum)
    (setDenomMap pair.denom (pair.getID k.tmhashSum) (setTokenPair k pair r))

/-- `InitGenesis`. -/
def initGenesis (data : GenesisState) (s : State W) : State W :=
  let s := ({ s with params := data.params } : State W).ensureAccount k.moduleAddress.bytes
  { s with registry := data.tokenPairs.foldl (importPair k) s.registry }

/-- `ExportGenesis`. -/
def exportGenesis (s : State W) : GenesisState where
  params := s.params
  tokenPairs := getAllTokenPairs s.registry

/-- The store before genesis. -/
def emptyRegistry : Registry := ⟨∅, ∅, ∅⟩

end GenesisEthermint.Intrarelayer
