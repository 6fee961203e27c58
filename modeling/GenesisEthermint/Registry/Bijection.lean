import GenesisEthermint.Registry.Consistency
import GenesisEthermint.Tokens.Reference

/-!
# The Registry over Whole Runs

Which operations keep the registry one-to-one, and that a run of them does. Two guards of the
keeper do not cover the key they are meant to protect: `RegisterCoin` asks whether the coin's
name is registered but writes its base denomination, and `UpdateTokenPairERC20` never asks
whether the new contract is registered. `KeepsBijection` is what these guards leave open.
-/

namespace GenesisEthermint.Registry

open GenesisEthermint.Foundation GenesisEthermint.Types GenesisEthermint.Chain
open GenesisEthermint.Intrarelayer GenesisEthermint.Tokens

variable {W : Type} (k : Keeper W)

/-! ## Digests -/

/-- The digest of the pair's text is not the digest of another stored pair's text. -/
def NoCollision (r : Registry) (p : TokenPair) : Prop :=
  ∀ key q, r.tokenPairs.lookup key = some q →
    k.tmhashSum q.idText = k.tmhashSum p.idText → q.idText = p.idText

/-- The pair whose text the operation hashes to write it under a new key. -/
def writtenPair (s : State W) : Op → Option TokenPair
  | .registerCoin metadata => (s.accounts k.moduleAddress.bytes).map fun nonce =>
      newTokenPair k.keccak256 (k.createAddress k.moduleAddress nonce) metadata.base true
        .OWNER_MODULE
  | .registerERC20 contract => some (newTokenPair k.keccak256 contract
      (createDenom (contract.hex k.keccak256)) true .OWNER_EXTERNAL)
  | .updateTokenPairERC20 erc20Addr newERC20Addr =>
      (pairOfContract s.registry erc20Addr).map fun p =>
        { p with erc20Address := newERC20Addr.hex k.keccak256 }
  | _ => none

/-- SHA-256 does not collide on the text this operation hashes. -/
def HashesApart (s : State W) (op : Op) : Prop :=
  ∀ p, writtenPair k s op = some p → NoCollision k s.registry p

/-- Non-collision is a check of the stored entries. -/
theorem hashesApart_of_entries {s : State W} {op : Op}
    (h : (writtenPair k s op).all (fun p => s.registry.tokenPairs.entries.all fun e =>
      k.tmhashSum e.2.idText ≠ k.tmhashSum p.idText ∨ e.2.idText = p.idText) = true) :
    HashesApart k s op := by
  intro p hp key q hq hsum
  rw [hp, Option.all_some, List.all_eq_true] at h
  have he := h _ (KVStore.mem_entries_iff.mpr hq)
  simp only [decide_eq_true_eq] at he
  exact he.resolve_left fun hne => hne hsum

/-- The condition under which an operation keeps the registry one-to-one: a registered coin's
base denomination is free and so is the address its contract will have, and an update goes to
a contract that is free or to the same one. -/
def KeepsBijection (s : State W) : Op → Prop
  | .registerCoin metadata => getDenomMap s.registry metadata.base = none ∧
      ∀ nonce, s.accounts k.moduleAddress.bytes = some nonce →
        getERC20Map s.registry (k.createAddress k.moduleAddress nonce) = none
  | .updateTokenPairERC20 erc20Addr newERC20Addr =>
      newERC20Addr = erc20Addr ∨ getERC20Map s.registry newERC20Addr = none
  | _ => True

/-! ## One write -/

section Write

variable {k} {r : Registry} {p q : TokenPair} {id : Hash}

/-- Only a pair of the same denomination can sit under the key of `p`. -/
private theorem denom_of_lookup_getID (h : RegistryConsistent k r)
    (hp : isHexAddress p.erc20Address = true) (hc : NoCollision k r p)
    (hq : r.tokenPairs.lookup (p.getID k.tmhashSum).bytes = some q) : q.denom = p.denom := by
  have hid : k.tmhashSum q.idText = k.tmhashSum p.idText := Hash.ext (h.stored_key hq).symm
  exact (TokenPair.idText_inj (h.stored_hex hq) hp (hc _ _ hq hid)).2

/-- What a genesis import stores. -/
theorem lookup_importPair {key : List UInt8}
    (h : (importPair k r p).tokenPairs.lookup key = some q) :
    q = p ∨ r.tokenPairs.lookup key = some q := by
  simp only [importPair, setERC20Map, setDenomMap, setTokenPair, KVStore.lookup_set] at h
  split at h
  · exact .inl (Option.some.inj h).symm
  · exact .inr h

/-- What is stored after a pair was written: the pair, or one under another key. -/
theorem lookup_setTokenPair {key : List UInt8} {x : TokenPair}
    (h : (setTokenPair k q r).tokenPairs.lookup key = some x) :
    x = q ∨ key ≠ (q.getID k.tmhashSum).bytes ∧ r.tokenPairs.lookup key = some x := by
  simp only [setTokenPair, KVStore.lookup_set] at h
  split at h
  · exact .inl (Option.some.inj h).symm
  · exact .inr ⟨‹_›, h⟩

/-- What is stored after a pair moved: the moved pair, or one that was stored beside it. -/
theorem lookup_movePair {old new : Address} {key : List UInt8}
    (h : (movePair k p old new r).tokenPairs.lookup key = some q) :
    q = { p with erc20Address := new.hex k.keccak256 } ∨
      key ≠ (p.getID k.tmhashSum).bytes ∧ r.tokenPairs.lookup key = some q := by
  simp only [movePair, setERC20Map, deleteERC20Map, setDenomMap, setTokenPair, deleteTokenPair,
    KVStore.lookup_set, KVStore.lookup_delete] at h
  split at h
  · exact .inl (Option.some.inj h).symm
  · split at h
    · cases h
    · rename_i hne
      exact .inr ⟨hne, h⟩

/-- A pair rewritten with the same contract and denomination keeps its key. -/
theorem pairKeys_congr (ha : q.erc20Address = p.erc20Address) (hd : q.denom = p.denom) :
    (pairKeys k).key q = (pairKeys k).key p ∧ (pairKeys k).b q = (pairKeys k).b p := by
  constructor
  · simp only [pairKeys, TokenPair.getID, TokenPair.idText, ha, hd]
  · simp only [pairKeys, TokenPair.getERC20Contract, ha]

/-- The key of a pair whose denomination is free is free. -/
theorem lookup_getID_eq_none (h : RegistryConsistent k r) (hp : isHexAddress p.erc20Address = true)
    (hd : getDenomMap r p.denom = none) (hc : NoCollision k r p) :
    r.tokenPairs.lookup (p.getID k.tmhashSum).bytes = none := by
  cases hq : r.tokenPairs.lookup (p.getID k.tmhashSum).bytes with
  | none => rfl
  | some q =>
    have hstored := h.denom_of_stored hq
    rw [denom_of_lookup_getID h hp hc hq, hd] at hstored
    cases hstored

/-- Under a free key, a pair is written beside the others. -/
theorem stored_importPair (hfree : r.tokenPairs.lookup (p.getID k.tmhashSum).bytes = none) :
    Stored (importPair k r p) q ↔ q = p ∨ Stored r q := by
  constructor
  · rintro ⟨key, hq⟩
    exact (lookup_importPair hq).imp id fun hq => ⟨key, hq⟩
  · rintro (rfl | ⟨key, hq⟩)
    · exact ⟨_, KVStore.lookup_set_self⟩
    · refine ⟨key, (KVStore.lookup_set_of_ne fun heq => ?_).trans hq⟩
      rw [heq, hfree] at hq
      cases hq

/-- A pair with a free denomination and a free contract can be written. -/
theorem consistent_importPair (h : RegistryConsistent k r)
    (hp : isHexAddress p.erc20Address = true) (hd : getDenomMap r p.denom = none)
    (ha : getERC20Map r p.getERC20Contract = none) (hc : NoCollision k r p) :
    RegistryConsistent k (importPair k r p) := by
  have hkey := lookup_getID_eq_none h hp hd hc
  obtain ⟨h1, hhex⟩ := registryConsistent_iff_oneToOne.mp h
  refine registryConsistent_iff_oneToOne.mpr ⟨?_, fun key q hq => ?_⟩
  · rw [table_importPair]
    exact h1.insert hkey (by simp [table, pairKeys, hd]) (by simp [table, pairKeys, ha])
  · rcases lookup_importPair hq with rfl | hq
    · exact hp
    · exact hhex _ _ hq

/-- A stored pair can be rewritten in place. -/
theorem consistent_setTokenPair (h : RegistryConsistent k r) (hp : getTokenPair r id = some p)
    (ha : q.erc20Address = p.erc20Address) (hd : q.denom = p.denom) :
    RegistryConsistent k (setTokenPair k q r) := by
  rw [h.getTokenPair_eq] at hp
  obtain ⟨h1, hhex⟩ := registryConsistent_iff_oneToOne.mp h
  refine registryConsistent_iff_oneToOne.mpr ⟨?_, fun key q' hq' => ?_⟩
  · obtain ⟨hkey, hb⟩ := pairKeys_congr (k := k) ha hd
    rw [table_setTokenPair]
    exact h1.rewrite hp hkey hd hb
  · rcases lookup_setTokenPair hq' with rfl | ⟨-, hq'⟩
    · exact ha ▸ hhex _ _ hp
    · exact hhex _ _ hq'

/-- A stored pair can be moved to a contract that is free, or that is its own. -/
theorem consistent_movePair {old new : Address} (h : RegistryConsistent k r)
    (hold : getERC20Map r old = some id) (hp : getTokenPair r id = some p)
    (hnew : new = old ∨ getERC20Map r new = none)
    (hc : NoCollision k r { p with erc20Address := new.hex k.keccak256 }) :
    RegistryConsistent k (movePair k p old new r) := by
  -- the pair that `old` resolves to holds the contract `old`
  have hpo := h.contract_of_getERC20Map hold hp
  rw [h.getTokenPair_eq] at hp
  obtain ⟨h1, hhex⟩ := registryConsistent_iff_oneToOne.mp h
  have hcontract : TokenPair.getERC20Contract
      { p with erc20Address := new.hex k.keccak256 } = new := by
    simp only [TokenPair.getERC20Contract, hexToAddress_hex]
  refine registryConsistent_iff_oneToOne.mpr ⟨?_, fun key q hq => ?_⟩
  -- on the three tables a move is a re-keying: same denomination, new contract, new identifier
  · rw [table_movePair k r p old new hpo]
    have hmoved : isHexAddress
        ({ p with erc20Address := new.hex k.keccak256 } : TokenPair).erc20Address = true :=
      isHexAddress_hex k.keccak256 new
    revert hcontract hmoved hc
    generalize hm : ({ p with erc20Address := new.hex k.keccak256 } : TokenPair) = moved
    intro hc hcontract hmoved
    have hden : moved.denom = p.denom := by rw [← hm]
    refine h1.rekey hp (fun q hq => ?_) hden ?_
    -- a pair under the new identifier has the denomination of the moved one, so it is that one
    · exact h.eq_of_denom hq hp ((denom_of_lookup_getID h hmoved hc hq).trans hden)
    · rcases hnew with rfl | hnew
      · exact .inl (hcontract.trans hpo.symm)
      · refine .inr ?_
        simp only [table, pairKeys, hcontract, hnew, Option.map_none]
  · rcases lookup_movePair hq with rfl | ⟨-, hq⟩
    · exact isHexAddress_hex k.keccak256 new
    · exact hhex _ _ hq

end Write

/-! ## Genesis -/

theorem consistent_emptyRegistry : RegistryConsistent k emptyRegistry := by
  constructor <;> simp [emptyRegistry, getDenomMap, getERC20Map, KVStore.lookup_empty]

/-- The genesis list names every denomination and every contract once, each contract is spelled
as an address, and the digests of its pairs are distinct. -/
structure DistinctPairs (pairs : List TokenPair) : Prop where
  hex : ∀ p ∈ pairs, isHexAddress p.erc20Address = true
  denom : pairs.Pairwise fun p q => p.denom ≠ q.denom
  contract : pairs.Pairwise fun p q => p.getERC20Contract ≠ q.getERC20Contract
  hash : pairs.Pairwise fun p q =>
    k.tmhashSum p.idText = k.tmhashSum q.idText → p.idText = q.idText

variable {k}

private theorem consistent_foldl_importPair {r : Registry} (h : RegistryConsistent k r)
    {pairs : List TokenPair} (hpairs : DistinctPairs k pairs)
    (hd : ∀ p ∈ pairs, getDenomMap r p.denom = none)
    (ha : ∀ p ∈ pairs, getERC20Map r p.getERC20Contract = none)
    (hc : ∀ p ∈ pairs, NoCollision k r p) :
    RegistryConsistent k (pairs.foldl (importPair k) r) := by
  -- on the pairs still to import; each import leaves the later ones free
  induction pairs generalizing r with
  | nil => exact h
  | cons p rest ih =>
    obtain ⟨hhex, hpd, hpa, hph⟩ := hpairs
    rw [List.pairwise_cons] at hpd hpa hph
    have hin := List.mem_cons_self (a := p) (l := rest)
    have hmem : ∀ q ∈ rest, q ∈ p :: rest := fun q hq => List.mem_cons_of_mem _ hq
    refine ih (consistent_importPair h (hhex p hin) (hd p hin) (ha p hin) (hc p hin))
      ⟨fun q hq => hhex q (hmem q hq), hpd.2, hpa.2, hph.2⟩ (fun q hq => ?_) (fun q hq => ?_)
      (fun q hq key x hx hxq => ?_)
    · have hne : q.denom ≠ p.denom := fun e => hpd.1 q hq e.symm
      have hfree := hd q (hmem q hq)
      rw [getDenomMap] at hfree ⊢
      exact (KVStore.lookup_set_of_ne hne).trans hfree
    · have hne : q.getERC20Contract ≠ p.getERC20Contract := fun e => hpa.1 q hq e.symm
      rw [importPair, getERC20Map_set, if_neg hne]
      exact ha q (hmem q hq)
    -- a record is the one just imported, whose hash is apart, or an old one
    · rcases lookup_importPair hx with rfl | hx
      · exact hph.1 q hq hxq
      · exact hc q (hmem q hq) key x hx hxq

/-- `InitGenesis` of such a list into an empty store leaves a consistent registry. -/
theorem consistent_initGenesis {gs : GenesisState} {s : State W}
    (hs : s.registry = emptyRegistry) (hgs : DistinctPairs k gs.tokenPairs) :
    RegistryConsistent k (initGenesis k gs s).registry := by
  have hr : (initGenesis k gs s).registry = gs.tokenPairs.foldl (importPair k) emptyRegistry := by
    simp [initGenesis, hs]
  rw [hr]
  refine consistent_foldl_importPair (consistent_emptyRegistry k) hgs ?_ ?_ ?_
  · exact fun p _ => KVStore.lookup_empty
  · exact fun p _ => KVStore.lookup_empty
  · intro p _ key q hq
    simp [emptyRegistry, KVStore.lookup_empty] at hq

/-! ## Runs -/

/-- What an operation can make of the registry and the parameters. -/
inductive RegistryStep (k : Keeper W) (s : State W) (op : Op) (t : State W) : Prop where
  /-- It is a user's, or it failed. -/
  | untouched (registry : t.registry = s.registry) (params : t.params = s.params)
  | coin (m : Metadata) (nonce : ℕ) (hop : op = .registerCoin m)
    (account : s.accounts k.moduleAddress.bytes = some nonce)
    (registry : t.registry = importPair k s.registry (newTokenPair k.keccak256
      (k.createAddress k.moduleAddress nonce) m.base true .OWNER_MODULE))
    (params : t.params = s.params)
  | erc20 (contract : Address) (hop : op = .registerERC20 contract)
    (contract_free : getERC20Map s.registry contract = none)
    (denom_free : getDenomMap s.registry (createDenom (contract.hex k.keccak256)) = none)
    (registry : t.registry = importPair k s.registry (newTokenPair k.keccak256 contract
      (createDenom (contract.hex k.keccak256)) true .OWNER_EXTERNAL))
    (params : t.params = s.params)
  | toggled (id : Hash) (p : TokenPair) (found : getTokenPair s.registry id = some p)
    (registry : t.registry = setTokenPair k { p with enabled := !p.enabled } s.registry)
    (params : t.params = s.params)
  | moved (id : Hash) (p : TokenPair) (old new : Address)
    (hop : op = .updateTokenPairERC20 old new) (mapped : getERC20Map s.registry old = some id)
    (found : getTokenPair s.registry id = some p)
    (registry : t.registry = movePair k p old new s.registry) (params : t.params = s.params)
  | params (hop : op = .setParams t.params) (registry : t.registry = s.registry)

/-- **What a step can do to the registry.** -/
theorem registryStep_cases (s : State W) (op : Op) : RegistryStep k s op (step k s op) := by
  -- a user operation has no access to the registry, and a failed one is rolled back
  by_cases huser : op.IsUserOp
  · have hcfg := config_step_of_isUserOp k huser s
    exact .untouched (congrArg Config.registry hcfg) (congrArg Config.params hcfg)
  rcases Exec.deliver_cases (op.exec k) s with ⟨u, hok⟩ | hfail
  swap
  · rw [step, hfail]
    exact .untouched rfl rfl
  -- the five operations of governance, each from what its success says
  rw [← step] at hok
  cases op with
  | registerCoin metadata =>
    obtain ⟨p, hp⟩ := Exec.discard_ok hok
    obtain ⟨-, -, ⟨nonce, hn, rfl⟩, hr, hl⟩ := registerCoin_ok hp
    exact .coin metadata nonce rfl hn hr hl.params
  | registerERC20 contract =>
    obtain ⟨-, ha, hd, hr, hl⟩ := registerERC20_ok hok
    exact .erc20 contract rfl ha hd hr hl.params
  | toggleRelay token =>
    obtain ⟨p, hp⟩ := Exec.discard_ok hok
    obtain ⟨id, q, -, hq, rfl, ht⟩ := toggleRelay_ok hp
    rw [ht]
    exact .toggled id q hq rfl rfl
  | updateTokenPairERC20 old new =>
    obtain ⟨p, hp⟩ := Exec.discard_ok hok
    obtain ⟨id, q, -, -, hid, hq, -, -, hr, -, hl⟩ := updateTokenPairERC20_ok hp
    exact .moved id q old new rfl hid hq hr hl.params
  | setParams params =>
    have ht := Exec.modify_ok_iff.mp hok
    rw [ht]
    exact .params rfl rfl
  | _ => exact absurd trivial huser

/-- **One step keeps the registry one-to-one** under `KeepsBijection`. -/
theorem consistent_step {s : State W} {op : Op} (h : RegistryConsistent k s.registry)
    (hop : KeepsBijection k s op) (hash : HashesApart k s op) :
    RegistryConsistent k (step k s op).registry := by
  -- one case for each way a step writes the registry
  cases registryStep_cases (k := k) s op with
  | untouched registry _ => rwa [registry]
  | coin m nonce heq account registry _ =>
    subst heq
    obtain ⟨hd, ha⟩ := hop
    have hc := hash _ (by rw [writtenPair, account, Option.map_some])
    rw [registry]
    refine consistent_importPair h (isHexAddress_hex ..) hd ?_ hc
    simpa [TokenPair.getERC20Contract, newTokenPair] using ha nonce account
  | erc20 contract heq contract_free denom_free registry _ =>
    subst heq
    rw [registry]
    refine consistent_importPair h (isHexAddress_hex ..) denom_free ?_ (hash _ rfl)
    simpa [TokenPair.getERC20Contract, newTokenPair] using contract_free
  | toggled id p found registry _ =>
    rw [registry]
    exact consistent_setTokenPair h found rfl rfl
  | moved id p old new heq mapped found registry _ =>
    subst heq
    rw [registry]
    refine consistent_movePair h mapped found hop (hash _ ?_)
    simp [writtenPair, pairOfContract, mapped, found]
  | params _ registry => rwa [registry]

theorem consistent_run {s : State W} {ops : List Op} (h : RegistryConsistent k s.registry)
    (hops : Along (step k) (KeepsBijection k) s ops)
    (hash : Along (step k) (HashesApart k) s ops) :
    RegistryConsistent k (run (step k) s ops).registry :=
  run_preserves (P := fun s => RegistryConsistent k s.registry)
    (C := fun s op => KeepsBijection k s op ∧ HashesApart k s op)
    (fun _ _ hs hop => consistent_step hs hop.1 hop.2) h (hops.and hash)

/-- **The registry stays one-to-one over whole runs.** Starting from the genesis import of
distinct pairs, after any operations that all meet `KeepsBijection` the three sub-stores agree
and no two pairs share a denomination or a contract. -/
theorem registry_one_to_one_of_run (gs : GenesisState) (s₀ : State W) (ops : List Op)
    (hempty : s₀.registry = emptyRegistry) (hgs : DistinctPairs k gs.tokenPairs)
    (hash : Along (step k) (HashesApart k) (initGenesis k gs s₀) ops)
    (hops : Along (step k) (KeepsBijection k) (initGenesis k gs s₀) ops) :
    RegistryConsistent k (run (step k) (initGenesis k gs s₀) ops).registry ∧
    ∀ i j p q,
      (run (step k) (initGenesis k gs s₀) ops).registry.tokenPairs.lookup i = some p →
      (run (step k) (initGenesis k gs s₀) ops).registry.tokenPairs.lookup j = some q →
      p.denom = q.denom ∨ p.getERC20Contract = q.getERC20Contract → p = q := by
  have hcons := consistent_run (consistent_initGenesis hempty hgs) hops hash
  refine ⟨hcons, fun i j p q hp hq h => ?_⟩
  rcases h with hd | ha
  · exact hcons.eq_of_denom hp hq hd
  · exact hcons.eq_of_contract hp hq ha

/-! ## Two histories of the reference deployment -/

/-- A genesis without pairs. -/
def noPairs : GenesisState := ⟨⟨true, 172800000000000, true⟩, []⟩

/-- The deployment after that genesis. -/
def afterGenesis : State TokenWorld :=
  initGenesis plainKeeper noPairs (referenceState referenceWorld)

/-- A registration, a toggle, and an update to a contract that is free. -/
def updateToFree : List Op :=
  [.registerERC20 tokenA, .toggleRelay "intrarelayer/0x1111111111111111111111111111111111111111",
    .updateTokenPairERC20 tokenA tokenB]

/-- Two registrations, and an update of the first pair to the contract of the second. -/
def updateToTaken : List Op :=
  [.registerERC20 tokenA, .registerERC20 tokenB, .updateTokenPairERC20 tokenA tokenB]

private theorem distinctPairs_noPairs : DistinctPairs plainKeeper noPairs.tokenPairs := by
  constructor <;> simp [noPairs]

theorem registry_one_to_one_of_run_updateToFree :
    RegistryConsistent plainKeeper (run (step plainKeeper) afterGenesis updateToFree).registry :=
  (registry_one_to_one_of_run noPairs (referenceState referenceWorld) updateToFree rfl
    distinctPairs_noPairs
    ⟨hashesApart_of_entries _ (by decide +kernel), hashesApart_of_entries _ (by decide +kernel),
      hashesApart_of_entries _ (by decide +kernel), trivial⟩
    ⟨trivial, trivial, .inr (by decide +kernel), trivial⟩).1

/-- **An update to a registered contract breaks the mapping.** All three proposals are valid,
and after them two pairs are stored with the same contract. -/
theorem registry_not_one_to_one_updateToTaken :
    (∀ c ∈ ["0x1111111111111111111111111111111111111111",
        "0x2222222222222222222222222222222222222222"],
      (RegisterERC20Proposal.mk "Register" "a token" c).validateBasic = .ok ()) ∧
    (UpdateTokenPairERC20Proposal.mk "Update" "a contract"
      "0x1111111111111111111111111111111111111111"
      "0x2222222222222222222222222222222222222222").validateBasic = .ok () ∧
    ¬ RegistryConsistent plainKeeper
      (run (step plainKeeper) afterGenesis updateToTaken).registry := by
  refine ⟨by decide, by decide, fun h => ?_⟩
  let pairOf (d : String) : TokenPair :=
    ⟨"0x2222222222222222222222222222222222222222", d, true, .OWNER_EXTERNAL⟩
  have hstored : ∀ d ∈ ["intrarelayer/0x1111111111111111111111111111111111111111",
      "intrarelayer/0x2222222222222222222222222222222222222222"],
      pairOf d ∈ getAllTokenPairs
        (run (step plainKeeper) afterGenesis updateToTaken).registry := by
    decide +kernel
  obtain ⟨⟨i, p⟩, hp, hpd⟩ := List.mem_map.mp (hstored _ (List.mem_cons_self ..))
  obtain ⟨⟨j, q⟩, hq, hqd⟩ := List.mem_map.mp
    (hstored _ (List.mem_cons_of_mem _ (List.mem_cons_self ..)))
  obtain rfl : p = pairOf _ := hpd
  obtain rfl : q = pairOf _ := hqd
  have heq := h.eq_of_contract (KVStore.mem_entries_iff.mp hp) (KVStore.mem_entries_iff.mp hq) rfl
  exact absurd (congrArg TokenPair.denom heq) (by decide)

/-! ## The pairs of the reference deployment -/

section Deployed

variable (evm : Evm W) (world : W)

private theorem getID_pairA_ne :
    pairA.getID (keeperOver evm).tmhashSum ≠ pairE.getID (keeperOver evm).tmhashSum :=
  (by decide +kernel :
    ¬ pairA.getID plainKeeper.tmhashSum = pairE.getID plainKeeper.tmhashSum)

theorem consistent_deployed :
    RegistryConsistent (keeperOver evm) (deployed evm world).registry := by
  refine consistent_initGenesis rfl ⟨by decide, by decide, by decide, ?_⟩
  refine List.pairwise_pair.mpr fun h => ?_
  exact absurd h (getID_pairA_ne evm)

theorem stored_deployed {p : TokenPair} :
    Stored (deployed evm world).registry p ↔ p = pairA ∨ p = pairE := by
  have hreg : (deployed evm world).registry =
      importPair (keeperOver evm) (importPair (keeperOver evm) emptyRegistry pairA) pairE := rfl
  rw [hreg]
  constructor
  · rintro ⟨key, hp⟩
    rcases lookup_importPair hp with rfl | hp
    · exact .inr rfl
    rcases lookup_importPair hp with rfl | hp
    · exact .inl rfl
    · rw [emptyRegistry, KVStore.lookup_empty] at hp
      cases hp
  · rintro (rfl | rfl)
    · refine ⟨(pairA.getID (keeperOver evm).tmhashSum).bytes, ?_⟩
      have hne := fun h => getID_pairA_ne evm (Hash.ext h)
      exact (KVStore.lookup_set_of_ne hne).trans KVStore.lookup_set_self
    · exact ⟨(pairE.getID (keeperOver evm).tmhashSum).bytes, KVStore.lookup_set_self⟩

end Deployed

end GenesisEthermint.Registry
