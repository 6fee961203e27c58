import GenesisEthermint.Registry.Bijection
import GenesisEthermint.Types.Grammar

/-!
# Genesis

The registry is imported from a list of pairs and exported to one. Validation reads the list as
text and the store files it by address, so a valid list need not be a consistent registry: an
address has several spellings. In the other direction nothing is lost. The pairs alone determine
both indexes, and every pair the keeper can store passes the validation the keeper never runs.
-/

namespace GenesisEthermint.Registry

open GenesisEthermint.Foundation GenesisEthermint.Types GenesisEthermint.Chain
open GenesisEthermint.Intrarelayer GenesisEthermint.Tokens

variable {W : Type} {k : Keeper W} {r : Registry} {p q : TokenPair}

/-! ## What an import stores -/

theorem registry_initGenesis {gs : GenesisState} {s : State W}
    (hs : s.registry = emptyRegistry) :
    (initGenesis k gs s).registry = gs.tokenPairs.foldl (importPair k) emptyRegistry := by
  simp [initGenesis, hs]

/-- What the import stores was there before or is on the list. -/
theorem mem_of_lookup_foldl {pairs : List TokenPair} {key : List UInt8}
    (h : (pairs.foldl (importPair k) r).tokenPairs.lookup key = some q) :
    q ∈ pairs ∨ r.tokenPairs.lookup key = some q := by
  induction pairs generalizing r with
  | nil => exact .inr h
  | cons p rest ih =>
    rcases ih h with hq | hq
    · exact .inl (List.mem_cons_of_mem _ hq)
    · rcases lookup_importPair hq with rfl | hq
      · exact .inl (List.mem_cons_self ..)
      · exact .inr hq

/-- A pair stays under its ID while pairs with other IDs are imported. -/
private theorem lookup_foldl_of_ne {pairs : List TokenPair} {key : List UInt8}
    (hne : ∀ x ∈ pairs, (x.getID k.tmhashSum).bytes ≠ key)
    (h : r.tokenPairs.lookup key = some q) :
    (pairs.foldl (importPair k) r).tokenPairs.lookup key = some q := by
  induction pairs generalizing r with
  | nil => exact h
  | cons p rest ih =>
    refine ih (fun x hx => hne x (List.mem_cons_of_mem _ hx)) ?_
    have hp := hne p (List.mem_cons_self ..)
    exact (KVStore.lookup_set_of_ne (Ne.symm hp)).trans h

/-- Pairs on a list with distinct IDs are all stored under them. -/
theorem lookup_foldl_of_mem {pairs : List TokenPair}
    (hids : pairs.Pairwise fun x y => x.getID k.tmhashSum ≠ y.getID k.tmhashSum)
    (hp : p ∈ pairs) :
    (pairs.foldl (importPair k) r).tokenPairs.lookup (p.getID k.tmhashSum).bytes = some p := by
  induction pairs generalizing r with
  | nil => cases hp
  | cons x rest ih =>
    rw [List.pairwise_cons] at hids
    rcases List.mem_cons.mp hp with rfl | hp
    · have hset : (importPair k r p).tokenPairs.lookup (p.getID k.tmhashSum).bytes = some p :=
        KVStore.lookup_set_self
      rw [List.foldl_cons]
      exact lookup_foldl_of_ne (fun y hy hkey => hids.1 y hy (Hash.ext hkey.symm)) hset
    · exact ih hids.2 hp

/-- Distinct pairs have distinct IDs. -/
theorem DistinctPairs.ids {pairs : List TokenPair} (h : DistinctPairs k pairs) :
    pairs.Pairwise fun x y => x.getID k.tmhashSum ≠ y.getID k.tmhashSum := by
  refine (h.denom.and h.hash).imp_of_mem fun hx hy hxy hid => ?_
  exact hxy.1 (TokenPair.idText_inj (h.hex _ hx) (h.hex _ hy) (hxy.2 hid)).2

/-- **The import of distinct pairs** stores them and nothing else. -/
theorem stored_initGenesis_iff {gs : GenesisState} {s : State W}
    (hs : s.registry = emptyRegistry) (hgs : DistinctPairs k gs.tokenPairs) :
    Stored (initGenesis k gs s).registry p ↔ p ∈ gs.tokenPairs := by
  rw [registry_initGenesis hs]
  constructor
  · rintro ⟨key, hp⟩
    rcases mem_of_lookup_foldl hp with hp | hp
    · exact hp
    · simp [emptyRegistry, KVStore.lookup_empty] at hp
  · exact fun hp => ⟨_, lookup_foldl_of_mem hgs.ids hp⟩

/-! ## Validation -/

/-- The pair is stored under its ID, and its denomination and its contract lead there. -/
structure Filed (k : Keeper W) (r : Registry) (p : TokenPair) : Prop where
  stored : r.tokenPairs.lookup (p.getID k.tmhashSum).bytes = some p
  denom : getDenomMap r p.denom = some (p.getID k.tmhashSum)
  erc20 : getERC20Map r p.getERC20Contract = some (p.getID k.tmhashSum)

/-- What an import is to leave: a consistent registry with every listed pair filed. -/
structure Imported (k : Keeper W) (pairs : List TokenPair) (r : Registry) : Prop where
  consistent : RegistryConsistent k r
  filed : ∀ p ∈ pairs, Filed k r p

theorem distinctPairs_of_validate {gs : GenesisState} (hvalid : gs.validate = .ok ())
    (hcontract : gs.tokenPairs.Pairwise fun p q => p.getERC20Contract ≠ q.getERC20Contract)
    (hhash : gs.tokenPairs.Pairwise fun p q =>
      k.tmhashSum p.idText = k.tmhashSum q.idText → p.idText = q.idText) :
    DistinctPairs k gs.tokenPairs := by
  obtain ⟨hpairs, -, hdenom, -⟩ := GenesisState.validate_ok_iff.mp hvalid
  exact ⟨fun p hp => (TokenPair.validate_ok_iff.mp (hpairs p hp)).2, hdenom, hcontract, hhash⟩

/-- **When validation is sufficient.** A valid genesis is imported into a consistent registry
exactly when no two of its pairs spell the same 20-byte address. -/
theorem imported_of_validate_iff (gs : GenesisState) (s : State W)
    (hempty : s.registry = emptyRegistry) (hvalid : gs.validate = .ok ())
    (hhash : gs.tokenPairs.Pairwise fun p q =>
      k.tmhashSum p.idText = k.tmhashSum q.idText → p.idText = q.idText) :
    (Imported k gs.tokenPairs (initGenesis k gs s).registry ∧
        gs.tokenPairs.Pairwise fun p q => p.denom ≠ q.denom) ↔
      gs.tokenPairs.Pairwise fun p q => p.getERC20Contract ≠ q.getERC20Contract := by
  obtain ⟨-, -, hdenom, -⟩ := GenesisState.validate_ok_iff.mp hvalid
  constructor
  · rintro ⟨himported, -⟩
    -- two pairs at one address are one stored pair, but their denominations differ
    refine hdenom.imp_of_mem fun hp hq hne hcontract => hne ?_
    have heq := himported.consistent.eq_of_contract (himported.filed _ hp).stored
      (himported.filed _ hq).stored hcontract
    rw [heq]
  · intro hcontract
    have hdistinct := distinctPairs_of_validate hvalid hcontract hhash
    have hcons := consistent_initGenesis hempty hdistinct
    refine ⟨⟨hcons, fun p hp => ?_⟩, hdenom⟩
    have hstored : (initGenesis k gs s).registry.tokenPairs.lookup
        (p.getID k.tmhashSum).bytes = some p := by
      rw [registry_initGenesis hempty]
      exact lookup_foldl_of_mem hdistinct.ids hp
    exact ⟨hstored, hcons.denom_of_stored hstored, hcons.erc20_of_stored hstored⟩

/-- The genesis of the reference deployment. -/
theorem imported_of_validate_iff_referenceGenesis :
    Imported plainKeeper [pairA, pairE] (deployed plainEvm referenceWorld).registry := by
  have h := imported_of_validate_iff (k := plainKeeper) referenceGenesis
    (referenceState referenceWorld) rfl (by decide)
    (List.pairwise_pair.mpr fun hid => absurd hid (by decide +kernel))
  exact (h.mpr (List.pairwise_pair.mpr (by decide))).1

/-- Two pairs of one contract, whose address is spelled with and without its prefix. -/
def spelledTwice : GenesisState := ⟨⟨true, 172800000000000, true⟩, [pairA,
  ⟨"1111111111111111111111111111111111111111", "acoin", true, .OWNER_EXTERNAL⟩]⟩

/-- **Validation accepts one contract twice**, and the import leaves an index that leads to only
one of the two pairs. -/
theorem not_imported_spelledTwice :
    spelledTwice.validate = .ok () ∧
      ¬ Imported plainKeeper spelledTwice.tokenPairs
        (initGenesis plainKeeper spelledTwice (referenceState referenceWorld)).registry := by
  refine ⟨by decide, fun himported => ?_⟩
  have heq := himported.consistent.eq_of_contract
    (himported.filed pairA (List.mem_cons_self ..)).stored
    (himported.filed _ (List.mem_cons_of_mem _ (List.mem_cons_self ..))).stored (by decide)
  exact absurd (congrArg TokenPair.denom heq) (by decide)

/-! ## What the keeper can store -/

/-- Everything in the registry would pass validation, and contracts are filed by address. -/
structure Storable (r : Registry) : Prop where
  valid : ∀ {key p}, r.tokenPairs.lookup key = some p → p.validate = .ok ()
  address : ∀ {key id}, r.erc20Map.lookup key = some id → ∃ a : Address, key = a.bytes

theorem storable_emptyRegistry : Storable emptyRegistry := by
  constructor <;> simp [emptyRegistry, KVStore.lookup_empty]

private theorem address_of_setERC20Map {a : Address} {id id' : Hash} {key : List UInt8}
    (h : Storable r) (hkey : (setERC20Map a id r).erc20Map.lookup key = some id') :
    ∃ a : Address, key = a.bytes := by
  simp only [setERC20Map, KVStore.lookup_set] at hkey
  split at hkey
  · exact ⟨a, ‹_›⟩
  · exact h.address hkey

theorem storable_importPair (h : Storable r) (hp : p.validate = .ok ()) :
    Storable (importPair k r p) where
  valid hq := by
    rcases lookup_importPair hq with rfl | hq
    · exact hp
    · exact h.valid hq
  address hkey := address_of_setERC20Map (r := setDenomMap p.denom (p.getID k.tmhashSum)
    (setTokenPair k p r)) ⟨fun hq => by
      simp only [setDenomMap, setTokenPair, KVStore.lookup_set] at hq
      split at hq
      · exact Option.some.inj hq ▸ hp
      · exact h.valid hq, h.address⟩ hkey

theorem storable_setTokenPair (h : Storable r) (hp : p.validate = .ok ()) :
    Storable (setTokenPair k p r) where
  valid hq := by
    rcases lookup_setTokenPair hq with rfl | ⟨-, hq⟩
    · exact hp
    · exact h.valid hq
  address := h.address

theorem storable_movePair {old new : Address} (h : Storable r) (hp : p.validate = .ok ()) :
    Storable (movePair k p old new r) where
  valid hq := by
    rcases lookup_movePair hq with rfl | ⟨-, hq⟩
    · exact TokenPair.validate_ok_iff.mpr
        ⟨(TokenPair.validate_ok_iff.mp hp).1, isHexAddress_hex k.keccak256 new⟩
    · exact h.valid hq
  address hkey := by
    simp only [movePair, setERC20Map, deleteERC20Map, setDenomMap, setTokenPair, deleteTokenPair,
      KVStore.lookup_set, KVStore.lookup_delete] at hkey
    split at hkey
    · exact ⟨_, ‹_›⟩
    · split at hkey
      · cases hkey
      · exact h.address hkey

theorem storable_foldl {pairs : List TokenPair} (h : Storable r)
    (hpairs : ∀ p ∈ pairs, p.validate = .ok ()) :
    Storable (pairs.foldl (importPair k) r) := by
  induction pairs generalizing r with
  | nil => exact h
  | cons p rest ih =>
    exact ih (storable_importPair h (hpairs p (List.mem_cons_self ..)))
      fun q hq => hpairs q (List.mem_cons_of_mem _ hq)

/-! ### The denomination of a registered contract -/

/-- The characters of an address are those of a denomination, and there are at most 42. -/
theorem denomChars_of_isHexAddress {s : String} (h : isHexAddress s = true) :
    s.toList.all isDenomChar = true ∧ s.toList.length ≤ 42 := by
  simp only [isHexAddress, Bool.and_eq_true, beq_iff_eq] at h
  obtain ⟨hlen, hall⟩ := h
  have hdigits : ∀ cs : List Char, cs.all isHexCharacter = true → cs.all isDenomChar = true :=
    fun cs hcs => List.all_eq_true.mpr fun c hc =>
      isDenomChar_of_isHexCharacter (List.all_eq_true.mp hcs c hc)
  unfold strip0x at hlen hall
  by_cases hpre : has0xPrefix s.toList = true
  · rw [if_pos hpre] at hlen hall
    revert hpre hlen hall
    generalize s.toList = cs
    intro hlen hall hpre
    -- the prefix is made of a digit and a letter
    unfold has0xPrefix at hpre
    split at hpre
    · rename_i rest
      have hrest := hdigits rest hall
      have hlength : rest.length = 40 := hlen
      refine ⟨?_, Nat.le_of_eq (congrArg (· + 2) hlength)⟩
      rw [List.all_cons, List.all_cons, hrest]
      decide
    · rename_i rest
      have hrest := hdigits rest hall
      have hlength : rest.length = 40 := hlen
      refine ⟨?_, Nat.le_of_eq (congrArg (· + 2) hlength)⟩
      rw [List.all_cons, List.all_cons, hrest]
      decide
    · cases hpre
  · rw [if_neg hpre] at hlen hall
    exact ⟨hdigits _ hall, by omega⟩

/-- The denomination made for a contract is a valid one. -/
theorem reDnm_createDenom {s : String} (h : isHexAddress s = true) :
    reDnm (createDenom s).toList = true := by
  obtain ⟨hall, hlen⟩ := denomChars_of_isHexAddress h
  have hlist : (createDenom s).toList = 'i' :: ("ntrarelayer/".toList ++ s.toList) := by
    simp [createDenom, ModuleName, String.toList_append]
  rw [hlist]
  simp only [reDnm, List.all_append, hall, List.length_append, Bool.and_true]
  have hchars : "ntrarelayer/".toList.all isDenomChar = true ∧
      "ntrarelayer/".toList.length = 12 := by decide
  simp only [hchars.1, hchars.2, Bool.and_eq_true, decide_eq_true_eq]
  exact ⟨⟨⟨by decide, trivial⟩, by omega⟩, by omega⟩

/-! ## What a step writes -/

/-- The content of the operation was validated where it was submitted. -/
def ValidContent : Op → Prop
  | .registerCoin metadata => metadata.validate = .ok ()
  | .setParams params => params.validate = .ok ()
  | _ => True

private theorem reDnm_base_of_validate {m : Metadata} (h : m.validate = .ok ()) :
    reDnm m.base.toList = true := by
  obtain ⟨-, -, hbase, -⟩ := Metadata.validate_ok_iff.mp h
  exact validateDenom_ok_iff.mp hbase

/-- What the keeper writes can be exported. -/
theorem storable_step {s : State W} {op : Op} (hop : ValidContent op) (h : Storable s.registry) :
    Storable (step k s op).registry := by
  -- a pair that an operation rewrites was found, and what is stored is valid
  have hfound : ∀ {id p}, getTokenPair s.registry id = some p → p.validate = .ok () :=
    fun hp => h.valid (getTokenPair_eq_some_iff.mp hp).1
  cases registryStep_cases (k := k) s op with
  | untouched registry _ => rwa [registry]
  | coin m nonce heq _ registry _ =>
    subst heq
    rw [registry]
    exact storable_importPair h
      (TokenPair.validate_ok_iff.mpr ⟨reDnm_base_of_validate hop, isHexAddress_hex ..⟩)
  | erc20 contract _ _ _ registry _ =>
    rw [registry]
    exact storable_importPair h (TokenPair.validate_ok_iff.mpr
      ⟨reDnm_createDenom (isHexAddress_hex ..), isHexAddress_hex ..⟩)
  | toggled id p found registry _ =>
    rw [registry]
    -- the flag is no part of the validation
    have hvalid := TokenPair.validate_ok_iff.mp (hfound found)
    exact storable_setTokenPair h (TokenPair.validate_ok_iff.mpr hvalid)
  | moved id p old new _ _ found registry _ =>
    rw [registry]
    exact storable_movePair h (hfound found)
  | params _ registry => rwa [registry]

/-- A step leaves the parameters, or sets valid ones. -/
theorem params_step {s : State W} {op : Op} (hop : ValidContent op) :
    (step k s op).params = s.params ∨ (step k s op).params.validate = .ok () := by
  cases registryStep_cases (k := k) s op with
  | untouched _ params => exact .inl params
  | coin _ _ _ _ _ params => exact .inl params
  | erc20 _ _ _ _ _ params => exact .inl params
  | toggled _ _ _ _ params => exact .inl params
  | moved _ _ _ _ _ _ _ _ params => exact .inl params
  | params heq _ =>
    generalize (step k s op).params = params at heq ⊢
    subst heq
    exact .inr hop

/-! ## Export and import -/

/-- The state can be exported to a genesis that validates. -/
structure Exportable (s : State W) : Prop where
  storable : Storable s.registry
  params : s.params.validate = .ok ()

theorem exportable_run {gs : GenesisState} {s₀ : State W} {ops : List Op}
    (hempty : s₀.registry = emptyRegistry) (hvalid : gs.validate = .ok ())
    (hops : ∀ op ∈ ops, ValidContent op) :
    Exportable (run (step k) (initGenesis k gs s₀) ops) := by
  obtain ⟨hpairs, -, -, hparams⟩ := GenesisState.validate_ok_iff.mp hvalid
  refine run_preserves (C := fun _ op => ValidContent op) (fun s op hs hop => ?_) ⟨?_, ?_⟩
    (along_of_mem hops)
  · refine ⟨storable_step hop hs.storable, ?_⟩
    rcases params_step (k := k) (s := s) hop with hp | hp
    · rw [hp]
      exact hs.params
    · exact hp
  · rw [registry_initGenesis hempty]
    exact storable_foldl storable_emptyRegistry hpairs
  · have hset : (initGenesis k gs s₀).params = gs.params := by simp [initGenesis]
    rw [hset]
    exact hparams

/-- The exported pairs are the stored ones. -/
theorem mem_getAllTokenPairs_iff : p ∈ getAllTokenPairs r ↔ Stored r p := by
  simp only [getAllTokenPairs, List.mem_map, Prod.exists, exists_eq_right]
  exact exists_congr fun key => KVStore.mem_entries_iff

/-- The pairs of a consistent registry differ in everything. -/
theorem distinctPairs_getAllTokenPairs (h : RegistryConsistent k r) :
    DistinctPairs k (getAllTokenPairs r) := by
  have hkeys := KVStore.pairwise_entries (m := r.tokenPairs)
  -- two entries with one pair have one key, since the key is the hash of the pair
  have hfar : ∀ {x y : List UInt8 × TokenPair}, x ∈ r.tokenPairs.entries →
      y ∈ r.tokenPairs.entries → x.1 ≠ y.1 → x.2 ≠ y.2 := by
    intro x y hx hy hne heq
    have hkx := h.stored_key (KVStore.mem_entries_iff.mp hx)
    have hky := h.stored_key (KVStore.mem_entries_iff.mp hy)
    exact hne (hkx.trans (heq ▸ hky.symm))
  refine ⟨fun p hp => ?_, ?_, ?_, ?_⟩
  · obtain ⟨key, hp⟩ := mem_getAllTokenPairs_iff.mp hp
    exact h.stored_hex hp
  · refine List.pairwise_map.mpr (hkeys.imp_of_mem fun hx hy hne hd => hfar hx hy hne ?_)
    exact h.eq_of_denom (KVStore.mem_entries_iff.mp hx) (KVStore.mem_entries_iff.mp hy) hd
  · refine List.pairwise_map.mpr (hkeys.imp_of_mem fun hx hy hne hc => hfar hx hy hne ?_)
    exact h.eq_of_contract (KVStore.mem_entries_iff.mp hx) (KVStore.mem_entries_iff.mp hy) hc
  · refine List.pairwise_map.mpr (hkeys.imp_of_mem fun hx hy hne hid => ?_)
    have hkx := h.stored_key (KVStore.mem_entries_iff.mp hx)
    have hky := h.stored_key (KVStore.mem_entries_iff.mp hy)
    exact absurd (hkx.trans ((congrArg Hash.bytes hid).trans hky.symm)) hne

/-- Where one consistent registry has a pair, the other has it in the same places. -/
private theorem lookups_of_stored {r r' : Registry} (h : RegistryConsistent k r)
    (h' : RegistryConsistent k r') (hs : Storable r) (hsub : ∀ p, Stored r p → Stored r' p) :
    (∀ key p, r.tokenPairs.lookup key = some p → r'.tokenPairs.lookup key = some p) ∧
    (∀ key id, r.erc20Map.lookup key = some id → r'.erc20Map.lookup key = some id) ∧
    ∀ d id, r.denomMap.lookup d = some id → r'.denomMap.lookup d = some id := by
  have hpair : ∀ key p, r.tokenPairs.lookup key = some p →
      r'.tokenPairs.lookup key = some p := by
    intro key p hp
    obtain ⟨key', hp'⟩ := hsub p ⟨key, hp⟩
    rwa [h.stored_key hp, ← h'.stored_key hp']
  refine ⟨hpair, fun key id hkey => ?_, fun d id hd => ?_⟩
  · obtain ⟨a, rfl⟩ := hs.address hkey
    obtain ⟨p, hp, rfl⟩ := h.stored_of_erc20 hkey
    exact (h'.erc20_of_stored (hpair _ _ hp)).trans
      (congrArg some (Hash.ext (h.stored_key hp).symm))
  · obtain ⟨p, hp, rfl⟩ := h.stored_of_denom hd
    exact (h'.denom_of_stored (hpair _ _ hp)).trans
      (congrArg some (Hash.ext (h.stored_key hp).symm))

/-- **The pairs determine the registry**: two consistent registries with the same pairs have
the same indexes. -/
theorem registry_ext {r r' : Registry} (h : RegistryConsistent k r)
    (h' : RegistryConsistent k r') (hs : Storable r) (hs' : Storable r')
    (hpairs : ∀ p, Stored r p ↔ Stored r' p) : r = r' := by
  obtain ⟨hpair, herc20, hdenom⟩ := lookups_of_stored h h' hs fun p => (hpairs p).mp
  obtain ⟨hpair', herc20', hdenom'⟩ := lookups_of_stored h' h hs' fun p => (hpairs p).mpr
  have heq : r.tokenPairs = r'.tokenPairs ∧ r.erc20Map = r'.erc20Map ∧
      r.denomMap = r'.denomMap :=
    ⟨KVStore.ext_lookup fun key => Option.ext fun p => ⟨hpair key p, hpair' key p⟩,
      KVStore.ext_lookup fun key => Option.ext fun id => ⟨herc20 key id, herc20' key id⟩,
      KVStore.ext_lookup fun d => Option.ext fun id => ⟨hdenom d id, hdenom' d id⟩⟩
  cases r
  cases r'
  obtain ⟨rfl, rfl, rfl⟩ := heq
  rfl

/-- **Export and import are inverse.** What the keeper reached from a valid genesis by any
operations, and that is consistent, exports to a valid genesis whose import into an empty store
is the same registry with the same parameters, and exports to the same genesis again. -/
theorem export_import_of_run (gs : GenesisState) (s₀ s₁ : State W) (ops : List Op)
    (hempty : s₀.registry = emptyRegistry) (hvalid : gs.validate = .ok ())
    (hops : ∀ op ∈ ops, ValidContent op)
    (hcons : RegistryConsistent k (run (step k) (initGenesis k gs s₀) ops).registry)
    (hempty₁ : s₁.registry = emptyRegistry) :
    (exportGenesis (run (step k) (initGenesis k gs s₀) ops)).validate = .ok () ∧
    (initGenesis k (exportGenesis (run (step k) (initGenesis k gs s₀) ops)) s₁).registry =
      (run (step k) (initGenesis k gs s₀) ops).registry ∧
    (initGenesis k (exportGenesis (run (step k) (initGenesis k gs s₀) ops)) s₁).params =
      (run (step k) (initGenesis k gs s₀) ops).params ∧
    exportGenesis (initGenesis k (exportGenesis (run (step k) (initGenesis k gs s₀) ops)) s₁) =
      exportGenesis (run (step k) (initGenesis k gs s₀) ops) := by
  have hexp := exportable_run (k := k) hempty hvalid hops
  -- the run matters through its last state only
  revert hcons hexp
  generalize run (step k) (initGenesis k gs s₀) ops = s
  intro hcons hexp
  have hdistinct := distinctPairs_getAllTokenPairs hcons
  have hparams : (initGenesis k (exportGenesis s) s₁).params = s.params := by
    simp [initGenesis, exportGenesis]
  have hpairs : ∀ p ∈ getAllTokenPairs s.registry, p.validate = .ok () := by
    intro p hp
    obtain ⟨key, hp⟩ := mem_getAllTokenPairs_iff.mp hp
    exact hexp.storable.valid hp
  -- a consistent registry is determined by its pairs, and the export lists all of them
  have hreg : (initGenesis k (exportGenesis s) s₁).registry = s.registry := by
    refine registry_ext
      (consistent_initGenesis hempty₁ hdistinct) hcons ?_ hexp.storable fun p => ?_
    · rw [registry_initGenesis hempty₁]
      exact storable_foldl storable_emptyRegistry hpairs
    · exact (stored_initGenesis_iff hempty₁ hdistinct).trans mem_getAllTokenPairs_iff
  refine ⟨?_, hreg, hparams, ?_⟩
  -- the imported list is checked on the address texts; pairs apart in contract are apart there
  · refine GenesisState.validate_ok_iff.mpr ⟨hpairs, ?_, hdistinct.denom, hexp.params⟩
    exact hdistinct.contract.imp fun hne heq => hne (congrArg hexToAddress heq)
  · have hagain : exportGenesis (initGenesis k (exportGenesis s) s₁) =
        ⟨(initGenesis k (exportGenesis s) s₁).params,
          getAllTokenPairs (initGenesis k (exportGenesis s) s₁).registry⟩ := rfl
    rw [hagain, hreg, hparams]
    rfl

/-- A registration, a toggle and an update, exported and imported again. -/
theorem export_import_of_run_updateToFree :
    (initGenesis plainKeeper
        (exportGenesis (run (step plainKeeper) afterGenesis updateToFree))
        (referenceState referenceWorld)).registry =
      (run (step plainKeeper) afterGenesis updateToFree).registry := by
  have hcons : RegistryConsistent plainKeeper
      (run (step plainKeeper) afterGenesis updateToFree).registry := by
    refine run_preserves (C := fun s op => KeepsBijection plainKeeper s op ∧
        HashesApart plainKeeper s op) (P := fun s => RegistryConsistent plainKeeper s.registry)
      (fun s op hs hop => consistent_step hs hop.1 hop.2)
      (consistent_initGenesis rfl ⟨by simp [noPairs], .nil, .nil, .nil⟩) ?_
    exact ⟨⟨trivial, hashesApart_of_entries _ (by decide +kernel)⟩,
      ⟨trivial, hashesApart_of_entries _ (by decide +kernel)⟩,
      ⟨.inr (by decide +kernel), hashesApart_of_entries _ (by decide +kernel)⟩, trivial⟩
  exact (export_import_of_run noPairs (referenceState referenceWorld)
    (referenceState referenceWorld) updateToFree rfl (by decide)
    (by simp [updateToFree, ValidContent]) hcons rfl).2.1

end GenesisEthermint.Registry
