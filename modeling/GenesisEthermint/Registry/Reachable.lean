import GenesisEthermint.Registry.Bijection

/-!
# What Holds of Every Registry

The guards that are missing do not break everything. Whatever the operations, a pair sits under
its ID with its denomination mapped, and the contract index does not dangle. This is what an
operation on one pair can rely on in any state the chain can be in.
-/

namespace GenesisEthermint.Registry

open GenesisEthermint.Foundation GenesisEthermint.Types GenesisEthermint.Chain
open GenesisEthermint.Intrarelayer

variable {W : Type} (k : Keeper W)

/-- **Soundness of the indexes**: the table is sound, and contracts are spelled as addresses. -/
structure IndexSound (r : Registry) : Prop where
  sound : (table r).Sound (pairKeys k)
  stored_hex : ∀ {key p}, r.tokenPairs.lookup key = some p → isHexAddress p.erc20Address = true

variable {k} {r : Registry} {p q : TokenPair} {id : Hash} {a : Address}

namespace IndexSound

theorem stored_key (h : IndexSound k r) {key : List UInt8}
    (hp : r.tokenPairs.lookup key = some p) : key = (p.getID k.tmhashSum).bytes :=
  h.sound.keyed hp

/-- The denomination of a stored pair is taken. -/
theorem denom_mapped (h : IndexSound k r) {key : List UInt8}
    (hp : r.tokenPairs.lookup key = some p) : getDenomMap r p.denom ≠ none :=
  fun hnone => h.sound.byA_of_rec hp (congrArg (Option.map Hash.bytes) hnone)

/-- The contract index leads to a pair of that contract. -/
theorem stored_of_erc20 (h : IndexSound k r) (ha : getERC20Map r a = some id) :
    ∃ p, r.tokenPairs.lookup id.bytes = some p ∧ p.getERC20Contract = a :=
  h.sound.rec_of_byB (congrArg (Option.map Hash.bytes) ha)

theorem getTokenPair_eq (h : IndexSound k r) (id : Hash) :
    getTokenPair r id = r.tokenPairs.lookup id.bytes := by
  cases hp : r.tokenPairs.lookup id.bytes with
  | none => simp [getTokenPair, hp]
  | some p =>
    exact getTokenPair_eq_some_iff.mpr ⟨hp, ne_zeroPair_of_isHexAddress (h.stored_hex hp)⟩

/-- The pair a contract leads to is stored and has that contract. -/
theorem of_pairOfContract (h : IndexSound k r) (hp : pairOfContract r a = some p) :
    r.tokenPairs.lookup (p.getID k.tmhashSum).bytes = some p ∧ p.getERC20Contract = a := by
  obtain ⟨id, hid, hp⟩ := Option.bind_eq_some_iff.mp hp
  rw [h.getTokenPair_eq] at hp
  obtain ⟨q, hq, hqa⟩ := h.stored_of_erc20 hid
  obtain rfl := Option.some.inj (hp.symm.trans hq)
  exact ⟨h.stored_key hp ▸ hp, hqa⟩

/-- A contract that is mapped leads to a pair. -/
theorem exists_pairOfContract (h : IndexSound k r) (ha : getERC20Map r a = some id) :
    ∃ p, pairOfContract r a = some p := by
  obtain ⟨p, hp, -⟩ := h.stored_of_erc20 ha
  refine ⟨p, ?_⟩
  rw [pairOfContract, ha]
  exact (h.getTokenPair_eq id).trans hp

/-- Only a pair of the same contract text and denomination can sit under the key of `p`. -/
theorem of_lookup_getID (h : IndexSound k r) (hp : isHexAddress p.erc20Address = true)
    (hc : NoCollision k r p) (hq : r.tokenPairs.lookup (p.getID k.tmhashSum).bytes = some q) :
    q.erc20Address = p.erc20Address ∧ q.denom = p.denom := by
  have hid : k.tmhashSum q.idText = k.tmhashSum p.idText := Hash.ext (h.stored_key hq).symm
  exact TokenPair.idText_inj (h.stored_hex hq) hp (hc _ _ hq hid)

private theorem contract_of_lookup_getID (h : IndexSound k r)
    (hp : isHexAddress p.erc20Address = true) (hc : NoCollision k r p)
    (hq : r.tokenPairs.lookup (p.getID k.tmhashSum).bytes = some q) :
    q.getERC20Contract = p.getERC20Contract :=
  congrArg hexToAddress (h.of_lookup_getID hp hc hq).1

end IndexSound

/-! ## One write -/

theorem indexSound_importPair (h : IndexSound k r) (hp : isHexAddress p.erc20Address = true)
    (hc : NoCollision k r p) : IndexSound k (importPair k r p) := by
  refine ⟨?_, fun hq => ?_⟩
  · rw [table_importPair]
    exact h.sound.insert fun q hq => h.contract_of_lookup_getID hp hc hq
  · rcases lookup_importPair hq with rfl | hq
    · exact hp
    · exact h.stored_hex hq

theorem indexSound_setTokenPair (h : IndexSound k r) (hp : getTokenPair r id = some p)
    (ha : q.erc20Address = p.erc20Address) (hd : q.denom = p.denom) :
    IndexSound k (setTokenPair k q r) := by
  rw [h.getTokenPair_eq] at hp
  refine ⟨?_, fun hq' => ?_⟩
  · obtain ⟨hkey, hb⟩ := pairKeys_congr (k := k) ha hd
    rw [table_setTokenPair]
    exact h.sound.rewrite hp hkey hd hb
  · rcases lookup_setTokenPair hq' with rfl | ⟨-, hq'⟩
    · exact ha ▸ h.stored_hex hp
    · exact h.stored_hex hq'

/-- Which contracts are mapped after a pair moved. -/
theorem getERC20Map_movePair {old new : Address} :
    getERC20Map (movePair k p old new r) a =
      if a = new then
        some (TokenPair.getID k.tmhashSum { p with erc20Address := new.hex k.keccak256 })
      else if a = old then none else getERC20Map r a := by
  rw [movePair, getERC20Map_set, getERC20Map_delete, hexToAddress_hex]
  rfl

theorem indexSound_movePair {old new : Address} (h : IndexSound k r)
    (hold : pairOfContract r old = some p)
    (hc : NoCollision k r { p with erc20Address := new.hex k.keccak256 }) :
    IndexSound k (movePair k p old new r) := by
  obtain ⟨hp, hpo⟩ := h.of_pairOfContract hold
  refine ⟨?_, fun hq => ?_⟩
  · rw [table_movePair k r p old new hpo]
    exact h.sound.rekey hp
      (fun q hq => h.contract_of_lookup_getID (isHexAddress_hex k.keccak256 new) hc hq) rfl
  · rcases lookup_movePair hq with rfl | ⟨-, hq⟩
    · exact isHexAddress_hex k.keccak256 new
    · exact h.stored_hex hq

/-! ## Every run -/

/-- **One step keeps the indexes sound**, with no other condition than the digests. -/
theorem indexSound_step {s : State W} {op : Op} (h : IndexSound k s.registry)
    (hash : HashesApart k s op) : IndexSound k (step k s op).registry := by
  -- one case for each way a step writes the registry; no freshness is needed for soundness
  cases registryStep_cases (k := k) s op with
  | untouched registry _ => rwa [registry]
  | coin m nonce heq account registry _ =>
    subst heq
    have hc := hash _ (by rw [writtenPair, account, Option.map_some])
    rw [registry]
    exact indexSound_importPair h (isHexAddress_hex ..) hc
  | erc20 contract heq _ _ registry _ =>
    subst heq
    rw [registry]
    exact indexSound_importPair h (isHexAddress_hex ..) (hash _ rfl)
  | toggled id p found registry _ =>
    rw [registry]
    exact indexSound_setTokenPair h found rfl rfl
  | moved id p old new heq mapped found registry _ =>
    subst heq
    have hold : pairOfContract s.registry old = some p := by
      rw [pairOfContract, mapped]
      exact found
    rw [registry]
    exact indexSound_movePair h hold (hash _ (by simp [writtenPair, hold]))
  | params _ registry => rwa [registry]

theorem indexSound_run {s : State W} {ops : List Op} (h : IndexSound k s.registry)
    (hash : Along (step k) (HashesApart k) s ops) :
    IndexSound k (run (step k) s ops).registry :=
  run_preserves (P := fun s => IndexSound k s.registry) (fun _ _ => indexSound_step) h hash

theorem indexSound_emptyRegistry : IndexSound k emptyRegistry := by
  constructor
  · constructor <;> simp [table, emptyRegistry, getDenomMap, getERC20Map, KVStore.lookup_empty]
  · simp [emptyRegistry, KVStore.lookup_empty]

/-- A genesis list whose contracts are spelled as addresses and whose digests are apart. -/
structure ImportsApart (k : Keeper W) (pairs : List TokenPair) : Prop where
  hex : ∀ p ∈ pairs, isHexAddress p.erc20Address = true
  hash : pairs.Pairwise fun p q =>
    k.tmhashSum p.idText = k.tmhashSum q.idText → p.idText = q.idText

private theorem indexSound_foldl_importPair {pairs : List TokenPair} (h : IndexSound k r)
    (hpairs : ImportsApart k pairs) (hc : ∀ p ∈ pairs, NoCollision k r p) :
    IndexSound k (pairs.foldl (importPair k) r) := by
  induction pairs generalizing r with
  | nil => exact h
  | cons p rest ih =>
    obtain ⟨hhex, hph⟩ := hpairs
    rw [List.pairwise_cons] at hph
    have hin := List.mem_cons_self (a := p) (l := rest)
    refine ih (indexSound_importPair h (hhex p hin) (hc p hin))
      ⟨fun q hq => hhex q (List.mem_cons_of_mem _ hq), hph.2⟩ fun q hq key x hx hxq => ?_
    rcases lookup_importPair hx with rfl | hx
    · exact hph.1 q hq hxq
    · exact hc q (List.mem_cons_of_mem _ hq) key x hx hxq

/-- `InitGenesis` leaves sound indexes, also if the list names a contract twice. -/
theorem indexSound_initGenesis {gs : GenesisState} {s : State W}
    (hs : s.registry = emptyRegistry) (hgs : ImportsApart k gs.tokenPairs) :
    IndexSound k (initGenesis k gs s).registry := by
  have hr : (initGenesis k gs s).registry = gs.tokenPairs.foldl (importPair k) emptyRegistry := by
    simp [initGenesis, hs]
  rw [hr]
  refine indexSound_foldl_importPair indexSound_emptyRegistry hgs fun p _ key q hq => ?_
  simp [emptyRegistry, KVStore.lookup_empty] at hq

end GenesisEthermint.Registry
