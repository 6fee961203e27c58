import GenesisEthermint.Registry.Reachable
import GenesisEthermint.Registry.TokenRegistration

/-!
# Successive Updates of a Contract

An update re-keys the pair, moves its entry in the contract index, and rewrites the description
of its metadata, which is what the next update compares. So updates compose: from any registry the
chain can be in, a registered contract can be followed through any number of updates and toggles.
-/

namespace GenesisEthermint.Registry

open GenesisEthermint.Foundation GenesisEthermint.Types GenesisEthermint.Chain
open GenesisEthermint.Intrarelayer GenesisEthermint.Tokens

variable {W : Type} (k : Keeper W)

/-! ## The changes -/

/-- What happens after the registration: a toggle of any token, or an update to a new contract. -/
inductive Change where
  | toggle (token : String)
  | update (newERC20Addr : Address)

/-- The state, and the contract the pair was last moved to. -/
abbrev Tracked (W : Type) := State W × Address

/-- Deliver one change; an update starts from the contract the pair was last moved to. -/
def advance (x : Tracked W) : Change → Tracked W
  | .toggle token => (step k x.1 (.toggleRelay token), x.2)
  | .update new => (step k x.1 (.updateTokenPairERC20 x.2 new), new)

/-- The new contract is registered to no other pair, and it answers with the same details. -/
def Admissible (data : ERC20Data) (x : Tracked W) : Change → Prop
  | .toggle _ => True
  | .update new =>
    (∀ q, pairOfContract x.1.registry new = some q →
      pairOfContract x.1.registry x.2 = some q) ∧
    (∃ v, queryERC20 k new x.1 = .ok data v) ∧
    HashesApart k x.1 (.updateTokenPairERC20 x.2 new)

/-- The contracts of the updates. -/
def targets : List Change → List Address
  | [] => []
  | .toggle _ :: changes => targets changes
  | .update new :: changes => new :: targets changes

/-- The pair a token text leads to. -/
def resolve (r : Registry) (token : String) : Option TokenPair :=
  (getTokenPairID r token).bind (getTokenPair r)

/-- **The registry is up to date**: the pair of the registered contract is at its current one. Its
denomination and every spelling of the current contract lead to it and every other of the contracts
leads to nothing, it is the only record of its denomination, and the metadata is valid and names
the current contract. -/
structure UpToDate (a₀ : Address) (contracts : List Address) (p : TokenPair) (x : Tracked W) :
    Prop where
  denom : p.denom = derivedDenom k a₀
  owner : p.contractOwner = .OWNER_EXTERNAL
  contract : p.erc20Address = x.2.hex k.keccak256
  by_denom : resolve x.1.registry p.denom = some p
  by_contract : ∀ token, HexSpelling token x.2 → resolve x.1.registry token = some p
  others : ∀ a ∈ contracts, a ≠ x.2 → ∀ token, HexSpelling token a →
    resolve x.1.registry token = none
  stored : Stored x.1.registry p
  only : ∀ key q, x.1.registry.tokenPairs.lookup key = some q → q.denom = p.denom →
    key = (p.getID k.tmhashSum).bytes ∧ q = p
  metadata : ∃ m, getDenomMetaData x.1 p.denom = some m ∧ m.validate = .ok () ∧
    m.description = createDenomDescription (x.2.hex k.keccak256)

/-! ## The invariant -/

/-- The pair registered at `a₀`, at its current contract. -/
def pairAt (a₀ cur : Address) (enabled : Bool) : TokenPair where
  erc20Address := cur.hex k.keccak256
  denom := derivedDenom k a₀
  enabled := enabled
  contractOwner := .OWNER_EXTERNAL

/-- Its metadata, which the last update described. -/
def metadataAt (a₀ cur : Address) (data : ERC20Data) : Metadata :=
  { erc20Metadata (a₀.hex k.keccak256) data with
    description := createDenomDescription (cur.hex k.keccak256) }

/-- What a change relies on: sound indexes, in which the pair is found and is the only one of its
denomination, and metadata that describes it at its current contract. -/
structure Follows (a₀ : Address) (data : ERC20Data) (enabled : Bool) (x : Tracked W) :
    Prop where
  sound : IndexSound k x.1.registry
  found : Resolvable k x.1.registry (pairAt k a₀ x.2 enabled)
  only : ∀ key q, x.1.registry.tokenPairs.lookup key = some q →
    q.denom = derivedDenom k a₀ → q = pairAt k a₀ x.2 enabled
  metadata : getDenomMetaData x.1 (derivedDenom k a₀) = some (metadataAt k a₀ x.2 data)

/-- None of these contracts is mapped, except for the current one. -/
def Clear (contracts : List Address) (x : Tracked W) : Prop :=
  ∀ a ∈ contracts, a = x.2 ∨ getERC20Map x.1.registry a = none

variable {k} {a₀ new : Address} {data : ERC20Data} {enabled : Bool} {x : Tracked W}
  {contracts : List Address} {s t v : State W} {u : Unit}

theorem getERC20Contract_pairAt (cur : Address) :
    (pairAt k a₀ cur enabled).getERC20Contract = cur :=
  hexToAddress_hex ..

theorem Follows.pairOfContract (h : Follows k a₀ data enabled x) :
    pairOfContract x.1.registry x.2 = some (pairAt k a₀ x.2 enabled) := by
  have hfound := h.found.pairOfContract
  rwa [getERC20Contract_pairAt] at hfound

/-- What is followed is up to date. -/
theorem Follows.upToDate (h : Follows k a₀ data enabled x) (hclear : Clear contracts x)
    (hvalid : (erc20Metadata (a₀.hex k.keccak256) data).validate = .ok ()) :
    UpToDate k a₀ contracts (pairAt k a₀ x.2 enabled) x where
  denom := rfl
  owner := rfl
  contract := rfl
  by_denom := by
    have hid := (getTokenPairID_of_not_isHexAddress (isHexAddress_derivedDenom a₀)).trans
      h.found.denom
    show (getTokenPairID x.1.registry (derivedDenom k a₀)).bind _ = _
    rw [hid]
    exact h.found.stored
  by_contract token htoken := by
    obtain ⟨hhex, haddr⟩ := hexSpelling_iff.mp htoken
    rw [resolve, getTokenPairID_of_isHexAddress hhex, haddr]
    exact h.pairOfContract
  others a ha hne token htoken := by
    obtain ⟨hhex, haddr⟩ := hexSpelling_iff.mp htoken
    rw [resolve, getTokenPairID_of_isHexAddress hhex, haddr, (hclear a ha).resolve_left hne]
    rfl
  stored := ⟨_, (h.sound.getTokenPair_eq _).symm.trans h.found.stored⟩
  only key q hq hd := by
    obtain rfl := h.only key q hq hd
    exact ⟨h.sound.stored_key hq, rfl⟩
  metadata := ⟨_, h.metadata, hvalid, rfl⟩

/-! ## The registration -/

/-- A registered contract is followed from there. -/
theorem follows_registerERC20 (hs : IndexSound k s.registry)
    (hash : HashesApart k s (.registerERC20 a₀)) (hok : registerERC20 k a₀ s = .ok u t)
    (hq : queryERC20 k a₀ s = .ok data v) :
    Follows k a₀ data true (t, a₀) ∧
      (erc20Metadata (a₀.hex k.keccak256) data).validate = .ok () ∧
      ∀ a, getERC20Map t.registry a = if a = a₀ then
        some ((externalPair k a₀).getID k.tmhashSum) else getERC20Map s.registry a := by
  -- the registration queried the same token, from the same state
  obtain ⟨data', v', hreg, rfl⟩ := registerERC20_ok_iff.mp hok
  obtain ⟨rfl, rfl⟩ := EStateM.Result.ok.inj (hq.symm.trans hreg.answers)
  obtain ⟨hr, -⟩ := queryERC20_keeps hq
  -- the query writes no registry, so what is stored is the new pair and nothing else
  have htr : (registeredERC20 k a₀ data v).registry =
      registerPair k (externalPair k a₀) s.registry := congrArg (registerPair k _) hr
  refine ⟨⟨?_, ?_, ?_, KVStore.lookup_set_self⟩, hreg.valid, fun a => ?_⟩
  · show IndexSound k (registeredERC20 k a₀ data v).registry
    rw [htr]
    exact indexSound_importPair hs (isHexAddress_hex ..) (hash _ rfl)
  · show Resolvable k (registeredERC20 k a₀ data v).registry _
    rw [htr]
    exact resolvable_registerPair ..
  · intro key q hq' hd
    replace hq' : (importPair k s.registry (externalPair k a₀)).tokenPairs.lookup key = some q := by
      rwa [← registerPair_eq_importPair, ← htr]
    rcases lookup_importPair hq' with rfl | hq'
    · rfl
    · -- no pair of a free denomination was stored
      exact absurd (hd ▸ hreg.denom_free) (hs.denom_mapped hq')
  · rw [htr, registerPair_eq_importPair, importPair, getERC20Map_set, externalPair, newTokenPair,
      TokenPair.getERC20Contract, hexToAddress_hex]
    rfl

/-! ## One change -/

/-- **An update goes through** and is followed. -/
theorem Follows.update (h : Follows k a₀ data enabled x)
    (hvalid : (erc20Metadata (a₀.hex k.keccak256) data).validate = .ok ())
    (hop : Admissible k data x (.update new)) :
    ∃ t, updateTokenPairERC20 k x.2 new x.1 = .ok (pairAt k a₀ new enabled) t ∧
      advance k x (.update new) = (t, new) ∧ Follows k a₀ data enabled (t, new) ∧
      t.registry = movePair k (pairAt k a₀ x.2 enabled) x.2 new x.1.registry := by
  obtain ⟨-, ⟨v, hq⟩, hash⟩ := hop
  have hne := (validate_erc20Metadata_iff.mp hvalid).2.1
  -- every guard of the update holds: the pair is found, its metadata is stored as written
  have hok : updateTokenPairERC20 k x.2 new x.1 = .ok (pairAt k a₀ new enabled)
      (updatedERC20 k x.2 new (pairAt k a₀ x.2 enabled) (metadataAt k a₀ x.2 data) v) :=
    updateTokenPairERC20_ok_iff.mpr ⟨_, _, data, v, ⟨h.pairOfContract, h.metadata,
      List.cons_ne_nil _ _, hq, rfl, rfl, rfl, checkDenomUnit_erc20Metadata _ hne⟩, rfl, rfl⟩
  obtain ⟨hr, -⟩ := queryERC20_keeps hq
  have htr : (updatedERC20 k x.2 new (pairAt k a₀ x.2 enabled) (metadataAt k a₀ x.2 data)
      v).registry = movePair k (pairAt k a₀ x.2 enabled) x.2 new x.1.registry :=
    congrArg (movePair k _ _ _) hr
  -- the registry is the old one with the pair moved, which is the last field word for word
  refine ⟨_, hok, Prod.ext (Exec.deliver_of_ok (Exec.discard_of_ok hok)) rfl,
    ⟨?_, ?_, ?_, KVStore.lookup_set_self⟩, htr⟩
  · rw [htr]
    exact indexSound_movePair h.sound h.pairOfContract
      (hash _ (by simp [writtenPair, h.pairOfContract]))
  · rw [htr]
    exact resolvable_movePair ..
  · intro key q hq' hd
    rw [htr] at hq'
    rcases lookup_movePair hq' with rfl | ⟨hkey, hq'⟩
    · rfl
    · -- the only record of the denomination left its key
      obtain rfl := h.only key q hq' hd
      exact absurd (h.sound.stored_key hq') hkey

/-- A toggle flips the flag of the pair it finds, which may be this one or another. -/
theorem Follows.toggle (h : Follows k a₀ data enabled x) (token : String) :
    (∃ e, Follows k a₀ data e (advance k x (.toggle token))) ∧
      ∀ a, getERC20Map (advance k x (.toggle token)).1.registry a =
        getERC20Map x.1.registry a := by
  obtain ⟨s, cur⟩ := x
  rcases Exec.deliver_cases (Op.exec k (.toggleRelay token)) s with ⟨u, hok⟩ | hfail
  swap
  · have hsame : advance k (s, cur) (.toggle token) = (s, cur) := Prod.ext hfail rfl
    rw [hsame]
    exact ⟨⟨enabled, h⟩, fun _ => rfl⟩
  obtain ⟨p, hp⟩ := Exec.discard_ok hok
  obtain ⟨id, q, -, hq, rfl, ht⟩ := toggleRelay_ok hp
  have hstep : advance k (s, cur) (.toggle token) =
      ({ s with registry := setTokenPair k { q with enabled := !q.enabled } s.registry }, cur) :=
    Prod.ext ht rfl
  rw [hstep]
  -- only the flag differs, so the keys and both indexes are those of the stored pair
  have hsound := indexSound_setTokenPair (q := { q with enabled := !q.enabled }) h.sound hq rfl rfl
  have hlookup := (h.sound.getTokenPair_eq id).symm.trans hq
  refine ⟨?_, fun _ => rfl⟩
  -- the token resolves to some stored pair, which need not be the one that is followed
  by_cases hd : q.denom = derivedDenom k a₀
  · -- it is the pair itself, and stays the only one
    obtain rfl := h.only _ _ hlookup hd
    refine ⟨!enabled, hsound, ⟨?_, h.found.denom, h.found.contract⟩, fun key q hq' hd' => ?_,
      h.metadata⟩
    · exact getTokenPair_eq_some_iff.mpr ⟨KVStore.lookup_set_self,
        ne_zeroPair_of_isHexAddress (isHexAddress_hex ..)⟩
    · rcases lookup_setTokenPair hq' with heq | ⟨hkey, hq'⟩
      · exact heq
      · obtain rfl := h.only key q hq' hd'
        exact absurd (h.sound.stored_key hq') hkey
  · -- it is another pair, under another key
    have hkey : ((pairAt k a₀ cur enabled).getID k.tmhashSum).bytes ≠
        (q.getID k.tmhashSum).bytes := by
      intro heq
      have hstored := (h.sound.getTokenPair_eq _).symm.trans h.found.stored
      rw [heq, ← h.sound.stored_key hlookup, hlookup] at hstored
      exact hd (congrArg TokenPair.denom (Option.some.inj hstored))
    refine ⟨enabled, hsound, ⟨?_, h.found.denom, h.found.contract⟩, fun key q' hq' hd' => ?_,
      h.metadata⟩
    · rw [hsound.getTokenPair_eq]
      exact (KVStore.lookup_set_of_ne hkey).trans
        ((h.sound.getTokenPair_eq _).symm.trans h.found.stored)
    · rcases lookup_setTokenPair hq' with rfl | ⟨-, hq'⟩
      · exact absurd hd' hd
      · exact h.only key q' hq' hd'

/-! ## Every run of changes -/

/-- What is followed stays followed. -/
theorem Follows.advance (h : Follows k a₀ data enabled x)
    (hvalid : (erc20Metadata (a₀.hex k.keccak256) data).validate = .ok ()) {c : Change}
    (hop : Admissible k data x c) : ∃ e, Follows k a₀ data e (advance k x c) := by
  cases c with
  | toggle token => exact (h.toggle token).1
  | update new =>
    obtain ⟨t, -, hstep, hnext, -⟩ := h.update hvalid hop
    exact ⟨enabled, hstep ▸ hnext⟩

/-- The contract of an admissible update is the current one, or it is not mapped. -/
private theorem Follows.free_of_admissible (h : Follows k a₀ data enabled x)
    (hop : Admissible k data x (.update new)) :
    new = x.2 ∨ getERC20Map x.1.registry new = none := by
  cases hid : getERC20Map x.1.registry new with
  | none => exact .inr rfl
  | some id =>
    obtain ⟨q, hq⟩ := h.sound.exists_pairOfContract hid
    have hcur := h.sound.of_pairOfContract (hop.1 q hq)
    exact .inl ((h.sound.of_pairOfContract hq).2.symm.trans hcur.2)

/-- A contract that is free after an update, or the new one, was free before or is the old one. -/
private theorem getERC20Map_of_update (h : Follows k a₀ data enabled x)
    (hvalid : (erc20Metadata (a₀.hex k.keccak256) data).validate = .ok ())
    (hop : Admissible k data x (.update new)) (a : Address) :
    getERC20Map (Registry.advance k x (.update new)).1.registry a = none ↔
      a ≠ new ∧ (a = x.2 ∨ getERC20Map x.1.registry a = none) := by
  obtain ⟨t, -, hstep, -, hr⟩ := h.update hvalid hop
  rw [hstep, hr, getERC20Map_movePair]
  split
  · rename_i hnew
    simp [hnew]
  · rename_i hnew
    split
    · rename_i hold
      simp [hold ▸ hnew, hold]
    · rename_i hold
      simp [hnew, hold]

/-- The contracts of admissible updates are all free at the start. -/
theorem clear_of_along {changes : List Change} (h : Follows k a₀ data enabled x)
    (hvalid : (erc20Metadata (a₀.hex k.keccak256) data).validate = .ok ())
    (hops : Along (Registry.advance k) (Admissible k data) x changes) :
    Clear (targets changes) x := by
  -- on the changes, from the last one back: what is free later was free before
  induction changes generalizing x enabled with
  | nil => exact fun a ha => by cases ha
  | cons c changes ih =>
    obtain ⟨e, hnext⟩ := h.advance hvalid hops.1
    have hclear := ih hnext hops.2
    cases c with
    | toggle token =>
      intro a ha
      rw [← (h.toggle token).2 a]
      exact hclear a ha
    | update new =>
      intro a ha
      by_cases hnew : a = new
      · exact hnew ▸ h.free_of_admissible hops.1
      · -- what is free after the update was free before, or is the old contract
        have hin := (List.mem_cons.mp ha).resolve_left hnew
        exact ((getERC20Map_of_update h hvalid hops.1 a).mp ((hclear a hin).resolve_left hnew)).2

/-- **One change** keeps the pair followed and the other contracts free. -/
theorem follows_advance {x : Tracked W}
    (hvalid : (erc20Metadata (a₀.hex k.keccak256) data).validate = .ok ()) {c : Change}
    (hx : (∃ e, Follows k a₀ data e x) ∧ Clear contracts x) (hop : Admissible k data x c) :
    (∃ e, Follows k a₀ data e (advance k x c)) ∧ Clear contracts (advance k x c) := by
  obtain ⟨⟨enabled, h⟩, hclear⟩ := hx
  refine ⟨h.advance hvalid hop, fun a ha => ?_⟩
  cases c with
  | toggle token =>
    rw [(h.toggle token).2 a]
    exact hclear a ha
  | update new =>
    by_cases hnew : a = new
    · exact .inl hnew
    · exact .inr ((getERC20Map_of_update h hvalid hop a).mpr ⟨hnew, hclear a ha⟩)

/-- **Successive updates compose.** A contract is registered in any state of the chain, and then
tokens are toggled and the pair is updated to contracts that answer with the same details, none of
them registered to another pair at the time. At every point the registry is up to date, and the
next update goes through and changes nothing of the pair but its contract. -/
theorem updates_compose {gs : GenesisState} {s₀ : State W} {ops : List Op} {changes : List Change}
    (hempty : s₀.registry = emptyRegistry) (hgs : ImportsApart k gs.tokenPairs)
    (hash : Along (step k) (HashesApart k) (initGenesis k gs s₀) (ops ++ [.registerERC20 a₀]))
    (hok : registerERC20 k a₀ (run (step k) (initGenesis k gs s₀) ops) = .ok u t)
    (hq : queryERC20 k a₀ (run (step k) (initGenesis k gs s₀) ops) = .ok data v)
    (hchanges : Along (advance k) (Admissible k data) (t, a₀) changes)
    (before after : List Change) (hsplit : changes = before ++ after) :
    ∃ p, UpToDate k a₀ (a₀ :: targets changes) p (run (advance k) (t, a₀) before) ∧
      ∀ new rest, after = .update new :: rest → ∃ t',
        updateTokenPairERC20 k (run (advance k) (t, a₀) before).2 new
          (run (advance k) (t, a₀) before).1 =
          .ok { p with erc20Address := new.hex k.keccak256 } t' ∧
        run (advance k) (t, a₀) (before ++ [.update new]) = (t', new) ∧
        UpToDate k a₀ (a₀ :: targets changes) { p with erc20Address := new.hex k.keccak256 }
          (t', new) := by
  -- the run up to the registration gives a sound registry, and the registration the first step
  obtain ⟨hhash, hreg, -⟩ := along_append.mp hash
  obtain ⟨hstart, hvalid, -⟩ := follows_registerERC20
    (indexSound_run (indexSound_initGenesis hempty hgs) hhash) hreg hok hq
  -- no target was registered at the start: a later change would have been refused there
  have hclear : Clear (a₀ :: targets changes) (t, a₀) := by
    intro a ha
    rcases List.mem_cons.mp ha with rfl | ha
    · exact .inl rfl
    · exact clear_of_along hstart hvalid hchanges a ha
  subst hsplit
  obtain ⟨hbefore, hafter⟩ := along_append.mp hchanges
  -- what the changes before this point keep
  have hmid := run_preserves (P := fun x => (∃ e, Follows k a₀ data e x) ∧
    Clear (a₀ :: targets (before ++ after)) x) (fun _ _ => follows_advance hvalid)
    ⟨⟨true, hstart⟩, hclear⟩ hbefore
  obtain ⟨⟨enabled, h⟩, hfree⟩ := hmid
  refine ⟨_, h.upToDate hfree hvalid, fun new rest hrest => ?_⟩
  subst hrest
  obtain ⟨t', hup, hstep, hnext, -⟩ := h.update hvalid hafter.1
  -- the next update starts from that state, and its own admissibility is the head of `hafter`
  have hfree' := (follows_advance hvalid ⟨⟨enabled, h⟩, hfree⟩ hafter.1).2
  rw [hstep] at hfree'
  refine ⟨t', hup, ?_, hnext.upToDate hfree' hvalid⟩
  rw [run_append]
  exact hstep

/-- There and back again. -/
def thereAndBack : List Change :=
  [.update tokenB, .toggle "intrarelayer/0x1111111111111111111111111111111111111111",
    .update tokenA]

private theorem admissible_of_check {x : Tracked TokenWorld}
    (h : (decide (pairOfContract x.1.registry new = none ∨
        pairOfContract x.1.registry new = pairOfContract x.1.registry x.2) &&
      (queryERC20 plainKeeper new).returns x.1 data &&
      (writtenPair plainKeeper x.1 (.updateTokenPairERC20 x.2 new)).all (fun p =>
        x.1.registry.tokenPairs.entries.all fun e =>
          plainKeeper.tmhashSum e.2.idText ≠ plainKeeper.tmhashSum p.idText ∨
            e.2.idText = p.idText)) = true) : Admissible plainKeeper data x (.update new) := by
  simp only [Bool.and_eq_true] at h
  obtain ⟨⟨hfree, hq⟩, hash⟩ := h
  refine ⟨fun q hnew => ?_, Exec.exists_ok_of_returns hq, hashesApart_of_entries _ hash⟩
  rcases of_decide_eq_true hfree with hnone | hsame
  · rw [hnone] at hnew
    cases hnew
  · exact hsame ▸ hnew

theorem updates_compose_thereAndBack : ∃ p, UpToDate plainKeeper tokenA
    [tokenA, tokenB, tokenA] p (run (advance plainKeeper)
      (step plainKeeper afterGenesis (.registerERC20 tokenA), tokenA) thereAndBack) := by
  obtain ⟨t, hok⟩ := Exec.exists_ok (by decide +kernel :
    (registerERC20 plainKeeper tokenA).succeeds afterGenesis = true)
  obtain ⟨v, hq⟩ := Exec.exists_ok_of_returns (by decide +kernel :
    (queryERC20 plainKeeper tokenA).returns afterGenesis ⟨"coin", "symbol", 18⟩ = true)
  have ht : step plainKeeper afterGenesis (.registerERC20 tokenA) = t := Exec.deliver_of_ok hok
  rw [ht]
  have hadm : Along (advance plainKeeper) (Admissible plainKeeper ⟨"coin", "symbol", 18⟩)
      (t, tokenA) thereAndBack := by
    rw [← ht]
    exact ⟨admissible_of_check (by decide +kernel), trivial,
      admissible_of_check (by decide +kernel), trivial⟩
  have hgs : ImportsApart plainKeeper noPairs.tokenPairs := ⟨by simp [noPairs], by simp [noPairs]⟩
  have hash : Along (step plainKeeper) (HashesApart plainKeeper)
      (initGenesis plainKeeper noPairs (referenceState referenceWorld))
      ([] ++ [.registerERC20 tokenA]) := ⟨hashesApart_of_entries _ (by decide +kernel), trivial⟩
  obtain ⟨p, hp, -⟩ := updates_compose rfl hgs hash hok hq hadm thereAndBack [] rfl
  exact ⟨p, hp⟩

end GenesisEthermint.Registry
