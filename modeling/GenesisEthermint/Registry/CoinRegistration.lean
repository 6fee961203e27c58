import GenesisEthermint.Intrarelayer.Registration
import GenesisEthermint.Registry.Bijection

/-!
# The Registration of Coins

`RegisterCoin` asks whether the coin's name is a registered denomination, and writes the pair
under its base denomination. Whether it protects what is registered is decided by how far the two
agree. Then it compares the metadata with what the bank stores, where denomination units are
compared as pointers and a stored unit is never the same pointer as a proposed one.
-/

namespace GenesisEthermint.Registry

open GenesisEthermint.Foundation GenesisEthermint.Types GenesisEthermint.Chain
open GenesisEthermint.Intrarelayer GenesisEthermint.Tokens

variable {W : Type} {k : Keeper W} {s t : State W} {m : Metadata} {p q : TokenPair}

/-! ## The duplicate check -/

/-- The pair a denomination leads to. -/
def pairOfDenom (r : Registry) (denom : String) : Option TokenPair :=
  (getDenomMap r denom).bind (getTokenPair r)

theorem pairOfDenom_eq_some_iff {r : Registry} {d : String} (h : RegistryConsistent k r) :
    pairOfDenom r d = some p ↔ Stored r p ∧ p.denom = d := by
  rw [pairOfDenom, Option.bind_eq_some_iff]
  constructor
  · rintro ⟨id, hid, hp⟩
    exact ⟨⟨id.bytes, (h.getTokenPair_eq id).symm.trans hp⟩, h.denom_of_getDenomMap hid hp⟩
  · rintro ⟨⟨key, hp⟩, rfl⟩
    exact ⟨_, h.denom_of_stored hp, h.getTokenPair_getID ⟨key, hp⟩⟩

/-- The denomination is in the index. -/
def DenomMapped (r : Registry) (d : String) : Prop := ∃ id, getDenomMap r d = some id

/-- `RegisterCoin` fails with `coin denomination already registered`. -/
def FailsRegistered (k : Keeper W) (s : State W) (m : Metadata) : Prop :=
  ∃ t, registerCoin k m s = .error (.error (errRegistered "coin denomination" m.name)) t

/-- **The promise**: a coin is refused as registered exactly if its base denomination is, and a
registration leaves every pair where it was and adds the pair of the base denomination. -/
structure RegistersSafely (k : Keeper W) (s : State W) (m : Metadata) : Prop where
  refused_iff : FailsRegistered k s m ↔ DenomMapped s.registry m.base
  registered : ∀ p t, registerCoin k m s = .ok p t →
    (∀ d q, pairOfDenom s.registry d = some q → pairOfDenom t.registry d = some q) ∧
    (∀ a q, pairOfContract s.registry a = some q → pairOfContract t.registry a = some q) ∧
    pairOfDenom t.registry m.base = some p ∧ p.contractOwner = .OWNER_MODULE

/-- The condition: the name is a registered denomination exactly if the base is, and if the
registration goes through, the address of the contract it deploys is not in the index. -/
structure RegistersFresh (k : Keeper W) (s : State W) (m : Metadata) : Prop where
  name_iff_base : DenomMapped s.registry m.name ↔ DenomMapped s.registry m.base
  contract_free : CoinRegistrable k s m →
    ∀ nonce, s.accounts k.moduleAddress.bytes = some nonce →
      getERC20Map s.registry (k.createAddress k.moduleAddress nonce) = none

/-- The other texts are told from this one by their eighth character. -/
private theorem errRegistered_ne {e : GoError} {desc detail : String}
    (h : desc.toList[7]? = some 't') :
    GoError.wrap e desc ≠ errRegistered "coin denomination" detail := by
  intro heq
  have hchar := congrArg (fun s : String => s.toList[7]?) (GoError.wrap.inj heq).2
  simp [h, String.toList_append] at hchar

/-- The check looks at the name, and no other failure has its text. -/
theorem failsRegistered_iff (hon : s.params.enableIntrarelayer = true) :
    FailsRegistered k s m ↔ DenomMapped s.registry m.name := by
  -- the lookup decides: the check for a registered denomination comes before the others
  cases hname : getDenomMap s.registry m.name with
  | some id =>
    have hreg : isDenomRegistered s.registry m.name = true := by
      refine Bool.eq_true_of_not_eq_false fun h => ?_
      rw [isDenomRegistered_eq_false_iff, hname] at h
      cases h
    refine iff_of_true ⟨s, ?_⟩ ⟨id, hname⟩
    simp only [registerCoin, Exec.get_bind, Exec.failIf_bind, hon, hreg]
    rfl
  | none =>
    have hreg := isDenomRegistered_eq_false_iff.mpr hname
    refine iff_of_false ?_ ?_
    swap
    · rintro ⟨id, hid⟩
      rw [hname] at hid
      cases hid
    rintro ⟨t, h⟩
    simp only [registerCoin, Exec.get_bind, Exec.failIf_bind, hon, hreg, not_true_eq_false,
      Bool.false_eq_true, if_false] at h
    rcases Exec.bind_error_iff.mp h with h | ⟨_, v, -, h⟩
    · -- the metadata check has a text of its own
      rcases Exec.mapError_error_iff.mp h with ⟨e, he, -⟩ | ⟨msg, he, -⟩
      · exact errRegistered_ne (by simp [String.toList_append]) (Failure.error.inj he).symm
      · cases he
    rcases Exec.bind_error_iff.mp h with h | ⟨a, v', -, h⟩
    · -- and so has the deployment
      rcases Exec.mapError_error_iff.mp h with ⟨e, he, -⟩ | ⟨msg, he, -⟩
      · exact errRegistered_ne (by simp) (Failure.error.inj he).symm
      · cases he
    -- past the deployment nothing fails
    · cases h

/-- A registration under a free denomination and a free contract takes nothing away. -/
private theorem registered_of_free (h : RegistryConsistent k s.registry)
    (hash : HashesApart k s (.registerCoin m)) (hd : getDenomMap s.registry m.base = none)
    (hok : registerCoin k m s = .ok p t)
    (ha : getERC20Map s.registry p.getERC20Contract = none) :
    (∀ d q, pairOfDenom s.registry d = some q → pairOfDenom t.registry d = some q) ∧
    (∀ a q, pairOfContract s.registry a = some q → pairOfContract t.registry a = some q) ∧
    pairOfDenom t.registry m.base = some p ∧ p.contractOwner = .OWNER_MODULE := by
  obtain ⟨-, -, ⟨nonce, hn, hp⟩, hr, -⟩ := registerCoin_ok hok
  have hhex : isHexAddress p.erc20Address = true := by
    rw [hp]
    exact isHexAddress_hex ..
  have hbase : p.denom = m.base := by rw [hp]; rfl
  have hc : NoCollision k s.registry p := hash p (by simp [writtenPair, hn, hp])
  rw [← hbase] at hd
  have ht : RegistryConsistent k t.registry := by
    rw [hr]
    exact consistent_importPair h hhex hd ha hc
  have hstored {q : TokenPair} : Stored t.registry q ↔ q = p ∨ Stored s.registry q := by
    rw [hr, registerPair_eq_importPair]
    exact stored_importPair (lookup_getID_eq_none h hhex hd hc)
  refine ⟨fun d q hq => ?_, fun a q hq => ?_, ?_, by rw [hp]; rfl⟩
  · obtain ⟨hq, hqd⟩ := (pairOfDenom_eq_some_iff h).mp hq
    exact (pairOfDenom_eq_some_iff ht).mpr ⟨hstored.mpr (.inr hq), hqd⟩
  · obtain ⟨hq, hqa⟩ := h.pairOfContract_eq_some_iff.mp hq
    exact ht.pairOfContract_eq_some_iff.mpr ⟨hstored.mpr (.inr hq), hqa⟩
  · exact (pairOfDenom_eq_some_iff ht).mpr ⟨hstored.mpr (.inl rfl), hbase⟩

/-- **When the registration of coins is safe**: exactly if the check of the name is a check of the
base denomination, and the contract it deploys has a free address. -/
theorem registersSafely_iff (h : RegistryConsistent k s.registry)
    (hon : s.params.enableIntrarelayer = true) (hash : HashesApart k s (.registerCoin m)) :
    RegistersSafely k s m ↔ RegistersFresh k s m := by
  constructor
  · rintro ⟨hrefused, hregistered⟩
    have hname := (failsRegistered_iff hon).symm.trans hrefused
    refine ⟨hname, fun hreg nonce hn => ?_⟩
    cases ha : getERC20Map s.registry (k.createAddress k.moduleAddress nonce) with
    | none => rfl
    | some id =>
      -- the pair of that contract would have to be the new one, and its denomination taken
      obtain ⟨q, hq, hqa⟩ := h.stored_of_erc20 ha
      obtain ⟨p, t, hok⟩ := registerCoin_ok_iff.mpr hreg
      have hsame := (hregistered p t hok).2.1 _ q
        (h.pairOfContract_eq_some_iff.mpr ⟨⟨_, hq⟩, hqa⟩)
      obtain ⟨-, -, ⟨nonce', hn', hp⟩, hr, -⟩ := registerCoin_ok hok
      obtain rfl := Option.some.inj (hn.symm.trans hn')
      have hpq : pairOfContract t.registry (k.createAddress k.moduleAddress nonce) = some p := by
        have hfound := (resolvable_registerPair (k := k) s.registry
          (k.createAddress k.moduleAddress nonce) m.base .OWNER_MODULE).pairOfContract
        rw [TokenPair.getERC20Contract, newTokenPair, hexToAddress_hex] at hfound
        rw [hr, hp]
        exact hfound
      obtain rfl := Option.some.inj (hpq.symm.trans hsame)
      have hden := h.denom_of_stored hq
      have hbase : DenomMapped s.registry m.base := ⟨_, by rw [hp] at hden; exact hden⟩
      obtain ⟨id', hid'⟩ := hname.mpr hbase
      rw [hreg.name_free] at hid'
      cases hid'
  · rintro ⟨hname, hcontract⟩
    refine ⟨(failsRegistered_iff hon).trans hname, fun p t hok => ?_⟩
    have hreg := registerCoin_ok_iff.mp ⟨p, t, hok⟩
    have hd : getDenomMap s.registry m.base = none := by
      cases hb : getDenomMap s.registry m.base with
      | none => rfl
      | some id =>
        obtain ⟨id', hid'⟩ := hname.mpr ⟨id, hb⟩
        rw [hreg.name_free] at hid'
        cases hid'
    refine registered_of_free h hash hd hok ?_
    obtain ⟨-, -, ⟨nonce, hn, rfl⟩, -, -⟩ := registerCoin_ok hok
    rw [TokenPair.getERC20Contract, newTokenPair, hexToAddress_hex]
    exact hcontract hreg nonce hn

/-- The metadata of the coin `acoin`, which has a pair in the deployment but no bank metadata. -/
def acoinMetadata : Metadata where
  description := "a coin"
  denomUnits := [⟨"acoin", 0, []⟩, ⟨"coin", 18, []⟩]
  base := "acoin"
  display := "coin"
  name := "A Coin"
  symbol := "ACOIN"

/-- The deployment over the plain machine. -/
abbrev plainDeployed : State TokenWorld := deployed plainEvm referenceWorld

/-- **A registered coin is registered again.** The name is not a denomination, so the proposal goes
through although `acoin` has a pair. -/
theorem not_registersSafely_acoin :
    (RegisterCoinProposal.mk "Register" "a coin" acoinMetadata).validateBasic = .ok () ∧
    RegistryConsistent plainKeeper plainDeployed.registry ∧
    ¬ RegistersSafely plainKeeper plainDeployed acoinMetadata := by
  refine ⟨by decide +kernel, consistent_deployed plainEvm referenceWorld, fun h => ?_⟩
  have hname : getDenomMap plainDeployed.registry acoinMetadata.name = none ∧
      getDenomMap plainDeployed.registry acoinMetadata.base =
        some (pairE.getID plainKeeper.tmhashSum) := by decide +kernel
  obtain ⟨id, hid⟩ := (failsRegistered_iff rfl).mp (h.refused_iff.mpr ⟨_, hname.2⟩)
  rw [hname.1] at hid
  cases hid

/-- A fresh coin, named like its base denomination. -/
def bcoinMetadata : Metadata where
  description := "a coin"
  denomUnits := [⟨"bcoin", 0, []⟩, ⟨"coin", 18, []⟩]
  base := "bcoin"
  display := "coin"
  name := "bcoin"
  symbol := "BCOIN"

theorem registersSafely_iff_bcoin : RegistersSafely plainKeeper plainDeployed bcoinMetadata := by
  have hnonce : plainDeployed.accounts plainKeeper.moduleAddress.bytes = some 0 := by
    decide +kernel
  refine (registersSafely_iff (consistent_deployed plainEvm referenceWorld) rfl
    (hashesApart_of_entries plainKeeper (by decide +kernel))).mpr ⟨Iff.rfl, fun _ nonce hn => ?_⟩
  obtain rfl := Option.some.inj (hnonce.symm.trans hn)
  decide +kernel

/-! ## The metadata check -/

/-- Two metadata that share no pointer compare equal only if they are equal and have no units. -/
theorem equalMetadata_ok_iff {a b : Metadata} :
    equalMetadata (fun _ => false) a b = .ok () ↔ a = b ∧ a.denomUnits = [] := by
  constructor
  · intro h
    rw [equalMetadata] at h
    split at h
    · rename_i hfields
      obtain ⟨hbase, hdescription, hdisplay, hname, hsymbol⟩ := hfields
      split at h
      · cases h
      · rename_i hlen
        rw [ne_eq, not_not] at hlen
        -- the first pair of units is already unequal
        cases ha : a.denomUnits with
        | nil =>
          rw [ha, List.length_nil] at hlen
          have hb := List.length_eq_zero_iff.mp hlen.symm
          refine ⟨?_, rfl⟩
          obtain ⟨_, _, _, _, _, _⟩ := a
          obtain ⟨_, _, _, _, _, _⟩ := b
          subst hbase hdescription hdisplay hname hsymbol ha hb
          rfl
        | cons u us =>
          cases hb : b.denomUnits with
          | nil =>
            rw [ha, hb] at hlen
            cases hlen
          | cons v vs =>
            rw [ha, hb, equalUnits, if_neg (by simp)] at h
            cases h
    · cases h
  · rintro ⟨rfl, hnil⟩
    rw [equalMetadata, if_pos ⟨rfl, rfl, rfl, rfl, rfl⟩, if_neg (by simp), hnil]
    rfl

/-- **The promise** for metadata: a stored one is accepted exactly if it is the proposed one, and
nothing is written; otherwise the proposed one is stored. -/
structure VerifiesExactly (s : State W) (m : Metadata) : Prop where
  stored : ∀ stored, getDenomMetaData s m.base = some stored →
    ((∃ t, verifyMetadata m s = .ok () t) ↔ stored = m) ∧ Exec.after (verifyMetadata m s) = s
  absent : getDenomMetaData s m.base = none → verifyMetadata m s = .ok () (s.setMetadata m)

/-- A coin that is not registered, and whose proposal repeats the stored metadata, can be
registered. -/
def RepeatedRegisters (k : Keeper W) (s : State W) (m : Metadata) : Prop :=
  getDenomMetaData s m.base = some m → s.params.enableIntrarelayer = true →
    ¬ DenomMapped s.registry m.name → ¬ DenomMapped s.registry m.base → Deployable k s m →
      ∃ p t, registerCoin k m s = .ok p t

/-- Nothing is written when metadata is stored already. -/
private theorem after_verifyMetadata {stored : Metadata}
    (h : getDenomMetaData s m.base = some stored) : Exec.after (verifyMetadata m s) = s := by
  have hrel : Exec.Relates (Exec.SameOn id)
      (Exec.ofExcept (equalMetadata (fun _ => false) stored m) :
        Exec GoError (State W) Unit) := Exec.relates_ofExcept _
  have hrun : verifyMetadata m s =
      Exec.ofExcept (equalMetadata (fun _ => false) stored m) s := by
    simp only [verifyMetadata, Exec.get_bind, h]
  rw [hrun]
  exact hrel s

/-- **When stored metadata is accepted**: never if it has denomination units. -/
theorem verifiesExactly_iff (k : Keeper W) (s : State W) (m : Metadata) :
    (VerifiesExactly s m ∧ RepeatedRegisters k s m) ↔
      (getDenomMetaData s m.base = some m → m.denomUnits = []) := by
  constructor
  -- the stored metadata is equal to itself, and was accepted only if it has no units
  · rintro ⟨⟨hstored, -⟩, -⟩ hm
    obtain ⟨t, hok⟩ := (hstored m hm).1.mpr rfl
    exact (equalMetadata_ok_iff.mp ((verifyMetadata_ok_iff.mp hok).1 m hm)).2
  · intro hunits
    refine ⟨⟨fun stored hs => ⟨⟨fun ⟨t, hok⟩ => ?_, ?_⟩, after_verifyMetadata hs⟩, fun hnone => ?_⟩,
      fun hm hon hname _ hdeploy => ?_⟩
    -- accepted metadata is the stored one
    · exact (equalMetadata_ok_iff.mp ((verifyMetadata_ok_iff.mp hok).1 stored hs)).1
    · rintro rfl
      refine ⟨s, verifyMetadata_ok_iff.mpr ⟨fun stored' hs' => ?_, by simp [hs]⟩⟩
      obtain rfl := Option.some.inj (hs.symm.trans hs')
      exact equalMetadata_ok_iff.mpr ⟨rfl, hunits hs⟩
    -- with nothing stored there is nothing to compare
    · refine verifyMetadata_ok_iff.mpr ⟨fun stored hs => ?_, by simp [hnone]⟩
      rw [hnone] at hs
      cases hs
    -- the repeated registration passes the comparison for the same reason
    · refine registerCoin_ok_iff.mpr ⟨hon, ?_, fun stored hs => ?_, hdeploy⟩
      · cases hn : getDenomMap s.registry m.name with
        | none => rfl
        | some id => exact absurd ⟨id, hn⟩ hname
      · obtain rfl := Option.some.inj (hm.symm.trans hs)
        exact equalMetadata_ok_iff.mpr ⟨rfl, hunits hm⟩

/-- Valid metadata has units, so a coin whose metadata the bank stores is never registered. -/
theorem registerCoin_ne_ok_of_stored {x : Unit} (hvalid : m.validate = .ok x)
    (hm : getDenomMetaData s m.base = some m) (p : TokenPair) (t : State W) :
    registerCoin k m s ≠ .ok p t := by
  intro hok
  have hreg := registerCoin_ok_iff.mp ⟨p, t, hok⟩
  have hnil := (equalMetadata_ok_iff.mp (hreg.metadata m hm)).2
  obtain ⟨u, hu, -⟩ := Metadata.exists_display_unit hvalid
  rw [hnil] at hu
  cases hu

/-- **A coin known to the bank cannot be registered.** The proposal repeats what is stored. -/
theorem not_verifiesExactly_bcoin :
    (RegisterCoinProposal.mk "Register" "a coin" bcoinMetadata).validateBasic = .ok () ∧
    getDenomMetaData (plainDeployed.setMetadata bcoinMetadata) bcoinMetadata.base =
      some bcoinMetadata ∧
    ¬ (VerifiesExactly (plainDeployed.setMetadata bcoinMetadata) bcoinMetadata ∧
      RepeatedRegisters plainKeeper (plainDeployed.setMetadata bcoinMetadata) bcoinMetadata) := by
  have hstored : getDenomMetaData (plainDeployed.setMetadata bcoinMetadata) bcoinMetadata.base =
      some bcoinMetadata := KVStore.lookup_set_self
  refine ⟨by decide +kernel, hstored, fun ⟨h, _⟩ => ?_⟩
  obtain ⟨t, hok⟩ := (h.stored _ hstored).1.mpr rfl
  have hnil := (equalMetadata_ok_iff.mp ((verifyMetadata_ok_iff.mp hok).1 _ hstored)).2
  cases hnil

end GenesisEthermint.Registry
