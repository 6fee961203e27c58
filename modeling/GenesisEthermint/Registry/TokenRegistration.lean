import GenesisEthermint.Intrarelayer.Registration
import GenesisEthermint.Registry.Genesis

/-!
# The Registration of Tokens

The metadata of a registered contract is built from three answers of the contract: a base unit with
exponent 0, and a unit of the token's name with its decimals. The bank wants the exponents to
ascend, so whatever the contract is called, it can be registered exactly if it has decimals at all.
-/

namespace GenesisEthermint.Registry

open GenesisEthermint.Foundation GenesisEthermint.Types GenesisEthermint.Chain
open GenesisEthermint.Intrarelayer GenesisEthermint.Tokens

variable {W : Type} {k : Keeper W} {s t : State W} {contract : Address} {data : ERC20Data}

/-! ## The derived denomination -/

private theorem toList_derivedDenom (a : Address) : (derivedDenom k a).toList =
    'i' :: ("ntrarelayer/".toList ++ (a.hex k.keccak256).toList) := by
  simp [derivedDenom, createDenom, ModuleName, String.toList_append]

/-- The derived denomination is a denomination. -/
theorem reDnm_derivedDenom (a : Address) : reDnm (derivedDenom k a).toList = true :=
  reDnm_createDenom (isHexAddress_hex ..)

/-- The derived denomination is not taken for an address. -/
theorem isHexAddress_derivedDenom (a : Address) : isHexAddress (derivedDenom k a) = false := by
  refine Bool.eq_false_iff.mpr fun h => ?_
  have hall := (isHexAddress_iff.mp h).2
  have hstrip : strip0x (derivedDenom k a).toList = (derivedDenom k a).toList := by
    rw [toList_derivedDenom]
    rfl
  rw [hstrip, toList_derivedDenom, List.all_cons, Bool.and_eq_true] at hall
  exact absurd hall.1 (by decide)

/-! ## The metadata of a contract -/

/-- A unit without aliases is valid if its denomination is. -/
private theorem validate_unit {d : String} {exponent : ℕ} :
    (DenomUnit.mk d exponent []).validate = .ok () ↔ reDnm d.toList = true := by
  rw [DenomUnit.validate, except_bind_ok_iff]
  simp only [prefixed_ok_iff, validateDenom_ok_iff, validateAliases]
  exact ⟨fun ⟨_, h, _⟩ => h, fun h => ⟨(), h, trivial⟩⟩

/-- **Which answers make valid metadata**: a name that is a denomination other than the derived one,
a symbol that is not blank, and decimals other than zero. -/
theorem validate_erc20Metadata_iff : (erc20Metadata (contract.hex k.keccak256) data).validate =
      .ok () ↔ reDnm data.name.toList = true ∧ data.name ≠ derivedDenom k contract ∧
        isBlank data.symbol = false ∧ data.decimals ≠ 0 := by
  have hd := reDnm_derivedDenom (k := k) contract
  have hbase : createDenom (contract.hex k.keccak256) = derivedDenom k contract := rfl
  have hink := isBlank_of_reDnm hd
  rw [Metadata.validate_ok_iff, validateDenom_ok_iff, validateDenom_ok_iff]
  constructor
  -- the scan met two units: the second exponent is above the first, its name is new
  · rintro ⟨-, hsymbol, -, hname, sc, hscan, -⟩
    rw [erc20Metadata, List.foldlM_cons] at hscan
    obtain ⟨sc₁, hfirst, hscan⟩ := except_bind_ok_iff.mp hscan
    rw [List.foldlM_cons] at hscan
    obtain ⟨sc₂, hsecond, -⟩ := except_bind_ok_iff.mp hscan
    obtain ⟨-, -, -, -, rfl⟩ := scanUnit_ok_iff.mp hfirst
    obtain ⟨-, hlt, hnew, -, -⟩ := scanUnit_ok_iff.mp hsecond
    exact ⟨hname, fun heq => hnew (heq ▸ List.mem_cons_self ..), hsymbol,
      Nat.pos_iff_ne_zero.mp (hlt rfl)⟩
  · rintro ⟨hname, hne, hsymbol, hzero⟩
    -- the base unit, at exponent 0
    have hfirst : scanUnit (erc20Metadata (contract.hex k.keccak256) data) ⟨true, 0, [], false⟩
        ⟨derivedDenom k contract, 0, []⟩ =
        .ok ⟨false, 0, [derivedDenom k contract], derivedDenom k contract == data.name⟩ :=
      scanUnit_ok_iff.mpr ⟨fun _ => ⟨rfl, rfl⟩, fun h => (by cases h), List.not_mem_nil,
        validate_unit.mpr hd, rfl⟩
    -- the display unit: it is the name of the token, which `display` asks for
    have hsecond : scanUnit (erc20Metadata (contract.hex k.keccak256) data)
        ⟨false, 0, [derivedDenom k contract], derivedDenom k contract == data.name⟩
        ⟨data.name, data.decimals, []⟩ =
        .ok ⟨false, data.decimals, [data.name, derivedDenom k contract],
          derivedDenom k contract == data.name || data.name == data.name⟩ :=
      scanUnit_ok_iff.mpr ⟨fun h => (by cases h), fun _ => Nat.pos_of_ne_zero hzero,
        fun h => hne (List.mem_singleton.mp h), validate_unit.mpr hname, rfl⟩
    refine ⟨hink, hsymbol, hd, hname, ⟨false, data.decimals, [data.name, derivedDenom k contract],
      derivedDenom k contract == data.name || data.name == data.name⟩, ?_, by simp⟩
    rw [erc20Metadata, List.foldlM_cons]
    refine except_bind_ok_iff.mpr ⟨_, hfirst, ?_⟩
    rw [List.foldlM_cons]
    exact except_bind_ok_iff.mpr ⟨_, hsecond, rfl⟩

/-! ## Which contracts are accepted -/

/-- A contract that is not registered, nor its derived denomination, while the module is on. -/
structure Unregistered (k : Keeper W) (s : State W) (contract : Address) : Prop where
  enabled : s.params.enableIntrarelayer = true
  contract_free : getERC20Map s.registry contract = none
  metadata_free : getDenomMetaData s (derivedDenom k contract) = none
  denom_free : getDenomMap s.registry (derivedDenom k contract) = none

/-- A contract that conforms: a name that is a denomination other than the derived one, a symbol
that is not blank, and any decimals. -/
structure ConformingContract (k : Keeper W) (s : State W) (contract : Address) (data : ERC20Data) :
    Prop where
  answers : ∃ v, queryERC20 k contract s = .ok data v
  name : reDnm data.name.toList = true
  name_ne : data.name ≠ derivedDenom k contract
  symbol : isBlank data.symbol = false

/-- A later state in which the contract still has its pair, enabled or not, and the metadata is as
the registration left it. -/
structure StillRegistered (k : Keeper W) (t t' : State W) (contract : Address) : Prop where
  pair : ∃ q, pairOfContract t'.registry contract = some q ∧ q.denom = derivedDenom k contract
  metadata : getDenomMetaData t' (derivedDenom k contract) =
    getDenomMetaData t (derivedDenom k contract)

/-- **The promise**: the contract is registered, its metadata is valid, and the pair can later be
moved to any free contract with the same answers. -/
def Accepted (k : Keeper W) (s : State W) (contract : Address) (data : ERC20Data) : Prop :=
  ∃ t, registerERC20 k contract s = .ok () t ∧
    (∃ m, getDenomMetaData t (derivedDenom k contract) = some m ∧ m.validate = .ok ()) ∧
    ∀ t' new, StillRegistered k t t' contract → getERC20Map t'.registry new = none →
      (∃ v, queryERC20 k new t' = .ok data v) →
        ∃ p u, updateTokenPairERC20 k contract new t' = .ok p u

/-- The unit of the token's name is found behind the base unit. -/
theorem checkDenomUnit_erc20Metadata (q : TokenPair) (hne : data.name ≠ derivedDenom k contract) :
    checkDenomUnit q data (erc20Metadata (contract.hex k.keccak256) data).denomUnits = .ok () := by
  have hbase : createDenom (contract.hex k.keccak256) ≠ data.name := hne.symm
  show checkDenomUnit q data [⟨createDenom (contract.hex k.keccak256), 0, []⟩,
    ⟨data.name, data.decimals, []⟩] = .ok ()
  rw [checkDenomUnit, if_pos hbase, checkDenomUnit, if_neg (not_not.mpr rfl),
    if_neg (not_not.mpr rfl)]

/-- **Which conforming contracts are accepted**: exactly those with decimals. -/
theorem accepted_iff (hfree : Unregistered k s contract)
    (hconf : ConformingContract k s contract data) :
    Accepted k s contract data ↔ data.decimals ≠ 0 := by
  obtain ⟨v, hq⟩ := hconf.answers
  constructor
  -- the registration succeeded with the data that the contract answers
  · rintro ⟨t, hok, -, -⟩
    obtain ⟨data', v', hreg, -⟩ := registerERC20_ok_iff.mp hok
    obtain ⟨rfl, -⟩ := EStateM.Result.ok.inj (hq.symm.trans hreg.answers)
    exact (validate_erc20Metadata_iff.mp hreg.valid).2.2.2
  · intro hzero
    have hvalid : (erc20Metadata (contract.hex k.keccak256) data).validate = .ok () :=
      validate_erc20Metadata_iff.mpr ⟨hconf.name, hconf.name_ne, hconf.symbol, hzero⟩
    have hstored : getDenomMetaData (registeredERC20 k contract data v) (derivedDenom k contract) =
        some (erc20Metadata (contract.hex k.keccak256) data) := KVStore.lookup_set_self
    refine ⟨_, registerERC20_ok_iff.mpr ⟨data, v, ⟨hfree.enabled, hfree.contract_free,
      hfree.metadata_free, hfree.denom_free, hq, hvalid⟩, rfl⟩, ⟨_, hstored, hvalid⟩, ?_⟩
    -- a later update finds the metadata that the registration stored
    rintro t' new ⟨⟨q, hfound, hqd⟩, hmeta⟩ - ⟨v', hq'⟩
    exact ⟨_, _, updateTokenPairERC20_ok_iff.mpr ⟨q, _, data, v',
      ⟨hfound, hqd ▸ hmeta.trans hstored, List.cons_ne_nil _ _, hq', rfl, rfl, rfl,
        checkDenomUnit_erc20Metadata q hconf.name_ne⟩, rfl, rfl⟩⟩

/-! ## Two tokens -/

/-- The third party's token, with these decimals. -/
def worldWithDecimals (decimals : ℕ) : TokenWorld := fun a =>
  if a = tokenA then some { thirdPartyToken [(alice, 60)] (by decide) with decimals := decimals }
  else none

/-- The deployment with that token, before any registration. -/
def tokenDeployment (decimals : ℕ) : State TokenWorld :=
  initGenesis plainKeeper noPairs (referenceState (worldWithDecimals decimals))

private theorem conforming_tokenA (decimals : ℕ)
    (h : (queryERC20 plainKeeper tokenA).returns (tokenDeployment decimals)
      ⟨"coin", "symbol", decimals⟩ = true) :
    Unregistered plainKeeper (tokenDeployment decimals) tokenA ∧
      ConformingContract plainKeeper (tokenDeployment decimals) tokenA
        ⟨"coin", "symbol", decimals⟩ := by
  refine ⟨⟨rfl, KVStore.lookup_empty, KVStore.lookup_empty, KVStore.lookup_empty⟩, ?_⟩
  refine ⟨Exec.exists_ok_of_returns h, (show reDnm "coin".toList = true by decide), ?_,
    (show isBlank "symbol" = false by decide)⟩
  show "coin" ≠ derivedDenom plainKeeper tokenA
  decide +kernel

theorem accepted_iff_eightDecimals :
    Accepted plainKeeper (tokenDeployment 8) tokenA ⟨"coin", "symbol", 8⟩ := by
  obtain ⟨hfree, hconf⟩ := conforming_tokenA 8 (by decide +kernel)
  exact (accepted_iff hfree hconf).mpr (by decide)

/-- **A token without decimals is refused**, although it conforms. -/
theorem not_accepted_zeroDecimals :
    Unregistered plainKeeper (tokenDeployment 0) tokenA ∧
    ConformingContract plainKeeper (tokenDeployment 0) tokenA ⟨"coin", "symbol", 0⟩ ∧
    ¬ Accepted plainKeeper (tokenDeployment 0) tokenA ⟨"coin", "symbol", 0⟩ := by
  obtain ⟨hfree, hconf⟩ := conforming_tokenA 0 (by decide +kernel)
  refine ⟨hfree, hconf, fun ⟨t, hok, _, _⟩ => ?_⟩
  obtain ⟨data, v, hreg, -⟩ := registerERC20_ok_iff.mp hok
  obtain ⟨v', hq⟩ := hconf.answers
  obtain ⟨rfl, -⟩ := EStateM.Result.ok.inj (hq.symm.trans hreg.answers)
  exact (validate_erc20Metadata_iff.mp hreg.valid).2.2.2 rfl

end GenesisEthermint.Registry
