import GenesisEthermint.Registry.CoinRegistration
import GenesisEthermint.Types.Grammar

/-!
# The Details of a Deployed Token

The keeper deploys one bytecode for every coin and passes its constructor two arguments, the name
and the symbol. What the contract answers to `decimals()` is in the bytecode. So the token of a coin
has the coin's name and symbol, and shows the coin's amounts right exactly if the coin is displayed
with the decimals of the preset.
-/

namespace GenesisEthermint.Tokens

open GenesisEthermint.Foundation GenesisEthermint.Types GenesisEthermint.Chain
open GenesisEthermint.Intrarelayer GenesisEthermint.Registry

variable {W : Type} {k : Keeper W} {s t : State W} {c : Address}

/-! ## Strings over the wire -/

/-- A text that Go can hold: its characters are bytes, and it fits in memory with its header. -/
structure GoString (text : String) : Prop where
  bytes : ∀ c ∈ text.toList, c.toNat < 256
  size : text.toList.length + 64 < 2 ^ 63

private theorem goString_of_all {text : String}
    (hbytes : text.toList.all (fun c => c.toNat < 256) = true)
    (hsize : text.toList.length + 64 < 2 ^ 63) : GoString text := by
  refine ⟨fun c hc => ?_, hsize⟩
  exact of_decide_eq_true (List.all_eq_true.mp hbytes c hc)

private theorem bytesString_bytes {cs : List Char} (h : ∀ c ∈ cs, c.toNat < 256) :
    bytesString (cs.map fun c => UInt8.ofNat c.toNat) = String.ofList cs := by
  rw [bytesString, List.map_map]
  congr 1
  refine (List.map_congr_left fun c hc => ?_).trans (List.map_id cs)
  have hbyte : (UInt8.ofNat c.toNat).toNat = c.toNat := UInt8.toNat_ofNat_of_lt (h c hc)
  rw [Function.comp_apply, hbyte, Char.ofNat_toNat]
  rfl

/-- Whole words of output begin with their first word. -/
private theorem methodOutput_word_append {n : ℕ} {rest : List UInt8}
    (h : (word n ++ rest).length % 32 = 0) : methodOutput (word n ++ rest) = .ok (word n) := by
  have hlen : (word n ++ rest).length = 32 + rest.length := by
    rw [List.length_append, length_word]
  rw [methodOutput, if_neg (by omega), firstWord, if_neg (by omega), if_neg (by omega),
    List.take_left' (length_word n)]

/-- A text is read back from its encoding. -/
theorem unpackString_encodeString {text : String} (h : GoString text) :
    unpackString (encodeString text) = .ok text := by
  obtain ⟨hbytes, hsize⟩ := h
  have hn : (text.toList.map fun c => UInt8.ofNat c.toNat).length = text.toList.length :=
    List.length_map ..
  have hread := bytesString_bytes hbytes
  rw [String.ofList_toList] at hread
  unfold encodeString
  dsimp only
  generalize text.toList.map (fun c => UInt8.ofNat c.toNat) = bytes at hn hread
  generalize hpad : List.replicate ((32 - bytes.length % 32) % 32) (0 : UInt8) = pad
  have hpadlen : pad.length = (32 - bytes.length % 32) % 32 := by
    rw [← hpad, List.length_replicate]
  -- the offset word, the length word, and the bytes with their padding
  have hret : word 32 ++ word bytes.length ++ bytes ++ pad =
      word 32 ++ (word bytes.length ++ (bytes ++ pad)) := by
    simp only [List.append_assoc]
  have hlen : (word 32 ++ (word bytes.length ++ (bytes ++ pad))).length =
      64 + bytes.length + pad.length := by
    simp only [List.length_append, length_word]
    omega
  have hoffset : beNat (word 32) = 32 := beNat_word (by decide)
  have hlength : beNat (word bytes.length) = bytes.length := beNat_word (by omega)
  have hword : ((word 32 ++ (word bytes.length ++ (bytes ++ pad))).drop 32).take 32 =
      word bytes.length := by
    rw [List.drop_left' (length_word 32), List.take_left' (length_word _)]
  have hdata : ((word 32 ++ (word bytes.length ++ (bytes ++ pad))).drop 64).take bytes.length =
      bytes := by
    rw [← List.append_assoc, List.drop_left' (by simp only [List.length_append, length_word]),
      List.take_left' rfl]
  rw [hret, unpackString, methodOutput_word_append (by omega)]
  simp only [bind, Except.bind, hoffset, hword, hlength, hlen, rejectIf, pure, Except.pure]
  rw [if_neg (by omega)]
  dsimp only
  rw [if_neg (by omega)]
  dsimp only
  rw [if_neg (by omega)]
  simp only [hdata, hread]

/-- A `uint8` is read back from its word. -/
theorem unpackUint8_word {n : ℕ} (h : n < 256) : unpackUint8 (word n) = .ok n := by
  have hlen : (word n ++ []).length % 32 = 0 := by rw [List.append_nil, length_word]
  have hout := methodOutput_word_append hlen
  rw [List.append_nil] at hout
  rw [unpackUint8, hout]
  have hword : beNat (word n) = n := beNat_word (lt_trans h (by decide))
  simp only [bind, Except.bind, hword, Nat.mod_eq_of_lt h]

/-! ## Querying a token -/

section Query

variable {token : W → OzToken} {Sound : W → Prop} {nonce : ℕ}

/-- A view call of the module is answered from the token's storage. -/
private theorem callEVM_view (hoz : OzContract k c token Sound) (hans : Answers k c Sound)
    (method : Method) (data : OzToken → List UInt8) (hne : method ≠ .approve)
    (hpack : erc20Burnable.pack method [] = .ok (.call method []))
    (hexec : ∀ t : OzToken, t.exec c k.moduleAddress method [] = some ⟨t, data t, []⟩)
    (hs : Sound s.evm) (hn : s.accounts k.moduleAddress.bytes = some nonce) :
    ∃ t, callEVM k erc20Burnable k.moduleAddress c method [] s = .ok (data (token s.evm)) t ∧
      Sound t.evm ∧ token t.evm = token s.evm ∧
      t.accounts k.moduleAddress.bytes = some (nonce + 1) := by
  obtain ⟨res, happ⟩ := @hans _ _ _ _ method [] hs hn
  obtain ⟨hsound, hres⟩ := hoz.called hs (fun _ => hne) happ
  rcases hres with ⟨-, hnone⟩ | ⟨r, hr, hf, htoken, hret, -⟩
  · rw [hexec] at hnone
    cases hnone
  · rw [hexec] at hr
    obtain rfl := Option.some.inj hr
    refine ⟨_, (callEVM_ok_iff hpack).mpr ⟨res, ⟨nonce, hn, happ, rfl⟩, hf, hret.symm⟩, hsound,
      htoken, Function.update_self ..⟩

/-- **The details of an OpenZeppelin token** are what its storage says. -/
theorem queryERC20_of_ozContract (hoz : OzContract k c token Sound) (hans : Answers k c Sound)
    (hs : Sound s.evm) (hn : s.accounts k.moduleAddress.bytes = some nonce)
    (hname : GoString (token s.evm).name) (hsymbol : GoString (token s.evm).symbol)
    (hdecimals : (token s.evm).decimals < 256) :
    ∃ t, queryERC20 k c s =
      .ok ⟨(token s.evm).name, (token s.evm).symbol, (token s.evm).decimals⟩ t := by
  obtain ⟨v₁, h₁, hs₁, ht₁, hn₁⟩ := callEVM_view hoz hans .name
    (fun t => encodeString t.name) (by decide) rfl (fun _ => rfl) hs hn
  obtain ⟨v₂, h₂, hs₂, ht₂, hn₂⟩ := callEVM_view hoz hans .symbol
    (fun t => encodeString t.symbol) (by decide) rfl (fun _ => rfl) hs₁ hn₁
  obtain ⟨v₃, h₃, -, -, -⟩ := callEVM_view hoz hans .decimals
    (fun t => word t.decimals) (by decide) rfl (fun _ => rfl) hs₂ hn₂
  rw [ht₁] at h₂ ht₂
  rw [ht₂] at h₃
  refine ⟨v₃, ?_⟩
  simp only [queryERC20, unpackField, Exec.bind_ok_iff, Exec.mapError_ok_iff,
    Exec.ofExcept_ok_iff, Exec.pure_ok_iff]
  exact ⟨_, v₁, h₁, _, v₁, ⟨unpackString_encodeString hname, rfl⟩, _, v₂, h₂, _, v₂,
    ⟨unpackString_encodeString hsymbol, rfl⟩, _, v₃, h₃, _, v₃,
    ⟨unpackUint8_word hdecimals, rfl⟩, rfl, rfl⟩

end Query

/-! ## The preset -/

/-- **What the embedded bytecode does**: with two constructor arguments it deploys an OpenZeppelin
token of that name and symbol, whose `decimals()` is 18. -/
structure DeploysPreset (k : Keeper W) (token : Address → W → OzToken)
    (Sound : Address → W → Prop) : Prop where
  created : ∀ {w accounts sender nonce name symbol res},
    k.evm.applyMessage w accounts ⟨sender, none, nonce, .create name symbol⟩ = .ok res →
    res.failed = false → accounts sender.bytes = some nonce →
      Sound (k.createAddress sender nonce) res.world ∧
      (token (k.createAddress sender nonce) res.world).name = name ∧
      (token (k.createAddress sender nonce) res.world).symbol = symbol ∧
      (token (k.createAddress sender nonce) res.world).decimals = 18
  conforms : ∀ a, OzContract k a (token a) (Sound a)
  answers : ∀ a, Answers k a (Sound a)

/-- The deployed token carries the coin's details: its name, its symbol, and the exponent of the
unit it is displayed in. -/
def CarriesDetails (k : Keeper W) (t : State W) (contract : Address) (m : Metadata) : Prop :=
  ∃ data v, queryERC20 k contract t = .ok data v ∧ data.name = m.name ∧ data.symbol = m.symbol ∧
    ∀ u ∈ m.denomUnits, u.denom = m.display → data.decimals = u.exponent

/-- **What the contract of a registered coin answers.** -/
theorem queryERC20_registered {token : Address → W → OzToken} {Sound : Address → W → Prop}
    (hpreset : DeploysPreset k token Sound) {m : Metadata} (hname : GoString m.name)
    (hsymbol : GoString m.symbol) {p : TokenPair} (hok : registerCoin k m s = .ok p t) :
    ∃ v, queryERC20 k p.getERC20Contract t = .ok ⟨m.name, m.symbol, 18⟩ v := by
  obtain ⟨nonce, res, hn, rfl, happ, hf, hevm, hnext⟩ := registerCoin_deployed hok
  obtain ⟨hsound, htn, hts, htd⟩ := hpreset.created happ hf hn
  rw [← hevm] at hsound htn hts htd
  obtain ⟨v, hq⟩ := queryERC20_of_ozContract (hpreset.conforms _) (hpreset.answers _) hsound hnext
    (by rwa [htn]) (by rwa [hts]) (by rw [htd]; decide)
  rw [htn, hts, htd] at hq
  rw [TokenPair.getERC20Contract, newTokenPair, hexToAddress_hex]
  exact ⟨v, hq⟩

/-- **When the token carries the coin's details**: exactly if the coin is displayed with 18
decimals. -/
theorem carriesDetails_iff {token : Address → W → OzToken} {Sound : Address → W → Prop}
    (hpreset : DeploysPreset k token Sound) {title description : String} {m : Metadata}
    (hvalid : (RegisterCoinProposal.mk title description m).validateBasic = .ok ())
    (hname : GoString m.name) (hsymbol : GoString m.symbol) {p : TokenPair}
    (hok : registerCoin k m s = .ok p t) :
    CarriesDetails k t p.getERC20Contract m ↔
      ∃ u ∈ m.denomUnits, u.denom = m.display ∧ u.exponent = 18 := by
  obtain ⟨v, hq⟩ := queryERC20_registered hpreset hname hsymbol hok
  obtain ⟨_, hmeta, -⟩ := except_bind_ok_iff.mp hvalid
  obtain ⟨u, hu, hud, hunique⟩ := Metadata.exists_display_unit hmeta
  constructor
  · rintro ⟨data, v', hq', -, -, hunits⟩
    obtain ⟨rfl, -⟩ := EStateM.Result.ok.inj (hq.symm.trans hq')
    exact ⟨u, hu, hud, (hunits u hu hud).symm⟩
  · rintro ⟨u', hu', hud', hexp⟩
    refine ⟨_, v, hq, rfl, rfl, fun w hw hwd => ?_⟩
    rw [hunique w hw hwd, ← hunique u' hu' hud']
    exact hexp.symm

/-! ## Two coins -/

theorem deploysPreset_plainKeeper :
    DeploysPreset plainKeeper tokenAt fun a w => (w a).isSome = true where
  created {w accounts sender nonce name symbol res} happ hf _ := by
    simp only [plainKeeper, keeperOver, plainEvm, referenceEvm] at happ
    split at happ
    · -- a collision is a failure
      obtain rfl := Except.ok.inj happ
      simp [EvmResult.failed, reverted] at hf
    -- the new contract is the token that the deployment builds from the arguments
    · obtain rfl := Except.ok.inj happ
      have hself : Function.update w (referenceCreateAddress sender nonce)
          (some (deployedToken sender name symbol)) (referenceCreateAddress sender nonce) =
          some (deployedToken sender name symbol) := Function.update_self ..
      have htoken : tokenAt (plainKeeper.createAddress sender nonce)
          (Function.update w (referenceCreateAddress sender nonce)
            (some (deployedToken sender name symbol))) = deployedToken sender name symbol := by
        rw [tokenAt]
        exact congrArg (fun o => Option.getD o _) hself
      exact ⟨congrArg Option.isSome hself, congrArg OzToken.name htoken,
        congrArg OzToken.symbol htoken, congrArg OzToken.decimals htoken⟩
  conforms := ozContract_plainKeeper
  answers := answers_plainKeeper

/-- A voucher of a coin with 6 decimals, as a relayer brings it. -/
def atomMetadata : Metadata :=
  { voucherProposal.metadata with
    denomUnits := voucherProposal.metadata.denomUnits ++ [⟨"atom", 6, []⟩]
    display := "atom" }

private theorem registers_of_succeeds {m : Metadata}
    (h : (Functor.discard (registerCoin plainKeeper m)).succeeds plainDeployed = true) :
    ∃ p t, registerCoin plainKeeper m plainDeployed = .ok p t := by
  obtain ⟨t, hok⟩ := Exec.exists_ok h
  obtain ⟨p, hok⟩ := Exec.discard_ok hok
  exact ⟨p, t, hok⟩

theorem carriesDetails_iff_bcoin : ∃ p t, registerCoin plainKeeper bcoinMetadata plainDeployed =
    .ok p t ∧ CarriesDetails plainKeeper t p.getERC20Contract bcoinMetadata := by
  obtain ⟨p, t, hok⟩ := registers_of_succeeds (m := bcoinMetadata) (by decide +kernel)
  have hvalid : (RegisterCoinProposal.mk "Register" "a coin" bcoinMetadata).validateBasic =
      .ok () := by decide +kernel
  have hname : GoString bcoinMetadata.name := goString_of_all rfl (by decide)
  have hsymbol : GoString bcoinMetadata.symbol := goString_of_all rfl (by decide)
  exact ⟨p, t, hok, (carriesDetails_iff deploysPreset_plainKeeper hvalid hname hsymbol hok).mpr
    ⟨⟨"coin", 18, []⟩, by decide, rfl, rfl⟩⟩

/-- **A voucher is shown wrong by twelve digits.** The proposal is valid and goes through, and the
token does not have the coin's decimals. -/
theorem not_carriesDetails_atom :
    (RegisterCoinProposal.mk "Register" "a voucher" atomMetadata).validateBasic = .ok () ∧
    ∃ p t, registerCoin plainKeeper atomMetadata plainDeployed = .ok p t ∧
      ¬ CarriesDetails plainKeeper t p.getERC20Contract atomMetadata := by
  obtain ⟨p, t, hok⟩ := registers_of_succeeds (m := atomMetadata) (by decide +kernel)
  have hname : GoString atomMetadata.name := goString_of_all rfl (by decide)
  have hsymbol : GoString atomMetadata.symbol := goString_of_all rfl (by decide)
  obtain ⟨v, hq⟩ := queryERC20_registered deploysPreset_plainKeeper hname hsymbol hok
  refine ⟨by decide +kernel, p, t, hok, fun ⟨data, v', hq', _, _, hunits⟩ => ?_⟩
  obtain ⟨rfl, -⟩ := EStateM.Result.ok.inj (hq.symm.trans hq')
  exact absurd (hunits ⟨"atom", 6, []⟩ (by decide) rfl) (by decide)

end GenesisEthermint.Tokens
