import GenesisEthermint.Wire.Messages
import GenesisEthermint.Foundation.Damage

/-!
# What is Read is What was Written

The stored token pairs and the proposal contents as bytes: nothing is lost between `Marshal`
and `Unmarshal`, whatever fields of another version stand between the known ones, and an input
that is cut short is never read as a pair with other contents.
-/

namespace GenesisEthermint.Wire

open GenesisEthermint.Foundation

/-! ## §1 Token pairs -/

namespace TokenPair

/-- A pair of the module, of the contract `0x1f` and the denomination `a`. -/
def ofModule : TokenPair := ⟨[0x30, 0x78, 0x31, 0x66], [0x61], true, 1⟩

/-- **A token pair survives its bytes**: `Marshal` stays inside the buffer of `Size` bytes and
fills it, and `Unmarshal` reads the pair back. -/
theorem unmarshal_marshal (p : TokenPair) (hsize : p.size < 2 ^ 63) :
    ∃ bz, p.marshal = some bz ∧ bz.length = p.size ∧ unmarshal bz = .ok p := by
  obtain ⟨hmarshal, hread⟩ := emits.reads_marshal (a := zero) hsize
  refine ⟨p.fields.encode, hmarshal, (emits.size_eq p).symm, ?_⟩
  rw [unmarshal, hread, receiveAll_fields, overlay_zero]

theorem unmarshal_marshal_ofModule : ofModule.size < 2 ^ 63 ∧ ∃ bz, ofModule.marshal = some bz ∧
    bz.length = ofModule.size ∧ unmarshal bz = .ok ofModule :=
  ⟨by decide, unmarshal_marshal ofModule (by decide)⟩

/-- The bytes of one pair after those of another: each field is the last one written. -/
theorem unmarshal_marshal_append (p q : TokenPair) (hsize : p.size + q.size < 2 ^ 63) :
    ∃ bz bz', p.marshal = some bz ∧ q.marshal = some bz' ∧
      unmarshal (bz ++ bz') = .ok (q.overlay p) := by
  refine ⟨p.fields.encode, q.fields.encode, emits.marshal_eq, emits.marshal_eq, ?_⟩
  have hp : p.size = p.fields.encode.length := emits.size_eq p
  have hq : q.size = q.fields.encode.length := emits.size_eq q
  rw [← WireFields.encode_append, unmarshal, unmarshal_encode
    (WireFields.wellFormed_append.mpr ⟨emits.wellFormed p, emits.wellFormed q⟩)
    (by rw [WireFields.encode_append, List.length_append]; omega),
    receiveAll_append, receiveAll_fields, overlay_zero]
  exact receiveAll_fields q p

/-- The bytes of another denomination, behind the pair, are read in the place of its own. -/
theorem unmarshal_marshal_append_ofModule :
    let renamed : TokenPair := { zero with denom := [0x62] }
    ofModule.size + renamed.size < 2 ^ 63 ∧
      renamed.overlay ofModule = { ofModule with denom := [0x62] } ∧
      ∃ bz bz', ofModule.marshal = some bz ∧ renamed.marshal = some bz' ∧
        unmarshal (bz ++ bz') = .ok (renamed.overlay ofModule) :=
  ⟨by decide, by decide, unmarshal_marshal_append ofModule _ (by decide)⟩

/-- **A pair written by another version**: the known fields are `p`'s, with any other fields,
groups included, before, between and behind them. -/
theorem unmarshal_of_keep_eq (p : TokenPair) {ws : WireFields} (hws : ws.WellFormed)
    (hknown : ws.keep type.knows = p.fields) (hlen : ws.encode.length < 2 ^ 63) :
    unmarshal ws.encode = .ok p := by
  rw [unmarshal, unmarshal_encode hws hlen, ← receiveAll_keep, hknown, receiveAll_fields,
    overlay_zero]

/-- A number of a later version in front of the pair. -/
theorem unmarshal_of_keep_eq_ofModule :
    unmarshal (WireFields.varint 9 150 ofModule.fields).encode = .ok ofModule :=
  unmarshal_of_keep_eq ofModule ⟨by decide, emits.wellFormed ofModule⟩ rfl (by
    have hlen : ofModule.fields.encode.length = ofModule.size := (emits.size_eq ofModule).symm
    simp only [WireFields.encode, List.length_append, tagBytes, length_varintBytes, hlen]
    decide)

end TokenPair

/-! ### A pair cut short -/

/-- At most one field: a sequence that begins with it begins with all of it. -/
def AtMostOne (first : WireFields) : Prop :=
  ∀ us vs more, us.append vs = first.append more →
    us = .nil ∨ ∃ rest, us = first.append rest ∧ rest.append vs = more

theorem atMostOne_nil : AtMostOne .nil := by
  intro us vs more h
  exact .inr ⟨us, rfl, h⟩

theorem atMostOne_bytes {n : ℕ} {s : GoString} : AtMostOne (.bytes n s .nil) := by
  intro us vs more h
  cases us with
  | nil => exact .inl rfl
  | bytes n' s' rest =>
    simp only [WireFields.append, WireFields.bytes.injEq] at h
    obtain ⟨rfl, rfl, hrest⟩ := h
    exact .inr ⟨rest, rfl, hrest⟩
  | varint => cases h
  | fixed64 => cases h
  | group => cases h
  | fixed32 => cases h

theorem atMostOne_varint {n : ℕ} {v : BitVec 64} : AtMostOne (.varint n v .nil) := by
  intro us vs more h
  cases us with
  | nil => exact .inl rfl
  | varint n' v' rest =>
    simp only [WireFields.append, WireFields.varint.injEq] at h
    obtain ⟨rfl, rfl, hrest⟩ := h
    exact .inr ⟨rest, rfl, hrest⟩
  | bytes => cases h
  | fixed64 => cases h
  | group => cases h
  | fixed32 => cases h

theorem atMostOne_stringFields {n : ℕ} {s : GoString} : AtMostOne (stringFields n s) := by
  unfold stringFields
  split
  · exact atMostOne_nil
  · exact atMostOne_bytes

theorem atMostOne_boolFields {n : ℕ} {b : Bool} : AtMostOne (boolFields n b) := by
  unfold boolFields
  split
  · exact atMostOne_varint
  · exact atMostOne_nil

theorem atMostOne_enumFields {n : ℕ} {x : BitVec 32} : AtMostOne (enumFields n x) := by
  unfold enumFields
  split
  · exact atMostOne_nil
  · exact atMostOne_varint

namespace TokenPair

/-- The pair with only its first `j` fields. -/
def upTo (p : TokenPair) (j : ℕ) : TokenPair where
  erc20Address := if 1 ≤ j then p.erc20Address else []
  denom := if 2 ≤ j then p.denom else []
  enabled := decide (3 ≤ j) && p.enabled
  contractOwner := if 4 ≤ j then p.contractOwner else 0

theorem expects_fields (p : TokenPair) : type.Expects p.fields := by
  have hstring : ∀ {n s} {f : MessageField TokenPair}, type.field (n : ℕ) = some f →
      f.reader.wireType = 2 → type.Expects (stringFields n s) := by
    intro n s f hf hw
    unfold stringFields
    split
    · trivial
    · exact ⟨⟨f, hf, hw⟩, trivial⟩
  have hbool : type.Expects (boolFields 3 p.enabled) := by
    unfold boolFields
    split
    · exact ⟨⟨enabledField, rfl, rfl⟩, trivial⟩
    · trivial
  have henum : type.Expects (enumFields 4 p.contractOwner) := by
    unfold enumFields
    split
    · trivial
    · exact ⟨⟨contractOwnerField, rfl, rfl⟩, trivial⟩
  simp only [fields, expects_append]
  exact ⟨hstring (f := erc20AddressField) rfl rfl, hstring (f := denomField) rfl rfl, hbool,
    henum, trivial⟩

/-- The fields a pair begins with are those of a pair. -/
theorem eq_fields_upTo {p : TokenPair} {us vs : WireFields} (h : us.append vs = p.fields) :
    ∃ j, us = (p.upTo j).fields := by
  rcases atMostOne_stringFields _ _ _ h with h0 | ⟨us₁, h1, h⟩
  · exact ⟨0, by simp [h0, fields, upTo, stringFields, boolFields, enumFields, WireFields.append]⟩
  rcases atMostOne_stringFields _ _ _ h with h0 | ⟨us₂, h2, h⟩
  · exact ⟨1, by simp [h1, h0, fields, upTo, stringFields, boolFields, enumFields,
      WireFields.append]⟩
  rcases atMostOne_boolFields _ _ _ h with h0 | ⟨us₃, h3, h⟩
  · exact ⟨2, by simp [h1, h2, h0, fields, upTo, boolFields, enumFields, WireFields.append]⟩
  rcases atMostOne_enumFields _ _ _ h with h0 | ⟨us₄, h4, h⟩
  · exact ⟨3, by simp [h1, h2, h3, h0, fields, upTo, enumFields, WireFields.append]⟩
  -- nothing is written behind the last field
  have hend : us₄ = .nil := by
    cases us₄ with
    | nil => rfl
    | varint => cases h
    | bytes => cases h
    | fixed64 => cases h
    | group => cases h
    | fixed32 => cases h
  exact ⟨4, by simp [h1, h2, h3, h4, hend, fields, upTo]⟩

/-- **A pair cut short** is refused, or it is the pair with its last fields missing: no field
is read with only a part of its bytes. -/
theorem unmarshal_take (p : TokenPair) (k : ℕ) (hsize : p.size < 2 ^ 63) :
    ∃ bz, p.marshal = some bz ∧
      (unmarshal (bz.take k) = .error .unexpectedEOF ∨
        ∃ j, unmarshal (bz.take k) = .ok (p.upTo j) ∧
          (p.upTo j).marshal = some (bz.take k)) := by
  refine ⟨p.fields.encode, emits.marshal_eq, ?_⟩
  have hlen : 0 + p.fields.encode.length < 2 ^ 63 := by
    rwa [Nat.zero_add, ← emits.size_eq]
  rcases cutRead_of_expects (emits.wellFormed p) (expects_fields p) k
    (receiveAll_fields p zero) hlen with heof | ⟨us, vs, happend, hbytes, hread⟩
  · exact .inl heof
  · obtain ⟨j, rfl⟩ := eq_fields_upTo happend
    refine .inr ⟨j, ?_, ?_⟩
    · rw [unmarshal, MessageType.unmarshal, hread, receiveAll_fields, overlay_zero]
    · rw [hbytes]
      exact emits.marshal_eq

theorem unmarshal_take_ofModule : ofModule.size < 2 ^ 63 ∧
    ∃ bz, ofModule.marshal = some bz ∧ (unmarshal (bz.take 7) = .error .unexpectedEOF ∨
      ∃ j, unmarshal (bz.take 7) = .ok (ofModule.upTo j) ∧
        (ofModule.upTo j).marshal = some (bz.take 7)) :=
  ⟨by decide, unmarshal_take ofModule 7 (by decide)⟩

end TokenPair

/-! ## §2 Proposal contents -/

/-- **A coin registration survives its bytes**, the metadata inside it and the denomination
units inside that, with their aliases, in order. -/
theorem RegisterCoinProposal.reads_marshal (p : RegisterCoinProposal)
    (hsize : p.size < 2 ^ 63) :
    ∃ bz, p.marshal = some bz ∧ bz.length = p.size ∧ unmarshal bz = .ok p := by
  obtain ⟨hmarshal, hread⟩ := emits.reads_marshal (a := zero) hsize
  refine ⟨p.fields.encode, hmarshal, (emits.size_eq p).symm, ?_⟩
  rw [unmarshal, hread]
  apply receiveAll_fields
  rwa [← emits.size_eq]

/-- Strings are read back into a message that has none yet. -/
theorem RegisterERC20Proposal.receiveAll_fields (p : RegisterERC20Proposal) :
    type.receiveAll (stringsFrom 1 [p.title, p.description, p.erc20Address]) ⟨[], [], []⟩ =
      .ok p := by
  simp only [stringsFrom, receiveAll_append,
    @receiveAll_stringFields _ 1 _ type _ _ _ _ (fun _ => rfl) rfl,
    @receiveAll_stringFields _ 2 _ type _ _ _ _ (fun _ => rfl) rfl,
    @receiveAll_stringFields _ 3 _ type _ _ _ _ (fun _ => rfl) rfl,
    ite_eq_zero, bind, Except.bind, receiveAll_nil]

theorem ToggleTokenRelayProposal.receiveAll_fields (p : ToggleTokenRelayProposal) :
    type.receiveAll (stringsFrom 1 [p.title, p.description, p.token]) ⟨[], [], []⟩ = .ok p := by
  simp only [stringsFrom, receiveAll_append,
    @receiveAll_stringFields _ 1 _ type _ _ _ _ (fun _ => rfl) rfl,
    @receiveAll_stringFields _ 2 _ type _ _ _ _ (fun _ => rfl) rfl,
    @receiveAll_stringFields _ 3 _ type _ _ _ _ (fun _ => rfl) rfl,
    ite_eq_zero, bind, Except.bind, receiveAll_nil]

theorem UpdateTokenPairERC20Proposal.receiveAll_fields (p : UpdateTokenPairERC20Proposal) :
    type.receiveAll (stringsFrom 1 [p.title, p.description, p.erc20Address, p.newErc20Address])
      ⟨[], [], [], []⟩ = .ok p := by
  simp only [stringsFrom, receiveAll_append,
    @receiveAll_stringFields _ 1 _ type _ _ _ _ (fun _ => rfl) rfl,
    @receiveAll_stringFields _ 2 _ type _ _ _ _ (fun _ => rfl) rfl,
    @receiveAll_stringFields _ 3 _ type _ _ _ _ (fun _ => rfl) rfl,
    @receiveAll_stringFields _ 4 _ type _ _ _ _ (fun _ => rfl) rfl,
    ite_eq_zero, bind, Except.bind, receiveAll_nil]

theorem Any.receiveAll_fields (a : Any) :
    type.receiveAll (stringsFrom 1 [a.typeUrl, a.value]) ⟨[], []⟩ = .ok a := by
  simp only [stringsFrom, receiveAll_append,
    @receiveAll_stringFields _ 1 _ type _ _ _ _ (fun _ => rfl) rfl,
    @receiveAll_stringFields _ 2 _ type _ _ _ _ (fun _ => rfl) rfl,
    ite_eq_zero, bind, Except.bind, receiveAll_nil]

theorem Content.marshal_eq (c : Content) : c.marshal = some c.fields.encode := by
  cases c with
  | registerCoin p => exact RegisterCoinProposal.emits.marshal_eq
  | registerERC20 p => exact emits_registerERC20.marshal_eq
  | toggleTokenRelay p => exact emits_toggleTokenRelay.marshal_eq
  | updateTokenPairERC20 p => exact emits_updateTokenPairERC20.marshal_eq

/-- The concrete type is found by its URL, and reads its own bytes. -/
theorem unpackAny_fields (c : Content) (hlen : c.fields.encode.length < 2 ^ 63) :
    unpackAny ⟨utf8 c.typeURL, c.fields.encode⟩ = .ok (some c) := by
  have hne : utf8 c.typeURL ≠ [] := by
    have hempty : utf8 "" = [] := by decide
    rw [← hempty, ne_eq, utf8_inj]
    cases c <;> simp [Content.typeURL]
  rw [unpackAny, if_neg hne]
  cases c with
  | registerCoin p =>
    have hread := @unmarshal_encode _ RegisterCoinProposal.type RegisterCoinProposal.zero _
      (RegisterCoinProposal.emits.wellFormed p) hlen
    rw [RegisterCoinProposal.receiveAll_fields p hlen] at hread
    simp only [interfaceImpls, implementation, utf8_inj, Content.typeURL, decide_true,
      List.find?_cons_of_pos, Content.fields, hread, Except.map]
  | registerERC20 p =>
    have hread := @unmarshal_encode _ RegisterERC20Proposal.type ⟨[], [], []⟩ _
      (emits_registerERC20.wellFormed p) hlen
    rw [RegisterERC20Proposal.receiveAll_fields p] at hread
    simp [interfaceImpls, implementation, utf8_inj, Content.typeURL, Content.fields, hread,
      Except.map]
  | toggleTokenRelay p =>
    have hread := @unmarshal_encode _ ToggleTokenRelayProposal.type ⟨[], [], []⟩ _
      (emits_toggleTokenRelay.wellFormed p) hlen
    rw [ToggleTokenRelayProposal.receiveAll_fields p] at hread
    simp [interfaceImpls, implementation, utf8_inj, Content.typeURL, Content.fields, hread,
      Except.map]
  | updateTokenPairERC20 p =>
    have hread := @unmarshal_encode _ UpdateTokenPairERC20Proposal.type
      ⟨[], [], [], []⟩ _ (emits_updateTokenPairERC20.wellFormed p) hlen
    rw [UpdateTokenPairERC20Proposal.receiveAll_fields p] at hread
    simp [interfaceImpls, implementation, utf8_inj, Content.typeURL, Content.fields, hread,
      Except.map]

/-- **A content packed into a proposal comes out as the same content of the same type**: the
bytes of its `Any` are read back, its URL leads to its own type, and that reads it back. -/
theorem unpackAny_newAnyWithValue (c : Content) :
    ∃ any, newAnyWithValue c = some any ∧ (Any.type.size any < 2 ^ 63 →
      ∃ bz, Any.type.marshal any = some bz ∧
        Any.type.unmarshal ⟨[], []⟩ bz = .ok any ∧ unpackAny any = .ok (some c)) := by
  refine ⟨⟨utf8 c.typeURL, c.fields.encode⟩, by simp [newAnyWithValue, Content.marshal_eq],
    fun hsize => ?_⟩
  obtain ⟨hmarshal, hread⟩ := Any.emits.reads_marshal (a := ⟨[], []⟩) hsize
  refine ⟨_, hmarshal, ?_, ?_⟩
  · rw [hread, Any.receiveAll_fields]
  · apply unpackAny_fields
    rw [Any.emits.size_eq] at hsize
    simp only [stringsFrom, WireFields.encode_append, List.length_append] at hsize
    by_cases hempty : c.fields.encode = []
    · rw [hempty]
      decide
    · simp only [stringFields, hempty, if_false, WireFields.encode, List.length_append] at hsize
      omega

/-- A proposal to register the contract `0x1f`. -/
def registerShort : Content := .registerERC20 ⟨[0x74], [0x64], [0x30, 0x78, 0x31, 0x66]⟩

theorem unpackAny_newAnyWithValue_registerShort :
    ∃ any bz, newAnyWithValue registerShort = some any ∧ Any.type.marshal any = some bz ∧
      Any.type.unmarshal ⟨[], []⟩ bz = .ok any ∧ unpackAny any = .ok (some registerShort) := by
  obtain ⟨any, hany, hread⟩ := unpackAny_newAnyWithValue registerShort
  have hsize : (newAnyWithValue registerShort).all (fun a => Any.type.size a < 2 ^ 63) = true := by
    decide +kernel
  rw [hany] at hsize
  obtain ⟨bz, hbz⟩ := hread (of_decide_eq_true hsize)
  exact ⟨any, bz, hany, hbz⟩

end GenesisEthermint.Wire
