import GenesisEthermint.Foundation.Fields

/-!
# The Module's Messages as Bytes

The generated protobuf code of a token pair and of the four proposal contents, with the bank
metadata one of them carries. A Go string is a string of bytes, so the text fields of these
structures are bytes, and an enumeration is any integer of 32 bits.
-/

namespace GenesisEthermint.Wire

open GenesisEthermint.Foundation

/-- A Go string. -/
abbrev GoString := List UInt8

/-! ## §1 Token pairs -/

/-- `types.TokenPair`. -/
@[ext]
structure TokenPair where
  erc20Address : GoString
  denom : GoString
  enabled : Bool
  contractOwner : BitVec 32
  deriving DecidableEq, Repr

namespace TokenPair

/-- `TokenPair{}`. -/
def zero : TokenPair := ⟨[], [], false, 0⟩

def erc20AddressField : MessageField TokenPair :=
  stringField 1 "Erc20Address" (·.erc20Address) fun s m => { m with erc20Address := s }

def denomField : MessageField TokenPair :=
  stringField 2 "Denom" (·.denom) fun s m => { m with denom := s }

def enabledField : MessageField TokenPair :=
  boolField 3 "Enabled" (·.enabled) fun b m => { m with enabled := b }

def contractOwnerField : MessageField TokenPair :=
  enumField 4 "ContractOwner" (·.contractOwner) fun x m => { m with contractOwner := x }

def type : MessageType TokenPair :=
  ⟨"TokenPair", [erc20AddressField, denomField, enabledField, contractOwnerField]⟩

/-- `TokenPair.Size`. -/
def size (p : TokenPair) : ℕ := type.size p

/-- `TokenPair.Marshal`. -/
def marshal (p : TokenPair) : Option (List UInt8) := type.marshal p

/-- `TokenPair.Unmarshal`, into a new pair. -/
def unmarshal (dAtA : List UInt8) : Except WireError TokenPair := type.unmarshal zero dAtA

/-- The fields a pair is written as. -/
def fields (p : TokenPair) : WireFields :=
  (stringFields 1 p.erc20Address).append <| (stringFields 2 p.denom).append <|
    (boolFields 3 p.enabled).append <| (enumFields 4 p.contractOwner).append .nil

theorem emits : type.Emits fields :=
  (emits_stringField (by decide) (by decide)).cons <|
    (emits_stringField (by decide) (by decide)).cons <|
      (emits_boolField (by decide) (by decide)).cons <|
        (emits_enumField (by decide) (by decide)).cons emits_nil

/-- `p` read over `a`: a field that `p` does not write keeps the value of `a`. -/
def overlay (p a : TokenPair) : TokenPair where
  erc20Address := if p.erc20Address = [] then a.erc20Address else p.erc20Address
  denom := if p.denom = [] then a.denom else p.denom
  enabled := p.enabled || a.enabled
  contractOwner := if p.contractOwner = 0 then a.contractOwner else p.contractOwner

theorem overlay_zero (p : TokenPair) : p.overlay zero = p := by
  ext <;> simp [overlay, zero] <;> split <;> simp_all

theorem receiveAll_fields (p a : TokenPair) : type.receiveAll p.fields a = .ok (p.overlay a) := by
  have h1 : type.field (1 : ℕ) = some erc20AddressField := rfl
  have h2 : type.field (2 : ℕ) = some denomField := rfl
  have h3 : type.field (3 : ℕ) = some enabledField := rfl
  have h4 : type.field (4 : ℕ) = some contractOwnerField := rfl
  simp only [fields, receiveAll_append, receiveAll_stringFields (fun _ => rfl) h1,
    receiveAll_stringFields (fun _ => rfl) h2,
    receiveAll_boolFields (fun _ => rfl) h3, receiveAll_enumFields (fun _ => rfl) h4, bind,
    Except.bind, receiveAll_nil]
  rfl

end TokenPair

/-! ## §2 Bank metadata -/

/-- `banktypes.DenomUnit`. -/
@[ext]
structure DenomUnit where
  denom : GoString
  exponent : BitVec 32
  aliases : List GoString
  deriving DecidableEq, Repr

namespace DenomUnit

/-- `DenomUnit{}`. -/
def zero : DenomUnit := ⟨[], 0, []⟩

def denomField : MessageField DenomUnit :=
  stringField 1 "Denom" (·.denom) fun s m => { m with denom := s }

def exponentField : MessageField DenomUnit :=
  uint32Field 2 "Exponent" (·.exponent) fun x m => { m with exponent := x }

def aliasesField : MessageField DenomUnit :=
  repeatedStringField 3 "Aliases" (·.aliases) fun l m => { m with aliases := l }

def type : MessageType DenomUnit := ⟨"DenomUnit", [denomField, exponentField, aliasesField]⟩

def fields (u : DenomUnit) : WireFields :=
  (stringFields 1 u.denom).append <| (uint32Fields 2 u.exponent).append <|
    (repeatedFields 3 u.aliases).append .nil

theorem emits : type.Emits fields :=
  (emits_stringField (by decide) (by decide)).cons <|
    (emits_uint32Field (by decide) (by decide)).cons <|
      (emits_repeatedStringField (by decide) (by decide)).cons emits_nil

theorem lawful_aliases : LawfulField (fun u : DenomUnit => u.aliases)
    fun l m => { m with aliases := l } where
  get_set _ _ := rfl
  set_set _ _ _ := rfl
  set_get _ := rfl

theorem receiveAll_fields (u : DenomUnit) : type.receiveAll u.fields zero = .ok u := by
  have h1 : type.field (1 : ℕ) = some denomField := rfl
  have h2 : type.field (2 : ℕ) = some exponentField := rfl
  have h3 : type.field (3 : ℕ) = some aliasesField := rfl
  simp only [fields, receiveAll_append, receiveAll_stringFields (fun _ => rfl) h1,
    receiveAll_uint32Fields (fun _ => rfl) h2,
    receiveAll_repeatedStrings lawful_aliases h3, bind, Except.bind, receiveAll_nil]
  simp only [zero, ite_eq_zero, List.nil_append]

end DenomUnit

/-- `banktypes.Metadata`. -/
@[ext]
structure Metadata where
  description : GoString
  denomUnits : List DenomUnit
  base : GoString
  display : GoString
  name : GoString
  symbol : GoString
  deriving DecidableEq, Repr

namespace Metadata

/-- `Metadata{}`. -/
def zero : Metadata := ⟨[], [], [], [], [], []⟩

def descriptionField : MessageField Metadata :=
  stringField 1 "Description" (·.description) fun s m => { m with description := s }

def denomUnitsField : MessageField Metadata :=
  repeatedField 2 "DenomUnits" DenomUnit.type DenomUnit.zero (·.denomUnits)
    fun l m => { m with denomUnits := l }

def baseField : MessageField Metadata :=
  stringField 3 "Base" (·.base) fun s m => { m with base := s }

def displayField : MessageField Metadata :=
  stringField 4 "Display" (·.display) fun s m => { m with display := s }

def nameField : MessageField Metadata :=
  stringField 5 "Name" (·.name) fun s m => { m with name := s }

def symbolField : MessageField Metadata :=
  stringField 6 "Symbol" (·.symbol) fun s m => { m with symbol := s }

def type : MessageType Metadata :=
  ⟨"Metadata",
    [descriptionField, denomUnitsField, baseField, displayField, nameField, symbolField]⟩

def fields (m : Metadata) : WireFields :=
  (stringFields 1 m.description).append <|
    (repeatedFields 2 (m.denomUnits.map fun u => u.fields.encode)).append <|
      (stringFields 3 m.base).append <| (stringFields 4 m.display).append <|
        (stringFields 5 m.name).append <| (stringFields 6 m.symbol).append .nil

theorem emits : type.Emits fields :=
  (emits_stringField (by decide) (by decide)).cons <|
    (emits_repeatedField DenomUnit.emits (by decide) (by decide)).cons <|
      (emits_stringField (by decide) (by decide)).cons <|
        (emits_stringField (by decide) (by decide)).cons <|
          (emits_stringField (by decide) (by decide)).cons <|
            (emits_stringField (by decide) (by decide)).cons emits_nil

theorem lawful_denomUnits : LawfulField (fun m : Metadata => m.denomUnits)
    fun l m => { m with denomUnits := l } where
  get_set _ _ := rfl
  set_set _ _ _ := rfl
  set_get _ := rfl

/-- The units are read back one by one, so the bytes of each have to be addressable. -/
theorem receiveAll_fields (m : Metadata) (hlen : m.fields.encode.length < 2 ^ 63) :
    type.receiveAll m.fields zero = .ok m := by
  have h1 : type.field (1 : ℕ) = some descriptionField := rfl
  have h2 : type.field (2 : ℕ) = some denomUnitsField := rfl
  have h3 : type.field (3 : ℕ) = some baseField := rfl
  have h4 : type.field (4 : ℕ) = some displayField := rfl
  have h5 : type.field (5 : ℕ) = some nameField := rfl
  have h6 : type.field (6 : ℕ) = some symbolField := rfl
  have hunits : (repeatedFields 2 (m.denomUnits.map fun u => u.fields.encode)).encode.length
      < 2 ^ 63 := by
    simp only [fields, WireFields.encode_append, List.length_append] at hlen
    omega
  have hread := fun a => receiveAll_repeatedMessages (m := a) lawful_denomUnits DenomUnit.emits
    h2 (fun u _ => DenomUnit.receiveAll_fields u) hunits
  simp only [fields, receiveAll_append, receiveAll_stringFields (fun _ => rfl) h1, hread,
    receiveAll_stringFields (fun _ => rfl) h3, receiveAll_stringFields (fun _ => rfl) h4,
    receiveAll_stringFields (fun _ => rfl) h5,
    receiveAll_stringFields (fun _ => rfl) h6, bind, Except.bind, receiveAll_nil]
  simp only [zero, ite_eq_zero, List.nil_append]

end Metadata

/-! ## §3 Proposal contents -/

/-- `types.RegisterCoinProposal`. -/
@[ext]
structure RegisterCoinProposal where
  title : GoString
  description : GoString
  metadata : Metadata
  deriving DecidableEq, Repr

namespace RegisterCoinProposal

/-- `RegisterCoinProposal{}`. -/
def zero : RegisterCoinProposal := ⟨[], [], Metadata.zero⟩

def titleField : MessageField RegisterCoinProposal :=
  stringField 1 "Title" (·.title) fun s m => { m with title := s }

def descriptionField : MessageField RegisterCoinProposal :=
  stringField 2 "Description" (·.description) fun s m => { m with description := s }

def metadataField : MessageField RegisterCoinProposal :=
  embeddedField 3 "Metadata" Metadata.type (·.metadata) fun x m => { m with metadata := x }

def type : MessageType RegisterCoinProposal :=
  ⟨"RegisterCoinProposal", [titleField, descriptionField, metadataField]⟩

/-- `RegisterCoinProposal.Size`. -/
def size (p : RegisterCoinProposal) : ℕ := type.size p

/-- `RegisterCoinProposal.Marshal`. -/
def marshal (p : RegisterCoinProposal) : Option (List UInt8) := type.marshal p

/-- `RegisterCoinProposal.Unmarshal`, into a new proposal. -/
def unmarshal (dAtA : List UInt8) : Except WireError RegisterCoinProposal :=
  type.unmarshal zero dAtA

def fields (p : RegisterCoinProposal) : WireFields :=
  (stringFields 1 p.title).append <| (stringFields 2 p.description).append <|
    (WireFields.bytes 3 p.metadata.fields.encode .nil).append .nil

theorem emits : type.Emits fields :=
  (emits_stringField (by decide) (by decide)).cons <|
    (emits_stringField (by decide) (by decide)).cons <|
      (emits_embeddedField Metadata.emits (by decide) (by decide)).cons emits_nil

theorem receiveAll_fields (p : RegisterCoinProposal) (hlen : p.fields.encode.length < 2 ^ 63) :
    type.receiveAll p.fields zero = .ok p := by
  have h1 : type.field (1 : ℕ) = some titleField := rfl
  have h2 : type.field (2 : ℕ) = some descriptionField := rfl
  have h3 : type.field (3 : ℕ) = some metadataField := rfl
  have hmeta : p.metadata.fields.encode.length < 2 ^ 63 := by
    simp only [fields, WireFields.encode_append, WireFields.encode, List.length_append] at hlen
    omega
  have hread := fun a => receiveAll_embedded (m := a) (x := p.metadata) Metadata.emits h3 hmeta
  simp only [fields, receiveAll_append, receiveAll_stringFields (fun _ => rfl) h1,
    receiveAll_stringFields (fun _ => rfl) h2, hread, zero, Except.map,
    Metadata.receiveAll_fields p.metadata hmeta, ite_eq_zero, bind, Except.bind,
    receiveAll_nil]

end RegisterCoinProposal

/-- `types.RegisterERC20Proposal`. -/
@[ext]
structure RegisterERC20Proposal where
  title : GoString
  description : GoString
  erc20Address : GoString
  deriving DecidableEq, Repr

/-- `types.ToggleTokenRelayProposal`. -/
@[ext]
structure ToggleTokenRelayProposal where
  title : GoString
  description : GoString
  token : GoString
  deriving DecidableEq, Repr

/-- `types.UpdateTokenPairERC20Proposal`. -/
@[ext]
structure UpdateTokenPairERC20Proposal where
  title : GoString
  description : GoString
  erc20Address : GoString
  newErc20Address : GoString
  deriving DecidableEq, Repr

/-- `RegisterERC20Proposal`'s generated code. -/
def RegisterERC20Proposal.type : MessageType RegisterERC20Proposal :=
  ⟨"RegisterERC20Proposal",
    [stringField 1 "Title" (·.title) fun s m => { m with title := s },
      stringField 2 "Description" (·.description) fun s m => { m with description := s },
      stringField 3 "Erc20Address" (·.erc20Address) fun s m => { m with erc20Address := s }]⟩

/-- `ToggleTokenRelayProposal`'s generated code. -/
def ToggleTokenRelayProposal.type : MessageType ToggleTokenRelayProposal :=
  ⟨"ToggleTokenRelayProposal",
    [stringField 1 "Title" (·.title) fun s m => { m with title := s },
      stringField 2 "Description" (·.description) fun s m => { m with description := s },
      stringField 3 "Token" (·.token) fun s m => { m with token := s }]⟩

/-- `UpdateTokenPairERC20Proposal`'s generated code. -/
def UpdateTokenPairERC20Proposal.type : MessageType UpdateTokenPairERC20Proposal :=
  ⟨"UpdateTokenPairERC20Proposal",
    [stringField 1 "Title" (·.title) fun s m => { m with title := s },
      stringField 2 "Description" (·.description) fun s m => { m with description := s },
      stringField 3 "Erc20Address" (·.erc20Address) fun s m => { m with erc20Address := s },
      stringField 4 "NewErc20Address" (·.newErc20Address)
        fun s m => { m with newErc20Address := s }]⟩

/-- The strings of a message that has nothing else, from the given number on. -/
def stringsFrom : ℕ → List GoString → WireFields
  | _, [] => .nil
  | n, s :: more => (stringFields n s).append (stringsFrom (n + 1) more)

theorem emits_registerERC20 :
    RegisterERC20Proposal.type.Emits fun p =>
      stringsFrom 1 [p.title, p.description, p.erc20Address] :=
  (emits_stringField (by decide) (by decide)).cons <|
    (emits_stringField (by decide) (by decide)).cons <|
      (emits_stringField (by decide) (by decide)).cons emits_nil

theorem emits_toggleTokenRelay :
    ToggleTokenRelayProposal.type.Emits fun p =>
      stringsFrom 1 [p.title, p.description, p.token] :=
  (emits_stringField (by decide) (by decide)).cons <|
    (emits_stringField (by decide) (by decide)).cons <|
      (emits_stringField (by decide) (by decide)).cons emits_nil

theorem emits_updateTokenPairERC20 :
    UpdateTokenPairERC20Proposal.type.Emits fun p =>
      stringsFrom 1 [p.title, p.description, p.erc20Address, p.newErc20Address] :=
  (emits_stringField (by decide) (by decide)).cons <|
    (emits_stringField (by decide) (by decide)).cons <|
      (emits_stringField (by decide) (by decide)).cons <|
        (emits_stringField (by decide) (by decide)).cons emits_nil

/-! ## §4 Contents in an `Any` -/

/-- The bytes of a text. In ASCII, and nothing else is ever stored, these are its characters, as
everywhere else; the bytes of any other text are at least its own. -/
def utf8 (s : String) : GoString := s.toUTF8.data.toList

theorem utf8_inj {s t : String} : utf8 s = utf8 t ↔ s = t := by
  constructor
  · intro h
    exact String.toByteArray_inj.mp (ByteArray.ext (Array.toList_inj.mp h))
  · exact congrArg utf8

/-- `codectypes.Any`. -/
@[ext]
structure Any where
  typeUrl : GoString
  value : List UInt8
  deriving DecidableEq, Repr

namespace Any

def typeUrlField : MessageField Any :=
  stringField 1 "TypeUrl" (·.typeUrl) fun s m => { m with typeUrl := s }

def valueField : MessageField Any :=
  stringField 2 "Value" (·.value) fun s m => { m with value := s }

def type : MessageType Any := ⟨"Any", [typeUrlField, valueField]⟩

theorem emits : type.Emits fun a => stringsFrom 1 [a.typeUrl, a.value] :=
  (emits_stringField (by decide) (by decide)).cons <|
    (emits_stringField (by decide) (by decide)).cons emits_nil

end Any

/-- The contents that the module registers as implementations of `govtypes.Content`. -/
inductive Content where
  | registerCoin (p : RegisterCoinProposal)
  | registerERC20 (p : RegisterERC20Proposal)
  | toggleTokenRelay (p : ToggleTokenRelayProposal)
  | updateTokenPairERC20 (p : UpdateTokenPairERC20Proposal)
  deriving DecidableEq, Repr

/-- `"/" + proto.MessageName`. -/
def Content.typeURL : Content → String
  | .registerCoin _ => "/evmos.intrarelayer.v1.RegisterCoinProposal"
  | .registerERC20 _ => "/evmos.intrarelayer.v1.RegisterERC20Proposal"
  | .toggleTokenRelay _ => "/evmos.intrarelayer.v1.ToggleTokenRelayProposal"
  | .updateTokenPairERC20 _ => "/evmos.intrarelayer.v1.UpdateTokenPairERC20Proposal"

/-- `Marshal` of the concrete type. -/
def Content.marshal : Content → Option (List UInt8)
  | .registerCoin p => p.marshal
  | .registerERC20 p => RegisterERC20Proposal.type.marshal p
  | .toggleTokenRelay p => ToggleTokenRelayProposal.type.marshal p
  | .updateTokenPairERC20 p => UpdateTokenPairERC20Proposal.type.marshal p

/-- `NewAnyWithValue`. -/
def newAnyWithValue (c : Content) : Option Any := do
  let bz ← c.marshal
  return ⟨utf8 c.typeURL, bz⟩

/-- What `UnpackAny` does not find or cannot read. -/
inductive UnpackError where
  | noConcreteType (typeUrl : GoString)
  | wire (e : WireError)
  deriving DecidableEq, Repr

/-- A message type as an implementation of the interface: its URL, and how to read it. -/
def implementation {M : Type} (type : MessageType M) (zero : M) (content : M → Content) :
    String × (List UInt8 → Except WireError Content) :=
  ((content zero).typeURL, fun bz => (type.unmarshal zero bz).map content)

/-- `RegisterInterfaces`, for `govtypes.Content`. -/
def interfaceImpls : List (String × (List UInt8 → Except WireError Content)) :=
  [implementation RegisterCoinProposal.type RegisterCoinProposal.zero .registerCoin,
    implementation RegisterERC20Proposal.type ⟨[], [], []⟩ .registerERC20,
    implementation ToggleTokenRelayProposal.type ⟨[], [], []⟩ .toggleTokenRelay,
    implementation UpdateTokenPairERC20Proposal.type ⟨[], [], [], []⟩ .updateTokenPairERC20]

/-- `UnpackAny`: without a URL there is nothing to unpack. -/
def unpackAny (any : Any) : Except UnpackError (Option Content) :=
  if any.typeUrl = [] then .ok none
  else match interfaceImpls.find? fun impl => any.typeUrl = utf8 impl.1 with
    | none => .error (.noConcreteType any.typeUrl)
    | some impl => match impl.2 any.value with
      | .error e => .error (.wire e)
      | .ok c => .ok (some c)

/-- The fields a content is written as. -/
def Content.fields : Content → WireFields
  | .registerCoin p => p.fields
  | .registerERC20 p => stringsFrom 1 [p.title, p.description, p.erc20Address]
  | .toggleTokenRelay p => stringsFrom 1 [p.title, p.description, p.token]
  | .updateTokenPairERC20 p =>
    stringsFrom 1 [p.title, p.description, p.erc20Address, p.newErc20Address]

end GenesisEthermint.Wire
