import GenesisEthermint.Foundation.Message

/-!
# Kinds of Fields

The generator knows a handful of field kinds, and a message's field is one of them with its
number, its name and the part of the message it stands for. For each kind: what the field
writes, that it writes it, and what is read back from it.

A field with the zero value of its type is not written, except for what is embedded or
repeated.
-/

namespace GenesisEthermint.Foundation

open WireFields

variable {M N : Type} {number : ℕ} {name : String}

/-- The tag of a field whose number is below sixteen is one byte. -/
def tagByte (number wireType : ℕ) : UInt8 := UInt8.ofNat (number * 8 + wireType)

theorem tagBytes_eq {wireType : ℕ} (hn : number < 16) (hw : wireType < 8) :
    tagBytes number wireType = [tagByte number wireType] :=
  varintBytes_of_lt (by omega)

theorem encode_bytes_nil {s : List UInt8} (hn : number < 16) :
    (WireFields.bytes number s .nil).encode =
      tagByte number 2 :: (varintBytes s.length ++ s) := by
  simp [encode, tagBytes_eq hn]

theorem encode_varint_nil {v : BitVec 64} (hn : number < 16) :
    (WireFields.varint number v .nil).encode = tagByte number 0 :: varintBytes v.toNat := by
  simp [encode, tagBytes_eq hn]

/-! ## §1 Writers of one payload -/

/-- A counted string and its tag. -/
def writeString (number : ℕ) (s : List UInt8) : Writer :=
  ((encodeBytes s).andThen (encodeVarint s.length)).andThen (encodeByte (tagByte number 2))

/-- A number and its tag. -/
def writeNumber (number v : ℕ) : Writer :=
  (encodeVarint v).andThen (encodeByte (tagByte number 0))

/-- An embedded message: it is written below the index first, and then counted. -/
def writeMessage (number : ℕ) (sub : Writer) : Writer := fun buf => do
  let inner ← sub ⟨buf.dAtA.take buf.i, buf.i⟩
  (encodeVarint (buf.i - inner.i)).andThen (encodeByte (tagByte number 2))
    ⟨inner.dAtA ++ buf.dAtA.drop buf.i, inner.i⟩

/-- One payload for each element of a list, the last element first. -/
def writeEach {α : Type} (write : α → Writer) (xs : List α) : Writer :=
  xs.foldr (fun x w => w.andThen (write x)) some

/-- One counted string for each element. -/
def repeatedFields (number : ℕ) (xs : List (List UInt8)) : WireFields :=
  xs.foldr (fun s more => .bytes number s more) .nil

theorem writes_writeString {s : List UInt8} (hn : number < 16) :
    Writes (writeString number s) (WireFields.bytes number s .nil).encode := by
  have h := (writes_encodeBytes (s := s)).andThen (writes_encodeVarint (v := s.length))
    |>.andThen (writes_encodeByte (b := tagByte number 2))
  rw [encode_bytes_nil hn]
  exact h

theorem writes_writeNumber {v : BitVec 64} (hn : number < 16) :
    Writes (writeNumber number v.toNat) (WireFields.varint number v .nil).encode := by
  have h := (writes_encodeVarint (v := v.toNat)).andThen
    (writes_encodeByte (b := tagByte number 0))
  rw [encode_varint_nil hn]
  exact h

theorem writes_writeMessage {sub : Writer} {s : List UInt8} (hn : number < 16)
    (hsub : Writes sub s) :
    Writes (writeMessage number sub) (WireFields.bytes number s .nil).encode := by
  intro front written hroom
  rw [encode_bytes_nil hn] at hroom ⊢
  simp only [List.length_cons, List.length_append] at hroom
  have hinner := hsub front [] (by omega)
  have hlen : (front.take (front.length - s.length)).length = front.length - s.length := by simp
  have hcount := (writes_encodeVarint (v := s.length)).andThen
    (writes_encodeByte (b := tagByte number 2))
    (front.take (front.length - s.length)) (s ++ written)
    (by simp only [List.singleton_append, List.length_cons]; omega)
  have hsize : front.length - (front.length - s.length) = s.length := by omega
  simp only [List.append_nil] at hinner
  simp only [writeMessage, List.take_left, List.drop_left, hinner, Option.bind_eq_bind,
    Option.bind_some, hsize, List.append_assoc]
  rw [hlen] at hcount
  rw [hcount]
  have hi : front.length - s.length - ((varintBytes s.length).length + 1) =
      front.length - ((varintBytes s.length).length + s.length + 1) := by omega
  have hmin : min (front.length - ((varintBytes s.length).length + s.length + 1))
      (front.length - s.length) =
        front.length - ((varintBytes s.length).length + s.length + 1) := by omega
  simp [List.take_take, hi, hmin]

theorem writes_writeEach {α : Type} {write : α → Writer} {payload : α → List UInt8}
    {xs : List α}
    (h : ∀ x, Writes (write x) (WireFields.bytes number (payload x) .nil).encode) :
    Writes (writeEach write xs) (repeatedFields number (xs.map payload)).encode := by
  induction xs with
  | nil => exact writes_nil
  | cons x xs ih =>
    have := ih.andThen (h x)
    simpa [writeEach, repeatedFields, encode] using this

theorem wellFormed_repeatedFields (hn : ValidNumber number) {xs : List (List UInt8)} :
    (repeatedFields number xs).WellFormed := by
  induction xs with
  | nil => trivial
  | cons x xs ih => exact ⟨hn, ih⟩

/-! ## §2 The kinds -/

/-- `string` and `bytes`. -/
def stringField (number : ℕ) (name : String) (get : M → List UInt8)
    (set : List UInt8 → M → M) : MessageField M where
  number := number
  name := name
  reader := .lengthDelimited fun s m => .ok (set s m)
  size m := if get m = [] then 0 else 1 + (get m).length + sov (get m).length
  marshal m := if get m = [] then some else writeString number (get m)

def stringFields (number : ℕ) (s : List UInt8) : WireFields :=
  if s = [] then .nil else .bytes number s .nil

/-- `bool`. -/
def boolField (number : ℕ) (name : String) (get : M → Bool) (set : Bool → M → M) :
    MessageField M where
  number := number
  name := name
  reader := .varint 64 fun v m => set (v ≠ 0) m
  size m := if get m then 2 else 0
  marshal m :=
    if get m then (encodeByte 1).andThen (encodeByte (tagByte number 0)) else some

def boolFields (number : ℕ) (b : Bool) : WireFields :=
  if b then .varint number 1 .nil else .nil

/-- An enumeration: a signed integer of 32 bits, which is extended to 64 to be written. -/
def enumField (number : ℕ) (name : String) (get : M → BitVec 32) (set : BitVec 32 → M → M) :
    MessageField M where
  number := number
  name := name
  reader := .varint 32 set
  size m := if get m = 0 then 0 else 1 + sov ((get m).signExtend 64).toNat
  marshal m := if get m = 0 then some else writeNumber number ((get m).signExtend 64).toNat

def enumFields (number : ℕ) (x : BitVec 32) : WireFields :=
  if x = 0 then .nil else .varint number (x.signExtend 64) .nil

/-- `uint32`. -/
def uint32Field (number : ℕ) (name : String) (get : M → BitVec 32) (set : BitVec 32 → M → M) :
    MessageField M where
  number := number
  name := name
  reader := .varint 32 set
  size m := if get m = 0 then 0 else 1 + sov (get m).toNat
  marshal m := if get m = 0 then some else writeNumber number (get m).toNat

def uint32Fields (number : ℕ) (x : BitVec 32) : WireFields :=
  if x = 0 then .nil else .varint number (x.setWidth 64) .nil

/-- An embedded message that is always there. -/
def embeddedField (number : ℕ) (name : String) (sub : MessageType N) (get : M → N)
    (set : N → M → M) : MessageField M where
  number := number
  name := name
  reader := .lengthDelimited fun s m => do
    let x ← sub.unmarshal (get m) s
    .ok (set x m)
  size m := 1 + sub.size (get m) + sov (sub.size (get m))
  marshal m := writeMessage number (sub.marshalToSizedBuffer (get m))

/-- `repeated string`. -/
def repeatedStringField (number : ℕ) (name : String) (get : M → List (List UInt8))
    (set : List (List UInt8) → M → M) : MessageField M where
  number := number
  name := name
  reader := .lengthDelimited fun s m => .ok (set (get m ++ [s]) m)
  size m := ((get m).map fun s => 1 + s.length + sov s.length).sum
  marshal m := writeEach (writeString number) (get m)

/-- A repeated message: the element that is read starts out as the zero value. -/
def repeatedField (number : ℕ) (name : String) (sub : MessageType N) (zero : N)
    (get : M → List N) (set : List N → M → M) : MessageField M where
  number := number
  name := name
  reader := .lengthDelimited fun s m => do
    let x ← sub.unmarshal zero s
    .ok (set (get m ++ [x]) m)
  size m := ((get m).map fun x => 1 + sub.size x + sov (sub.size x)).sum
  marshal m := writeEach (fun x => writeMessage number (sub.marshalToSizedBuffer x)) (get m)

/-! ## §3 What the kinds write -/

section Emits

theorem encode_one (hn : number < 16) :
    (WireFields.varint number 1 .nil).encode = [tagByte number 0, 1] := by
  have hone : varintBytes 1 = [1] := varintBytes_of_lt (by decide)
  rw [encode_varint_nil hn]
  exact congrArg _ hone

variable {get : M → List UInt8} {set : List UInt8 → M → M}

theorem validNumber_of_lt (hpos : 0 < number) (hn : number < 16) : ValidNumber number :=
  ⟨hpos, by omega⟩

theorem length_encode_bytes {s : List UInt8} (hn : number < 16) :
    (WireFields.bytes number s .nil).encode.length = 1 + s.length + sov s.length := by
  rw [encode_bytes_nil hn, List.length_cons, List.length_append, length_varintBytes]
  omega

theorem length_encode_varint {v : BitVec 64} (hn : number < 16) :
    (WireFields.varint number v .nil).encode.length = 1 + sov v.toNat := by
  rw [encode_varint_nil hn, List.length_cons, length_varintBytes, Nat.add_comm]

theorem emits_stringField (hpos : 0 < number) (hn : number < 16) :
    (stringField number name get set).Emits fun m => stringFields number (get m) where
  wellFormed m := by
    unfold stringFields
    split
    · trivial
    · exact ⟨validNumber_of_lt hpos hn, trivial⟩
  writes m := by
    unfold stringField stringFields
    by_cases hs : get m = []
    · simpa only [hs, if_true, encode_nil] using writes_nil
    · simpa only [hs, if_false] using writes_writeString hn
  size_eq m := by
    unfold stringField stringFields
    by_cases hs : get m = []
    · simp only [hs, if_true]
      rfl
    · simp only [hs, if_false, length_encode_bytes hn]

theorem emits_boolField {get : M → Bool} {set : Bool → M → M} (hpos : 0 < number)
    (hn : number < 16) :
    (boolField number name get set).Emits fun m => boolFields number (get m) where
  wellFormed m := by
    unfold boolFields
    split
    · exact ⟨validNumber_of_lt hpos hn, trivial⟩
    · trivial
  writes m := by
    unfold boolField boolFields
    by_cases hb : get m = true
    · have h := (writes_encodeByte (b := 1)).andThen (writes_encodeByte (b := tagByte number 0))
      simp only [hb, if_true, encode_one hn]
      exact h
    · simpa only [hb, Bool.false_eq_true, if_false, encode_nil] using writes_nil
  size_eq m := by
    unfold boolField boolFields
    by_cases hb : get m = true
    · simp only [hb, if_true, encode_one hn, List.length_cons, List.length_nil]
    · simp only [hb, Bool.false_eq_true, if_false, encode_nil, List.length_nil]

theorem emits_enumField {get : M → BitVec 32} {set : BitVec 32 → M → M} (hpos : 0 < number)
    (hn : number < 16) :
    (enumField number name get set).Emits fun m => enumFields number (get m) where
  wellFormed m := by
    unfold enumFields
    split
    · trivial
    · exact ⟨validNumber_of_lt hpos hn, trivial⟩
  writes m := by
    unfold enumField enumFields
    by_cases hx : get m = 0
    · simpa only [hx, if_true, encode_nil] using writes_nil
    · simpa only [hx, if_false] using writes_writeNumber hn
  size_eq m := by
    unfold enumField enumFields
    by_cases hx : get m = 0
    · simp only [hx, if_true]
      rfl
    · simp only [hx, if_false, length_encode_varint hn]

theorem emits_uint32Field {get : M → BitVec 32} {set : BitVec 32 → M → M} (hpos : 0 < number)
    (hn : number < 16) :
    (uint32Field number name get set).Emits fun m => uint32Fields number (get m) where
  wellFormed m := by
    unfold uint32Fields
    split
    · trivial
    · exact ⟨validNumber_of_lt hpos hn, trivial⟩
  writes m := by
    have hnat : ((get m).setWidth 64).toNat = (get m).toNat := by
      rw [BitVec.toNat_setWidth, Nat.mod_eq_of_lt (by omega)]
    unfold uint32Field uint32Fields
    by_cases hx : get m = 0
    · simpa only [hx, if_true, encode_nil] using writes_nil
    · simpa only [hx, if_false, hnat] using
        writes_writeNumber (v := (get m).setWidth 64) hn
  size_eq m := by
    have hnat : ((get m).setWidth 64).toNat = (get m).toNat := by
      rw [BitVec.toNat_setWidth, Nat.mod_eq_of_lt (by omega)]
    unfold uint32Field uint32Fields
    by_cases hx : get m = 0
    · simp only [hx, if_true]
      rfl
    · simp only [hx, if_false, length_encode_varint hn, hnat]

theorem emits_embeddedField {sub : MessageType N} {emit : N → WireFields} {get : M → N}
    {set : N → M → M} (hsub : sub.Emits emit) (hpos : 0 < number) (hn : number < 16) :
    (embeddedField number name sub get set).Emits fun m =>
      .bytes number (emit (get m)).encode .nil where
  wellFormed _ := ⟨validNumber_of_lt hpos hn, trivial⟩
  writes m := writes_writeMessage hn (hsub.writes (get m))
  size_eq m := by
    rw [length_encode_bytes hn, ← hsub.size_eq]
    rfl

theorem length_repeatedFields {α : Type} {payload : α → List UInt8} {xs : List α}
    (hn : number < 16) :
    (repeatedFields number (xs.map payload)).encode.length =
      (xs.map fun x => 1 + (payload x).length + sov (payload x).length).sum := by
  induction xs with
  | nil => rfl
  | cons x xs ih =>
    have hsingle := length_encode_bytes (s := payload x) hn
    simp only [encode, List.append_nil, List.length_append] at hsingle
    simp only [repeatedFields, List.map_cons, List.foldr_cons, encode, List.length_append,
      List.sum_cons]
    rw [← ih]
    simp only [repeatedFields]
    omega

theorem emits_repeatedStringField {get : M → List (List UInt8)}
    {set : List (List UInt8) → M → M} (hpos : 0 < number) (hn : number < 16) :
    (repeatedStringField number name get set).Emits fun m =>
      repeatedFields number (get m) where
  wellFormed _ := wellFormed_repeatedFields (validNumber_of_lt hpos hn)
  writes m := by
    have h := @writes_writeEach number _ _ id (get m) fun s => writes_writeString hn
    rw [List.map_id] at h
    exact h
  size_eq m := by
    have := @length_repeatedFields number _ id (get m) hn
    rw [List.map_id] at this
    rw [this]
    rfl

theorem emits_repeatedField {sub : MessageType N} {emit : N → WireFields} {zero : N}
    {get : M → List N} {set : List N → M → M} (hsub : sub.Emits emit) (hpos : 0 < number)
    (hn : number < 16) :
    (repeatedField number name sub zero get set).Emits fun m =>
      repeatedFields number ((get m).map fun x => (emit x).encode) where
  wellFormed _ := wellFormed_repeatedFields (validNumber_of_lt hpos hn)
  writes m := writes_writeEach fun x => writes_writeMessage hn (hsub.writes x)
  size_eq m := by
    rw [length_repeatedFields hn]
    simp only [repeatedField, hsub.size_eq]

end Emits

/-! ## §4 What is read back -/

section Receive

variable {msg : MessageType M} {m : M}

theorem receiveAll_stringFields {get : M → List UInt8} {set : List UInt8 → M → M}
    {s : List UInt8} (hkeep : ∀ m, set (get m) m = m)
    (h : msg.field number = some (stringField number name get set)) :
    msg.receiveAll (stringFields number s) m = .ok (set (if s = [] then get m else s) m) := by
  unfold stringFields
  by_cases hs : s = []
  · simp only [hs, if_true, MessageType.receiveAll, hkeep]
  · simp only [hs, if_false, MessageType.receiveAll, MessageType.receive, h, bind, Except.bind]
    rfl

theorem receiveAll_boolFields {get : M → Bool} {set : Bool → M → M} {b : Bool}
    (hkeep : ∀ m, set (get m) m = m)
    (h : msg.field number = some (boolField number name get set)) :
    msg.receiveAll (boolFields number b) m = .ok (set (b || get m) m) := by
  unfold boolFields
  cases b with
  | false =>
    rw [Bool.false_or, hkeep]
    rfl
  | true =>
    simp only [if_true, MessageType.receiveAll, MessageType.receive, h, bind, Except.bind]
    rfl

/-- Extending and cutting off again keeps every value, the negative ones included. -/
theorem setWidth_signExtend (x : BitVec 32) : (x.signExtend 64).setWidth 32 = x := by
  apply BitVec.eq_of_getLsbD_eq
  intro i hi
  simp only [BitVec.getLsbD_setWidth, hi, decide_true, Bool.true_and, BitVec.getLsbD_signExtend,
    if_true]
  rw [decide_eq_true (by omega), Bool.true_and]

theorem receiveAll_enumFields {get : M → BitVec 32} {set : BitVec 32 → M → M} {x : BitVec 32}
    (hkeep : ∀ m, set (get m) m = m)
    (h : msg.field number = some (enumField number name get set)) :
    msg.receiveAll (enumFields number x) m = .ok (set (if x = 0 then get m else x) m) := by
  unfold enumFields
  by_cases hx : x = 0
  · simp only [hx, if_true, MessageType.receiveAll, hkeep]
  · simp only [hx, if_false, MessageType.receiveAll, MessageType.receive, h, bind, Except.bind]
    show Except.ok (set ((x.signExtend 64).setWidth 32) m) = _
    rw [setWidth_signExtend]

theorem receiveAll_uint32Fields {get : M → BitVec 32} {set : BitVec 32 → M → M} {x : BitVec 32}
    (hkeep : ∀ m, set (get m) m = m)
    (h : msg.field number = some (uint32Field number name get set)) :
    msg.receiveAll (uint32Fields number x) m = .ok (set (if x = 0 then get m else x) m) := by
  unfold uint32Fields
  by_cases hx : x = 0
  · simp only [hx, if_true, MessageType.receiveAll, hkeep]
  · simp only [hx, if_false, MessageType.receiveAll, MessageType.receive, h, bind, Except.bind]
    show Except.ok (set ((x.setWidth 64).setWidth 32) m) = _
    rw [BitVec.setWidth_setWidth_of_le x (by decide), BitVec.setWidth_eq]

/-- The accessors of a part of a message. -/
structure LawfulField {α : Type} (get : M → α) (set : α → M → M) : Prop where
  get_set : ∀ x m, get (set x m) = x
  set_set : ∀ x y m, set x (set y m) = set x m
  set_get : ∀ m, set (get m) m = m

/-- A field that is written only when it is not zero is read back into a zero message. -/
theorem ite_eq_zero {α : Type} [DecidableEq α] {x zero : α} :
    (if x = zero then zero else x) = x := by
  split
  · exact Eq.symm ‹_›
  · rfl

theorem receiveAll_embedded {sub : MessageType N} {emit : N → WireFields} {get : M → N}
    {set : N → M → M} {x : N} (hsub : sub.Emits emit)
    (h : msg.field number = some (embeddedField number name sub get set))
    (hlen : (emit x).encode.length < 2 ^ 63) :
    msg.receiveAll (.bytes number (emit x).encode .nil) m =
      (sub.receiveAll (emit x) (get m)).map fun x => set x m := by
  simp only [MessageType.receiveAll, MessageType.receive, h, MessageField.receive, embeddedField,
    unmarshal_encode (hsub.wellFormed x) hlen, bind, Except.bind]
  cases sub.receiveAll (emit x) (get m) <;> rfl

/-- The elements are appended in turn: the induction is on them, over the list read so far. -/
theorem receiveAll_repeatedFields {α : Type} {f : MessageField M} {get : M → List α}
    {set : List α → M → M} {payload : α → List UInt8} {xs : List α}
    (hlaw : LawfulField get set) (h : msg.field number = some f)
    (hread : ∀ x ∈ xs, ∀ m, f.receive (.bytes (payload x)) m = .ok (set (get m ++ [x]) m)) :
    msg.receiveAll (repeatedFields number (xs.map payload)) m = .ok (set (get m ++ xs) m) := by
  induction xs generalizing m with
  | nil =>
    rw [List.append_nil, hlaw.set_get]
    rfl
  | cons x xs ih =>
    have hfirst := hread x List.mem_cons_self m
    have hrest := ih (m := set (get m ++ [x]) m) fun y hy => hread y (List.mem_cons_of_mem _ hy)
    rw [hlaw.get_set, hlaw.set_set, List.append_assoc, List.singleton_append] at hrest
    simp only [repeatedFields, List.map_cons, List.foldr_cons, MessageType.receiveAll,
      MessageType.receive, h, hfirst, bind, Except.bind]
    exact hrest

theorem receiveAll_repeatedStrings {get : M → List (List UInt8)}
    {set : List (List UInt8) → M → M} {xs : List (List UInt8)} (hlaw : LawfulField get set)
    (h : msg.field number = some (repeatedStringField number name get set)) :
    msg.receiveAll (repeatedFields number xs) m = .ok (set (get m ++ xs) m) := by
  have := @receiveAll_repeatedFields _ _ _ m _ _ _ _ id xs hlaw h fun _ _ _ => rfl
  rwa [List.map_id] at this

theorem length_le_of_mem_repeatedFields {s : List UInt8} {xs : List (List UInt8)}
    (h : s ∈ xs) : s.length ≤ (repeatedFields number xs).encode.length := by
  induction xs with
  | nil => cases h
  | cons x xs ih =>
    simp only [repeatedFields, List.foldr_cons, encode, List.length_append]
    rcases List.mem_cons.mp h with rfl | h
    · omega
    · have := ih h
      simp only [repeatedFields] at this
      omega

theorem receiveAll_repeatedMessages {sub : MessageType N} {emit : N → WireFields} {zero : N}
    {get : M → List N} {set : List N → M → M} {xs : List N} (hlaw : LawfulField get set)
    (hsub : sub.Emits emit)
    (h : msg.field number = some (repeatedField number name sub zero get set))
    (hread : ∀ x ∈ xs, sub.receiveAll (emit x) zero = .ok x)
    (hlen : (repeatedFields number (xs.map fun x => (emit x).encode)).encode.length < 2 ^ 63) :
    msg.receiveAll (repeatedFields number (xs.map fun x => (emit x).encode)) m =
      .ok (set (get m ++ xs) m) := by
  apply receiveAll_repeatedFields hlaw h
  intro x hx m
  have hle := @length_le_of_mem_repeatedFields number _ _
    (List.mem_map_of_mem (f := fun x => (emit x).encode) hx)
  simp only [MessageField.receive, repeatedField,
    unmarshal_encode (hsub.wellFormed x) (Nat.lt_of_le_of_lt hle hlen), hread x hx, bind,
    Except.bind]

end Receive

end GenesisEthermint.Foundation
