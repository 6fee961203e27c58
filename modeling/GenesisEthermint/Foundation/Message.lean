import GenesisEthermint.Foundation.Wire

/-!
# Generated Message Code

A message type lists its fields; the generated `Unmarshal` loops over the input and hands each
payload to its field, and the generated `MarshalToSizedBuffer` fills a buffer of the computed
`Size` from the end. Both are stated here once for every list of fields.

The rules a caller uses:
- **reading**: on the bytes of any well-formed sequence of fields, `Unmarshal` does to the
  message what the fields say one after the other, and passes over those it does not know,
- **writing**: a message whose fields write what they say they write is marshalled without an
  index leaving the buffer, to the fields one after the other.
-/

namespace GenesisEthermint.Foundation

/-! ## §1 Message types -/

/-- How a field takes its payload. -/
inductive FieldReader (M : Type) where
  | varint (w : ℕ) (set : BitVec w → M → M)
  | lengthDelimited (set : List UInt8 → M → Except WireError M)

def FieldReader.wireType {M : Type} : FieldReader M → ℕ
  | .varint .. => 0
  | .lengthDelimited .. => 2

/-- A field of a message: its case of the reader's `switch`, and its parts of `Size` and
`MarshalToSizedBuffer`. -/
structure MessageField (M : Type) where
  number : ℕ
  name : String
  reader : FieldReader M
  size : M → ℕ
  marshal : M → Writer

/-- A message, its fields in ascending order. -/
structure MessageType (M : Type) where
  name : String
  fields : List (MessageField M)

variable {M : Type}

open WireFields

/-! ## §2 Reading -/

/-- One case of the `switch`. -/
def MessageField.read (f : MessageField M) (wireType : ℕ) (m : M) (c : Cursor) :
    Except WireError (M × Cursor) :=
  if wireType ≠ f.reader.wireType then .error (.wrongWireType wireType f.name)
  else match f.reader with
    | .varint w set => do
      let (v, c) ← c.varint w
      .ok (set v m, c)
    | .lengthDelimited set => do
      let (s, c) ← c.lengthDelimited
      let m ← set s m
      .ok (m, c)

/-- The default case: back to the tag, and past the whole field. -/
def passOver (m : M) (c : Cursor) : Except WireError (M × Cursor) := do
  let skippy ← skip c.rest
  if 2 ^ 63 ≤ c.iNdEx + skippy then .error .invalidLength
  else if c.rest.length < skippy then .error .unexpectedEOF
  else .ok (m, c.advance skippy)

namespace MessageType

variable (msg : MessageType M)

/-- The case of a field number. -/
def field (fieldNum : ℤ) : Option (MessageField M) := msg.fields.find? fun f => f.number = fieldNum

/-- One round of `Unmarshal`. -/
def unmarshalStep (m : M) (c : Cursor) : Except WireError (M × Cursor) := do
  let (wire, afterTag) ← c.varint 64
  let fieldNum := ((wire >>> 3).setWidth 32).toInt
  let wireType := (wire &&& 7).toNat
  if wireType = 4 then .error (.endGroup msg.name)
  else if fieldNum ≤ 0 then .error (.illegalTag msg.name fieldNum wire.toNat)
  else match msg.field fieldNum with
    | some f => f.read wireType m afterTag
    | none => passOver m c

end MessageType

/-! ### Every round takes bytes off the front -/

theorem length_le_of_read {f : MessageField M} {wireType : ℕ} {m : M} {c : Cursor} {r : M × Cursor}
    (h : f.read wireType m c = .ok r) : r.2.rest.length ≤ c.rest.length := by
  unfold MessageField.read at h
  split at h
  · cases h
  · split at h
    · obtain ⟨x, hx, h⟩ := except_bind_ok_iff.mp h
      cases h
      exact Nat.le_of_lt (Cursor.length_lt_of_varint hx)
    · obtain ⟨x, hx, h⟩ := except_bind_ok_iff.mp h
      obtain ⟨m', -, h⟩ := except_bind_ok_iff.mp h
      cases h
      exact Cursor.length_le_of_lengthDelimited hx

theorem iNdEx_lt_of_varint {w : ℕ} {c : Cursor} {r : BitVec w × Cursor}
    (h : c.varint w = .ok r) : c.iNdEx < r.2.iNdEx := by
  have hlt := Cursor.length_lt_of_varint h
  obtain ⟨x, -, h⟩ := except_bind_ok_iff.mp h
  cases h
  simp only at hlt ⊢
  omega

theorem iNdEx_le_of_skipPayload {wireType depth : ℕ} {c : Cursor} {r : ℕ × Cursor}
    (h : skipPayload wireType depth c = .ok r) : c.iNdEx ≤ r.2.iNdEx := by
  unfold skipPayload at h
  split at h
  · obtain ⟨x, hx, h⟩ := except_bind_ok_iff.mp h
    cases h
    exact Nat.le_of_lt (iNdEx_lt_of_varint hx)
  · cases h
    exact Nat.le_add_right _ _
  · obtain ⟨x, hx, h⟩ := except_bind_ok_iff.mp h
    simp only at h
    split at h
    · cases h
    · cases h
      exact Nat.le_trans (Nat.le_of_lt (iNdEx_lt_of_varint hx)) (Nat.le_add_right _ _)
  · cases h
    exact Nat.le_refl _
  · split at h
    · cases h
    · cases h
      exact Nat.le_refl _
  · cases h
    exact Nat.le_add_right _ _
  · cases h

theorem iNdEx_lt_of_skipStep {depth : ℕ} {c : Cursor} {r : ℕ × Cursor}
    (h : skipStep depth c = .ok r) : c.iNdEx < r.2.iNdEx := by
  unfold skipStep at h
  split at h
  · cases h
  · obtain ⟨x, hx, h⟩ := except_bind_ok_iff.mp h
    obtain ⟨y, hy, h⟩ := except_bind_ok_iff.mp h
    simp only at h
    split at h
    · cases h
    · cases h
      exact Nat.lt_of_lt_of_le (iNdEx_lt_of_varint hx) (iNdEx_le_of_skipPayload hy)

theorem iNdEx_lt_of_skipLoop {depth n : ℕ} {c : Cursor} (h : skipLoop depth c = .ok n) :
    c.iNdEx < n := by
  induction depth, c using skipLoop.induct with
  | case1 depth c e hstep =>
    rw [skipLoop] at h
    split at h
    · cases h
    · rename_i hok
      rw [hstep] at hok
      cases hok
  | case2 depth c c' hstep =>
    rw [skipLoop_of_skipStep hstep, if_pos rfl] at h
    cases h
    exact iNdEx_lt_of_skipStep hstep
  | case3 depth c depth' c' hstep hdepth ih =>
    rw [skipLoop_of_skipStep hstep, if_neg hdepth] at h
    exact Nat.lt_trans (iNdEx_lt_of_skipStep hstep) (ih h)

theorem length_lt_of_passOver {m : M} {c : Cursor} {r : M × Cursor}
    (h : passOver m c = .ok r) : r.2.rest.length < c.rest.length := by
  obtain ⟨n, hn, h⟩ := except_bind_ok_iff.mp h
  have hpos : 0 < n := iNdEx_lt_of_skipLoop hn
  split at h
  · cases h
  · split at h
    · cases h
    · cases h
      simp only [Cursor.advance, List.length_drop]
      omega

namespace MessageType

variable {msg : MessageType M}

theorem length_lt_of_unmarshalStep {m : M} {c : Cursor} {r : M × Cursor}
    (h : msg.unmarshalStep m c = .ok r) : r.2.rest.length < c.rest.length := by
  obtain ⟨x, hx, h⟩ := except_bind_ok_iff.mp h
  simp only at h
  split at h
  · cases h
  · split at h
    · cases h
    · split at h
      · exact Nat.lt_of_le_of_lt (length_le_of_read h) (Cursor.length_lt_of_varint hx)
      · exact length_lt_of_passOver h

variable (msg)

/-- The loop of `Unmarshal`. -/
def unmarshalLoop (m : M) (c : Cursor) : Except WireError M :=
  if c.rest = [] then .ok m
  else match _ : msg.unmarshalStep m c with
    | .error e => .error e
    | .ok (m', c') => unmarshalLoop m' c'
termination_by c.rest.length
decreasing_by exact length_lt_of_unmarshalStep ‹_›

/-- `Unmarshal`, into the message `m`. -/
def unmarshal (m : M) (dAtA : List UInt8) : Except WireError M := msg.unmarshalLoop m ⟨0, dAtA⟩

end MessageType

/-! ## §3 What the reader does to a message -/

/-- What stands behind a tag, as far as a message looks at it. -/
inductive FieldData where
  | varint (v : BitVec 64)
  | bytes (s : List UInt8)
  | other (wireType : ℕ)

def FieldData.wireType : FieldData → ℕ
  | .varint _ => 0
  | .bytes _ => 2
  | .other wireType => wireType

/-- The wire types that begin a field. -/
def FieldData.BeginsField (p : FieldData) : Prop := p.wireType < 8 ∧ p.wireType ≠ 4

/-- The bytes of a payload. -/
def FieldData.Encodes : FieldData → List UInt8 → Prop
  | .varint v, payload => payload = varintBytes v.toNat
  | .bytes s, payload => payload = varintBytes s.length ++ s
  | .other wireType, _ => wireType ≠ 0 ∧ wireType ≠ 2

/-- What a field makes of a payload. -/
def MessageField.receive (f : MessageField M) (p : FieldData) (m : M) : Except WireError M :=
  match f.reader, p with
  | .varint w set, .varint v => .ok (set (v.setWidth w) m)
  | .lengthDelimited set, .bytes s => set s m
  | _, p => .error (.wrongWireType p.wireType f.name)

namespace MessageType

variable (msg : MessageType M)

/-- What a message makes of a field: one it does not know changes nothing. -/
def receive (number : ℕ) (p : FieldData) (m : M) : Except WireError M :=
  match msg.field number with
  | some f => f.receive p m
  | none => .ok m

/-- What a message makes of a sequence of fields. -/
def receiveAll : WireFields → M → Except WireError M
  | .nil, m => .ok m
  | .varint n v more, m => msg.receive n (.varint v) m >>= receiveAll more
  | .fixed64 n _ more, m => msg.receive n (.other 1) m >>= receiveAll more
  | .bytes n s more, m => msg.receive n (.bytes s) m >>= receiveAll more
  | .group n _ more, m => msg.receive n (.other 3) m >>= receiveAll more
  | .fixed32 n _ more, m => msg.receive n (.other 5) m >>= receiveAll more

end MessageType

section Reading

variable {msg : MessageType M} {m : M} {number i : ℕ} {p : FieldData} {payload rest : List UInt8}

theorem read_append {f : MessageField M} (henc : p.Encodes payload)
    (hlen : i + payload.length + rest.length < 2 ^ 63) :
    f.read p.wireType m ⟨i, payload ++ rest⟩ =
      f.receive p m >>= fun m => .ok (m, ⟨i + payload.length, rest⟩) := by
  unfold MessageField.read MessageField.receive
  cases hf : f.reader with
  | varint w set =>
    cases p with
    | varint v =>
      cases henc
      simp [FieldData.wireType, FieldReader.wireType, Cursor.varint_append v.isLt, bind,
        Except.bind, BitVec.ofNat_toNat]
    | bytes s => simp [FieldData.wireType, FieldReader.wireType, bind, Except.bind]
    | other wireType =>
      have hne : wireType ≠ 0 := henc.1
      simp [FieldData.wireType, FieldReader.wireType, hne, bind, Except.bind]
  | lengthDelimited set =>
    cases p with
    | varint v => simp [FieldData.wireType, FieldReader.wireType, bind, Except.bind]
    | bytes s =>
      cases henc
      have := Cursor.lengthDelimited_append hlen
      simp only [FieldData.wireType, FieldReader.wireType, ne_eq, not_true_eq_false, if_false,
        this, bind, Except.bind]
    | other wireType =>
      have hne : wireType ≠ 2 := henc.2
      simp [FieldData.wireType, FieldReader.wireType, hne, bind, Except.bind]

theorem beginsField_varint {v : BitVec 64} : (FieldData.varint v).BeginsField := by
  simp [FieldData.BeginsField, FieldData.wireType]

theorem beginsField_bytes {s : List UInt8} : (FieldData.bytes s).BeginsField := by
  simp [FieldData.BeginsField, FieldData.wireType]

theorem fieldNum_of_tag {wireType : ℕ} (hn : ValidNumber number) (hw : wireType < 8) :
    ((BitVec.ofNat 64 (number * 8 + wireType) >>> 3).setWidth 32).toInt = number := by
  have hnum := hn.2
  have hnat : ((BitVec.ofNat 64 (number * 8 + wireType) >>> 3).setWidth 32).toNat = number := by
    rw [BitVec.toNat_setWidth, BitVec.toNat_ushiftRight, BitVec.toNat_ofNat,
      Nat.mod_eq_of_lt (tag_lt hn hw), Nat.shiftRight_eq_div_pow]
    omega
  rw [BitVec.toInt_eq_toNat_of_lt (by omega), hnat]

theorem passOver_append {field : List UInt8} (hone : OneField field)
    (hlen : i + field.length + rest.length < 2 ^ 63) :
    passOver m ⟨i, field ++ rest⟩ = .ok (m, ⟨i + field.length, rest⟩) := by
  have hskip := @OneField.skip_append rest _ hone (by omega)
  simp only [passOver, hskip, bind, Except.bind]
  rw [if_neg (by omega), if_neg (by simp)]
  simp [Cursor.advance]

/-- A round at a field of a known or unknown number. -/
theorem unmarshalStep_append (hn : ValidNumber number) (hw : p.BeginsField)
    (henc : p.Encodes payload)
    (hone : OneField (tagBytes number p.wireType ++ payload))
    (hlen : i + (tagBytes number p.wireType ++ payload).length + rest.length < 2 ^ 63) :
    msg.unmarshalStep m ⟨i, tagBytes number p.wireType ++ payload ++ rest⟩ =
      msg.receive number p m >>= fun m =>
        .ok (m, ⟨i + (tagBytes number p.wireType ++ payload).length, rest⟩) := by
  have hpos := hn.1
  have htag := @varint_tag _ _ i (payload ++ rest) hn hw.1
  rw [MessageType.unmarshalStep, List.append_assoc]
  simp only [htag, bind, Except.bind, wireType_of_tag hn hw.1, fieldNum_of_tag hn hw.1]
  rw [if_neg hw.2, if_neg (by omega), MessageType.receive]
  cases hf : msg.field number with
  | some f =>
    rw [List.length_append] at hlen ⊢
    have := @read_append _ m (i + (tagBytes number p.wireType).length) p payload rest f henc
      (by omega)
    simpa only [bind, Except.bind, Nat.add_assoc] using this
  | none =>
    have := passOver_append (m := m) hone hlen
    rwa [List.append_assoc] at this

theorem unmarshalLoop_of_step_ok {c c' : Cursor} {m' : M} (hne : c.rest ≠ [])
    (h : msg.unmarshalStep m c = .ok (m', c')) :
    msg.unmarshalLoop m c = msg.unmarshalLoop m' c' := by
  rw [MessageType.unmarshalLoop, if_neg hne]
  split
  · rename_i herr
    rw [h] at herr
    cases herr
  · rename_i hok
    rw [h] at hok
    cases hok
    rfl

theorem unmarshalLoop_of_step_error {c : Cursor} {e : WireError} (hne : c.rest ≠ [])
    (h : msg.unmarshalStep m c = .error e) : msg.unmarshalLoop m c = .error e := by
  rw [MessageType.unmarshalLoop, if_neg hne]
  split
  · rename_i herr
    rw [h] at herr
    cases herr
    rfl
  · rename_i hok
    rw [h] at hok
    cases hok

@[simp] theorem unmarshalLoop_nil : msg.unmarshalLoop m ⟨i, []⟩ = .ok m := by
  rw [MessageType.unmarshalLoop, if_pos rfl]

/-- The loop at a field: what the message makes of it, and then the rest. -/
theorem unmarshalLoop_field {more : List UInt8} {after : M → Except WireError M}
    (hn : ValidNumber number) (hw : p.BeginsField) (henc : p.Encodes payload)
    (hone : OneField (tagBytes number p.wireType ++ payload))
    (hmore : ∀ m i rest, i + more.length + rest.length < 2 ^ 63 →
      msg.unmarshalLoop m ⟨i, more ++ rest⟩ =
        after m >>= fun m => msg.unmarshalLoop m ⟨i + more.length, rest⟩)
    (hlen : i + (tagBytes number p.wireType ++ payload ++ more).length + rest.length < 2 ^ 63) :
    msg.unmarshalLoop m ⟨i, tagBytes number p.wireType ++ payload ++ more ++ rest⟩ =
      (msg.receive number p m >>= after) >>= fun m =>
        msg.unmarshalLoop m ⟨i + (tagBytes number p.wireType ++ payload ++ more).length, rest⟩ := by
  have hne : tagBytes number p.wireType ++ payload ++ (more ++ rest) ≠ [] := by
    have := @length_tagBytes_pos number p.wireType
    rw [List.append_assoc]
    exact List.append_ne_nil_of_left_ne_nil (List.ne_nil_of_length_pos this) _
  rw [List.length_append] at hlen
  have hlen' : i + (tagBytes number p.wireType ++ payload).length + (more ++ rest).length <
      2 ^ 63 := by
    rw [@List.length_append _ more rest]
    omega
  have hstep := @unmarshalStep_append _ msg m _ i _ _ (more ++ rest) hn hw henc hone hlen'
  rw [List.append_assoc]
  cases hr : msg.receive number p m with
  | error e =>
    rw [hr] at hstep
    rw [unmarshalLoop_of_step_error hne hstep]
    rfl
  | ok m' =>
    rw [hr] at hstep
    rw [unmarshalLoop_of_step_ok hne hstep, hmore _ _ _ (by omega)]
    simp only [bind, Except.bind, List.length_append, Nat.add_assoc]

/-- **Reading**: on a well-formed sequence of fields, whatever follows it, the loop makes of
the message what the fields say in turn, and goes on behind them. -/
theorem unmarshalLoop_encode {ws : WireFields} (h : ws.WellFormed) :
    ∀ m i rest, i + ws.encode.length + rest.length < 2 ^ 63 →
      msg.unmarshalLoop m ⟨i, ws.encode ++ rest⟩ =
        msg.receiveAll ws m >>= fun m => msg.unmarshalLoop m ⟨i + ws.encode.length, rest⟩ := by
  induction ws with
  | nil =>
    intro m i rest _
    rfl
  | varint n v more ih =>
    intro m i rest
    exact unmarshalLoop_field (p := .varint v) h.1 beginsField_varint rfl
      (oneField_varint h.1) (ih h.2)
  | fixed64 n b more ih =>
    intro m i rest
    exact unmarshalLoop_field (p := .other 1) h.1.1 ⟨by decide, by decide⟩
      ⟨by decide, by decide⟩ (oneField_fixed64 h.1.1 h.1.2) (ih h.2)
  | bytes n s more ih =>
    intro m i rest
    exact unmarshalLoop_field (p := .bytes s) h.1 beginsField_bytes rfl
      (oneField_bytes h.1) (ih h.2)
  | group n inside more _ ih =>
    intro m i rest
    exact unmarshalLoop_field (p := .other 3) h.1.1 ⟨by decide, by decide⟩
      ⟨by decide, by decide⟩ (oneField_group h.1.1 (skipLoop_encode h.1.2)) (ih h.2)
  | fixed32 n b more ih =>
    intro m i rest
    exact unmarshalLoop_field (p := .other 5) h.1.1 ⟨by decide, by decide⟩
      ⟨by decide, by decide⟩ (oneField_fixed32 h.1.1 h.1.2) (ih h.2)

/-- `Unmarshal` of a well-formed sequence. -/
theorem unmarshal_encode {ws : WireFields} (h : ws.WellFormed)
    (hlen : ws.encode.length < 2 ^ 63) : msg.unmarshal m ws.encode = msg.receiveAll ws m := by
  have hloop := @unmarshalLoop_encode _ msg _ h m 0 [] (by simpa using hlen)
  rw [List.append_nil] at hloop
  rw [MessageType.unmarshal, hloop]
  cases msg.receiveAll ws m with
  | error e => rfl
  | ok m' => exact unmarshalLoop_nil

@[simp] theorem receiveAll_nil : msg.receiveAll .nil m = .ok m := rfl

theorem receiveAll_append {us ws : WireFields} :
    msg.receiveAll (us.append ws) m = msg.receiveAll us m >>= msg.receiveAll ws := by
  induction us generalizing m with
  | nil => rfl
  | varint n v more ih | fixed64 n b more ih | bytes n s more ih | fixed32 n b more ih =>
    simp only [WireFields.append, MessageType.receiveAll, ih, bind, Except.bind]
    split <;> rfl
  | group n inside more _ ih =>
    simp only [WireFields.append, MessageType.receiveAll, ih, bind, Except.bind]
    split <;> rfl

end Reading

/-! ## §4 Writing -/

namespace MessageType

variable (msg : MessageType M)

/-- `Size`. -/
def size (m : M) : ℕ := (msg.fields.map fun f => f.size m).sum

/-- `MarshalToSizedBuffer`: the last field first. -/
def marshalToSizedBuffer (m : M) : Writer :=
  msg.fields.foldr (fun f w => w.andThen (f.marshal m)) some

/-- `Marshal`; `none` is an index out of range. -/
def marshal (m : M) : Option (List UInt8) := do
  let size := msg.size m
  let buf ← msg.marshalToSizedBuffer m ⟨List.replicate size 0, size⟩
  return buf.dAtA.take (buf.dAtA.length - buf.i)

end MessageType

/-- The field writes the wire fields it is said to write, in as many bytes as it counts. -/
structure MessageField.Emits (f : MessageField M) (emit : M → WireFields) : Prop where
  wellFormed : ∀ m, (emit m).WellFormed
  writes : ∀ m, Writes (f.marshal m) (emit m).encode
  size_eq : ∀ m, f.size m = (emit m).encode.length

/-- A message writes the wire fields it is said to write. -/
structure MessageType.Emits (msg : MessageType M) (emit : M → WireFields) : Prop where
  wellFormed : ∀ m, (emit m).WellFormed
  writes : ∀ m, Writes (msg.marshalToSizedBuffer m) (emit m).encode
  size_eq : ∀ m, msg.size m = (emit m).encode.length

section Writing

variable {msg : MessageType M} {emit : M → WireFields} {m a : M}

theorem emits_nil {name : String} : MessageType.Emits (M := M) ⟨name, []⟩ fun _ => .nil where
  wellFormed _ := trivial
  writes _ := writes_nil
  size_eq _ := rfl

theorem MessageField.Emits.cons {name : String} {f : MessageField M} {fs : List (MessageField M)}
    {first more : M → WireFields} (hf : f.Emits first)
    (hfs : MessageType.Emits ⟨name, fs⟩ more) :
    MessageType.Emits ⟨name, f :: fs⟩ fun m => (first m).append (more m) where
  wellFormed m := wellFormed_append.mpr ⟨hf.wellFormed m, hfs.wellFormed m⟩
  writes m := by
    rw [encode_append]
    exact (hfs.writes m).andThen (hf.writes m)
  size_eq m := by
    rw [encode_append, List.length_append, ← hf.size_eq, ← hfs.size_eq]
    simp [MessageType.size]

/-- **Writing**: no index leaves the buffer, and the result is the fields in turn. -/
theorem MessageType.Emits.marshal_eq (h : msg.Emits emit) :
    msg.marshal m = some (emit m).encode := by
  have hw := h.writes m (List.replicate (msg.size m) 0) [] (by simp [h.size_eq])
  have hzero : msg.size m - (emit m).encode.length = 0 := by
    rw [h.size_eq, Nat.sub_self]
  simp only [List.append_nil, List.length_replicate, hzero, List.take_zero, List.nil_append] at hw
  simp [MessageType.marshal, hw]

/-- `Unmarshal` of what `Marshal` wrote, into any message. -/
theorem MessageType.Emits.reads_marshal (h : msg.Emits emit) (hlen : msg.size m < 2 ^ 63) :
    msg.marshal m = some (emit m).encode ∧
      msg.unmarshal a (emit m).encode = msg.receiveAll (emit m) a := by
  rw [h.size_eq] at hlen
  exact ⟨h.marshal_eq, unmarshal_encode (h.wellFormed m) hlen⟩

end Writing

end GenesisEthermint.Foundation
