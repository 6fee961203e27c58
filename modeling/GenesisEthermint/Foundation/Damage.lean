import GenesisEthermint.Foundation.Fields

/-!
# Unknown and Missing Bytes

What a reader makes of bytes that are not exactly what its own writer wrote: fields another
version of the message added, anywhere among the known ones, and an input cut short.
-/

namespace GenesisEthermint.Foundation

open WireFields

/-! ## §1 Fields of another version -/

/-- The fields whose number passes the test. -/
def WireFields.keep (q : ℕ → Bool) : WireFields → WireFields
  | .nil => .nil
  | .varint n v more => if q n then .varint n v (more.keep q) else more.keep q
  | .fixed64 n b more => if q n then .fixed64 n b (more.keep q) else more.keep q
  | .bytes n s more => if q n then .bytes n s (more.keep q) else more.keep q
  | .group n inside more => if q n then .group n inside (more.keep q) else more.keep q
  | .fixed32 n b more => if q n then .fixed32 n b (more.keep q) else more.keep q

variable {M : Type} {msg : MessageType M} {m : M}

/-- The numbers a message has a field for. -/
def MessageType.knows (msg : MessageType M) (n : ℕ) : Bool := (msg.field n).isSome

theorem receive_of_not_knows {n : ℕ} {p : FieldData} (h : ¬ msg.knows n = true) :
    msg.receive n p m = .ok m := by
  rw [MessageType.knows, Bool.not_eq_true, Option.isSome_eq_false_iff, Option.isNone_iff_eq_none]
    at h
  rw [MessageType.receive, h]

/-- **A message reads only the fields it knows**, whatever stands between them. -/
theorem receiveAll_keep {ws : WireFields} :
    msg.receiveAll (ws.keep msg.knows) = msg.receiveAll ws := by
  have hunknown : ∀ {n : ℕ} {p : FieldData} {after : M → Except WireError M},
      ¬ msg.knows n = true → (fun m => msg.receive n p m >>= after) = after := by
    intro n p after hn
    funext m
    rw [receive_of_not_knows hn]
    rfl
  induction ws with
  | nil => rfl
  | varint n v more ih | fixed64 n b more ih | bytes n s more ih | fixed32 n b more ih =>
    unfold keep
    split
    · funext m
      simp only [MessageType.receiveAll, ih]
    · rw [ih]
      exact (hunknown ‹_›).symm
  | group n inside more _ ih =>
    unfold keep
    split
    · funext m
      simp only [MessageType.receiveAll, ih]
    · rw [ih]
      exact (hunknown ‹_›).symm

/-! ## §2 An input cut short -/

section Cut

variable {w k shift low v i : ℕ} {f : MessageField M} {p : FieldData} {payload : List UInt8}

/-- The induction follows the digits left, as for a whole varint. -/
theorem readVarint_take_of_fits {acc : BitVec w} {d : ℕ} (hd : 7 * d + shift = 70)
    (hpos : 0 < d) (hv : v < 2 ^ (7 * d)) (hk : k < (varintBytes v).length) :
    readVarint shift acc ((varintBytes v).take k) = .error .unexpectedEOF := by
  induction d generalizing v k shift acc with
  | zero => exact absurd hpos (Nat.lt_irrefl 0)
  | succ d ih =>
    cases k with
    | zero => rw [List.take_zero, readVarint, if_neg (by omega)]
    | succ k =>
      by_cases hlast : v < 128
      · rw [varintBytes_of_lt hlast, List.length_singleton] at hk
        omega
      · rw [varintBytes_of_le (by omega)] at hk ⊢
        have hb : ¬ UInt8.ofNat (v % 128 + 128) < 0x80 := by
          rw [UInt8.lt_iff_toNat_lt, UInt8.toNat_ofNat']
          show ¬ (v % 128 + 128) % 256 < 128
          omega
        have hd' : 0 < d := by
          apply Nat.pos_of_ne_zero
          rintro rfl
          exact hlast hv
        have hdiv : v / 128 < 2 ^ (7 * d) := by
          rw [Nat.div_lt_iff_lt_mul (by decide)]
          rw [Nat.mul_succ, Nat.pow_add] at hv
          exact hv
        rw [List.take_succ_cons, readVarint_cons (by omega), if_neg hb]
        exact ih (by omega) hd' hdiv (Nat.lt_of_succ_lt_succ hk)

theorem varint_take (hv : v < 2 ^ 64) (hk : k < (varintBytes v).length) :
    Cursor.varint w ⟨i, (varintBytes v).take k⟩ = .error .unexpectedEOF := by
  have hten : v < 2 ^ (7 * 10) := Nat.lt_trans hv (by decide)
  simp only [Cursor.varint,
    @readVarint_take_of_fits _ _ 0 _ _ _ rfl (by decide) hten hk, bind, Except.bind]

/-- A counted string that is cut: in its count, or in its bytes. -/
theorem lengthDelimited_take {s : List UInt8}
    (hk : k < (varintBytes s.length ++ s).length)
    (hlen : i + (varintBytes s.length ++ s).length < 2 ^ 63) :
    Cursor.lengthDelimited ⟨i, (varintBytes s.length ++ s).take k⟩ = .error .unexpectedEOF := by
  rw [List.length_append] at hk hlen
  by_cases hcount : k < (varintBytes s.length).length
  · rw [List.take_append_of_le_length (Nat.le_of_lt hcount)]
    simp only [Cursor.lengthDelimited, varint_take (show s.length < 2 ^ 64 by omega) hcount, bind,
      Except.bind]
  · have hint := Cursor.toInt_ofNat_of_lt (n := s.length) (by omega)
    have hnat := Cursor.toNat_ofNat_of_lt (n := s.length) (by omega)
    rw [List.take_append, List.take_of_length_le (by omega)]
    simp only [Cursor.lengthDelimited,
      Cursor.varint_append (show s.length < 2 ^ 64 by omega), bind, Except.bind, hint, hnat]
    rw [if_neg (by omega), if_neg (by omega), if_pos (by rw [List.length_take]; omega)]

theorem read_take (henc : p.Encodes payload) (hw : p.wireType = f.reader.wireType)
    (hk : k < payload.length) (hlen : i + payload.length < 2 ^ 63) :
    f.read p.wireType m ⟨i, payload.take k⟩ = .error .unexpectedEOF := by
  rw [MessageField.read, if_neg (not_not_intro hw)]
  cases hf : f.reader with
  | varint w set =>
    rw [hf] at hw
    cases p with
    | varint v =>
      cases henc
      simp only [varint_take v.isLt hk, bind, Except.bind]
    | bytes s => cases hw
    | other wireType => exact absurd hw henc.1
  | lengthDelimited set =>
    rw [hf] at hw
    cases p with
    | varint v => cases hw
    | bytes s =>
      cases henc
      simp only [lengthDelimited_take hk hlen, bind, Except.bind]
    | other wireType => exact absurd hw henc.2

variable {number : ℕ}

theorem beginsField_of_reader (hw : p.wireType = f.reader.wireType) : p.BeginsField := by
  rw [FieldData.BeginsField, hw]
  cases f.reader with
  | varint w set => simp [FieldReader.wireType]
  | lengthDelimited set => simp [FieldReader.wireType]

/-- A round at a known field that is cut, in its tag or in its payload. -/
theorem unmarshalStep_take (hn : ValidNumber number) (hf : msg.field number = some f)
    (hw : p.wireType = f.reader.wireType) (henc : p.Encodes payload)
    (hk : k < (tagBytes number p.wireType ++ payload).length)
    (hlen : i + (tagBytes number p.wireType ++ payload).length < 2 ^ 63) :
    msg.unmarshalStep m ⟨i, (tagBytes number p.wireType ++ payload).take k⟩ =
      .error .unexpectedEOF := by
  have hwt := beginsField_of_reader hw
  rw [List.length_append] at hk hlen
  by_cases htag : k < (tagBytes number p.wireType).length
  · rw [List.take_append_of_le_length (Nat.le_of_lt htag)]
    simp only [MessageType.unmarshalStep, tagBytes, varint_take (tag_lt hn hwt.1) htag, bind,
      Except.bind]
  · have hpos := hn.1
    have hread := read_take (m := m) (i := i + (tagBytes number p.wireType).length)
      (k := k - (tagBytes number p.wireType).length) henc hw (by omega) (by omega)
    have hvarint := @varint_tag _ _ i
      (payload.take (k - (tagBytes number p.wireType).length)) hn hwt.1
    rw [List.take_append, List.take_of_length_le (by omega)]
    simp only [MessageType.unmarshalStep, hvarint, bind, Except.bind, wireType_of_tag hn hwt.1,
      fieldNum_of_tag hn hwt.1]
    rw [if_neg hwt.2, if_neg (by omega), hf]
    exact hread

/-- The loop at a known field that is cut. -/
theorem unmarshalLoop_cut (hn : ValidNumber number) (hf : msg.field number = some f)
    (hw : p.wireType = f.reader.wireType) (henc : p.Encodes payload)
    (hk : k < (tagBytes number p.wireType ++ payload).length) (hpos : 0 < k)
    (hlen : i + (tagBytes number p.wireType ++ payload).length < 2 ^ 63) :
    msg.unmarshalLoop m ⟨i, (tagBytes number p.wireType ++ payload).take k⟩ =
      .error .unexpectedEOF := by
  have hne : (tagBytes number p.wireType ++ payload).take k ≠ [] := by
    apply List.ne_nil_of_length_pos
    rw [List.length_take]
    omega
  exact unmarshalLoop_of_step_error hne (unmarshalStep_take hn hf hw henc hk hlen)

/-- The loop at a known field that is whole. -/
theorem unmarshalLoop_past {rest : List UInt8} {m' : M} (hn : ValidNumber number)
    (hw : p.BeginsField) (henc : p.Encodes payload)
    (hone : OneField (tagBytes number p.wireType ++ payload))
    (hreceive : msg.receive number p m = .ok m')
    (hlen : i + (tagBytes number p.wireType ++ payload).length + rest.length < 2 ^ 63) :
    msg.unmarshalLoop m ⟨i, tagBytes number p.wireType ++ payload ++ rest⟩ =
      msg.unmarshalLoop m' ⟨i + (tagBytes number p.wireType ++ payload).length, rest⟩ := by
  have hne : tagBytes number p.wireType ++ payload ++ rest ≠ [] := by
    have := @length_tagBytes_pos number p.wireType
    apply List.ne_nil_of_length_pos
    simp only [List.length_append]
    omega
  have hstep := @unmarshalStep_append _ msg m _ _ _ _ _ hn hw henc hone hlen
  rw [hreceive] at hstep
  exact unmarshalLoop_of_step_ok hne hstep

end Cut

/-- A sequence of fields that the message knows, of the wire types it expects. -/
def MessageType.Expects (msg : MessageType M) : WireFields → Prop
  | .nil => True
  | .varint n _ more => (∃ f, msg.field n = some f ∧ f.reader.wireType = 0) ∧ msg.Expects more
  | .bytes n _ more => (∃ f, msg.field n = some f ∧ f.reader.wireType = 2) ∧ msg.Expects more
  | .fixed64 .. | .group .. | .fixed32 .. => False

theorem expects_append {us ws : WireFields} :
    msg.Expects (us.append ws) ↔ msg.Expects us ∧ msg.Expects ws := by
  induction us with
  | nil => simp [WireFields.append, MessageType.Expects]
  | varint n v more ih | bytes n s more ih =>
    simp only [WireFields.append, MessageType.Expects, ih, and_assoc]
  | fixed64 n b more ih | fixed32 n b more ih =>
    simp [WireFields.append, MessageType.Expects]
  | group n inside more _ ih => simp [WireFields.append, MessageType.Expects]

/-- What the loop makes of the first bytes of a sequence: it runs out inside a field, or the
cut is between two fields and it has read those in front of it. -/
def CutRead (msg : MessageType M) (m : M) (ws : WireFields) (i k : ℕ) : Prop :=
  msg.unmarshalLoop m ⟨i, ws.encode.take k⟩ = .error .unexpectedEOF ∨
    ∃ us vs, us.append vs = ws ∧ ws.encode.take k = us.encode ∧
      msg.unmarshalLoop m ⟨i, ws.encode.take k⟩ = msg.receiveAll us m

theorem cutRead_zero {ws : WireFields} {i : ℕ} : CutRead msg m ws i 0 := by
  refine .inr ⟨.nil, ws, rfl, List.take_zero, ?_⟩
  rw [List.take_zero, unmarshalLoop_nil]
  rfl

/-- One field in front of a sequence: `cons` puts it there. -/
theorem CutRead.cons {cons : WireFields → WireFields} {more : WireFields} {f : MessageField M}
    {m' : M} {number i k : ℕ} {p : FieldData} {payload : List UInt8} (hn : ValidNumber number)
    (hf : msg.field number = some f) (hw : p.wireType = f.reader.wireType)
    (henc : p.Encodes payload) (hone : OneField (tagBytes number p.wireType ++ payload))
    (hreceive : msg.receive number p m = .ok m')
    (hencode : ∀ ws, (cons ws).encode = tagBytes number p.wireType ++ payload ++ ws.encode)
    (happend : ∀ us vs, (cons us).append vs = cons (us.append vs))
    (hreceiveAll : ∀ ws, msg.receiveAll (cons ws) m = msg.receiveAll ws m')
    (hlen : i + (cons more).encode.length < 2 ^ 63)
    (hmore : ∀ k, CutRead msg m' more (i + (tagBytes number p.wireType ++ payload).length) k) :
    CutRead msg m (cons more) i k := by
  rw [hencode, List.length_append] at hlen
  by_cases hzero : k = 0
  · rw [hzero]
    exact cutRead_zero
  by_cases hk : k < (tagBytes number p.wireType ++ payload).length
  · apply Or.inl
    rw [hencode, List.take_append_of_le_length (Nat.le_of_lt hk)]
    exact unmarshalLoop_cut hn hf hw henc hk (by omega) (by omega)
  · have htake : (cons more).encode.take k = tagBytes number p.wireType ++ payload ++
        more.encode.take (k - (tagBytes number p.wireType ++ payload).length) := by
      rw [hencode, List.take_append, List.take_of_length_le (Nat.le_of_not_lt hk)]
    have hpast := @unmarshalLoop_past _ _ m i _ _ _
      (more.encode.take (k - (tagBytes number p.wireType ++ payload).length)) _ hn
      (beginsField_of_reader hw) henc hone hreceive (by rw [List.length_take]; omega)
    rcases hmore (k - (tagBytes number p.wireType ++ payload).length) with
      heof | ⟨us, vs, happ, henc', hread⟩
    · apply Or.inl
      rw [htake, hpast, heof]
    · refine .inr ⟨cons us, vs, by rw [happend, happ], ?_, ?_⟩
      · rw [htake, hencode, henc']
      · rw [htake, hpast, hread, hreceiveAll]

/-- **An input cut short** is refused, or it is the fields in front of the cut: no field is
ever read with only a part of its bytes. -/
theorem cutRead_of_expects {ws : WireFields} (hwf : ws.WellFormed) (hexpects : msg.Expects ws) :
    ∀ {m mEnd i} k, msg.receiveAll ws m = .ok mEnd → i + ws.encode.length < 2 ^ 63 →
      CutRead msg m ws i k := by
  induction ws with
  | nil =>
    intro m mEnd i k _ _
    refine .inr ⟨.nil, .nil, rfl, List.take_nil, ?_⟩
    rw [encode_nil, List.take_nil, unmarshalLoop_nil]
    rfl
  | varint n v more ih =>
    intro m mEnd i k hall hlen
    obtain ⟨⟨f, hf, hw⟩, hexpects⟩ := hexpects
    obtain ⟨m', hreceive, hall⟩ := except_bind_ok_iff.mp hall
    have hbound := hlen
    simp only [encode, List.length_append] at hbound
    refine @CutRead.cons _ _ _ (.varint n v) _ _ m' _ _ _ (.varint v) _ hwf.1 hf hw.symm rfl
      (oneField_varint hwf.1) hreceive (fun _ => rfl) (fun _ _ => rfl) (fun ws => ?_) hlen
      (fun k => ih hwf.2 hexpects k hall ?_)
    · rw [MessageType.receiveAll, hreceive]
      rfl
    · simp only [FieldData.wireType, List.length_append]
      omega
  | bytes n s more ih =>
    intro m mEnd i k hall hlen
    obtain ⟨⟨f, hf, hw⟩, hexpects⟩ := hexpects
    obtain ⟨m', hreceive, hall⟩ := except_bind_ok_iff.mp hall
    have hbound := hlen
    simp only [encode, List.length_append] at hbound
    refine @CutRead.cons _ _ _ (.bytes n s) _ _ m' _ _ _ (.bytes s) _ hwf.1 hf hw.symm rfl
      (oneField_bytes hwf.1) hreceive (fun _ => rfl) (fun _ _ => rfl) (fun ws => ?_) hlen
      (fun k => ih hwf.2 hexpects k hall ?_)
    · rw [MessageType.receiveAll, hreceive]
      rfl
    · simp only [FieldData.wireType, List.length_append]
      omega
  | fixed64 n b more ih => exact absurd hexpects id
  | group n inside more _ ih => exact absurd hexpects id
  | fixed32 n b more ih => exact absurd hexpects id

end GenesisEthermint.Foundation
