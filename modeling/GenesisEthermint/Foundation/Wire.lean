import GenesisEthermint.Foundation.Exec
import GenesisEthermint.Foundation.Varint

/-!
# Tagged Messages

A message is a sequence of fields, each a tag (the field's number and its wire type) and a
payload. A reader dispatches on the number, and passes over a number it does not know by its
wire type alone: a varint, eight bytes, a counted string, four bytes, or a group of fields
closed by an end tag, to any depth.

Indices are Go `int`s: an index that would pass `2 ^ 63` has become negative, which the
readers check for.
-/

namespace GenesisEthermint.Foundation

/-! ## §1 Cursors -/

/-- Where a reader stands: the index into the input, and the input from there on. -/
structure Cursor where
  iNdEx : ℕ
  rest : List UInt8
  deriving DecidableEq, Repr

namespace Cursor

/-- `iNdEx += n`. -/
def advance (n : ℕ) (c : Cursor) : Cursor := ⟨c.iNdEx + n, c.rest.drop n⟩

/-- A varint of `w` bits. -/
def varint (w : ℕ) (c : Cursor) : Except WireError (BitVec w × Cursor) := do
  let (v, rest) ← readVarint 0 (0#w) c.rest
  return (v, ⟨c.iNdEx + (c.rest.length - rest.length), rest⟩)

/-- A length, and that many bytes. -/
def lengthDelimited (c : Cursor) : Except WireError (List UInt8 × Cursor) := do
  let (len, c) ← c.varint 64
  if len.toInt < 0 then .error .invalidLength
  else if 2 ^ 63 ≤ c.iNdEx + len.toNat then .error .invalidLength
  else if c.rest.length < len.toNat then .error .unexpectedEOF
  else .ok (c.rest.take len.toNat, c.advance len.toNat)

variable {w i : ℕ} {c : Cursor} {rest s : List UInt8}

theorem varint_append {v : ℕ} (hv : v < 2 ^ 64) :
    varint w ⟨i, varintBytes v ++ rest⟩ =
      .ok (BitVec.ofNat w v, ⟨i + (varintBytes v).length, rest⟩) := by
  have hread := @readVarint_varintBytes _ w rest hv
  simp only [varint, hread, bind, Except.bind, pure, Except.pure, List.length_append,
    Nat.add_sub_cancel]

/-- Reading a varint takes bytes off the front. -/
theorem length_lt_of_varint {r : BitVec w × Cursor} (h : c.varint w = .ok r) :
    r.2.rest.length < c.rest.length := by
  obtain ⟨x, hx, h⟩ := except_bind_ok_iff.mp h
  cases h
  exact length_lt_of_readVarint hx

theorem length_advance_le {n : ℕ} : (c.advance n).rest.length ≤ c.rest.length := by
  simp [advance]

theorem toInt_ofNat_of_lt {n : ℕ} (h : n < 2 ^ 63) : (BitVec.ofNat 64 n).toInt = n := by
  rw [BitVec.toInt_ofNat', Int.bmod_def]
  omega

theorem toNat_ofNat_of_lt {n : ℕ} (h : n < 2 ^ 63) : (BitVec.ofNat 64 n).toNat = n := by
  rw [BitVec.toNat_ofNat, Nat.mod_eq_of_lt (by omega)]

/-- A counted string whose end is a valid index is read back. -/
theorem lengthDelimited_append
    (h : i + (varintBytes s.length ++ s).length + rest.length < 2 ^ 63) :
    lengthDelimited ⟨i, varintBytes s.length ++ s ++ rest⟩ =
      .ok (s, ⟨i + (varintBytes s.length ++ s).length, rest⟩) := by
  rw [List.length_append] at h
  have hv := @varint_append 64 i (s ++ rest) s.length (by omega)
  have hint := toInt_ofNat_of_lt (n := s.length) (by omega)
  have hnat := toNat_ofNat_of_lt (n := s.length) (by omega)
  simp only [lengthDelimited, List.append_assoc, hv, bind, Except.bind, hint, hnat]
  rw [if_neg (by omega), if_neg (by omega), if_neg (by simp)]
  simp [advance, Nat.add_assoc]

theorem length_le_of_lengthDelimited {r : List UInt8 × Cursor}
    (h : c.lengthDelimited = .ok r) : r.2.rest.length ≤ c.rest.length := by
  obtain ⟨x, hx, h⟩ := except_bind_ok_iff.mp h
  simp only at h
  split at h
  · cases h
  · split at h
    · cases h
    · split at h
      · cases h
      · cases h
        exact Nat.le_trans length_advance_le (Nat.le_of_lt (length_lt_of_varint hx))

end Cursor

/-! ## §2 Passing over a field -/

/-- What follows a tag of the given wire type: the depth of open groups, and the cursor. -/
def skipPayload (wireType depth : ℕ) (c : Cursor) : Except WireError (ℕ × Cursor) :=
  match wireType with
  | 0 => do
    let (_, c) ← c.varint 64
    .ok (depth, c)
  | 1 => .ok (depth, c.advance 8)
  | 2 => do
    let (len, c) ← c.varint 64
    if len.toInt < 0 then .error .invalidLength else .ok (depth, c.advance len.toNat)
  | 3 => .ok (depth + 1, c)
  | 4 => if depth = 0 then .error .unexpectedEndOfGroup else .ok (depth - 1, c)
  | 5 => .ok (depth, c.advance 4)
  | wireType => .error (.illegalWireType wireType)

/-- One round of the skipper. -/
def skipStep (depth : ℕ) (c : Cursor) : Except WireError (ℕ × Cursor) :=
  if c.rest = [] then .error .unexpectedEOF
  else do
    let (wire, c) ← c.varint 64
    let (depth, c) ← skipPayload (wire &&& 7).toNat depth c
    if 2 ^ 63 ≤ c.iNdEx then .error .invalidLength else .ok (depth, c)

theorem length_le_of_skipPayload {wireType depth : ℕ} {c : Cursor} {r : ℕ × Cursor}
    (h : skipPayload wireType depth c = .ok r) : r.2.rest.length ≤ c.rest.length := by
  unfold skipPayload at h
  split at h
  · obtain ⟨x, hx, h⟩ := except_bind_ok_iff.mp h
    cases h
    exact Nat.le_of_lt (Cursor.length_lt_of_varint hx)
  · cases h
    exact Cursor.length_advance_le
  · obtain ⟨x, hx, h⟩ := except_bind_ok_iff.mp h
    simp only at h
    split at h
    · cases h
    · cases h
      exact Nat.le_trans Cursor.length_advance_le (Nat.le_of_lt (Cursor.length_lt_of_varint hx))
  · cases h
    exact Nat.le_refl _
  · split at h
    · cases h
    · cases h
      exact Nat.le_refl _
  · cases h
    exact Cursor.length_advance_le
  · cases h

/-- Every round reads a tag. -/
theorem length_lt_of_skipStep {depth : ℕ} {c : Cursor} {r : ℕ × Cursor}
    (h : skipStep depth c = .ok r) : r.2.rest.length < c.rest.length := by
  unfold skipStep at h
  split at h
  · cases h
  · obtain ⟨x, hx, h⟩ := except_bind_ok_iff.mp h
    obtain ⟨y, hy, h⟩ := except_bind_ok_iff.mp h
    simp only at h
    split at h
    · cases h
    · cases h
      exact Nat.lt_of_le_of_lt (length_le_of_skipPayload hy) (Cursor.length_lt_of_varint hx)

/-- The rounds, until no group is open: where the skipper stopped. -/
def skipLoop (depth : ℕ) (c : Cursor) : Except WireError ℕ :=
  match _ : skipStep depth c with
  | .error e => .error e
  | .ok (depth', c') => if depth' = 0 then .ok c'.iNdEx else skipLoop depth' c'
termination_by c.rest.length
decreasing_by exact length_lt_of_skipStep ‹_›

/-- The generated `skip` function: how many bytes the first field takes. -/
def skip (dAtA : List UInt8) : Except WireError ℕ := skipLoop 0 ⟨0, dAtA⟩

/-! ## §3 Well-formed sequences of fields -/

/-- A tag. -/
def tagBytes (number wireType : ℕ) : List UInt8 := varintBytes (number * 8 + wireType)

/-- A sequence of fields of any wire type; a group holds a sequence of its own. -/
inductive WireFields where
  | nil
  | varint (number : ℕ) (v : BitVec 64) (more : WireFields)
  | fixed64 (number : ℕ) (b : List UInt8) (more : WireFields)
  | bytes (number : ℕ) (s : List UInt8) (more : WireFields)
  | group (number : ℕ) (inside more : WireFields)
  | fixed32 (number : ℕ) (b : List UInt8) (more : WireFields)

namespace WireFields

/-- The bytes of a sequence. -/
def encode : WireFields → List UInt8
  | nil => []
  | varint n v more => tagBytes n 0 ++ varintBytes v.toNat ++ more.encode
  | fixed64 n b more => tagBytes n 1 ++ b ++ more.encode
  | bytes n s more => tagBytes n 2 ++ (varintBytes s.length ++ s) ++ more.encode
  | group n inside more => tagBytes n 3 ++ (inside.encode ++ tagBytes n 4) ++ more.encode
  | fixed32 n b more => tagBytes n 5 ++ b ++ more.encode

/-- A field number of the format. -/
def ValidNumber (n : ℕ) : Prop := 0 < n ∧ n < 2 ^ 29

instance (n : ℕ) : Decidable (ValidNumber n) := inferInstanceAs (Decidable (_ ∧ _))

/-- Numbers are in range, and what has a fixed size has that size. -/
def WellFormed : WireFields → Prop
  | nil => True
  | varint n _ more => ValidNumber n ∧ more.WellFormed
  | fixed64 n b more => (ValidNumber n ∧ b.length = 8) ∧ more.WellFormed
  | bytes n _ more => ValidNumber n ∧ more.WellFormed
  | group n inside more => (ValidNumber n ∧ inside.WellFormed) ∧ more.WellFormed
  | fixed32 n b more => (ValidNumber n ∧ b.length = 4) ∧ more.WellFormed

/-- One sequence after another. -/
def append : WireFields → WireFields → WireFields
  | nil, ws => ws
  | varint n v more, ws => varint n v (more.append ws)
  | fixed64 n b more, ws => fixed64 n b (more.append ws)
  | bytes n s more, ws => bytes n s (more.append ws)
  | group n inside more, ws => group n inside (more.append ws)
  | fixed32 n b more, ws => fixed32 n b (more.append ws)

variable {us ws : WireFields}

@[simp] theorem encode_nil : nil.encode = [] := rfl

theorem encode_append : (us.append ws).encode = us.encode ++ ws.encode := by
  induction us with
  | nil => rfl
  | varint n v more ih | fixed64 n b more ih | bytes n s more ih | fixed32 n b more ih =>
    simp [append, encode, ih]
  | group n inside more _ ih => simp [append, encode, ih]

theorem wellFormed_append : (us.append ws).WellFormed ↔ us.WellFormed ∧ ws.WellFormed := by
  induction us with
  | nil => simp [append, WellFormed]
  | varint n v more ih | fixed64 n b more ih | bytes n s more ih | fixed32 n b more ih =>
    simp [append, WellFormed, ih, and_assoc]
  | group n inside more _ ih => simp [append, WellFormed, ih, and_assoc]

end WireFields

open WireFields

/-! ### The skipper passes over exactly one field -/

section Skip

variable {number wireType depth i : ℕ} {payload rest : List UInt8}

theorem tag_lt (hn : ValidNumber number) (hw : wireType < 8) : number * 8 + wireType < 2 ^ 64 := by
  have := hn.2
  omega

theorem wireType_of_tag (hn : ValidNumber number) (hw : wireType < 8) :
    (BitVec.ofNat 64 (number * 8 + wireType) &&& 7).toNat = wireType := by
  have hmod : (number * 8 + wireType) &&& 7 = (number * 8 + wireType) % 8 :=
    Nat.and_two_pow_sub_one_eq_mod _ 3
  rw [BitVec.toNat_and, BitVec.toNat_ofNat, Nat.mod_eq_of_lt (tag_lt hn hw)]
  show (number * 8 + wireType) &&& 7 = wireType
  omega

theorem length_tagBytes_pos : 0 < (tagBytes number wireType).length := length_varintBytes_pos

theorem varint_tag (hn : ValidNumber number) (hw : wireType < 8) :
    Cursor.varint 64 ⟨i, tagBytes number wireType ++ rest⟩ =
      .ok (BitVec.ofNat 64 (number * 8 + wireType),
        ⟨i + (tagBytes number wireType).length, rest⟩) :=
  Cursor.varint_append (tag_lt hn hw)

/-- `bytes` is one field, at whatever depth the skipper meets it. -/
def OneField (bytes : List UInt8) : Prop :=
  ∀ depth i rest, i + bytes.length + rest.length < 2 ^ 63 →
    skipLoop depth ⟨i, bytes ++ rest⟩ =
      if depth = 0 then .ok (i + bytes.length) else skipLoop depth ⟨i + bytes.length, rest⟩

theorem skipLoop_of_skipStep {c c' : Cursor} {depth' : ℕ}
    (h : skipStep depth c = .ok (depth', c')) :
    skipLoop depth c = if depth' = 0 then .ok c'.iNdEx else skipLoop depth' c' := by
  rw [skipLoop]
  split
  · rename_i hstep
    rw [h] at hstep
    cases hstep
  · rename_i hstep
    rw [h] at hstep
    cases hstep
    rfl

/-- A round at a tag goes on to the payload. -/
theorem skipStep_tag {c' : Cursor} {depth' : ℕ} (hn : ValidNumber number) (hw : wireType < 8)
    (hpay : skipPayload wireType depth ⟨i + (tagBytes number wireType).length, payload⟩ =
      .ok (depth', c')) (hindex : c'.iNdEx < 2 ^ 63) :
    skipStep depth ⟨i, tagBytes number wireType ++ payload⟩ = .ok (depth', c') := by
  have hne : tagBytes number wireType ++ payload ≠ [] := by
    have := @length_tagBytes_pos number wireType
    exact List.append_ne_nil_of_left_ne_nil (List.ne_nil_of_length_pos this) _
  simp only [skipStep, if_neg hne, varint_tag hn hw, bind, Except.bind, wireType_of_tag hn hw,
    hpay]
  rw [if_neg (by omega)]

/-- A field whose payload leaves the depth as it is. -/
theorem oneField_of_skipPayload (hn : ValidNumber number) (hw : wireType < 8)
    (hpay : ∀ depth i rest, i + payload.length + rest.length < 2 ^ 63 →
      skipPayload wireType depth ⟨i, payload ++ rest⟩ =
        .ok (depth, ⟨i + payload.length, rest⟩)) :
    OneField (tagBytes number wireType ++ payload) := by
  intro depth i rest hlen
  rw [List.length_append] at hlen ⊢
  have hround := hpay depth (i + (tagBytes number wireType).length) rest (by omega)
  have hstep := skipStep_tag hn hw hround (by simp only; omega)
  rw [List.append_assoc, skipLoop_of_skipStep hstep]
  simp only [Nat.add_assoc]

theorem oneField_varint {v : BitVec 64} (hn : ValidNumber number) :
    OneField (tagBytes number 0 ++ varintBytes v.toNat) := by
  apply oneField_of_skipPayload hn (by decide)
  intro depth i rest hlen
  simp only [skipPayload, Cursor.varint_append v.isLt, bind, Except.bind]

theorem oneField_fixed64 {b : List UInt8} (hn : ValidNumber number) (hb : b.length = 8) :
    OneField (tagBytes number 1 ++ b) := by
  apply oneField_of_skipPayload hn (by decide)
  intro depth i rest hlen
  simp only [skipPayload, Cursor.advance, ← hb, List.drop_left]

theorem oneField_bytes {s : List UInt8} (hn : ValidNumber number) :
    OneField (tagBytes number 2 ++ (varintBytes s.length ++ s)) := by
  apply oneField_of_skipPayload hn (by decide)
  intro depth i rest hlen
  rw [List.length_append] at hlen ⊢
  have hint := Cursor.toInt_ofNat_of_lt (n := s.length) (by omega)
  have hnat := Cursor.toNat_ofNat_of_lt (n := s.length) (by omega)
  rw [List.append_assoc]
  simp only [skipPayload, Cursor.varint_append (show s.length < 2 ^ 64 by omega), bind,
    Except.bind, hint, hnat]
  rw [if_neg (by omega)]
  simp [Cursor.advance, Nat.add_assoc]

theorem oneField_fixed32 {b : List UInt8} (hn : ValidNumber number) (hb : b.length = 4) :
    OneField (tagBytes number 5 ++ b) := by
  apply oneField_of_skipPayload hn (by decide)
  intro depth i rest hlen
  simp only [skipPayload, Cursor.advance, ← hb, List.drop_left]

/-- A group: its start tag opens a depth that only its end tag closes, whatever groups the
fields inside open and close in between. -/
theorem oneField_group {inside : List UInt8} (hn : ValidNumber number)
    (hinside : ∀ depth i rest, 0 < depth → i + inside.length + rest.length < 2 ^ 63 →
      skipLoop depth ⟨i, inside ++ rest⟩ = skipLoop depth ⟨i + inside.length, rest⟩) :
    OneField (tagBytes number 3 ++ (inside ++ tagBytes number 4)) := by
  intro depth i rest hlen
  simp only [List.length_append] at hlen ⊢
  let j := i + (tagBytes number 3).length
  let k := j + inside.length
  have hstart : skipStep depth
      ⟨i, tagBytes number 3 ++ (inside ++ (tagBytes number 4 ++ rest))⟩ =
        .ok (depth + 1, ⟨j, inside ++ (tagBytes number 4 ++ rest)⟩) :=
    skipStep_tag hn (by decide) rfl (by simp only [j]; omega)
  have hend : skipStep (depth + 1) ⟨k, tagBytes number 4 ++ rest⟩ =
      .ok (depth, ⟨k + (tagBytes number 4).length, rest⟩) :=
    skipStep_tag hn (by decide) (by simp [skipPayload]) (by simp only [k, j]; omega)
  have hmiddle := hinside (depth + 1) j (tagBytes number 4 ++ rest) (Nat.succ_pos _)
    (by simp only [List.length_append, j]; omega)
  rw [List.append_assoc, List.append_assoc, skipLoop_of_skipStep hstart,
    if_neg (Nat.succ_ne_zero _), hmiddle, skipLoop_of_skipStep hend]
  simp only [k, j, Nat.add_assoc]

/-- Inside an open group a field is passed over, and the skipper goes on. -/
theorem OneField.skipLoop_append {field more : List UInt8} (hfield : OneField field)
    (hmore : ∀ depth i rest, 0 < depth → i + more.length + rest.length < 2 ^ 63 →
      skipLoop depth ⟨i, more ++ rest⟩ = skipLoop depth ⟨i + more.length, rest⟩) :
    ∀ depth i rest, 0 < depth → i + (field ++ more).length + rest.length < 2 ^ 63 →
      skipLoop depth ⟨i, field ++ more ++ rest⟩ =
        skipLoop depth ⟨i + (field ++ more).length, rest⟩ := by
  intro depth i rest hd hlen
  rw [List.length_append] at hlen ⊢
  rw [List.append_assoc, hfield depth i _ (by rw [List.length_append]; omega),
    if_neg (Nat.ne_of_gt hd), hmore depth _ rest hd (by omega), Nat.add_assoc]

/-- A whole sequence inside an open group is passed over. -/
theorem skipLoop_encode {ws : WireFields} (h : ws.WellFormed) :
    ∀ depth i rest, 0 < depth → i + ws.encode.length + rest.length < 2 ^ 63 →
      skipLoop depth ⟨i, ws.encode ++ rest⟩ = skipLoop depth ⟨i + ws.encode.length, rest⟩ := by
  induction ws with
  | nil => simp [encode]
  | varint n v more ih => exact (oneField_varint h.1).skipLoop_append (ih h.2)
  | fixed64 n b more ih => exact (oneField_fixed64 h.1.1 h.1.2).skipLoop_append (ih h.2)
  | bytes n s more ih => exact (oneField_bytes h.1).skipLoop_append (ih h.2)
  | group n inside more ihin ih =>
    exact (oneField_group h.1.1 (ihin h.1.2)).skipLoop_append (ih h.2)
  | fixed32 n b more ih => exact (oneField_fixed32 h.1.1 h.1.2).skipLoop_append (ih h.2)

/-- **The skipper returns the size of the first field.** -/
theorem OneField.skip_append {field : List UInt8} (h : OneField field)
    (hlen : field.length + rest.length < 2 ^ 63) : skip (field ++ rest) = .ok field.length := by
  rw [skip, h 0 0 rest (by omega), if_pos rfl, Nat.zero_add]

end Skip

end GenesisEthermint.Foundation
