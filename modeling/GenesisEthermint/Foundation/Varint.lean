import Mathlib.Algebra.GroupWithZero.Nat

/-!
# Base 128 Varints

An unsigned integer is written seven bits a byte, the low bits first, with the high bit set
on every byte but the last. The reader collects the bits into an integer of a fixed width,
so that bits above the width are lost, and gives up after the tenth byte.

The writer fills a buffer whose size was computed beforehand; that the computed size is the
number of bytes written is what keeps it inside the buffer.
-/

namespace GenesisEthermint.Foundation

/-- What can go wrong while a message is read. -/
inductive WireError where
  /-- `proto: integer overflow`. -/
  | intOverflow
  /-- `io.ErrUnexpectedEOF`. -/
  | unexpectedEOF
  /-- `proto: negative length found during unmarshaling`. -/
  | invalidLength
  /-- `proto: unexpected end of group`. -/
  | unexpectedEndOfGroup
  /-- `proto: illegal wireType %d`. -/
  | illegalWireType (wireType : ℕ)
  /-- `proto: %s: wiretype end group for non-group`. -/
  | endGroup (message : String)
  /-- `proto: %s: illegal tag %d (wire type %d)`. -/
  | illegalTag (message : String) (fieldNum : ℤ) (wire : ℕ)
  /-- `proto: wrong wireType = %d for field %s`. -/
  | wrongWireType (wireType : ℕ) (field : String)
  /-- The error of a custom type's own `Unmarshal`. -/
  | custom (text : String)
  deriving DecidableEq, Repr

/-! ## §1 The bytes of a number -/

/-- The base 128 digits of a number, low digit first, all but the last marked. -/
def varintBytes (v : ℕ) : List UInt8 :=
  if v < 128 then [UInt8.ofNat v]
  else UInt8.ofNat (v % 128 + 128) :: varintBytes (v / 128)

/-- `math_bits.Len64`. -/
def len64 (x : ℕ) : ℕ := if x = 0 then 0 else Nat.log2 x + 1

/-- The size of a varint, computed without writing it. -/
def sov (x : ℕ) : ℕ := (len64 (x ||| 1) + 6) / 7

variable {v m : ℕ}

theorem varintBytes_of_lt (h : v < 128) : varintBytes v = [UInt8.ofNat v] := by
  rw [varintBytes, if_pos h]

theorem varintBytes_of_le (h : 128 ≤ v) :
    varintBytes v = UInt8.ofNat (v % 128 + 128) :: varintBytes (v / 128) := by
  rw [varintBytes, if_neg (Nat.not_lt.mpr h)]

theorem length_varintBytes_pos : 0 < (varintBytes v).length := by
  unfold varintBytes
  split <;> simp

/-- A number takes at most `m` digits exactly when it is below `128 ^ m`. -/
theorem length_varintBytes_le_iff (hm : 0 < m) :
    (varintBytes v).length ≤ m ↔ v < 2 ^ (7 * m) := by
  induction m generalizing v with
  | zero => exact absurd hm (Nat.lt_irrefl 0)
  | succ m ih =>
    have hpow : 2 ^ (7 * (m + 1)) = 2 ^ (7 * m) * 128 := by
      rw [Nat.mul_succ, Nat.pow_add]
    by_cases hv : v < 128
    · rw [varintBytes_of_lt hv, hpow]
      have : 0 < 2 ^ (7 * m) := Nat.two_pow_pos _
      simp only [List.length_singleton]
      omega
    · rw [varintBytes_of_le (by omega), List.length_cons, Nat.add_le_add_iff_right, hpow]
      cases m with
      | zero =>
        have := length_varintBytes_pos (v := v / 128)
        simp only [Nat.mul_zero, Nat.pow_zero]
        omega
      | succ m =>
        rw [ih (Nat.succ_pos m), Nat.div_lt_iff_lt_mul (by decide)]

theorem len64_or_one_le_iff (hm : 0 < m) : len64 (v ||| 1) ≤ m ↔ v < 2 ^ m := by
  have hne : v ||| 1 ≠ 0 := by
    intro h
    have : 1 ≤ v ||| 1 := Nat.right_le_or
    omega
  rw [len64, if_neg hne, Nat.succ_le_iff, Nat.log2_lt hne]
  have hone : 1 < 2 ^ m := Nat.one_lt_two_pow (Nat.ne_of_gt hm)
  exact ⟨fun h => Nat.lt_of_le_of_lt Nat.left_le_or h, fun h => Nat.or_lt_two_pow h hone⟩

/-- The computed size is the number of bytes written. -/
theorem length_varintBytes : (varintBytes v).length = sov v := by
  have hpos : 0 < sov v := by
    have : 1 ≤ v ||| 1 := Nat.right_le_or
    rw [sov, len64, if_neg (Nat.ne_of_gt this)]
    omega
  have hiff : ∀ m, 0 < m → (sov v ≤ m ↔ (varintBytes v).length ≤ m) := by
    intro m hm
    rw [length_varintBytes_le_iff hm, ← len64_or_one_le_iff (Nat.mul_pos (by decide) hm)]
    unfold sov
    omega
  exact Nat.le_antisymm ((hiff _ hpos).mp (Nat.le_refl _))
    ((hiff _ length_varintBytes_pos).mpr (Nat.le_refl _))

/-! ## §2 Reading -/

/-- Collect the bits of a varint into an integer of `w` bits, from the given shift on. -/
def readVarint {w : ℕ} (shift : ℕ) (acc : BitVec w) (bytes : List UInt8) :
    Except WireError (BitVec w × List UInt8) :=
  if 64 ≤ shift then .error .intOverflow
  else match bytes with
    | [] => .error .unexpectedEOF
    | b :: rest =>
      let acc := acc ||| BitVec.ofNat w (b &&& 0x7F).toNat <<< shift
      if b < 0x80 then .ok (acc, rest) else readVarint (shift + 7) acc rest

variable {w shift : ℕ} {acc : BitVec w} {bytes rest : List UInt8}

theorem readVarint_cons {b : UInt8} (hs : shift < 64) :
    readVarint shift acc (b :: rest) =
      if b < 0x80 then
        .ok (acc ||| BitVec.ofNat w (b &&& 0x7F).toNat <<< shift, rest)
      else readVarint (shift + 7) (acc ||| BitVec.ofNat w (b &&& 0x7F).toNat <<< shift) rest := by
  rw [readVarint, if_neg (Nat.not_le.mpr hs)]

/-- Reading a varint takes bytes off the front. -/
theorem length_lt_of_readVarint {r : BitVec w × List UInt8}
    (h : readVarint shift acc bytes = .ok r) : r.2.length < bytes.length := by
  induction bytes generalizing shift acc with
  | nil =>
    unfold readVarint at h
    split at h <;> cases h
  | cons b rest ih =>
    unfold readVarint at h
    split at h
    · cases h
    · simp only at h
      split at h
      · cases h
        exact Nat.lt_succ_self _
      · exact Nat.lt_succ_of_lt (ih h)

theorem and_127 (b : UInt8) : (b &&& 0x7F).toNat = b.toNat % 128 := by
  rw [UInt8.toNat_and]
  exact Nat.and_two_pow_sub_one_eq_mod b.toNat 7

/-- Setting digit `d` at shift `s` adds `d * 2 ^ s` to what is below. -/
theorem or_shiftLeft_ofNat {low d : ℕ} (hlow : low < 2 ^ shift) :
    BitVec.ofNat w low ||| BitVec.ofNat w d <<< shift = BitVec.ofNat w (low + d * 2 ^ shift) := by
  have hsum : low + d * 2 ^ shift = low ||| d <<< shift := by
    rw [Nat.shiftLeft_eq, Nat.add_comm, Nat.mul_comm, Nat.two_pow_add_eq_or_of_lt hlow,
      Nat.or_comm]
  have hshift : BitVec.ofNat w d <<< shift = BitVec.ofNat w (d <<< shift) := by
    apply BitVec.eq_of_toNat_eq
    simp only [BitVec.toNat_shiftLeft, BitVec.toNat_ofNat, Nat.shiftLeft_eq]
    rw [Nat.mod_mul_mod]
  rw [hsum, BitVec.ofNat_or, hshift]

/-- **The reader inverts the writer** from any shift at which the digits still fit into ten
bytes. The induction is on the number of digits left. -/
theorem readVarint_varintBytes_of_fits {k low : ℕ} (hk : 7 * k + shift = 70) (hpos : 0 < k)
    (hv : v < 2 ^ (7 * k)) (hlow : low < 2 ^ shift) :
    readVarint shift (BitVec.ofNat w low) (varintBytes v ++ rest) =
      .ok (BitVec.ofNat w (low + v * 2 ^ shift), rest) := by
  induction k generalizing v low shift with
  | zero => exact absurd hpos (Nat.lt_irrefl 0)
  | succ k ih =>
    by_cases hlast : v < 128
    · rw [varintBytes_of_lt hlast, List.cons_append, List.nil_append,
        readVarint_cons (by omega), and_127, UInt8.toNat_ofNat', or_shiftLeft_ofNat hlow]
      have hb : UInt8.ofNat v < 0x80 := by
        rw [UInt8.lt_iff_toNat_lt, UInt8.toNat_ofNat']
        show v % 256 < 128
        omega
      rw [if_pos hb, Nat.mod_eq_of_lt (show v < 2 ^ 8 by omega), Nat.mod_eq_of_lt hlast]
    · have hmod : v % 128 < 128 := Nat.mod_lt _ (by decide)
      have hb : ¬ UInt8.ofNat (v % 128 + 128) < 0x80 := by
        rw [UInt8.lt_iff_toNat_lt, UInt8.toNat_ofNat']
        show ¬ (v % 128 + 128) % 256 < 128
        omega
      have hdigit : (v % 128 + 128) % 2 ^ 8 % 128 = v % 128 := by omega
      rw [varintBytes_of_le (by omega), List.cons_append, readVarint_cons (by omega), if_neg hb,
        and_127, UInt8.toNat_ofNat', hdigit, or_shiftLeft_ofNat hlow]
      -- at least two digits are left, so the next one is not the eleventh
      have hk' : 0 < k := by
        apply Nat.pos_of_ne_zero
        rintro rfl
        exact hlast hv
      have hdiv : v / 128 < 2 ^ (7 * k) := by
        rw [Nat.div_lt_iff_lt_mul (by decide)]
        rw [Nat.mul_succ, Nat.pow_add] at hv
        exact hv
      have hlow' : low + v % 128 * 2 ^ shift < 2 ^ (shift + 7) := by
        rw [Nat.pow_add]
        have : v % 128 * 2 ^ shift ≤ 127 * 2 ^ shift := Nat.mul_le_mul_right _ (by omega)
        omega
      rw [ih (by omega) hk' hdiv hlow']
      have hval : low + v % 128 * 2 ^ shift + v / 128 * 2 ^ (shift + 7) = low + v * 2 ^ shift := by
        rw [Nat.pow_add, Nat.add_assoc, Nat.mul_comm (2 ^ shift), ← Nat.mul_assoc, ← Nat.add_mul]
        congr 2
        omega
      rw [hval]

/-- A 64-bit number is read back as its low `w` bits. -/
theorem readVarint_varintBytes (hv : v < 2 ^ 64) :
    readVarint 0 (0#w) (varintBytes v ++ rest) = .ok (BitVec.ofNat w v, rest) := by
  have hten : v < 2 ^ (7 * 10) := Nat.lt_trans hv (by decide)
  have := @readVarint_varintBytes_of_fits v w 0 rest _ 0 rfl (by decide) hten (by decide)
  simpa using this

/-! ## §3 Writing into a sized buffer -/

/-- A buffer that is filled from its end: everything from `i` on is written. -/
structure SizedBuffer where
  dAtA : List UInt8
  i : ℕ
  deriving DecidableEq, Repr

/-- A step of the writer; `none` is an index out of range. -/
abbrev Writer := SizedBuffer → Option SizedBuffer

/-- `dAtA[offset] = b`. -/
def writeAt (dAtA : List UInt8) (offset : ℕ) (b : UInt8) : Option (List UInt8) :=
  if offset < dAtA.length then some (dAtA.set offset b) else none

/-- The loop that writes the digits of `v` upwards from `offset`. -/
def writeVarint (dAtA : List UInt8) (offset v : ℕ) : Option (List UInt8) :=
  if v < 128 then writeAt dAtA offset (UInt8.ofNat v)
  else do
    let dAtA ← writeAt dAtA offset (UInt8.ofNat (v % 128 + 128))
    writeVarint dAtA (offset + 1) (v / 128)

/-- The index moves down by the computed size, and the digits go up from there. -/
def encodeVarint (v : ℕ) : Writer := fun buf =>
  if sov v ≤ buf.i then do
    let dAtA ← writeVarint buf.dAtA (buf.i - sov v) v
    return ⟨dAtA, buf.i - sov v⟩
  else none

/-- One byte below the index. -/
def encodeByte (b : UInt8) : Writer := fun buf =>
  if 0 < buf.i then do
    let dAtA ← writeAt buf.dAtA (buf.i - 1) b
    return ⟨dAtA, buf.i - 1⟩
  else none

/-- `copy` of a whole string below the index. -/
def encodeBytes (s : List UInt8) : Writer := fun buf =>
  if s.length ≤ buf.i then
    some ⟨buf.dAtA.take (buf.i - s.length) ++ s ++ buf.dAtA.drop buf.i, buf.i - s.length⟩
  else none

/-- A writer that puts `bytes` in front of what is written, whenever there is room. -/
def Writes (f : Writer) (bytes : List UInt8) : Prop :=
  ∀ front written, bytes.length ≤ front.length →
    f ⟨front ++ written, front.length⟩ =
      some ⟨front.take (front.length - bytes.length) ++ (bytes ++ written),
        front.length - bytes.length⟩

theorem set_append_length {front written : List UInt8} {a b : UInt8} :
    (front ++ a :: written).set front.length b = front ++ b :: written := by
  rw [List.set_append_right _ _ (Nat.le_refl _), Nat.sub_self, List.set_cons_zero]

/-- The digits overwrite as many bytes of the buffer as there are. -/
theorem writeVarint_eq {front gap written : List UInt8} (h : gap.length = (varintBytes v).length) :
    writeVarint (front ++ gap ++ written) front.length v =
      some (front ++ varintBytes v ++ written) := by
  induction v using Nat.strongRecOn generalizing front gap with
  | ind v ih =>
    cases gap with
    | nil =>
      have := length_varintBytes_pos (v := v)
      simp only [List.length_nil] at h
      omega
    | cons a gap =>
      have hat : ∀ b, writeAt (front ++ a :: gap ++ written) front.length b =
          some (front ++ b :: gap ++ written) := by
        intro b
        rw [writeAt, if_pos (by simp), List.append_assoc, List.cons_append, set_append_length]
        simp
      by_cases hv : v < 128
      · rw [varintBytes_of_lt hv, List.length_singleton, List.length_cons] at h
        rw [writeVarint, if_pos hv, hat, varintBytes_of_lt hv,
          List.length_eq_zero_iff.mp (Nat.succ.inj h)]
      · rw [varintBytes_of_le (Nat.not_lt.mp hv), List.length_cons, List.length_cons] at h
        rw [writeVarint, if_neg hv, hat, varintBytes_of_le (Nat.not_lt.mp hv)]
        -- the digit just written joins the front
        have := @ih (v / 128) (by omega) (front ++ [UInt8.ofNat (v % 128 + 128)]) gap
          (Nat.succ.inj h)
        simpa using this

theorem writes_encodeVarint : Writes (encodeVarint v) (varintBytes v) := by
  intro front written hroom
  have hlen := length_varintBytes (v := v)
  have hi : sov v ≤ front.length := by omega
  have hdrop : (front.drop (front.length - sov v)).length = (varintBytes v).length := by
    simp only [List.length_drop]
    omega
  have htake : (front.take (front.length - sov v)).length = front.length - sov v := by simp
  have := @writeVarint_eq _ (front.take (front.length - sov v)) _ written hdrop
  rw [List.take_append_drop, htake] at this
  simp only [encodeVarint, hi, if_true, this, hlen, Option.pure_def, Option.bind_eq_bind,
    Option.bind_some, List.append_assoc]

theorem writes_encodeByte {b : UInt8} : Writes (encodeByte b) [b] := by
  intro front written hroom
  simp only [List.length_singleton] at hroom
  obtain ⟨front, a, rfl⟩ : ∃ init a, front = init ++ [a] :=
    ⟨_, _, (List.dropLast_concat_getLast (List.ne_nil_of_length_pos hroom)).symm⟩
  simp [encodeByte, writeAt]

theorem writes_encodeBytes {s : List UInt8} : Writes (encodeBytes s) s := by
  intro front written hroom
  simp only [encodeBytes, hroom, if_true, List.drop_left', List.take_append_of_le_length
    (Nat.sub_le _ _), List.append_assoc]

/-- One step of the writer after another. -/
def Writer.andThen (f g : Writer) : Writer := fun buf => (f buf).bind g

/-- What is written second stands below what is written first. -/
theorem Writes.andThen {f g : Writer} {first second : List UInt8} (hf : Writes f first)
    (hg : Writes g second) : Writes (f.andThen g) (second ++ first) := by
  intro front written hroom
  rw [List.length_append] at hroom
  have hlen : (front.take (front.length - first.length)).length =
      front.length - first.length := by simp
  have hsecond := hg (front.take (front.length - first.length)) (first ++ written) (by omega)
  rw [hlen] at hsecond
  have hi : front.length - (second ++ first).length =
      front.length - first.length - second.length := by
    rw [List.length_append]
    omega
  rw [Writer.andThen, hf front written (by omega), Option.bind_some, hsecond, hi, List.take_take,
    Nat.min_eq_left (Nat.sub_le _ _), List.append_assoc]

theorem writes_nil : Writes some [] := by
  intro front written _
  simp

end GenesisEthermint.Foundation
