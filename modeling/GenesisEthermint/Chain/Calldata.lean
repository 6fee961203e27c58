import GenesisEthermint.Chain.Abi

/-!
# The Bytes of a Call

`Arguments.Pack` writes a word for each argument and, behind the words, what does not fit one: a
string is a word that says where it is. `Arguments.Unpack` reads the values back. The input data of
a call begins with four bytes that say which method it is for.
-/

namespace GenesisEthermint.Chain

open GenesisEthermint.Foundation GenesisEthermint.Types

/-- The argument types of the token interfaces. -/
inductive ArgType where
  | address | uint256 | uint8 | bool | string
  deriving DecidableEq, Repr

/-- A Go value as `Pack` takes it and `Unpack` makes it. -/
inductive ArgValue where
  | address (a : Address)
  | bigInt (i : ℤ)
  | uint8 (b : UInt8)
  | bool (b : Bool)
  | string (s : List UInt8)
  deriving DecidableEq

/-- `t.GetType().Kind()`. -/
def ArgType.kind : ArgType → String
  | .address => "array"
  | .uint256 => "ptr"
  | .uint8 => "uint8"
  | .bool => "bool"
  | .string => "string"

/-- `value.Kind()`. -/
def ArgValue.kind : ArgValue → String
  | .address _ => "array"
  | .bigInt _ => "ptr"
  | .uint8 _ => "uint8"
  | .bool _ => "bool"
  | .string _ => "string"

/-- `getTypeSize`: every one of the types takes a word. -/
def getTypeSize (_ : ArgType) : ℕ := 32

def isDynamicType : ArgType → Bool
  | .string => true
  | _ => false

/-- `typeCheck`. -/
def typeCheck (t : ArgType) (v : ArgValue) : Except GoError Unit :=
  rejectIf (t.kind ≠ v.kind) (.errorf s!"abi: cannot use {v.kind} as type {t.kind} as argument")

/-- `packNum`: two's complement in 256 bits. -/
def packNum (i : ℤ) : List UInt8 := word (i % 2 ^ 256).toNat

/-- `common.RightPadBytes`. -/
def rightPadBytes (bytes : List UInt8) (l : ℕ) : List UInt8 :=
  bytes ++ List.replicate (l - bytes.length) 0

/-- `packBytesSlice`. -/
def packBytesSlice (bytes : List UInt8) (l : ℕ) : List UInt8 :=
  packNum l ++ rightPadBytes bytes ((l + 31) / 32 * 32)

/-- `packElement`, of a value that has passed the check of its type. -/
def packElement : ArgValue → List UInt8
  | .bigInt i => packNum i
  | .uint8 b => packNum b.toNat
  | .string s => packBytesSlice s s.length
  | .address a => List.replicate 12 0 ++ a.bytes
  | .bool b => word b.toNat

/-- `Type.pack`. -/
def packValue (t : ArgType) (v : ArgValue) : Except GoError (List UInt8) := do
  typeCheck t v
  return packElement v

/-- The loop of `Arguments.Pack`. -/
def packLoop : List ArgType → List ArgValue → (inputOffset : ℕ) →
    (ret variableInput : List UInt8) → Except GoError (List UInt8)
  | t :: types, v :: args, inputOffset, ret, variableInput => do
    let packed ← packValue t v
    if isDynamicType t then
      packLoop types args (inputOffset + packed.length) (ret ++ packNum inputOffset)
        (variableInput ++ packed)
    else packLoop types args inputOffset (ret ++ packed) variableInput
  | _, _, _, ret, variableInput => return ret ++ variableInput

/-- `Arguments.Pack`. -/
def packArguments (types : List ArgType) (args : List ArgValue) : Except GoError (List UInt8) := do
  rejectIf (args.length ≠ types.length)
    (.errorf s!"argument count mismatch: got {args.length} for {types.length}")
  packLoop types args (types.map getTypeSize).sum [] []

/-- `lengthPrefixPointsTo`. -/
def lengthPrefixPointsTo (index : ℕ) (output : List UInt8) : Except GoError (ℕ × ℕ) := do
  let offsetEnd := beNat ((output.drop index).take 32) + 32
  rejectIf (output.length < offsetEnd)
    (.errorf (s!"abi: cannot marshal in to go slice: offset {offsetEnd} " ++
      s!"would go over slice boundary (len={output.length})"))
  rejectIf (2 ^ 63 ≤ offsetEnd) (.errorf s!"abi offset larger than int64: {offsetEnd}")
  let length := beNat ((output.drop (offsetEnd - 32)).take 32)
  let totalSize := offsetEnd + length
  rejectIf (2 ^ 63 ≤ totalSize) (.errorf s!"abi: length larger than int64: {totalSize}")
  rejectIf (output.length < totalSize)
    (.errorf (s!"abi: cannot marshal in to go type: length insufficient {output.length} " ++
      s!"require {totalSize}"))
  return (offsetEnd, length)

/-- `toGoType`. -/
def toGoType (index : ℕ) (t : ArgType) (output : List UInt8) : Except GoError ArgValue := do
  rejectIf (output.length < index + 32)
    (.errorf (s!"abi: cannot marshal in to go type: length insufficient {output.length} " ++
      s!"require {index + 32}"))
  let returnOutput := (output.drop index).take 32
  match t with
  | .string =>
    let (start, length) ← lengthPrefixPointsTo index output
    return .string ((output.drop start).take length)
  | .uint256 => return .bigInt (beNat returnOutput)
  | .uint8 => return .uint8 (returnOutput.getLastD 0)
  | .bool => return .bool (← readBool returnOutput)
  | .address => return .address (bytesToAddress returnOutput)

/-- `Arguments.UnpackValues`, from the argument with the given index on. -/
def unpackValues (data : List UInt8) : List ArgType → (index : ℕ) →
    Except GoError (List ArgValue)
  | [], _ => return []
  | t :: types, index => do
    let marshalledValue ← toGoType (index * 32) t data
    return marshalledValue :: (← unpackValues data types (index + 1))

/-- `Arguments.Unpack`. -/
def unpackArguments (types : List ArgType) (data : List UInt8) :
    Except GoError (List ArgValue) := do
  if data.length = 0 then
    rejectIf (types.length ≠ 0) (.errorf
      "abi: attempting to unmarshall an empty string while arguments are expected")
    return []
  else unpackValues data types 0

/-! ## §1 Words -/

/-- What is left of a value: 256 bits of a big integer. -/
def ArgValue.packed : ArgValue → ArgValue
  | .bigInt i => .bigInt (i % 2 ^ 256)
  | v => v

variable {t : ArgType} {v : ArgValue} {i : ℤ} {n index : ℕ} {output ret rest bytes : List UInt8}

theorem length_packNum : (packNum i).length = 32 := length_word _

theorem beNat_packNum : (beNat (packNum i) : ℤ) = i % 2 ^ 256 := by
  have hpos : 0 ≤ i % 2 ^ 256 := Int.emod_nonneg i (by decide)
  have hlt : i % 2 ^ 256 < 2 ^ 256 := Int.emod_lt_of_pos i (by decide)
  rw [packNum, beNat_word (by omega), Int.toNat_of_nonneg hpos]

theorem beNat_packNum_of_lt (h : n < 2 ^ 256) : beNat (packNum n) = n := by
  have hnum := beNat_packNum (i := n)
  rw [Int.emod_eq_of_lt (by omega) (by exact_mod_cast h)] at hnum
  exact_mod_cast hnum

/-- What passes the check of its type, and how much room it takes. -/
theorem packValue_ok (h : packValue t v = .ok bytes) :
    t.kind = v.kind ∧ bytes = packElement v := by
  obtain ⟨_, hcheck, h⟩ := except_bind_ok_iff.mp h
  rw [typeCheck, rejectIf_ok_iff, not_not] at hcheck
  exact ⟨hcheck, (Except.ok.inj h).symm⟩

/-- A value of one of the types that are no string, by its type. -/
theorem length_packElement (h : t.kind = v.kind) (hstatic : isDynamicType t = false) :
    (packElement v).length = 32 := by
  cases v with
  | bigInt i => exact length_packNum
  | uint8 b => exact length_packNum
  | bool b => exact length_word _
  | address a => simp [packElement, a.length_eq]
  | string s =>
    -- only the type of strings has this kind
    cases t <;> simp [ArgType.kind, ArgValue.kind, isDynamicType] at h hstatic

theorem getLastD_packNum (b : UInt8) : (packNum b.toNat).getLastD 0 = b := by
  have hlt : b.toNat < 256 := b.toNat_lt
  have hnum : (((b.toNat : ℤ) % 2 ^ 256).toNat) = b.toNat := by omega
  have hword : word b.toNat = beBytes 31 (b.toNat / 256) ++ [UInt8.ofNat (b.toNat % 256)] := rfl
  rw [packNum, hnum, hword, Nat.mod_eq_of_lt hlt, UInt8.ofNat_toNat, List.getLastD_concat]

theorem readBool_word (b : Bool) : readBool (word b.toNat) = .ok b := by
  cases b <;> decide

/-- A word is read where it was written. -/
theorem toGoType_static (h : t.kind = v.kind) (hstatic : isDynamicType t = false)
    (hindex : ret.length = index) :
    toGoType index t (ret ++ packElement v ++ rest) = .ok v.packed := by
  have hlen := length_packElement h hstatic
  have hlong : ¬ (ret ++ packElement v ++ rest).length < index + 32 := by
    rw [List.length_append, List.length_append]
    omega
  have hword : ((ret ++ packElement v ++ rest).drop index).take 32 = packElement v := by
    rw [List.append_assoc, ← hindex, List.drop_left, ← hlen, List.take_left]
  rw [toGoType, except_bind_ok_iff]
  refine ⟨(), rejectIf_ok_iff.mpr hlong, ?_⟩
  rw [hword]
  cases t with
  | uint256 =>
    cases v <;> simp [ArgType.kind, ArgValue.kind] at h
    rename_i i
    exact congrArg (fun j => Except.ok (ArgValue.bigInt j)) beNat_packNum
  | uint8 =>
    cases v <;> simp [ArgType.kind, ArgValue.kind] at h
    rename_i b
    exact congrArg (fun c => Except.ok (ArgValue.uint8 c)) (getLastD_packNum b)
  | bool =>
    cases v <;> simp [ArgType.kind, ArgValue.kind] at h
    rename_i b
    show (readBool (word b.toNat) >>= _) = _
    rw [readBool_word]
    rfl
  | address =>
    cases v <;> simp [ArgType.kind, ArgValue.kind] at h
    rename_i a
    exact congrArg (fun c => Except.ok (ArgValue.address c)) (bytesToAddress_addressTopic a)
  | string => cases hstatic

/-- A string is read where its word says it is. -/
theorem toGoType_string {s : List UInt8} (hlong : index + 32 ≤ output.length)
    (hword : (output.drop index).take 32 = packNum n)
    (htail : output.drop n = packElement (.string s) ++ rest) (hlen : output.length < 2 ^ 63) :
    toGoType index .string output = .ok (.string s) := by
  have htotal : output.length - n = (packElement (.string s)).length + rest.length := by
    rw [← List.length_append, ← htail, List.length_drop]
  have hpacked : (packElement (.string s)).length =
      32 + (s.length + ((s.length + 31) / 32 * 32 - s.length)) := by
    simp [packElement, packBytesSlice, rightPadBytes, length_packNum]
  have hoffset : beNat (packNum n) = n := beNat_packNum_of_lt (by omega)
  have hlength : (output.drop n).take 32 = packNum s.length := by
    rw [htail, packElement, packBytesSlice, List.append_assoc, ← length_packNum (i := s.length),
      List.take_left]
  have hbytes : (output.drop (n + 32)).take s.length = s := by
    rw [← List.drop_drop, htail, packElement, packBytesSlice, List.append_assoc,
      ← length_packNum (i := s.length), List.drop_left, rightPadBytes, List.append_assoc,
      List.take_left]
  have hsize : beNat (packNum s.length) = s.length := beNat_packNum_of_lt (by omega)
  have hpoints : lengthPrefixPointsTo index output = .ok (n + 32, s.length) := by
    rw [lengthPrefixPointsTo, hword, hoffset]
    simp only [Nat.add_sub_cancel, hlength, hsize]
    simp only [except_bind_ok_iff, rejectIf_ok_iff]
    refine ⟨(), ?_, (), ?_, (), ?_, (), ?_, rfl⟩ <;> omega
  rw [toGoType, except_bind_ok_iff]
  refine ⟨(), rejectIf_ok_iff.mpr (by omega), ?_⟩
  rw [hpoints]
  exact congrArg (fun x => Except.ok (ArgValue.string x)) hbytes

/-! ## §2 Arguments -/

variable {types : List ArgType} {args : List ArgValue} {data variableInput : List UInt8}

/-- **What the loop of `Pack` leaves to be read**: the words that are still to come stand behind
those that are written, and lead to the values. -/
theorem unpackValues_packLoop {inputOffset : ℕ}
    (hpack : packLoop types args inputOffset ret variableInput = .ok data)
    (hlen : args.length = types.length) (hret : ret.length = index * 32)
    (hoffset : inputOffset = ret.length + types.length * 32 + variableInput.length)
    (hdata : data.length < 2 ^ 63) :
    unpackValues data types index = .ok (args.map ArgValue.packed) ∧
      ∃ words tail, data = ret ++ words ++ variableInput ++ tail ∧
        words.length = types.length * 32 := by
  induction types generalizing args index inputOffset ret variableInput with
  | nil =>
    obtain rfl := List.length_eq_zero_iff.mp hlen
    obtain rfl := Except.ok.inj hpack
    exact ⟨rfl, [], [], by simp, rfl⟩
  | cons t types ih =>
    cases args with
    | nil => cases hlen
    | cons v args =>
      obtain ⟨packed, hpacked, hrest⟩ := except_bind_ok_iff.mp hpack
      obtain ⟨hkind, rfl⟩ := packValue_ok hpacked
      have hlen' : args.length = types.length := Nat.succ.inj hlen
      rw [List.length_cons, Nat.succ_mul] at hoffset
      have hcons : ∀ {u}, toGoType (index * 32) t data = .ok u →
          unpackValues data types (index + 1) = .ok (args.map ArgValue.packed) →
          unpackValues data (t :: types) index = .ok (u :: args.map ArgValue.packed) := by
        intro u hfirst hothers
        rw [unpackValues, hfirst]
        show (unpackValues data types (index + 1) >>= _) = _
        rw [hothers]
        rfl
      cases hdynamic : isDynamicType t with
      | false =>
        rw [hdynamic] at hrest
        have hword := length_packElement hkind hdynamic
        obtain ⟨hread, words, tail, rfl, hwords⟩ := @ih (index + 1) _ _ _ _ hrest hlen'
          (by rw [List.length_append, hword, hret]; omega)
          (by rw [List.length_append, hword]; omega)
        refine ⟨hcons ?_ hread, packElement v ++ words, tail, by simp, ?_⟩
        · have hfirst := @toGoType_static _ _ _ _ (words ++ variableInput ++ tail) hkind
            hdynamic hret
          simpa only [List.append_assoc] using hfirst
        · rw [List.length_append, hword, hwords, List.length_cons, Nat.succ_mul, Nat.add_comm]
      | true =>
        rw [hdynamic] at hrest
        have hstring : t = .string := by
          cases t <;> simp [isDynamicType] at hdynamic
          rfl
        subst hstring
        cases v <;> simp [ArgType.kind, ArgValue.kind] at hkind
        rename_i s
        obtain ⟨hread, words, tail, rfl, hwords⟩ := @ih (index + 1) _ _ _ _ hrest hlen'
          (by rw [List.length_append, length_packNum, hret]; omega)
          (by rw [List.length_append, List.length_append, length_packNum]; omega)
        refine ⟨hcons ?_ hread, packNum inputOffset ++ words, packElement (.string s) ++ tail,
          by simp, ?_⟩
        · apply @toGoType_string inputOffset _ _ tail s _ _ _ hdata
          · simp only [List.length_append, length_packNum]
            omega
          · rw [← hret]
            simp only [List.append_assoc]
            rw [List.drop_left, ← length_packNum (i := inputOffset), List.take_left]
          · have hfront : inputOffset =
                (ret ++ packNum inputOffset ++ words ++ variableInput).length := by
              simp only [List.length_append, length_packNum, hwords]
              omega
            simp only [← List.append_assoc]
            rw [List.append_assoc _ (packElement _) tail]
            nth_rewrite 1 [hfront]
            rw [List.drop_left]
        · rw [List.length_append, length_packNum, hwords, List.length_cons, Nat.succ_mul,
            Nat.add_comm]

/-- **Arguments are read back** as they were packed: every word in its place, and every string where
its word says. Of a big integer 256 bits are left. -/
theorem unpackArguments_packArguments (hpack : packArguments types args = .ok data)
    (hdata : data.length < 2 ^ 63) :
    unpackArguments types data = .ok (args.map ArgValue.packed) := by
  obtain ⟨_, hcount, hloop⟩ := except_bind_ok_iff.mp hpack
  rw [rejectIf_ok_iff, ne_eq, not_not] at hcount
  have hsizes : (types.map getTypeSize).sum = types.length * 32 := by
    have hconst : getTypeSize = fun _ => 32 := rfl
    simp [hconst]
  obtain ⟨hread, words, tail, rfl, hwords⟩ := @unpackValues_packLoop 0 _ _ _ _ _ _ hloop hcount
    (by simp) (by simp [hsizes]) hdata
  rw [unpackArguments]
  split
  · rename_i hempty
    simp only [List.length_append, List.length_nil, hwords] at hempty
    have hnone : types = [] := List.length_eq_zero_iff.mp (by omega)
    subst hnone
    rw [List.length_nil, List.length_eq_zero_iff] at hcount
    subst hcount
    rfl
  · exact hread

/-- A text between two words, the last of them too wide for 256 bits. -/
theorem unpackArguments_packArguments_wide :
    (packArguments [.uint256, .string, .uint256]
        [.bigInt 7, .string [65, 66], .bigInt (2 ^ 256 + 3)] >>=
      unpackArguments [.uint256, .string, .uint256]) =
      .ok [.bigInt 7, .string [65, 66], .bigInt 3] := by
  have hpack : ∃ data, packArguments [.uint256, .string, .uint256]
      [.bigInt 7, .string [65, 66], .bigInt (2 ^ 256 + 3)] = .ok data ∧ data.length < 2 ^ 63 :=
    ⟨_, rfl, by decide +kernel⟩
  obtain ⟨data, hdata, hlen⟩ := hpack
  rw [hdata]
  exact unpackArguments_packArguments hdata hlen

end GenesisEthermint.Chain
