import GenesisEthermint.Types.Text

/-!
# Addresses

Ethereum addresses are 20 bytes, hashes 32, and SDK account addresses any byte string. The
module passes Ethereum addresses around as text, so what matters here is which texts spell an
address, and that every spelling of it is read back to the same 20 bytes.
-/

namespace GenesisEthermint.Types

/-- `common.Address`. -/
@[ext]
structure Address where
  bytes : List UInt8
  length_eq : bytes.length = 20
  deriving DecidableEq

/-- `common.Hash`, and the digests of SHA-256 and Keccak-256. -/
@[ext]
structure Hash where
  bytes : List UInt8
  length_eq : bytes.length = 32
  deriving DecidableEq

/-- `sdk.AccAddress`. -/
abbrev AccAddress := List UInt8

/-- `common.BytesToAddress`: the last 20 bytes, padded on the left with zeros. -/
def bytesToAddress (b : List UInt8) : Address where
  bytes := (List.replicate 20 0 ++ b).drop b.length
  length_eq := by simp only [List.length_drop, List.length_append, List.length_replicate]; omega

/-- `common.HexToAddress`. -/
def hexToAddress (s : String) : Address := bytesToAddress (fromHex s)

/-- The half-bytes of a digest, most significant first. -/
def nibbles (h : List UInt8) : List ℕ := h.flatMap fun b => [b.toNat / 16, b.toNat % 16]

/-- `buf[i] -= 32` when the digit is a letter and the half-byte of the digest is above 7. -/
def checksumChar (c : Char) (nibble : ℕ) : Char :=
  if '9' < c ∧ 7 < nibble then Char.ofNat (c.toNat - 32) else c

/-- `Address.Hex` and `Address.String`: the EIP-55 spelling. -/
def Address.hex (keccak256 : List Char → Hash) (a : Address) : String :=
  let digits := hexEncode a.bytes
  "0x" ++ String.ofList (digits.zipWith checksumChar (nibbles (keccak256 digits).bytes))

/-- `s` is the address in hexadecimal: `0x` or not, letters of any case. -/
def HexSpelling (s : String) (a : Address) : Prop :=
  ∃ p ∈ ["", "0x", "0X"], ∃ digits : List Char,
    s = p ++ String.ofList digits ∧ digits.map Char.toLower = hexEncode a.bytes

/-! ## Hexadecimal digits -/

/-- A property of the hexadecimal characters is checked on the 128 ASCII ones. -/
private theorem of_isHexCharacter {P : Char → Prop}
    (h : ∀ k : Fin 128, isHexCharacter (Char.ofNat k) = true → P (Char.ofNat k)) {c : Char}
    (hc : isHexCharacter c = true) : P c := by
  have char_le_iff : ∀ c d : Char, c ≤ d ↔ c.toNat ≤ d.toNat := fun _ _ => Iff.rfl
  have hlt : c.toNat < 128 := by
    simp only [isHexCharacter, Bool.or_eq_true, Bool.and_eq_true, decide_eq_true_eq,
      char_le_iff] at hc
    have h9 : ('9').toNat = 57 := rfl
    have hf : ('f').toNat = 102 := rfl
    have hF : ('F').toNat = 70 := rfl
    omega
  have h := h ⟨c.toNat, hlt⟩
  rw [Char.ofNat_toNat] at h
  exact h hc

/-- What a hexadecimal character is: a value below 16, written as its lower-case digit. -/
theorem isHexCharacter_spec {c : Char} (hc : isHexCharacter c = true) :
    ∃ x < 16, fromHexChar c = some x ∧ hexDigit x = c.toLower :=
  of_isHexCharacter
    (P := fun c => ∃ x < 16, fromHexChar c = some x ∧ hexDigit x = c.toLower) (by decide) hc

theorem fromHexChar_toLower {c : Char} (hc : isHexCharacter c = true) :
    fromHexChar c.toLower = fromHexChar c :=
  of_isHexCharacter (P := fun c => fromHexChar c.toLower = fromHexChar c) (by decide) hc

/-- Lower-casing makes no digit of a character that is none. -/
theorem isHexCharacter_of_toLower {c : Char} (hc : isHexCharacter c.toLower = true) :
    isHexCharacter c = true := by
  by_cases hlt : c.toNat < 128
  · have hall : ∀ k : Fin 128, isHexCharacter (Char.ofNat k).toLower = true →
        isHexCharacter (Char.ofNat k) = true := by decide
    have h := hall ⟨c.toNat, hlt⟩
    rw [Char.ofNat_toNat] at h
    exact h hc
  · -- beyond ASCII, lower-casing changes nothing
    have hval : ¬ (c.val ≥ 'A'.val ∧ c.val ≤ 'Z'.val) := by
      rintro ⟨-, h⟩
      have hZ : c.toNat ≤ 90 := h
      omega
    have hlower : c.toLower = c := dif_neg hval
    rwa [hlower] at hc

theorem hexDigit_spec {n : ℕ} (h : n < 16) :
    fromHexChar (hexDigit n) = some n ∧ isHexCharacter (hexDigit n) = true ∧
      (hexDigit n).toLower = hexDigit n := by
  have hall : ∀ n : Fin 16, fromHexChar (hexDigit n) = some n.val ∧
      isHexCharacter (hexDigit n) = true ∧ (hexDigit n).toLower = hexDigit n := by decide
  exact hall ⟨n, h⟩

theorem checksumChar_spec {n : ℕ} (h : n < 16) (nibble : ℕ) :
    isHexCharacter (checksumChar (hexDigit n) nibble) = true ∧
      (checksumChar (hexDigit n) nibble).toLower = hexDigit n := by
  have hall : ∀ n : Fin 16, ∀ b : Bool,
      isHexCharacter (if '9' < hexDigit n ∧ b then Char.ofNat ((hexDigit n).toNat - 32)
        else hexDigit n) = true ∧
      (if '9' < hexDigit n ∧ b then Char.ofNat ((hexDigit n).toNat - 32)
        else hexDigit n).toLower = hexDigit n := by decide
  have hn := hall ⟨n, h⟩ (decide (7 < nibble))
  simp only [decide_eq_true_eq] at hn
  exact hn

theorem length_hexEncode (b : List UInt8) : (hexEncode b).length = 2 * b.length := by
  induction b with
  | nil => rfl
  | cons x b ih => simp only [hexEncode, List.length_cons, ih]; omega

theorem hexDecode_hexEncode (b : List UInt8) : hexDecode (hexEncode b) = (b, true) := by
  induction b with
  | nil => rfl
  | cons x b ih =>
    have hx : x.toNat < 256 := x.toNat_lt
    have hd : 16 * (x.toNat / 16) + x.toNat % 16 = x.toNat := Nat.div_add_mod ..
    simp only [hexEncode, hexDecode, (hexDigit_spec (show x.toNat / 16 < 16 by omega)).1,
      (hexDigit_spec (show x.toNat % 16 < 16 by omega)).1, ih, hd, UInt8.ofNat_toNat]

/-- Decoding reads a text through its lower-case spelling. -/
theorem hexDecode_toLower : ∀ {cs : List Char}, cs.all isHexCharacter = true →
    hexDecode (cs.map Char.toLower) = hexDecode cs
  | [], _ => rfl
  | [_], _ => rfl
  | c :: d :: cs, hc => by
    simp only [List.all_cons, Bool.and_eq_true] at hc
    simp only [List.map_cons, hexDecode, fromHexChar_toLower hc.1, fromHexChar_toLower hc.2.1,
      hexDecode_toLower hc.2.2]

/-- An even number of hexadecimal characters encodes back to its lower-case spelling. -/
theorem hexEncode_hexDecode : ∀ {cs : List Char}, cs.length % 2 = 0 →
    cs.all isHexCharacter = true → hexEncode (hexDecode cs).1 = cs.map Char.toLower
  | [], _, _ => rfl
  | [_], h, _ => by simp at h
  | c :: d :: cs, h, hc => by
    simp only [List.all_cons, Bool.and_eq_true] at hc
    have hlen : cs.length % 2 = 0 := by simp only [List.length_cons] at h; omega
    obtain ⟨x, hx, hcx, hlx⟩ := isHexCharacter_spec hc.1
    obtain ⟨y, hy, hdy, hly⟩ := isHexCharacter_spec hc.2.1
    have hxy : (UInt8.ofNat (16 * x + y)).toNat = 16 * x + y :=
      UInt8.toNat_ofNat_of_lt (show 16 * x + y < 256 by omega)
    have hdiv : (16 * x + y) / 16 = x := by omega
    have hmod : (16 * x + y) % 16 = y := by omega
    simp only [hexDecode, hcx, hdy, hexEncode, hxy, hdiv, hmod, hlx, hly, List.map_cons,
      hexEncode_hexDecode hlen hc.2.2]

theorem all_isHexCharacter_hexEncode (b : List UInt8) :
    (hexEncode b).all isHexCharacter = true ∧ (hexEncode b).map Char.toLower = hexEncode b := by
  induction b with
  | nil => exact ⟨rfl, rfl⟩
  | cons x b ih =>
    have hx : x.toNat < 256 := x.toNat_lt
    have h1 := hexDigit_spec (show x.toNat / 16 < 16 by omega)
    have h2 := hexDigit_spec (show x.toNat % 16 < 16 by omega)
    simp only [hexEncode, List.all_cons, List.map_cons, h1, h2, ih, Bool.and_self, and_self]

/-! ## Reading addresses back -/

theorem bytesToAddress_bytes (a : Address) : bytesToAddress a.bytes = a := by
  ext1
  simp only [bytesToAddress, a.length_eq]
  exact List.drop_left' (by simp)

/-- Hexadecimal digits never begin with `0x`. -/
theorem has0xPrefix_eq_false {cs : List Char} (h : cs.all isHexCharacter = true) :
    has0xPrefix cs = false := by
  match cs, h with
  | [], _ => rfl
  | [c], _ => unfold has0xPrefix; split <;> simp_all
  | c :: d :: cs, h =>
    simp only [List.all_cons, Bool.and_eq_true] at h
    unfold has0xPrefix
    split
    · simp_all [isHexCharacter]
    · simp_all [isHexCharacter]
    · rfl

theorem strip0x_append {p : String} (hp : p ∈ ["", "0x", "0X"]) {cs : List Char}
    (h : cs.all isHexCharacter = true) : strip0x (p.toList ++ cs) = cs := by
  simp only [List.mem_cons, List.not_mem_nil, or_false] at hp
  rcases hp with rfl | rfl | rfl
  · simp [strip0x, has0xPrefix_eq_false h]
  · rfl
  · rfl

/-- What stands before the digits of a hexadecimal address is one of the three prefixes. -/
theorem exists_prefix (cs : List Char) :
    ∃ p ∈ ["", "0x", "0X"], cs = p.toList ++ strip0x cs := by
  by_cases h : has0xPrefix cs = true
  · rw [strip0x, if_pos h]
    unfold has0xPrefix at h
    split at h
    · exact ⟨"0x", by decide, rfl⟩
    · exact ⟨"0X", by decide, rfl⟩
    · simp at h
  · exact ⟨"", by decide, by simp [strip0x, h]⟩

theorem isHexAddress_iff {s : String} : isHexAddress s = true ↔
    (strip0x s.toList).length = 40 ∧ (strip0x s.toList).all isHexCharacter = true := by
  simp [isHexAddress]

private theorem hexToAddress_eq {s : String} (h : isHexAddress s = true) :
    hexToAddress s = bytesToAddress (hexDecode (strip0x s.toList)).1 := by
  have hlen := (isHexAddress_iff.mp h).1
  simp only [hexToAddress, fromHex, hlen]
  rfl

/-- **Hex spellings are exactly what `IsHexAddress` accepts**, and `HexToAddress` reads each
of them as the address it spells. -/
theorem hexSpelling_iff {s : String} {a : Address} :
    HexSpelling s a ↔ isHexAddress s = true ∧ hexToAddress s = a := by
  constructor
  · rintro ⟨p, hp, digits, rfl, hd⟩
    -- the digits are those of the address up to case, so they are hex characters
    have hall : digits.all isHexCharacter = true := by
      have hlow := (all_isHexCharacter_hexEncode a.bytes).1
      rw [← hd, List.all_map] at hlow
      rw [List.all_eq_true] at hlow ⊢
      exact fun c hc => isHexCharacter_of_toLower (hlow c hc)
    have hs : strip0x (p ++ String.ofList digits).toList = digits := by
      rw [String.toList_append, String.toList_ofList]
      exact strip0x_append hp hall
    have hlen : digits.length = 40 := by
      have := congrArg List.length hd
      rw [List.length_map, length_hexEncode, a.length_eq] at this
      exact this
    have hhex : isHexAddress (p ++ String.ofList digits) = true :=
      isHexAddress_iff.mpr (by rw [hs]; exact ⟨hlen, hall⟩)
    refine ⟨hhex, ?_⟩
    -- decoding forgets the case, and undoes the encoding of the twenty bytes
    rw [hexToAddress_eq hhex, hs, ← hexDecode_toLower hall, hd, hexDecode_hexEncode]
    exact bytesToAddress_bytes a
  · rintro ⟨h, rfl⟩
    obtain ⟨hlen, hall⟩ := isHexAddress_iff.mp h
    -- what the prefix is follows from the text; the digits are what is left of it
    obtain ⟨p, hp, hcs⟩ := exists_prefix s.toList
    refine ⟨p, hp, strip0x s.toList, ?_, ?_⟩
    · rw [← String.toList_inj, String.toList_append, String.toList_ofList]
      exact hcs
    · have henc := hexEncode_hexDecode (by omega) hall
      have hdec : (hexDecode (strip0x s.toList)).1.length = 20 := by
        have := congrArg List.length henc
        rw [length_hexEncode, List.length_map, hlen] at this
        omega
      rw [hexToAddress_eq h, ← henc]
      exact congrArg (fun a : Address => hexEncode a.bytes)
        (bytesToAddress_bytes ⟨_, hdec⟩).symm

/-- An address is read back from the text it is printed as. -/
theorem hexSpelling_hex (keccak256 : List Char → Hash) (a : Address) :
    HexSpelling (a.hex keccak256) a := by
  refine ⟨"0x", by decide, _, rfl, ?_⟩
  generalize hn : nibbles (keccak256 (hexEncode a.bytes)).bytes = ns
  have hlen : 2 * a.bytes.length ≤ ns.length := by
    rw [← hn, nibbles, List.length_flatMap]
    simp [(keccak256 _).length_eq, a.length_eq]
  clear hn
  revert ns
  induction a.bytes with
  | nil => intro ns _; simp [hexEncode]
  | cons x b ih =>
    intro ns hlen
    match ns, hlen with
    | m :: n :: ns, hlen =>
      have hx : x.toNat < 256 := x.toNat_lt
      have h1 := checksumChar_spec (show x.toNat / 16 < 16 by omega) m
      have h2 := checksumChar_spec (show x.toNat % 16 < 16 by omega) n
      simp only [hexEncode, List.zipWith_cons_cons, List.map_cons, h1.2, h2.2]
      rw [ih ns (by simp only [List.length_cons] at hlen; omega)]
    | [_], hlen => simp at hlen; omega
    | [], hlen => simp at hlen

@[simp] theorem hexToAddress_hex (keccak256 : List Char → Hash) (a : Address) :
    hexToAddress (a.hex keccak256) = a :=
  (hexSpelling_iff.mp (hexSpelling_hex keccak256 a)).2

@[simp] theorem isHexAddress_hex (keccak256 : List Char → Hash) (a : Address) :
    isHexAddress (a.hex keccak256) = true :=
  (hexSpelling_iff.mp (hexSpelling_hex keccak256 a)).1

end GenesisEthermint.Types
