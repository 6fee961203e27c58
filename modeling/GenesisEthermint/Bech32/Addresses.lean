import GenesisEthermint.Bech32.Codec
import GenesisEthermint.Staking.Store
import GenesisEthermint.Types.Grammar
import GenesisEthermint.Types.Messages

/-!
# Addresses as Texts

The SDK writes an address in Bech32, under a human-readable part that says what the address is of,
and reads it back where a message or a record names an account or a validator. Only what it would
write is read, but for the case of the letters.
-/

namespace GenesisEthermint.Bech32

open GenesisEthermint.Foundation GenesisEthermint.Types GenesisEthermint.Staking

/-- `fmt.Errorf("…: %w", err)`. -/
def wrapping {α : Type} (text : String) : Except GoError α → Except GoError α :=
  Except.mapError fun err => .wrap err text

def convertAndEncode (hrp : List Char) (data : List UInt8) : Except GoError (List Char) := do
  let converted ← wrapping "encoding bech32 failed"
    (convertBits (data.map UInt8.toBitVec) 8 5 true)
  encode hrp converted

def decodeAndConvert (bech : List Char) : Except GoError (List Char × List UInt8) := do
  let (hrp, data) ← wrapping "decoding bech32 failed" (decode bech 1023)
  let converted ← wrapping "decoding bech32 failed" (convertBits data 5 8 false)
  return (hrp, converted.map UInt8.ofBitVec)

def errBech32EmptyAddress : GoError :=
  .errorf "decoding Bech32 address failed: must provide a non empty address"

def getFromBech32 (bech32str hrp : String) : Except GoError (List UInt8) := do
  rejectIf (bech32str.length = 0) errBech32EmptyAddress
  let (got, bz) ← decodeAndConvert bech32str.toList
  rejectIf (String.ofList got ≠ hrp)
    (.errorf s!"invalid Bech32 prefix; expected {hrp}, got {String.ofList got}")
  return bz

/-- The codec of the SDK. `cacheBech32Addr` panics if an address cannot be encoded, which does not
happen. -/
def codec : Staking.Bech32 where
  getFromBech32 := getFromBech32
  convertAndEncode hrp data :=
    match convertAndEncode hrp.toList data with
    | .ok text => String.ofList text
    | .error _ => ""

variable {bech hrp text : List Char} {bytes : List UInt8}

/-! ## §1 Reading and writing -/

theorem wrapping_ok_iff {α : Type} {desc : String} {x : Except GoError α} {a : α} :
    wrapping desc x = .ok a ↔ x = .ok a := by
  cases x with
  | ok a => simp [wrapping, Except.mapError]
  | error e => simp [wrapping, Except.mapError]

/-- How an address is written: its bits in groups of five, after the human-readable part. -/
theorem convertAndEncode_ok_iff : convertAndEncode hrp bytes = .ok text ↔
    ∃ groups, convertBits (bytes.map UInt8.toBitVec) 8 5 true = .ok groups ∧
      encode hrp groups = .ok text := by
  rw [convertAndEncode, except_bind_ok_iff]
  simp only [wrapping_ok_iff]

/-- Every address can be written. -/
theorem exists_convertAndEncode (hrp : List Char) (bytes : List UInt8) :
    ∃ text, convertAndEncode hrp bytes = .ok text := by
  obtain ⟨groups, hgroups, hlt, -⟩ := @exists_convertBits_pad 5 8 (bytes.map UInt8.toBitVec)
    (by omega) (by omega) (by omega) (by omega)
  have hall : ∀ b ∈ groups ++ bech32Checksum hrp groups, b.toNat < 2 ^ 5 := by
    intro b hb
    exact (List.mem_append.mp hb).elim (hlt b) fun h => lt_of_mem_bech32Checksum h
  obtain ⟨dataChars, hchars⟩ := exists_toChars hall
  exact ⟨_, convertAndEncode_ok_iff.mpr ⟨groups, hgroups, encode_ok_iff.mpr ⟨_, hchars, rfl⟩⟩⟩

theorem ne_nil_of_convertAndEncode (h : convertAndEncode hrp bytes = .ok text) : text ≠ [] := by
  obtain ⟨groups, -, hencode⟩ := convertAndEncode_ok_iff.mp h
  obtain ⟨dataChars, -, rfl⟩ := encode_ok_iff.mp hencode
  simp

/-- **What is read as an address**: the texts that are, but for their case, what is written for
it. -/
theorem decodeAndConvert_ok_iff : decodeAndConvert bech = .ok (hrp, bytes) ↔
    Uniform bech ∧ bech.length ≤ 1023 ∧ hrp ≠ [] ∧
      convertAndEncode hrp bytes = .ok (bech.map Char.toLower) := by
  have hback : ∀ converted : List (BitVec 8),
      (converted.map UInt8.ofBitVec).map UInt8.toBitVec = converted := by
    intro converted
    simp [Function.comp_def]
  have hforth : (bytes.map UInt8.toBitVec).map UInt8.ofBitVec = bytes := by
    simp [Function.comp_def]
  rw [decodeAndConvert, convertAndEncode_ok_iff]
  constructor
  · intro h
    obtain ⟨decoded, hdecode, h⟩ := except_bind_ok_iff.mp h
    obtain ⟨converted, hconvert, h⟩ := except_bind_ok_iff.mp h
    obtain ⟨rfl, rfl⟩ := Prod.mk.inj (Except.ok.inj h)
    rw [wrapping_ok_iff] at hdecode hconvert
    obtain ⟨huniform, hlen, hne, hencode⟩ := decode_ok_iff.mp hdecode
    obtain ⟨dataChars, hchars, -⟩ := encode_ok_iff.mp hencode
    have hlt := (toChars_ok hchars).2.1
    refine ⟨huniform, hlen, hne, decoded.2, ?_, hencode⟩
    rw [hback]
    exact (convertBits_back_iff fun b hb => hlt b (List.mem_append_left _ hb)).mp hconvert
  · rintro ⟨huniform, hlen, hne, groups, hgroups, hencode⟩
    have hlt := (convertBits_pad_iff (by omega) (by omega) (by omega) (by omega)).mp hgroups
    apply except_bind_ok_iff.mpr
    have hdecode := decode_ok_iff.mpr ⟨huniform, hlen, hne, hencode⟩
    refine ⟨(hrp, groups), wrapping_ok_iff.mpr hdecode, ?_⟩
    apply except_bind_ok_iff.mpr
    refine ⟨_, wrapping_ok_iff.mpr ((convertBits_back_iff hlt.1).mpr hgroups), ?_⟩
    rw [hforth]
    rfl

theorem getFromBech32_ok_iff {bech32str expected : String} :
    getFromBech32 bech32str expected = .ok bytes ↔
      Uniform bech32str.toList ∧ bech32str.toList.length ≤ 1023 ∧ expected ≠ "" ∧
        codec.convertAndEncode expected bytes =
          String.ofList (bech32str.toList.map Char.toLower) := by
  obtain ⟨written, hwritten⟩ := exists_convertAndEncode expected.toList bytes
  have hempty : expected ≠ "" ↔ expected.toList ≠ [] := by
    rw [Ne, Ne, ← String.toList_inj, String.toList_empty]
  have hcodec : codec.convertAndEncode expected bytes = String.ofList written := by
    simp only [codec, hwritten]
  rw [getFromBech32, hcodec, String.ofList_inj, hempty]
  constructor
  · intro h
    obtain ⟨_, -, h⟩ := except_bind_ok_iff.mp h
    obtain ⟨decoded, hdecoded, h⟩ := except_bind_ok_iff.mp h
    obtain ⟨_, hhrp, h⟩ := except_bind_ok_iff.mp h
    obtain rfl := Except.ok.inj h
    rw [rejectIf_ok_iff, not_not] at hhrp
    have hgot : decoded.1 = expected.toList := by
      rw [← hhrp, String.toList_ofList]
    obtain ⟨huniform, hlen, hne, hencode⟩ := decodeAndConvert_ok_iff.mp hdecoded
    rw [hgot] at hne hencode
    rw [hwritten] at hencode
    exact ⟨huniform, hlen, hne, Except.ok.inj hencode⟩
  · rintro ⟨huniform, hlen, hne, rfl⟩
    have hdecoded := decodeAndConvert_ok_iff.mpr ⟨huniform, hlen, hne, hwritten⟩
    have hpos : bech32str.length ≠ 0 := by
      intro hzero
      rw [← String.length_toList, List.length_eq_zero_iff] at hzero
      exact ne_nil_of_convertAndEncode hwritten (by rw [hzero, List.map_nil])
    apply except_bind_ok_iff.mpr
    refine ⟨(), rejectIf_ok_iff.mpr hpos, ?_⟩
    apply except_bind_ok_iff.mpr
    refine ⟨_, hdecoded, ?_⟩
    apply except_bind_ok_iff.mpr
    refine ⟨(), rejectIf_ok_iff.mpr ?_, rfl⟩
    simp

/-! ## §2 The texts of an address -/

/-- A human-readable part as the SDK is configured with: printing characters in lower case, and not
so long that no address could be read. -/
structure IsHrp (expected : String) : Prop where
  ne_empty : expected ≠ ""
  printable : ∀ c ∈ expected.toList, 33 ≤ c.toNat ∧ c.toNat ≤ 126 ∧ c.toLower = c
  length_le : expected.toList.length ≤ 600

theorem isHrp_accAddr : IsHrp Bech32PrefixAccAddr :=
  ⟨by decide, List.forall_iff_forall_mem.mp (by decide), by decide⟩

theorem bech32ifyAddressBytes_eq {expected : String} (h : bytes ≠ []) :
    bech32ifyAddressBytes codec expected bytes = codec.convertAndEncode expected bytes := by
  rw [bech32ifyAddressBytes, if_neg]
  intro hzero
  exact h (List.length_eq_zero_iff.mp hzero)

theorem isBlank_of_uniform {address : String} (h : Uniform address.toList)
    (hne : address.toList ≠ []) : isBlank address = false := by
  cases hs : address.toList with
  | nil => exact absurd hs hne
  | cons c cs =>
    apply isBlank_eq_false hs
    obtain ⟨hlow, hhigh⟩ := h.printable c (hs ▸ List.mem_cons_self)
    simp only [isInk, Bool.and_eq_true, decide_eq_true_eq]
    omega

/-- **Which texts name an address**: in one case, and in lower case what the address prints as. -/
theorem addressFromBech32_ok_iff {expected address : String} :
    addressFromBech32 codec expected address = .ok bytes ↔
      Uniform address.toList ∧ address.toList.length ≤ 1023 ∧ expected ≠ "" ∧ bytes ≠ [] ∧
        bytes.length ≤ MaxAddrLen ∧ bech32ifyAddressBytes codec expected bytes =
          String.ofList (address.toList.map Char.toLower) := by
  have hformat : verifyAddressFormat bytes = .ok () ↔
      bytes ≠ [] ∧ bytes.length ≤ MaxAddrLen := by
    rw [verifyAddressFormat, except_bind_ok_iff]
    simp [rejectIf_ok_iff]
  constructor
  · intro h
    obtain ⟨hne, hlen⟩ := addressFromBech32_ok h
    obtain ⟨_, -, h⟩ := except_bind_ok_iff.mp h
    obtain ⟨bz, hbz, h⟩ := except_bind_ok_iff.mp h
    obtain ⟨_, -, h⟩ := except_bind_ok_iff.mp h
    obtain rfl := Except.ok.inj h
    obtain ⟨huniform, hshort, hexpected, htext⟩ := getFromBech32_ok_iff.mp hbz
    rw [bech32ifyAddressBytes_eq hne]
    exact ⟨huniform, hshort, hexpected, hne, hlen, htext⟩
  · rintro ⟨huniform, hshort, hexpected, hne, hlen, htext⟩
    rw [bech32ifyAddressBytes_eq hne] at htext
    have haddress : address.toList ≠ [] := by
      intro hnil
      obtain ⟨written, hwritten⟩ := exists_convertAndEncode expected.toList bytes
      simp only [codec, hwritten, hnil, List.map_nil, String.ofList_inj] at htext
      exact ne_nil_of_convertAndEncode hwritten htext
    apply except_bind_ok_iff.mpr
    refine ⟨(), rejectIf_ok_iff.mpr (by simp [isBlank_of_uniform huniform haddress]), ?_⟩
    apply except_bind_ok_iff.mpr
    refine ⟨bytes, getFromBech32_ok_iff.mpr ⟨huniform, hshort, hexpected, htext⟩, ?_⟩
    apply except_bind_ok_iff.mpr
    exact ⟨(), hformat.mpr ⟨hne, hlen⟩, rfl⟩

/-- What is written under a human-readable part prints, in lower case, and is not long. -/
theorem written_spec {expected : String} (hexpected : IsHrp expected)
    (h : convertAndEncode expected.toList bytes = .ok text) :
    (∀ c ∈ text, 33 ≤ c.toNat ∧ c.toNat ≤ 126 ∧ c.toLower = c) ∧
      5 * text.length ≤ 3039 + 8 * bytes.length := by
  obtain ⟨groups, hgroups, hencode⟩ := convertAndEncode_ok_iff.mp h
  obtain ⟨dataChars, hchars, rfl⟩ := encode_ok_iff.mp hencode
  obtain ⟨hlen, -, hset⟩ := toChars_ok hchars
  have hcharset : ∀ c ∈ charset, 33 ≤ c.toNat ∧ c.toNat ≤ 126 ∧ c.toLower = c :=
    List.forall_iff_forall_mem.mp (by decide)
  constructor
  · intro c hc
    rcases List.mem_append.mp hc with hc | hc
    · exact hexpected.printable c hc
    · rcases List.mem_cons.mp hc with rfl | hc
      · decide
      · exact hcharset c (hset c hc)
  · obtain ⟨-, k, hk, hbits⟩ :=
      (convertBits_pad_iff (by omega) (by omega) (by omega) (by omega)).mp hgroups
    have hcount := congrArg List.length hbits
    rw [length_groupBits, List.length_append, length_groupBits, List.length_replicate,
      List.length_map] at hcount
    have hexp := hexpected.length_le
    rw [List.length_append, length_bech32Checksum] at hlen
    rw [List.length_append, List.length_cons]
    omega

/-- **An address that is printed is read back**, whatever its bytes are. -/
theorem addressFromBech32_bech32ifyAddressBytes {expected : String} (hexpected : IsHrp expected)
    (hne : bytes ≠ []) (hlen : bytes.length ≤ MaxAddrLen) :
    addressFromBech32 codec expected (bech32ifyAddressBytes codec expected bytes) =
      .ok bytes := by
  obtain ⟨written, hwritten⟩ := exists_convertAndEncode expected.toList bytes
  obtain ⟨hchars, hshort⟩ := written_spec hexpected hwritten
  have htext : bech32ifyAddressBytes codec expected bytes = String.ofList written := by
    rw [bech32ifyAddressBytes_eq hne]
    simp only [codec, hwritten]
  have hlower : written.map Char.toLower = written := by
    rw [List.map_congr_left fun c hc => (hchars c hc).2.2, List.map_id']
  rw [addressFromBech32_ok_iff, htext, String.toList_ofList, hlower]
  refine ⟨⟨?_, Or.inl hlower.symm⟩, ?_, hexpected.ne_empty, hne, hlen, rfl⟩
  · exact fun c hc => ⟨(hchars c hc).1, (hchars c hc).2.1⟩
  · rw [MaxAddrLen] at hlen
    omega

/-- What the two cases of an ASCII character have to do with each other. -/
theorem toUpper_spec {c : Char} (h : c.toNat < 128) :
    (33 ≤ c.toNat → c.toNat ≤ 126 → 33 ≤ c.toUpper.toNat ∧ c.toUpper.toNat ≤ 126) ∧
      c.toUpper.toUpper = c.toUpper ∧ c.toUpper.toLower = c.toLower ∧
      c.toLower.toUpper = c.toUpper :=
  of_ascii (P := fun c => (33 ≤ c.toNat → c.toNat ≤ 126 →
      33 ≤ c.toUpper.toNat ∧ c.toUpper.toNat ≤ 126) ∧ c.toUpper.toUpper = c.toUpper ∧
      c.toUpper.toLower = c.toLower ∧ c.toLower.toUpper = c.toUpper) (by decide) h

/-- **An address has two texts**: the one it is printed as, and that in upper case. Every other text
is refused, or is read as another address. -/
theorem addressFromBech32_iff_printed {expected address : String} (hexpected : IsHrp expected) :
    let printed := bech32ifyAddressBytes codec expected bytes
    addressFromBech32 codec expected address = .ok bytes ↔
      bytes ≠ [] ∧ bytes.length ≤ MaxAddrLen ∧
        (address = printed ∨ address = String.ofList (printed.toList.map Char.toUpper)) := by
  intro printed
  have hprint : ∀ {s : List Char}, (∀ c ∈ s, 33 ≤ c.toNat ∧ c.toNat ≤ 126) →
      ∀ c ∈ s, c.toNat < 128 := by
    intro s hs c hc
    have := hs c hc
    omega
  constructor
  · intro h
    obtain ⟨huniform, -, -, hne, hlen, htext⟩ := addressFromBech32_ok_iff.mp h
    refine ⟨hne, hlen, ?_⟩
    rcases huniform.oneCase with hlower | hupper
    · left
      rw [← String.ofList_toList (s := address), hlower]
      exact htext.symm
    · right
      have hcase : (address.toList.map Char.toLower).map Char.toUpper =
          address.toList.map Char.toUpper := by
        rw [List.map_map]
        apply List.map_congr_left
        exact fun c hc => (toUpper_spec (hprint huniform.printable c hc)).2.2.2
      show address = String.ofList ((bech32ifyAddressBytes codec expected bytes).toList.map _)
      rw [htext, String.toList_ofList, hcase, ← hupper, String.ofList_toList]
  · rintro ⟨hne, hlen, rfl | rfl⟩
    · exact addressFromBech32_bech32ifyAddressBytes hexpected hne hlen
    · have hread := addressFromBech32_bech32ifyAddressBytes hexpected hne hlen
      obtain ⟨huniform, hshort, hempty, -, -, htext⟩ := addressFromBech32_ok_iff.mp hread
      have hascii := hprint huniform.printable
      rw [addressFromBech32_ok_iff, String.toList_ofList, List.length_map, List.map_map]
      refine ⟨⟨?_, ?_⟩, hshort, hempty, hne, hlen, ?_⟩
      · intro c hc
        obtain ⟨d, hd, rfl⟩ := List.mem_map.mp hc
        obtain ⟨hlow, hhigh⟩ := huniform.printable d hd
        exact (toUpper_spec (hascii d hd)).1 hlow hhigh
      · right
        rw [List.map_map]
        apply List.map_congr_left
        exact fun c hc => (toUpper_spec (hascii c hc)).2.1.symm
      · rw [htext]
        congr 1
        apply List.map_congr_left
        exact fun c hc => (toUpper_spec (hascii c hc)).2.2.1.symm

/-- An address is read in capitals too. -/
theorem addressFromBech32_iff_printed_capitals :
    addressFromBech32 codec Bech32PrefixAccAddr "GENESIS1XVENXVENXVENXVENXVENXVENXVENXVENZH30TL" =
      .ok (List.replicate 20 0x33) :=
  (addressFromBech32_iff_printed isHrp_accAddr).mpr ⟨by decide, by decide, .inr (by decide +kernel)⟩

/-! ## §3 Mistyped addresses -/

/-- What the characters of a text stand for, where they are split. -/
theorem toBytes_append_iff {chars after : List Char} {data : List (BitVec 8)} :
    toBytes (chars ++ after) = .ok data ↔
      ∃ xs ys, toBytes chars = .ok xs ∧ toBytes after = .ok ys ∧ data = xs ++ ys := by
  rw [toBytes, List.mapM_append, except_bind_ok_iff]
  constructor
  · rintro ⟨xs, hxs, h⟩
    obtain ⟨ys, hys, h⟩ := except_bind_ok_iff.mp h
    exact ⟨xs, ys, hxs, hys, (Except.ok.inj h).symm⟩
  · rintro ⟨xs, ys, hxs, hys, rfl⟩
    exact ⟨xs, hxs, except_bind_ok_iff.mpr ⟨ys, hys, rfl⟩⟩

/-- Two texts with the same human-readable part, one correct and the other correct too, do not
differ in six characters in a row or fewer. -/
theorem data_eq_of_burst {data data' : List (BitVec 8)} {before after xs ys : List Char}
    (hascii : ∀ c ∈ hrp, c.toNat < 128) (hlen : xs.length = ys.length) (hle : xs.length ≤ 6)
    (hx : toChars (data ++ bech32Checksum hrp data) = .ok (before ++ xs ++ after))
    (hy : toChars (data' ++ bech32Checksum hrp data') = .ok (before ++ ys ++ after)) :
    data = data' := by
  have hlt := (toChars_ok hx).2.1
  have hlt' := (toChars_ok hy).2.1
  have hverified : ∀ {data : List (BitVec 8)},
      (∀ b ∈ data ++ bech32Checksum hrp data, b.toNat < 2 ^ 5) →
      bech32VerifyChecksum hrp (data ++ bech32Checksum hrp data) = true := by
    intro data hdata
    exact (bech32VerifyChecksum_iff hascii (fun b hb => hdata b (List.mem_append_left _ hb))
      (fun b hb => lt_of_mem_bech32Checksum hb) length_bech32Checksum).mpr rfl
  have hver := hverified hlt
  have hver' := hverified hlt'
  rw [← toBytes_ok_iff, toBytes_append_iff] at hx hy
  obtain ⟨front, tail, hfront, htail, heq⟩ := hx
  obtain ⟨front', tail', hfront', htail', heq'⟩ := hy
  obtain ⟨start, mid, hstart, hmid, rfl⟩ := toBytes_append_iff.mp hfront
  obtain ⟨start', mid', hstart', hmid', rfl⟩ := toBytes_append_iff.mp hfront'
  -- what stands before and after the change stands for the same
  obtain rfl := Except.ok.inj (hstart.symm.trans hstart')
  obtain rfl := Except.ok.inj (htail.symm.trans htail')
  have hmidlen := (toChars_ok (toBytes_ok_iff.mp hmid)).1
  have hmidlen' := (toChars_ok (toBytes_ok_iff.mp hmid')).1
  have hsame : mid = mid' := by
    rw [heq] at hver hlt
    rw [heq'] at hver' hlt'
    exact eq_of_bech32VerifyChecksum hascii hlt hlt' (by omega) (by omega) hver hver'
  have hall := heq.trans ((congrArg (start ++ · ++ tail) hsame).trans heq'.symm)
  have hlength := congrArg List.length hall
  rw [List.length_append, List.length_append, length_bech32Checksum, length_bech32Checksum]
    at hlength
  exact (List.append_inj hall (by omega)).1

/-- What is read, and the characters it is read from. -/
theorem exists_groups_of_addressFromBech32 {expected text : String}
    (h : addressFromBech32 codec expected text = .ok bytes) :
    ∃ groups dataChars, convertBits groups 5 8 false = .ok (bytes.map UInt8.toBitVec) ∧
      toChars (groups ++ bech32Checksum expected.toList groups) = .ok dataChars ∧
      text.toList.map Char.toLower = expected.toList ++ '1' :: dataChars ∧
      ∀ c ∈ expected.toList, c.toNat < 128 := by
  obtain ⟨huniform, -, -, hne, -, htext⟩ := addressFromBech32_ok_iff.mp h
  obtain ⟨written, hwritten⟩ := exists_convertAndEncode expected.toList bytes
  rw [bech32ifyAddressBytes_eq hne] at htext
  simp only [codec, hwritten, String.ofList_inj] at htext
  obtain ⟨groups, hgroups, hencode⟩ := convertAndEncode_ok_iff.mp hwritten
  obtain ⟨dataChars, hchars, hsplit⟩ := encode_ok_iff.mp hencode
  have hlt := ((convertBits_pad_iff (by omega) (by omega) (by omega) (by omega)).mp hgroups).1
  refine ⟨groups, dataChars, (convertBits_back_iff hlt).mpr hgroups, hchars,
    htext.symm.trans hsplit, ?_⟩
  intro c hc
  have hmem : c ∈ text.toList.map Char.toLower := by
    rw [← htext, hsplit]
    exact List.mem_append_left _ hc
  obtain ⟨d, hd, rfl⟩ := List.mem_map.mp hmem
  have hprint := huniform.printable d hd
  exact toNat_toLower_lt (by omega)

/-- The characters behind the separator, of a text in three parts. -/
theorem data_eq_of_parts {hrp before mid after dataChars : List Char}
    (h : (before ++ mid ++ after).map Char.toLower = hrp ++ '1' :: dataChars) :
    dataChars = (before.map Char.toLower).drop (hrp.length + 1) ++
      (mid.map Char.toLower).drop (hrp.length + 1 - before.length) ++
      (after.map Char.toLower).drop (hrp.length + 1 - (before.length + mid.length)) := by
  have hright : (hrp ++ '1' :: dataChars).drop (hrp.length + 1) = dataChars := by
    simp [List.drop_append]
  rw [← hright, ← h, List.map_append, List.map_append, List.drop_append, List.drop_append,
    List.length_append, List.length_map, List.length_map]

/-- **A mistyped address is not taken for another one**: two texts that are read as addresses under
the same human-readable part, and differ only within six characters in a row, are read as the same
address. -/
theorem addressFromBech32_eq_of_burst {expected s t : String} {a b : List UInt8}
    {before xs ys after : List Char} (hs : s.toList = before ++ xs ++ after)
    (ht : t.toList = before ++ ys ++ after) (hlen : xs.length = ys.length) (hle : xs.length ≤ 6)
    (ha : addressFromBech32 codec expected s = .ok a)
    (hb : addressFromBech32 codec expected t = .ok b) : a = b := by
  obtain ⟨groups, dataChars, hgroups, hchars, hlower, hascii⟩ :=
    exists_groups_of_addressFromBech32 ha
  obtain ⟨groups', dataChars', hgroups', hchars', hlower', -⟩ :=
    exists_groups_of_addressFromBech32 hb
  -- the two differ by the change, as far as it lies behind the separator
  rw [hs] at hlower
  rw [ht] at hlower'
  rw [data_eq_of_parts hlower] at hchars
  rw [data_eq_of_parts hlower', ← hlen] at hchars'
  have hsame : groups = groups' := by
    apply data_eq_of_burst hascii _ _ hchars hchars'
    · rw [List.length_drop, List.length_drop, List.length_map, List.length_map, hlen]
    · rw [List.length_drop, List.length_map]
      omega
  rw [hsame] at hgroups
  exact (List.map_injective_iff.mpr fun _ _ => UInt8.toBitVec_inj.mp)
    (Except.ok.inj (hgroups.symm.trans hgroups'))

/-- Three characters of the checksum changed. -/
theorem addressFromBech32_eq_of_burst_checksum : ¬ ∃ b,
    addressFromBech32 codec Bech32PrefixAccAddr "genesis1xvenxvenxvenxvenxvenxvenxvenxvenzh3qqq" =
      .ok b := by
  rintro ⟨b, hb⟩
  have ha : addressFromBech32 codec Bech32PrefixAccAddr
      "genesis1xvenxvenxvenxvenxvenxvenxvenxvenzh30tl" = .ok (List.replicate 20 0x33) := by
    decide +kernel
  have hsame := @addressFromBech32_eq_of_burst _ _ _ _ _
    "genesis1xvenxvenxvenxvenxvenxvenxvenxvenzh3".toList "0tl".toList "qqq".toList [] (by decide)
    (by decide) (by decide) (by decide) ha hb
  rw [← hsame] at hb
  exact absurd hb (by decide +kernel)

/-! ## §4 Messages made for an account -/

/-- `AccAddress.String`. -/
def accAddressString (aa : AccAddress) : String :=
  bech32ifyAddressBytes codec Bech32PrefixAccAddr aa

def newMsgConvertCoin (keccak256 : List Char → Hash) (coin : Coin) (receiver : Address)
    (sender : AccAddress) : MsgConvertCoin where
  coin := coin
  receiver := receiver.hex keccak256
  sender := accAddressString sender

def newMsgConvertERC20 (keccak256 : List Char → Hash) (amount : SdkInt) (receiver : AccAddress)
    (contract sender : Address) : MsgConvertERC20 where
  contractAddress := contract.hex keccak256
  amount := amount
  receiver := accAddressString receiver
  sender := sender.hex keccak256

variable {keccak256 : List Char → Hash} {account : AccAddress}

theorem accAddressFromBech32_accAddressString (hne : account ≠ [])
    (hlen : account.length ≤ MaxAddrLen) :
    accAddressFromBech32 codec (accAddressString account) = .ok account :=
  addressFromBech32_bech32ifyAddressBytes isHrp_accAddr hne hlen

/-- **A message made to convert a coin means what it was made of**: the sender has to sign it, the
receiver is credited, and only the coin can be refused. -/
theorem newMsgConvertCoin_spec {coin : Coin} {receiver : Address} (hne : account ≠ [])
    (hlen : account.length ≤ MaxAddrLen) :
    let msg := newMsgConvertCoin keccak256 coin receiver account
    msg.getSigners (accAddressFromBech32 codec) = [account] ∧
      hexToAddress msg.receiver = receiver ∧
      (msg.validateBasic (accAddressFromBech32 codec) = .ok () ↔
        validateIBCDenom coin.denom = .ok () ∧ 0 < coin.amount.val) := by
  have hsender := accAddressFromBech32_accAddressString hne hlen
  obtain ⟨hhex, hreceiver⟩ := hexSpelling_iff.mp (hexSpelling_hex keccak256 receiver)
  refine ⟨?_, hreceiver, ?_⟩
  · rw [MsgConvertCoin.getSigners, newMsgConvertCoin, hsender]
  · rw [MsgConvertCoin.validateBasic, newMsgConvertCoin]
    simp only [except_bind_ok_iff, rejectIf_ok_iff, hsender, hhex, wrapError]
    constructor
    · rintro ⟨_, hdenom, _, hamount, -⟩
      exact ⟨hdenom, not_not.mp hamount⟩
    · rintro ⟨hdenom, hamount⟩
      exact ⟨(), hdenom, (), not_not.mpr hamount, (), trivial, not_not.mpr trivial⟩

theorem newMsgConvertCoin_spec_five :
    let msg := newMsgConvertCoin (fun _ => ⟨List.replicate 32 0, rfl⟩)
      ⟨"acoin", newIntFromUint64 5⟩ (bytesToAddress [7]) (List.replicate 20 0x33)
    msg.getSigners (accAddressFromBech32 codec) = [List.replicate 20 0x33] ∧
      hexToAddress msg.receiver = bytesToAddress [7] ∧
      (msg.validateBasic (accAddressFromBech32 codec) = .ok () ↔
        validateIBCDenom "acoin" = .ok () ∧ 0 < (newIntFromUint64 5).val) :=
  newMsgConvertCoin_spec (by decide) (by decide)

/-- **A message made to convert tokens means what it was made of.** -/
theorem newMsgConvertERC20_spec {amount : SdkInt} {contract sender : Address} (hne : account ≠ [])
    (hlen : account.length ≤ MaxAddrLen) :
    let msg := newMsgConvertERC20 keccak256 amount account contract sender
    msg.getSigners = [sender.bytes] ∧ hexToAddress msg.contractAddress = contract ∧
      accAddressFromBech32 codec msg.receiver = .ok account ∧
      (msg.validateBasic (accAddressFromBech32 codec) = .ok () ↔ 0 < amount.val) := by
  have hreceiver := accAddressFromBech32_accAddressString hne hlen
  obtain ⟨hhex, hcontract⟩ := hexSpelling_iff.mp (hexSpelling_hex keccak256 contract)
  obtain ⟨hhex', hsender⟩ := hexSpelling_iff.mp (hexSpelling_hex keccak256 sender)
  refine ⟨?_, hcontract, hreceiver, ?_⟩
  · rw [MsgConvertERC20.getSigners, newMsgConvertERC20, hsender]
  · rw [MsgConvertERC20.validateBasic, newMsgConvertERC20]
    simp [except_bind_ok_iff, rejectIf_ok_iff, hreceiver, hhex, hhex', wrapError]

theorem newMsgConvertERC20_spec_five :
    let msg := newMsgConvertERC20 (fun _ => ⟨List.replicate 32 0, rfl⟩) (newIntFromUint64 5)
      (List.replicate 20 0x33) (bytesToAddress [9]) (bytesToAddress [7])
    msg.getSigners = [(bytesToAddress [7]).bytes] ∧
      hexToAddress msg.contractAddress = bytesToAddress [9] ∧
      accAddressFromBech32 codec msg.receiver = .ok (List.replicate 20 0x33) ∧
      (msg.validateBasic (accAddressFromBech32 codec) = .ok () ↔
        0 < (newIntFromUint64 5).val) :=
  newMsgConvertERC20_spec (by decide) (by decide)

end GenesisEthermint.Bech32
