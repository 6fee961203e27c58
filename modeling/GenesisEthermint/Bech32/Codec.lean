import GenesisEthermint.Bech32.Checksum
import GenesisEthermint.Bech32.Regrouping
import GenesisEthermint.Types.Text
import Mathlib.Data.List.Forall2

/-!
# The Bech32 Codec

A Bech32 text is a human-readable part, a separator, and characters for five bits each, the last
six of them a checksum. `Decode` takes a text in upper case as well, but otherwise only what
`Encode` writes.
-/

namespace GenesisEthermint.Bech32

open GenesisEthermint.Foundation GenesisEthermint.Types

def charset : List Char := "qpzry9x8gf2tvdw0s3jn54khce6mua7l".toList

/-- `strings.LastIndexByte`. -/
def lastIndexByte (c : Char) : List Char → Option ℕ
  | [] => none
  | d :: s =>
    match lastIndexByte c s with
    | some i => some (i + 1)
    | none => if d = c then some 0 else none

/-- The body of the loop of `toBytes`. -/
def toByte (c : Char) : Except GoError (BitVec 8) :=
  match charset.idxOf? c with
  | some index => .ok (BitVec.ofNat 8 index)
  | none => .error (.errorf s!"invalid character not part of charset: {c.toNat}")

def toBytes (chars : List Char) : Except GoError (List (BitVec 8)) := chars.mapM toByte

/-- The body of the loop of `toChars`. -/
def toChar (b : BitVec 8) : Except GoError Char :=
  match charset[b.toNat]? with
  | some c => .ok c
  | none => .error (.errorf s!"invalid data byte: {b.toNat}")

def toChars (data : List (BitVec 8)) : Except GoError (List Char) := data.mapM toChar

/-- `fmt.Errorf("…: %v", err)`. -/
def describe {α : Type} (text : String) : Except GoError α → Except GoError α :=
  Except.mapError fun err => .errorf (text ++ ": " ++ err.error)

def encode (hrp : List Char) (data : List (BitVec 8)) : Except GoError (List Char) := do
  let checksum := bech32Checksum hrp data
  let combined := data ++ checksum
  let dataChars ← describe "unable to convert data bytes to chars" (toChars combined)
  return hrp ++ '1' :: dataChars

/-- The text of the error for a wrong checksum. -/
def moreInfo (bech hrp : List Char) (decoded : List (BitVec 8)) : String :=
  let checksum := bech.drop (bech.length - 6)
  match toChars (bech32Checksum hrp (decoded.take (decoded.length - 6))) with
  | .ok expected => s!"Expected {String.ofList expected}, got {String.ofList checksum}."
  | .error _ => ""

/-- The rest of `Decode`, on a text in lower case. -/
def decodeLower (bech : List Char) : Except GoError (List Char × List (BitVec 8)) :=
  match lastIndexByte '1' bech with
  | none => .error (.errorf "invalid index of 1")
  | some one => do
    rejectIf (one < 1 ∨ bech.length < one + 7) (.errorf "invalid index of 1")
    let hrp := bech.take one
    let data := bech.drop (one + 1)
    let decoded ← describe "failed converting data to bytes" (toBytes data)
    rejectIf (bech32VerifyChecksum hrp decoded = false)
      (.errorf ("checksum failed. " ++ moreInfo bech hrp decoded))
    return (hrp, decoded.take (decoded.length - 6))

def decode (bech : List Char) (limit : ℕ) : Except GoError (List Char × List (BitVec 8)) := do
  rejectIf (bech.length < 8 ∨ limit < bech.length)
    (.errorf s!"invalid bech32 string length {bech.length}")
  forM bech fun c =>
    rejectIf (c.toNat < 33 ∨ 126 < c.toNat) (.errorf s!"invalid character in string: '{c}'")
  let lower := bech.map Char.toLower
  let upper := bech.map Char.toUpper
  rejectIf (bech ≠ lower ∧ bech ≠ upper) (.errorf "string not all lowercase or all uppercase")
  -- from here on the text in lower case
  decodeLower lower

variable {bech s hrp chars dataChars before after : List Char} {c : Char} {i limit : ℕ}
  {data : List (BitVec 8)}

/-! ## §1 Characters -/

theorem charset_nodup : charset.Nodup := by decide

theorem one_notMem_charset : '1' ∉ charset := by decide

theorem length_charset : charset.length = 32 := by decide

theorem lastIndexByte_eq_none_iff : lastIndexByte c s = none ↔ c ∉ s := by
  induction s with
  | nil => simp [lastIndexByte]
  | cons d s ih =>
    rw [lastIndexByte]
    split
    · rename_i i hi
      have hmem : c ∈ s := by
        by_contra hnot
        rw [ih.mpr hnot] at hi
        cases hi
      simp [hmem]
    · rename_i hi
      have hnot := ih.mp hi
      by_cases hd : d = c
      · simp [hd]
      · simp [hd, hnot, Ne.symm hd]

theorem lastIndexByte_eq_some_iff : lastIndexByte c s = some i ↔
    ∃ before after, s = before ++ c :: after ∧ c ∉ after ∧ before.length = i := by
  induction s generalizing i with
  | nil => simp [lastIndexByte]
  | cons d s ih =>
    rw [lastIndexByte]
    split
    · rename_i j hj
      obtain ⟨before, after, rfl, hafter, rfl⟩ := ih.mp hj
      constructor
      · intro h
        obtain rfl := Option.some.inj h
        exact ⟨d :: before, after, rfl, hafter, rfl⟩
      · rintro ⟨before', after', heq, hafter', rfl⟩
        cases before' with
        | nil =>
          -- the separator cannot be the first character, as it occurs later
          obtain ⟨-, rfl⟩ := List.cons.inj heq
          exact absurd (List.mem_append_right before List.mem_cons_self) hafter'
        | cons d' before' =>
          obtain ⟨-, htail⟩ := List.cons.inj heq
          have hj' := ih.mpr ⟨before', after', htail, hafter', rfl⟩
          rw [hj] at hj'
          rw [Option.some.inj hj', List.length_cons]
    · rename_i hnone
      have hnot := lastIndexByte_eq_none_iff.mp hnone
      constructor
      · intro h
        split at h
        · rename_i hd
          obtain rfl := Option.some.inj h
          exact ⟨[], s, by rw [hd, List.nil_append], hnot, rfl⟩
        · cases h
      · rintro ⟨before', after', heq, hafter', rfl⟩
        cases before' with
        | nil =>
          obtain ⟨rfl, -⟩ := List.cons.inj heq
          rw [if_pos rfl, List.length_nil]
        | cons d' before' =>
          obtain ⟨-, rfl⟩ := List.cons.inj heq
          exact absurd (List.mem_append_right before' List.mem_cons_self) hnot

/-- A loop that stops at the first element it cannot convert. -/
theorem mapM_eq_ok_iff {ε α β : Type} {f : α → Except ε β} {l : List α} {r : List β} :
    l.mapM f = .ok r ↔ List.Forall₂ (fun a b => f a = .ok b) l r := by
  induction l generalizing r with
  | nil =>
    rw [List.mapM_nil, List.forall₂_nil_left_iff]
    exact ⟨fun h => (Except.ok.inj h).symm, fun h => congrArg _ h.symm⟩
  | cons a l ih =>
    rw [List.mapM_cons, except_bind_ok_iff, List.forall₂_cons_left_iff]
    constructor
    · rintro ⟨b, hb, hl⟩
      obtain ⟨bs, hbs, hr⟩ := except_bind_ok_iff.mp hl
      exact ⟨b, bs, hb, ih.mp hbs, (Except.ok.inj hr).symm⟩
    · rintro ⟨b, bs, hb, hbs, rfl⟩
      exact ⟨b, hb, except_bind_ok_iff.mpr ⟨bs, ih.mpr hbs, rfl⟩⟩

/-- Where the characters of a list are distinct, an index and its character determine each other. -/
theorem idxOf?_eq_some_iff {l : List Char} (h : l.Nodup) :
    l.idxOf? c = some i ↔ l[i]? = some c := by
  induction l generalizing i with
  | nil => simp
  | cons d l ih =>
    obtain ⟨hnew, hrest⟩ := List.nodup_cons.mp h
    rw [List.idxOf?_cons]
    by_cases hd : d = c
    · cases i with
      | zero => simp [hd]
      | succ i =>
        have hmem : l[i]? ≠ some c := by
          intro hget
          exact hnew (hd ▸ List.mem_of_getElem? hget)
        simp [hd, hmem]
    · cases i with
      | zero => simp [hd]
      | succ i => simp [hd, ih hrest]

theorem toByte_ok_iff {b : BitVec 8} : toByte c = .ok b ↔ toChar b = .ok c := by
  have hindex : ∀ i, charset.idxOf? c = some i → i < 32 := by
    intro i hi
    rw [idxOf?_eq_some_iff charset_nodup] at hi
    obtain ⟨hlt, -⟩ := List.getElem?_eq_some_iff.mp hi
    rwa [length_charset] at hlt
  have hget : charset[b.toNat]? = some c ↔ charset.idxOf? c = some b.toNat :=
    (idxOf?_eq_some_iff charset_nodup).symm
  rw [toByte, toChar]
  constructor
  · intro h
    split at h
    · rename_i index hi
      obtain rfl := Except.ok.inj h
      have hnat : (BitVec.ofNat 8 index).toNat = index := by
        rw [BitVec.toNat_ofNat, Nat.mod_eq_of_lt]
        have := hindex index hi
        omega
      rw [hget.mpr (hnat.symm ▸ hi)]
    · cases h
  · intro h
    split at h
    · rename_i d hd
      obtain rfl := Except.ok.inj h
      rw [hget.mp hd]
      simp
    · cases h

/-- The two conversions are inverse to each other, and fail on what the other never returns. -/
theorem toBytes_ok_iff : toBytes chars = .ok data ↔ toChars data = .ok chars := by
  rw [toBytes, toChars, mapM_eq_ok_iff, mapM_eq_ok_iff]
  constructor
  · intro h
    exact (h.imp fun _ _ hc => toByte_ok_iff.mp hc).flip
  · intro h
    exact (h.imp fun _ _ hb => toByte_ok_iff.mpr hb).flip

/-- What has characters is below 32, and the characters are those of the set. -/
theorem toChars_ok (h : toChars data = .ok chars) :
    chars.length = data.length ∧ (∀ b ∈ data, b.toNat < 2 ^ 5) ∧ ∀ c ∈ chars, c ∈ charset := by
  rw [toChars, mapM_eq_ok_iff] at h
  induction h with
  | nil => simp
  | cons hb _ ih =>
    rw [toChar] at hb
    split at hb
    · rename_i d hd
      obtain rfl := Except.ok.inj hb
      have hlt := (List.getElem?_eq_some_iff.mp hd).1
      rw [length_charset] at hlt
      obtain ⟨hlen, hdata, hchars⟩ := ih
      refine ⟨by simp [hlen], ?_, ?_⟩
      · exact List.forall_mem_cons.mpr ⟨hlt, hdata⟩
      · exact List.forall_mem_cons.mpr ⟨List.mem_of_getElem? hd, hchars⟩
    · cases hb

theorem exists_toChars (h : ∀ b ∈ data, b.toNat < 2 ^ 5) : ∃ chars, toChars data = .ok chars := by
  induction data with
  | nil => exact ⟨[], rfl⟩
  | cons b data ih =>
    obtain ⟨chars, hchars⟩ := ih fun x hx => h x (List.mem_cons_of_mem b hx)
    have hlt : b.toNat < charset.length := by
      rw [length_charset]
      exact h b List.mem_cons_self
    refine ⟨charset[b.toNat] :: chars, ?_⟩
    rw [toChars, mapM_eq_ok_iff] at *
    apply List.Forall₂.cons _ hchars
    rw [toChar, List.getElem?_eq_getElem hlt]

/-! ## §2 What `Decode` accepts -/

/-- A text as `Decode` wants it: ASCII characters that print, letters of one case. -/
structure Uniform (bech : List Char) : Prop where
  printable : ∀ c ∈ bech, 33 ≤ c.toNat ∧ c.toNat ≤ 126
  oneCase : bech = bech.map Char.toLower ∨ bech = bech.map Char.toUpper

theorem forM_rejectIf_ok_iff {u : PUnit} {p : Char → Prop} [DecidablePred p]
    {err : Char → GoError} :
    (forM bech fun c => rejectIf (p c) (err c)) = .ok u ↔ ∀ c ∈ bech, ¬ p c := by
  induction bech with
  | nil => simp [pure, Except.pure]
  | cons c bech ih =>
    rw [List.forM_cons, except_bind_ok_iff]
    simp [rejectIf_ok_iff, ih]

theorem describe_ok_iff {α : Type} {text : String} {x : Except GoError α} {a : α} :
    describe text x = .ok a ↔ x = .ok a := by
  cases x with
  | ok a => simp [describe, Except.mapError]
  | error e => simp [describe, Except.mapError]

theorem encode_ok_iff : encode hrp data = .ok bech ↔
    ∃ dataChars, toChars (data ++ bech32Checksum hrp data) = .ok dataChars ∧
      bech = hrp ++ '1' :: dataChars := by
  rw [encode, except_bind_ok_iff]
  simp only [describe_ok_iff]
  constructor
  · rintro ⟨dataChars, hchars, h⟩
    exact ⟨dataChars, hchars, (Except.ok.inj h).symm⟩
  · rintro ⟨dataChars, hchars, rfl⟩
    exact ⟨dataChars, hchars, rfl⟩

/-- What holds of every ASCII character is checked on each of them. -/
theorem of_ascii {P : Char → Prop} (h : ∀ k : Fin 128, P (Char.ofNat k)) (hc : c.toNat < 128) :
    P c := by
  have hk := h ⟨c.toNat, hc⟩
  rwa [Char.ofNat_toNat] at hk

theorem toNat_toLower_lt (h : c.toNat < 128) : c.toLower.toNat < 128 :=
  of_ascii (P := fun c => c.toLower.toNat < 128) (by decide) h

/-- A text in lower case is decoded exactly where it is a non-empty part, the last separator, and
characters that end in the checksum of what precedes it. -/
theorem decodeLower_ok_iff (hascii : ∀ c ∈ bech, c.toNat < 128) :
    decodeLower bech = .ok (hrp, data) ↔ hrp ≠ [] ∧ encode hrp data = .ok bech := by
  have htake : ∀ before after : List Char,
      (before ++ '1' :: after).take before.length = before := fun _ _ => List.take_left
  have hdrop : ∀ before after : List Char,
      (before ++ '1' :: after).drop (before.length + 1) = after := by
    intro before after
    simp [List.drop_append]
  rw [encode_ok_iff]
  constructor
  · intro h
    rw [decodeLower] at h
    split at h
    · cases h
    · rename_i one hone
      obtain ⟨before, after, rfl, -, rfl⟩ := lastIndexByte_eq_some_iff.mp hone
      obtain ⟨_, hindex, h⟩ := except_bind_ok_iff.mp h
      obtain ⟨decoded, hdecoded, h⟩ := except_bind_ok_iff.mp h
      obtain ⟨_, hverified, h⟩ := except_bind_ok_iff.mp h
      obtain ⟨rfl, rfl⟩ := Prod.mk.inj (Except.ok.inj h)
      rw [rejectIf_ok_iff, not_or, List.length_append, List.length_cons] at hindex
      rw [rejectIf_ok_iff, Bool.not_eq_false, htake] at hverified
      rw [describe_ok_iff, toBytes_ok_iff, hdrop] at hdecoded
      rw [htake]
      obtain ⟨hlen, hlt, -⟩ := toChars_ok hdecoded
      -- the last six characters are the checksum
      obtain ⟨k, hk⟩ : ∃ k, decoded.length - 6 = k := ⟨_, rfl⟩
      have hsix : (decoded.drop k).length = 6 := by
        rw [List.length_drop]
        omega
      rw [← List.take_append_drop k decoded] at hverified
      have hsum := (bech32VerifyChecksum_iff (fun c hc => hascii c (List.mem_append_left _ hc))
        (fun b hb => hlt b (List.mem_of_mem_take hb)) (fun b hb => hlt b (List.mem_of_mem_drop hb))
        hsix).mp hverified
      rw [hk]
      refine ⟨?_, after, ?_, rfl⟩
      · rintro rfl
        exact hindex.1 Nat.one_pos
      · rw [← hsum, List.take_append_drop]
        exact hdecoded
  · rintro ⟨hne, dataChars, hchars, rfl⟩
    obtain ⟨hlen, hlt, hset⟩ := toChars_ok hchars
    have hlast : lastIndexByte '1' (hrp ++ '1' :: dataChars) = some hrp.length :=
      lastIndexByte_eq_some_iff.mpr
        ⟨hrp, dataChars, rfl, fun hmem => one_notMem_charset (hset _ hmem), rfl⟩
    have hverified : bech32VerifyChecksum hrp (data ++ bech32Checksum hrp data) = true := by
      apply (bech32VerifyChecksum_iff (fun c hc => hascii c (List.mem_append_left _ hc))
        (fun b hb => hlt b (List.mem_append_left _ hb)) _ length_bech32Checksum).mpr rfl
      exact fun b hb => lt_of_mem_bech32Checksum hb
    have hpos := List.length_pos_iff.mpr hne
    rw [List.length_append, length_bech32Checksum] at hlen
    rw [decodeLower, hlast]
    apply except_bind_ok_iff.mpr
    refine ⟨(), rejectIf_ok_iff.mpr ?_, ?_⟩
    · rw [List.length_append, List.length_cons]
      omega
    · rw [htake, hdrop]
      apply except_bind_ok_iff.mpr
      refine ⟨data ++ bech32Checksum hrp data, ?_, ?_⟩
      · rw [describe_ok_iff, toBytes_ok_iff]
        exact hchars
      · apply except_bind_ok_iff.mpr
        refine ⟨(), rejectIf_ok_iff.mpr (by simp [hverified]), ?_⟩
        simp [pure, Except.pure]

/-- **What `Decode` accepts**: the texts that are, but for their case, what `Encode` writes for what
is read from them. -/
theorem decode_ok_iff : decode bech limit = .ok (hrp, data) ↔
    Uniform bech ∧ bech.length ≤ limit ∧ hrp ≠ [] ∧
      encode hrp data = .ok (bech.map Char.toLower) := by
  have hascii : (∀ c ∈ bech, 33 ≤ c.toNat ∧ c.toNat ≤ 126) →
      ∀ c ∈ bech.map Char.toLower, c.toNat < 128 := by
    intro hprint c hc
    obtain ⟨d, hd, rfl⟩ := List.mem_map.mp hc
    have := hprint d hd
    exact toNat_toLower_lt (by omega)
  rw [decode]
  constructor
  · intro h
    obtain ⟨_, hlen, h⟩ := except_bind_ok_iff.mp h
    obtain ⟨_, hchars, h⟩ := except_bind_ok_iff.mp h
    obtain ⟨_, hcase, h⟩ := except_bind_ok_iff.mp h
    rw [rejectIf_ok_iff] at hlen hcase
    rw [forM_rejectIf_ok_iff] at hchars
    have hprint : ∀ c ∈ bech, 33 ≤ c.toNat ∧ c.toNat ≤ 126 := by
      intro c hc
      have := hchars c hc
      omega
    refine ⟨⟨hprint, ?_⟩, by omega, (decodeLower_ok_iff (hascii hprint)).mp h⟩
    by_contra hnot
    exact hcase (not_or.mp hnot)
  · rintro ⟨huniform, hlimit, hne, hencode⟩
    obtain ⟨dataChars, hchars, hbech⟩ := encode_ok_iff.mp hencode
    have hlen := (toChars_ok hchars).1
    have hlower := congrArg List.length hbech
    have hpos := List.length_pos_iff.mpr hne
    rw [List.length_append, length_bech32Checksum] at hlen
    rw [List.length_map, List.length_append, List.length_cons] at hlower
    apply except_bind_ok_iff.mpr
    refine ⟨(), rejectIf_ok_iff.mpr (by omega), ?_⟩
    apply except_bind_ok_iff.mpr
    refine ⟨(), forM_rejectIf_ok_iff.mpr ?_, ?_⟩
    · intro c hc
      have := huniform.printable c hc
      omega
    · apply except_bind_ok_iff.mpr
      refine ⟨(), rejectIf_ok_iff.mpr ?_, ?_⟩
      · rintro ⟨hnl, hnu⟩
        exact huniform.oneCase.elim hnl hnu
      · exact (decodeLower_ok_iff (hascii huniform.printable)).mpr ⟨hne, hencode⟩

end GenesisEthermint.Bech32
