import GenesisEthermint.Types.Messages
import Mathlib.Data.List.Infix
import Mathlib.Data.List.TakeWhile

/-!
# The Grammar of Coin Proposals

`RegisterCoinProposal` is validated by three parsers one after the other: the bank's check of the
metadata, the IBC module's check of the base denomination, and the module's own check of IBC
vouchers. The last two split the same string, each in its own way. Together they accept plain
denominations without a slash, and vouchers `ibc/` and a hash with a matching name and symbol.
-/

namespace GenesisEthermint.Types

/-! ## Strings -/

/-- `strings.Contains` finds a text somewhere in the middle. -/
theorem contains_iff {s sub : String} :
    contains s sub = true ↔ ∃ before after : String, s = before ++ sub ++ after := by
  simp only [contains, List.any_eq_true, List.mem_tails, List.isPrefixOf_iff_prefix]
  constructor
  · rintro ⟨t, ⟨before, hbefore⟩, after, rfl⟩
    refine ⟨String.ofList before, String.ofList after, String.toList_inj.mp ?_⟩
    simp only [String.toList_append, String.toList_ofList, List.append_assoc, hbefore]
  · rintro ⟨before, after, rfl⟩
    refine ⟨sub.toList ++ after.toList, ⟨before.toList, ?_⟩, after.toList, rfl⟩
    simp only [String.toList_append, List.append_assoc]

/-- `strings.HasPrefix`. -/
theorem hasPrefix_iff {s p : String} : hasPrefix s p = true ↔ ∃ rest : String, s = p ++ rest := by
  simp only [hasPrefix, List.isPrefixOf_iff_prefix]
  constructor
  · rintro ⟨rest, hrest⟩
    refine ⟨String.ofList rest, String.toList_inj.mp ?_⟩
    rw [String.toList_append, String.toList_ofList, hrest]
  · rintro ⟨rest, rfl⟩
    exact ⟨rest.toList, String.toList_append.symm⟩

private theorem takeWhile_of_notMem {cs rest : List Char} (h : '/' ∉ cs) :
    (cs ++ rest).takeWhile (· ≠ '/') = cs ++ rest.takeWhile (· ≠ '/') :=
  List.takeWhile_append_of_pos fun c hc => by
    simpa using fun heq : c = '/' => h (heq ▸ hc)

/-- A text without a slash is not split. -/
theorem splitSlash_of_notMem {s : String} (h : '/' ∉ s.toList) : splitSlash s = (s, none) := by
  have hhead : s.toList.takeWhile (· ≠ '/') = s.toList := by
    have hall : (s.toList ++ []).takeWhile (· ≠ '/') = s.toList ++ [].takeWhile (· ≠ '/') :=
      takeWhile_of_notMem h
    rwa [List.append_nil, List.takeWhile_nil, List.append_nil] at hall
  simp only [splitSlash, hhead, List.drop_length]

/-- A text with a slash is split at the first one. -/
theorem splitSlash_append {head tail : String} (h : '/' ∉ head.toList) :
    splitSlash (head ++ "/" ++ tail) = (head, some tail) := by
  have hlist : (head ++ "/" ++ tail).toList = head.toList ++ '/' :: tail.toList := by
    simp [String.toList_append]
  have hhead : (head.toList ++ '/' :: tail.toList).takeWhile (· ≠ '/') = head.toList := by
    rw [takeWhile_of_notMem h]
    simp
  simp only [splitSlash, hlist, hhead, List.drop_left, String.ofList_toList]

/-- Every text is one or the other. -/
theorem split_cases (s : String) : '/' ∉ s.toList ∨
    ∃ head tail : String, s = head ++ "/" ++ tail ∧ '/' ∉ head.toList := by
  by_cases h : '/' ∈ s.toList
  · obtain ⟨before, after, hs, hbefore⟩ := List.eq_append_cons_of_mem h
    refine .inr ⟨String.ofList before, String.ofList after, String.toList_inj.mp ?_, ?_⟩
    · simp [String.toList_append, hs]
    · rwa [String.toList_ofList]
  · exact .inl h

/-! ## Blank texts -/

/-- A character that begins no white space. -/
def isInk (c : Char) : Bool := 32 < c.toNat && c.toNat < 128

/-- A text that begins with ink is not blank. -/
theorem isBlank_eq_false {s : String} {c : Char} {cs : List Char} (hs : s.toList = c :: cs)
    (hc : isInk c = true) : isBlank s = false := by
  have hheads : spaceEncodings.all (fun e => e.head?.any fun h => !isInk h) = true := by decide
  have hfind : spaceEncodings.find? (fun e => e.isPrefixOf (c :: cs)) = none := by
    refine List.find?_eq_none.mpr fun e he hpre => ?_
    have hhead := List.all_eq_true.mp hheads e he
    cases e with
    | nil => cases hhead
    | cons h t =>
      -- the white space would begin with this very character
      obtain ⟨rfl, -⟩ := List.cons_prefix_cons.mp (List.isPrefixOf_iff_prefix.mp hpre)
      simp [hc] at hhead
  simp only [isBlank, hs, List.length_cons, blankWithin, hfind]

/-- Every character up to `z` that a denomination may have is ink. -/
theorem isInk_of_isDenomChar {c : Char} (h : isDenomChar c = true) : isInk c = true := by
  have hle : ∀ a b : Char, a ≤ b ↔ a.toNat ≤ b.toNat := fun _ _ => Iff.rfl
  simp only [isDenomChar, isLetter, Bool.or_eq_true, Bool.and_eq_true, decide_eq_true_eq, hle,
    beq_iff_eq] at h
  simp only [isInk, Bool.and_eq_true, decide_eq_true_eq]
  rcases h with (((⟨h1, h2⟩ | ⟨h1, h2⟩) | ⟨h1, h2⟩) | rfl) | rfl
  · exact ⟨lt_of_lt_of_le (by decide) h1, lt_of_le_of_lt h2 (by decide)⟩
  · exact ⟨lt_of_lt_of_le (by decide) h1, lt_of_le_of_lt h2 (by decide)⟩
  · exact ⟨lt_of_lt_of_le (by decide) h1, lt_of_le_of_lt h2 (by decide)⟩
  · decide
  · decide

/-- A denomination is not blank. -/
theorem isBlank_of_reDnm {s : String} (h : reDnm s.toList = true) : isBlank s = false := by
  cases hs : s.toList with
  | nil =>
    rw [hs] at h
    cases h
  | cons c cs =>
    rw [hs] at h
    simp only [reDnm, Bool.and_eq_true] at h
    exact isBlank_eq_false hs (isInk_of_isDenomChar (by simp [isDenomChar, h.1.1.1]))

/-! ## Hashes -/

/-- The text of a hash: 32 bytes, each as two hexadecimal digits of either case. -/
def IsHexHash (hash : String) : Prop :=
  hash.toList.length = 64 ∧ hash.toList.all isHexCharacter = true

theorem isDenomChar_of_isHexCharacter {c : Char} (h : isHexCharacter c = true) :
    isDenomChar c = true := by
  have hle : ∀ a b : Char, a ≤ b ↔ a.toNat ≤ b.toNat := fun _ _ => Iff.rfl
  have hf : ('f').toNat ≤ ('z').toNat := by decide
  have hF : ('F').toNat ≤ ('Z').toNat := by decide
  simp only [isHexCharacter, Bool.or_eq_true, Bool.and_eq_true, decide_eq_true_eq, hle] at h
  simp only [isDenomChar, isLetter, Bool.or_eq_true, Bool.and_eq_true, decide_eq_true_eq, hle]
  rcases h with (hdigit | ⟨hlow, hup⟩) | ⟨hlow, hup⟩
  · exact .inl (.inl (.inr hdigit))
  · exact .inl (.inl (.inl (.inl ⟨hlow, hup.trans hf⟩)))
  · exact .inl (.inl (.inl (.inr ⟨hlow, hup.trans hF⟩)))

private theorem isHexCharacter_of_fromHexChar {c : Char} {x : ℕ} (h : fromHexChar c = some x) :
    isHexCharacter c = true := by
  unfold fromHexChar at h
  unfold isHexCharacter
  split_ifs at h <;> simp_all

private theorem isHexCharacter_eq_false {c : Char} (h : fromHexChar c = none) :
    isHexCharacter c = false := by
  apply Bool.eq_false_iff.mpr
  intro hhex
  obtain ⟨x, -, hx, -⟩ := isHexCharacter_spec hhex
  rw [h] at hx
  cases hx

/-- What is decoded without an error is an even number of hexadecimal digits. -/
theorem hexDecode_ok_iff : ∀ cs : List Char, (hexDecode cs).2 = true ↔
    cs.all isHexCharacter = true ∧ cs.length = 2 * (hexDecode cs).1.length
  | [] => by simp [hexDecode]
  | [_] => by simp [hexDecode]
  | c :: d :: cs => by
    have ih := hexDecode_ok_iff cs
    cases hc : fromHexChar c with
    | none => simp [hexDecode, hc, isHexCharacter_eq_false hc]
    | some x =>
      cases hd : fromHexChar d with
      | none => simp [hexDecode, hc, hd, isHexCharacter_eq_false hd]
      | some y =>
        -- two digits make one byte
        have hlen : cs.length + 2 = 2 * ((hexDecode cs).1.length + 1) ↔
            cs.length = 2 * (hexDecode cs).1.length := by omega
        simp [hexDecode, hc, hd, isHexCharacter_of_fromHexChar hc,
          isHexCharacter_of_fromHexChar hd, ih, hlen]

/-- A text that is not blank is read as a hash exactly if it is one. -/
theorem parseHexHash_ok_iff {hash : String} :
    (isBlank hash = false ∧ ∃ bytes, parseHexHash hash = .ok bytes) ↔ IsHexHash hash := by
  have hdec := hexDecode_ok_iff hash.toList
  have hparse : (∃ bytes, parseHexHash hash = .ok bytes) ↔ (hexDecode hash.toList).2 = true ∧
      ((hexDecode hash.toList).1.length = 0 ∨ (hexDecode hash.toList).1.length = 32) := by
    unfold parseHexHash
    rcases hexDecode hash.toList with ⟨bytes, ok⟩
    cases ok with
    | false => simp
    | true =>
      simp only [true_and]
      split
      · rename_i hlen
        refine iff_of_false (fun ⟨_, h⟩ => by cases h) (by omega)
      · rename_i hlen
        exact iff_of_true ⟨bytes, rfl⟩ (by omega)
  rw [hparse, hdec]
  constructor
  · rintro ⟨hblank, ⟨hall, hlen⟩, hzero | hbytes⟩
    · -- the empty text is blank
      have hnil : hash.toList = [] := List.length_eq_zero_iff.mp (by omega)
      simp [isBlank, hnil, blankWithin] at hblank
    · exact ⟨by omega, hall⟩
  · rintro ⟨hlen, hall⟩
    -- encoding the bytes again gives the 64 digits back
    have hok : hexEncode (hexDecode hash.toList).1 = hash.toList.map Char.toLower :=
      hexEncode_hexDecode (by omega) hall
    have hbytes : (hexDecode hash.toList).1.length = 32 := by
      have := congrArg List.length hok
      rw [length_hexEncode, List.length_map, hlen] at this
      omega
    refine ⟨?_, ⟨hall, by omega⟩, .inr hbytes⟩
    -- a text that starts with a digit is not blank
    cases hs : hash.toList with
    | nil =>
      rw [hs] at hlen
      cases hlen
    | cons c cs =>
      rw [hs, List.all_cons, Bool.and_eq_true] at hall
      exact isBlank_eq_false hs (isInk_of_isDenomChar (isDenomChar_of_isHexCharacter hall.1))

/-! ## The two parsers of a base denomination -/

section

variable {d : String} {m : Metadata}

private theorem notMem_denomPrefix : '/' ∉ DenomPrefix.toList := by decide

/-- What the IBC module accepts. -/
theorem validateIBCDenom_ok_iff : validateIBCDenom d = .ok () ↔ reDnm d.toList = true ∧
    (('/' ∉ d.toList ∧ d ≠ DenomPrefix) ∨
      ∃ hash, d = DenomPrefix ++ "/" ++ hash ∧ IsHexHash hash) := by
  rw [validateIBCDenom, Foundation.except_bind_ok_iff]
  simp only [validateDenom_ok_iff, exists_and_left, exists_const]
  -- a denomination is never blank, so the first guard of `ValidateIBCDenom` passes
  refine and_congr_right fun hd => ?_
  have hink := isBlank_of_reDnm hd
  rcases split_cases d with hno | ⟨head, tail, rfl, hhead⟩
  · -- one part: the bare word is refused
    rw [splitSlash_of_notMem hno]
    have hvoucher : ¬ ∃ hash, d = DenomPrefix ++ "/" ++ hash ∧ IsHexHash hash := by
      rintro ⟨hash, rfl, -⟩
      exact hno (by simp [String.toList_append])
    simp only [hink, Bool.false_eq_true, false_or, hvoucher, or_false, hno, not_false_eq_true,
      true_and]
    split
    · rename_i hbare
      exact iff_of_false (fun h => by cases h) (not_not.mpr hbare)
    · rename_i hbare
      exact iff_of_true rfl hbare
  · -- two parts: the prefix, and a hash
    rw [splitSlash_append hhead]
    have hslash : '/' ∈ (head ++ "/" ++ tail).toList := by simp [String.toList_append]
    -- the slash is the first one, so the two readings split at the same place
    have hvoucher : (∃ hash, head ++ "/" ++ tail = DenomPrefix ++ "/" ++ hash ∧ IsHexHash hash) ↔
        head = DenomPrefix ∧ IsHexHash tail := by
      constructor
      · rintro ⟨hash, heq, hhash⟩
        have hsplit := congrArg splitSlash heq
        rw [splitSlash_append hhead, splitSlash_append notMem_denomPrefix] at hsplit
        obtain ⟨rfl, htail⟩ := Prod.mk.inj hsplit
        obtain rfl := Option.some.inj htail
        exact ⟨rfl, hhash⟩
      · rintro ⟨rfl, hhash⟩
        exact ⟨tail, rfl, hhash⟩
    rw [hvoucher, ← parseHexHash_ok_iff]
    simp only [hink, Bool.false_eq_true, false_or, hslash, not_true_eq_false, false_and]
    -- a prefix other than `ibc` is refused before the hash is looked at
    by_cases hhead : head = DenomPrefix
    · cases hblank : isBlank tail with
      | true => simp [hhead, throw, throwThe, MonadExceptOf.throw]
      | false =>
        simp only [hhead, ne_eq, not_true_eq_false, Bool.false_eq_true, or_self, if_false,
          true_and]
        cases parseHexHash tail with
        | ok bytes => exact iff_of_true rfl ⟨bytes, rfl⟩
        | error e => exact iff_of_false (fun h => by cases h) (fun ⟨_, h⟩ => by cases h)
    · simp [hhead, throw, throwThe, MonadExceptOf.throw]

/-- The module's own check of a denomination without a slash. -/
theorem validateIBC_of_notMem (hno : '/' ∉ m.base.toList) (hd : isBlank m.base = false) :
    validateIBC m = .ok () := by
  simp [validateIBC, splitSlash_of_notMem hno, hd]

/-- The module's own check of a voucher: name and symbol. -/
theorem validateIBC_of_voucher {hash : String} (hbase : m.base = DenomPrefix ++ "/" ++ hash) :
    validateIBC m = (do
      rejectIf (¬ contains m.name "channel-")
        (.errorf ("invalid metadata (Name) for ibc. " ++ m.name ++ " should include channel"))
      rejectIf (¬ hasPrefix m.symbol "ibc")
        (.errorf ("invalid metadata (Symbol) for ibc. " ++ m.symbol
          ++ " should include \"ibc\" prefix"))) := by
  have hne : DenomPrefix ≠ m.base := fun heq => by
    refine notMem_denomPrefix ?_
    rw [heq, hbase]
    simp [String.toList_append]
  have hsplit : splitSlash m.base = (DenomPrefix, some hash) := by
    rw [hbase, splitSlash_append notMem_denomPrefix]
  simp only [validateIBC, hsplit, hne, false_and, if_false, reduceCtorEq, ne_eq,
    not_true_eq_false, or_self]
  rfl

/-- The error of the branch that its comment calls inaccessible. -/
def errIBCFormat (m : Metadata) : GoError :=
  .errorf ("invalid metadata. " ++ m.base
    ++ " denomination should be prefixed with the format 'ibc/")

/-- Its text is told from that of the other two errors by the seventeenth character. -/
private theorem errIBCFormat_ne {msg : String} (h : msg.toList[16]? = some ' ') :
    GoError.errorf msg ≠ errIBCFormat m := by
  intro heq
  have hchar := congrArg (fun s : String => s.toList[16]?) (GoError.errorf.inj heq)
  simp [h, String.toList_append] at hchar

end

/-! ## The proposal -/

/-- The coins a proposal may register. -/
inductive CoinGrammar (m : Metadata) : Prop where
  /-- A plain denomination, other than the bare word. -/
  | coin (noSlash : '/' ∉ m.base.toList) (notBare : m.base ≠ "ibc")
  /-- An IBC voucher, named after its channel. -/
  | voucher (hash : String) (base : m.base = "ibc/" ++ hash) (hex : IsHexHash hash)
      (name : ∃ before after : String, m.name = before ++ "channel-" ++ after)
      (symbol : ∃ rest : String, m.symbol = "ibc" ++ rest)

/-- An accepted denomination has no slash, or the prefix in front of its first one, and neither
leads to the middle branch. -/
private theorem validateIBC_ne_errIBCFormat {m : Metadata}
    (hdenom : validateIBCDenom m.base = .ok ()) :
    validateIBC m ≠ .error (errIBCFormat m) := by
  obtain ⟨hd, ⟨hno, -⟩ | ⟨hash, hbase, -⟩⟩ := validateIBCDenom_ok_iff.mp hdenom
  · rw [validateIBC_of_notMem hno (isBlank_of_reDnm hd)]
    exact fun h => by cases h
  · rw [validateIBC_of_voucher hbase]
    intro h
    by_cases hname : contains m.name "channel-" = true
    · -- only the symbol can be refused
      rw [rejectIf, if_neg (not_not.mpr hname), rejectIf] at h
      split at h
      · exact errIBCFormat_ne (by simp [String.toList_append]) (Except.error.inj h)
      · cases h
    · rw [rejectIf, if_pos hname] at h
      exact errIBCFormat_ne (by simp [String.toList_append]) (Except.error.inj h)

/-- **The grammar of coin proposals.** A proposal that passes the bank's and the governance
module's checks is valid exactly if its metadata is in the grammar, and the middle branch of
`validateIBC` is never taken on a base denomination that the IBC module accepted. -/
theorem validateBasic_registerCoin_iff (p : RegisterCoinProposal)
    (habstract : validateAbstract p.title p.description = .ok ())
    (hmetadata : p.metadata.validate = .ok ()) :
    (p.validateBasic = .ok () ↔ CoinGrammar p.metadata) ∧
    ∀ m : Metadata, validateIBCDenom m.base = .ok () →
      validateIBC m ≠ .error (errIBCFormat m) := by
  have hvoucherBase : ∀ hash : String, DenomPrefix ++ "/" ++ hash = "ibc/" ++ hash := fun _ => rfl
  refine ⟨?_, fun m hdenom => validateIBC_ne_errIBCFormat hdenom⟩
  · obtain ⟨-, -, hbase, -⟩ := Metadata.validate_ok_iff.mp hmetadata
    have hd := validateDenom_ok_iff.mp hbase
    have hink := isBlank_of_reDnm hd
    -- given the other two checks, only those of the denomination are left
    have hvalid : p.validateBasic = .ok () ↔
        validateIBCDenom p.metadata.base = .ok () ∧ validateIBC p.metadata = .ok () := by
      simp only [RegisterCoinProposal.validateBasic, Foundation.except_bind_ok_iff]
      constructor
      · rintro ⟨_, -, _, hden, _, hibc, -⟩
        exact ⟨hden, hibc⟩
      · rintro ⟨hden, hibc⟩
        exact ⟨(), hmetadata, (), hden, (), hibc, habstract⟩
    rw [hvalid, validateIBCDenom_ok_iff]
    constructor
    · rintro ⟨⟨-, ⟨hno, hne⟩ | ⟨hash, hbase, hhash⟩⟩, hibc⟩
      · exact .coin hno hne
      · rw [validateIBC_of_voucher hbase] at hibc
        simp only [Foundation.except_bind_ok_iff, rejectIf_ok_iff, Bool.not_eq_true,
          Bool.not_eq_false, exists_const] at hibc
        exact .voucher hash (hbase.trans (hvoucherBase hash)) hhash (contains_iff.mp hibc.1)
          (hasPrefix_iff.mp hibc.2)
    · intro h
      cases h with
      | coin hno hne => exact ⟨⟨hd, .inl ⟨hno, hne⟩⟩, validateIBC_of_notMem hno hink⟩
      | voucher hash hbase hhash hname hsymbol =>
        have hbase : p.metadata.base = DenomPrefix ++ "/" ++ hash :=
          hbase.trans (hvoucherBase hash).symm
        refine ⟨⟨hd, .inr ⟨hash, hbase, hhash⟩⟩, ?_⟩
        rw [validateIBC_of_voucher hbase]
        simp only [Foundation.except_bind_ok_iff, rejectIf_ok_iff, Bool.not_eq_true,
          Bool.not_eq_false, exists_const]
        exact ⟨contains_iff.mpr hname, hasPrefix_iff.mpr hsymbol⟩

/-- A voucher with the hash of 64 capital letters. -/
def voucherProposal : RegisterCoinProposal where
  title := "Register"
  description := "a voucher"
  metadata := {
    description := "an IBC coin"
    denomUnits := [⟨"ibc/7F1D3FCF4AE79E1554D670D1AD949A9BA4E4A3C76C63093E17E446A46061A7A2", 0, []⟩]
    base := "ibc/7F1D3FCF4AE79E1554D670D1AD949A9BA4E4A3C76C63093E17E446A46061A7A2"
    display := "ibc/7F1D3FCF4AE79E1554D670D1AD949A9BA4E4A3C76C63093E17E446A46061A7A2"
    name := "ATOM channel-14"
    symbol := "ibcATOM-14" }

theorem validateBasic_registerCoin_iff_voucher :
    CoinGrammar voucherProposal.metadata ∧ ∀ m : Metadata, validateIBCDenom m.base = .ok () →
      validateIBC m ≠ .error (errIBCFormat m) :=
  have h := validateBasic_registerCoin_iff voucherProposal (by decide +kernel) (by decide +kernel)
  ⟨h.1.mp (by decide +kernel), h.2⟩

end GenesisEthermint.Types
