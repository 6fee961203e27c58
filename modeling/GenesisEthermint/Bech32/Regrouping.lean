import GenesisEthermint.Foundation.BitGroups
import GenesisEthermint.Types.Errors

/-!
# Regrouping Bits

`ConvertBits` moves the bits of a byte slice, so many to a byte, into bytes of another width. An
address goes from eight bits to five when it is written, and back when it is read; only the first
of the two pads, and only the second refuses bits that do not fill a group.
-/

namespace GenesisEthermint.Bech32

open GenesisEthermint.Foundation GenesisEthermint.Types

/-- The variables of the loop of `ConvertBits`. -/
structure Regrouping where
  regrouped : List (BitVec 8)
  nextByte : BitVec 8
  filledBits : ℕ

/-- The inner loop of `ConvertBits`: takes the `remFromBits` high bits of `b`. -/
def extract (toBits : ℕ) : (fuel : ℕ) → Regrouping → (b : BitVec 8) → (remFromBits : ℕ) →
    Regrouping
  | 0, s, _, _ => s
  | fuel + 1, s, b, remFromBits =>
    if remFromBits = 0 then s
    else
      let remToBits := toBits - s.filledBits
      let toExtract := if remToBits < remFromBits then remToBits else remFromBits
      let nextByte := s.nextByte <<< toExtract ||| b >>> (8 - toExtract)
      let filledBits := s.filledBits + toExtract
      extract toBits fuel
        (if filledBits = toBits then ⟨s.regrouped ++ [nextByte], 0, 0⟩
          else ⟨s.regrouped, nextByte, filledBits⟩)
        (b <<< toExtract) (remFromBits - toExtract)

/-- The body of the loop of `ConvertBits`: discards the unused bits of a byte, and moves the others.
Every round of the inner loop takes a bit, so there are at most `fromBits` of them. -/
def moveByte (fromBits toBits : ℕ) (s : Regrouping) (b : BitVec 8) : Regrouping :=
  extract toBits fromBits s (b <<< (8 - fromBits)) fromBits

def regroup (data : List (BitVec 8)) (fromBits toBits : ℕ) : Regrouping :=
  data.foldl (moveByte fromBits toBits) ⟨[], 0, 0⟩

/-- Pads an unfinished group with zeros, if asked to. -/
def Regrouping.padded (toBits : ℕ) (pad : Bool) (s : Regrouping) : Regrouping :=
  if pad ∧ 0 < s.filledBits then
    ⟨s.regrouped ++ [s.nextByte <<< (toBits - s.filledBits)], 0, 0⟩
  else s

def convertBits (data : List (BitVec 8)) (fromBits toBits : ℕ) (pad : Bool) :
    Except GoError (List (BitVec 8)) := do
  rejectIf (fromBits < 1 ∨ 8 < fromBits ∨ toBits < 1 ∨ 8 < toBits)
    (.errorf "only bit groups between 1 and 8 allowed")
  let s := (regroup data fromBits toBits).padded toBits pad
  rejectIf (0 < s.filledBits ∧ (4 < s.filledBits ∨ s.nextByte ≠ 0))
    (.errorf "invalid incomplete group")
  return s.regrouped

/-! ## §1 The bits of a regrouping -/

namespace Regrouping

/-- The bits that were taken so far. -/
def bits (toBits : ℕ) (s : Regrouping) : List Bool :=
  groupBits toBits s.regrouped ++ lowBits s.filledBits s.nextByte

/-- Between two rounds the next byte is unfinished, and no byte has more bits than its width. -/
structure Sound (toBits : ℕ) (s : Regrouping) : Prop where
  filledBits_lt : s.filledBits < toBits
  nextByte_lt : s.nextByte.toNat < 2 ^ s.filledBits
  regrouped_lt : ∀ b ∈ s.regrouped, b.toNat < 2 ^ toBits

end Regrouping

variable {s : Regrouping} {b x : BitVec 8} {toBits fromBits fuel remFromBits e f : ℕ}
  {data out : List (BitVec 8)}

/-- Bits that are shifted in keep a byte within its width. -/
theorem shift_or_lt (he8 : e ≤ 8) (hx : x.toNat < 2 ^ f) :
    (x <<< e ||| b >>> (8 - e)).toNat < 2 ^ (f + e) := by
  have hshift : x.toNat <<< e < 2 ^ (f + e) := by
    rw [Nat.shiftLeft_eq, Nat.pow_add]
    exact Nat.mul_lt_mul_of_lt_of_le hx (Nat.le_refl _) (Nat.two_pow_pos e)
  rw [BitVec.toNat_or, BitVec.toNat_shiftLeft, BitVec.toNat_ushiftRight]
  apply Nat.or_lt_two_pow
  · exact Nat.lt_of_le_of_lt (Nat.mod_le _ _) hshift
  · rw [Nat.shiftRight_eq_div_pow]
    apply Nat.div_lt_of_lt_mul
    rw [← Nat.pow_add]
    apply Nat.lt_of_lt_of_le b.isLt
    apply Nat.pow_le_pow_right Nat.two_pos
    omega

/-- The round of the inner loop moves bits from the one byte to the other. -/
theorem extract_spec (hto : toBits ≤ 8) (hs : s.Sound toBits) (hfuel : remFromBits ≤ fuel)
    (hrem : remFromBits ≤ 8) :
    (extract toBits fuel s b remFromBits).Sound toBits ∧
      (extract toBits fuel s b remFromBits).bits toBits =
        s.bits toBits ++ topBits remFromBits b := by
  induction fuel generalizing s b remFromBits with
  | zero =>
    obtain rfl := Nat.le_zero.mp hfuel
    exact ⟨hs, by simp [extract]⟩
  | succ fuel ih =>
    rw [extract]
    by_cases hzero : remFromBits = 0
    · rw [if_pos hzero, hzero, topBits_zero, List.append_nil]
      exact ⟨hs, rfl⟩
    · rw [if_neg hzero]
      have hfilled := hs.filledBits_lt
      -- what is taken, and what is left of the two bytes
      obtain ⟨e, he⟩ : ∃ e, (if toBits - s.filledBits < remFromBits then toBits - s.filledBits
          else remFromBits) = e := ⟨_, rfl⟩
      have hpos : 0 < e ∧ e ≤ remFromBits ∧ s.filledBits + e ≤ toBits := by
        split at he <;> omega
      obtain ⟨hpos, hle, hfit⟩ := hpos
      obtain ⟨r, rfl⟩ := Nat.exists_eq_add_of_le hle
      simp only [he, Nat.add_sub_cancel_left]
      have hbits : lowBits (s.filledBits + e) (s.nextByte <<< e ||| b >>> (8 - e)) =
          lowBits s.filledBits s.nextByte ++ topBits e b :=
        lowBits_shift_or (by omega) (by omega)
      have hlt : (s.nextByte <<< e ||| b >>> (8 - e)).toNat < 2 ^ (s.filledBits + e) :=
        shift_or_lt (by omega) hs.nextByte_lt
      split
      · rename_i hfull
        have hnext : Regrouping.Sound toBits
            ⟨s.regrouped ++ [s.nextByte <<< e ||| b >>> (8 - e)], 0, 0⟩ := by
          constructor
          · exact Nat.lt_of_le_of_lt (Nat.zero_le _) hfilled
          · exact Nat.one_pos
          · intro y hy
            rcases List.mem_append.mp hy with hy | hy
            · exact hs.regrouped_lt y hy
            · rw [List.mem_singleton.mp hy, ← hfull]
              exact hlt
        obtain ⟨hsound, hgot⟩ := @ih _ (b <<< e) r hnext (by omega) (by omega)
        refine ⟨hsound, ?_⟩
        rw [hgot, topBits_add, Regrouping.bits, Regrouping.bits, groupBits_append, groupBits_cons,
          groupBits_nil, List.append_nil, lowBits_zero, List.append_nil, ← hfull, hbits]
        simp only [List.append_assoc]
      · rename_i hopen
        have hnext : Regrouping.Sound toBits
            ⟨s.regrouped, s.nextByte <<< e ||| b >>> (8 - e), s.filledBits + e⟩ :=
          ⟨Nat.lt_of_le_of_ne (by omega) hopen, hlt, hs.regrouped_lt⟩
        obtain ⟨hsound, hgot⟩ := @ih _ (b <<< e) r hnext (by omega) (by omega)
        refine ⟨hsound, ?_⟩
        rw [hgot, topBits_add, Regrouping.bits, Regrouping.bits, hbits]
        simp only [List.append_assoc]

/-- **Regrouping keeps the bits.** -/
theorem regroup_spec (hfrom : fromBits ≤ 8) (hto : 0 < toBits) (hto8 : toBits ≤ 8) :
    (regroup data fromBits toBits).Sound toBits ∧
      (regroup data fromBits toBits).bits toBits = groupBits fromBits data := by
  have hloop : ∀ s : Regrouping, s.Sound toBits →
      (data.foldl (moveByte fromBits toBits) s).Sound toBits ∧
        (data.foldl (moveByte fromBits toBits) s).bits toBits =
          s.bits toBits ++ groupBits fromBits data := by
    induction data with
    | nil => exact fun s hs => ⟨hs, by simp⟩
    | cons b data ih =>
      intro s hs
      obtain ⟨hsound, hbits⟩ := extract_spec (b := b <<< (8 - fromBits)) hto8 hs
        (Nat.le_refl fromBits) hfrom
      obtain ⟨hsound', hbits'⟩ := ih _ hsound
      refine ⟨hsound', ?_⟩
      rw [List.foldl_cons, moveByte, hbits', hbits, topBits_shiftLeft hfrom, groupBits_cons,
        List.append_assoc]
  obtain ⟨hsound, hbits⟩ := hloop ⟨[], 0, 0⟩ ⟨hto, by simp, by simp⟩
  exact ⟨hsound, hbits⟩

/-! ## §2 What `ConvertBits` returns -/

theorem convertBits_ok_iff {pad : Bool} (hs : (regroup data fromBits toBits).padded toBits pad = s)
    (hfrom : 0 < fromBits) (hfrom8 : fromBits ≤ 8) (hto : 0 < toBits) (hto8 : toBits ≤ 8) :
    convertBits data fromBits toBits pad = .ok out ↔
      (0 < s.filledBits → s.filledBits ≤ 4 ∧ s.nextByte = 0#8) ∧ s.regrouped = out := by
  have hwidths : ¬ (fromBits < 1 ∨ 8 < fromBits ∨ toBits < 1 ∨ 8 < toBits) := by omega
  rw [convertBits, except_bind_ok_iff]
  simp only [rejectIf_ok_iff, hwidths, not_false_eq_true, true_and, exists_const,
    except_bind_ok_iff, hs]
  simp [pure, Except.pure]

/-- With padding, the bits are kept and less than a byte of zeros follows them. -/
theorem exists_convertBits_pad (hfrom : 0 < fromBits) (hfrom8 : fromBits ≤ 8) (hto : 0 < toBits)
    (hto8 : toBits ≤ 8) :
    ∃ out, convertBits data fromBits toBits true = .ok out ∧
      (∀ b ∈ out, b.toNat < 2 ^ toBits) ∧
      ∃ k < toBits, groupBits toBits out = groupBits fromBits data ++ List.replicate k false := by
  obtain ⟨hsound, hbits⟩ := @regroup_spec _ _ data hfrom8 hto hto8
  obtain ⟨s, hs⟩ : ∃ s, regroup data fromBits toBits = s := ⟨_, rfl⟩
  rw [hs] at hsound hbits
  have hfilled := hsound.filledBits_lt
  by_cases hzero : s.filledBits = 0
  · have hpadded : (regroup data fromBits toBits).padded toBits true = s := by
      simp [hs, Regrouping.padded, hzero]
    refine ⟨s.regrouped, ?_, hsound.regrouped_lt, 0, hto, ?_⟩
    · rw [convertBits_ok_iff hpadded hfrom hfrom8 hto hto8]
      simp [hzero]
    · rw [← hbits, Regrouping.bits, hzero, lowBits_zero, List.replicate_zero, List.append_nil,
        List.append_nil]
  · have hpos : 0 < s.filledBits := Nat.pos_of_ne_zero hzero
    obtain ⟨e, he⟩ := Nat.exists_eq_add_of_le (Nat.le_of_lt hfilled)
    have hsub : toBits - s.filledBits = e := by omega
    have hpadded : (regroup data fromBits toBits).padded toBits true =
        ⟨s.regrouped ++ [s.nextByte <<< e], 0, 0⟩ := by
      simp [hs, Regrouping.padded, hpos, hsub]
    have hlast : lowBits toBits (s.nextByte <<< e) =
        lowBits s.filledBits s.nextByte ++ List.replicate e false := by
      have hzeros := lowBits_shift_or (n := s.nextByte) (b := 0) (by omega : e ≤ 8)
        (by omega : s.filledBits + e ≤ 8)
      simpa [topBits_of_zero, he] using hzeros
    have hlt : (s.nextByte <<< e).toNat < 2 ^ toBits := by
      have hfits := shift_or_lt (b := 0) (by omega : e ≤ 8) hsound.nextByte_lt
      simpa [he] using hfits
    refine ⟨s.regrouped ++ [s.nextByte <<< e], ?_, ?_, e, by omega, ?_⟩
    · rw [convertBits_ok_iff hpadded hfrom hfrom8 hto hto8]
      simp
    · intro b hb
      rcases List.mem_append.mp hb with hb | hb
      · exact hsound.regrouped_lt b hb
      · rw [List.mem_singleton.mp hb]
        exact hlt
    · rw [groupBits_append, groupBits_cons, groupBits_nil, List.append_nil, hlast, ← hbits,
        Regrouping.bits, List.append_assoc]

theorem convertBits_pad_iff (hfrom : 0 < fromBits) (hfrom8 : fromBits ≤ 8) (hto : 0 < toBits)
    (hto8 : toBits ≤ 8) :
    convertBits data fromBits toBits true = .ok out ↔
      (∀ b ∈ out, b.toNat < 2 ^ toBits) ∧
        ∃ k < toBits, groupBits toBits out = groupBits fromBits data ++ List.replicate k false := by
  obtain ⟨got, hgot, hlt, k, hk, hbits⟩ :=
    @exists_convertBits_pad _ _ data hfrom hfrom8 hto hto8
  rw [hgot]
  constructor
  · intro h
    obtain rfl := Except.ok.inj h
    exact ⟨hlt, k, hk, hbits⟩
  · rintro ⟨hlt', k', hk', hbits'⟩
    rw [groupBits_inj_of_pad hlt hlt' hk hk' hbits hbits']

/-- Without padding, the bits that do not fill a byte are at most four zeros. -/
theorem convertBits_exact_iff (hfrom : 0 < fromBits) (hfrom8 : fromBits ≤ 8) (hto : 0 < toBits)
    (hto8 : toBits ≤ 8) :
    convertBits data fromBits toBits false = .ok out ↔
      (∀ b ∈ out, b.toNat < 2 ^ toBits) ∧
        ∃ k < toBits, k ≤ 4 ∧
          groupBits fromBits data = groupBits toBits out ++ List.replicate k false := by
  obtain ⟨hsound, hbits⟩ := @regroup_spec _ _ data hfrom8 hto hto8
  obtain ⟨s, hs⟩ : ∃ s, regroup data fromBits toBits = s := ⟨_, rfl⟩
  rw [hs] at hsound hbits
  have hpadded : (regroup data fromBits toBits).padded toBits false = s := by
    simp [hs, Regrouping.padded]
  rw [convertBits_ok_iff hpadded hfrom hfrom8 hto hto8, ← hbits, Regrouping.bits]
  constructor
  · rintro ⟨hwhole, rfl⟩
    refine ⟨hsound.regrouped_lt, s.filledBits, hsound.filledBits_lt, ?_, ?_⟩
    · by_contra hgt
      exact hgt (hwhole (by omega)).1
    · by_cases hzero : s.filledBits = 0
      · rw [hzero, lowBits_zero, List.replicate_zero]
      · rw [(hwhole (Nat.pos_of_ne_zero hzero)).2, lowBits_of_zero]
  · rintro ⟨hlt, k, hk, hk4, heq⟩
    obtain ⟨hout, hrest⟩ := groupBits_append_inj hsound.regrouped_lt hlt
      (by simpa using hsound.filledBits_lt) (by simpa using hk) heq
    have hlen : s.filledBits = k := by simpa using congrArg List.length hrest
    have hnext : s.nextByte = 0#8 := by
      apply (lowBits_inj hsound.nextByte_lt (Nat.two_pow_pos _)).mp
      rw [hrest, hlen]
      exact lowBits_of_zero.symm
    exact ⟨fun _ => ⟨hlen ▸ hk4, hnext⟩, hout⟩

/-- **The way back**: five-bit groups are accepted exactly where they are what the bytes read from
them are written as. -/
theorem convertBits_back_iff {groups bytes : List (BitVec 8)}
    (h : ∀ g ∈ groups, g.toNat < 2 ^ 5) :
    convertBits groups 5 8 false = .ok bytes ↔ convertBits bytes 8 5 true = .ok groups := by
  rw [convertBits_exact_iff (by omega) (by omega) (by omega) (by omega),
    convertBits_pad_iff (by omega) (by omega) (by omega) (by omega)]
  constructor
  · rintro ⟨-, k, -, hk, heq⟩
    exact ⟨h, k, by omega, heq⟩
  · rintro ⟨-, k, hk, heq⟩
    exact ⟨fun b _ => b.isLt, k, by omega, by omega, heq⟩

end GenesisEthermint.Bech32
