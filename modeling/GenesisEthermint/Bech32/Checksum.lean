import GenesisEthermint.Foundation.ShiftRegister

/-!
# The Bech32 Checksum

`bech32Polymod` feeds the characters of a text, five bits each, through a register of thirty bits.
The six characters of a checksum are the ones that leave `1` in it.
-/

namespace GenesisEthermint.Bech32

open GenesisEthermint.Foundation

def gen : List ℕ := [0x3b6a57b2, 0x26508e6d, 0x1ea119fa, 0x3d4233dd, 0x2a1462b3]

/-- The inner loop of `bech32Polymod`, over the given indices of `gen`. -/
def feedBack (b : ℕ) (indices : List ℕ) (chk : ℕ) : ℕ :=
  indices.foldl (fun chk i => if (b >>> i) &&& 1 = 1 then chk ^^^ gen.getD i 0 else chk) chk

def bech32Polymod (values : List ℕ) : ℕ :=
  values.foldl
    (fun chk v => feedBack (chk >>> 25) (List.range 5) (((chk &&& 0x1ffffff) <<< 5) ^^^ v)) 1

def bech32HrpExpand (hrp : List Char) : List ℕ :=
  hrp.map (fun c => c.toNat >>> 5) ++ 0 :: hrp.map fun c => c.toNat &&& 31

def bech32Checksum (hrp : List Char) (data : List (BitVec 8)) : List (BitVec 8) :=
  let integers := data.map BitVec.toNat
  let values := bech32HrpExpand hrp ++ integers ++ [0, 0, 0, 0, 0, 0]
  let polymod := bech32Polymod values ^^^ 1
  (List.range 6).map fun i => BitVec.ofNat 8 ((polymod >>> (5 * (5 - i))) &&& 31)

def bech32VerifyChecksum (hrp : List Char) (data : List (BitVec 8)) : Bool :=
  let integers := data.map BitVec.toNat
  bech32Polymod (bech32HrpExpand hrp ++ integers) = 1

/-! ## §1 The register -/

/-- How the register moves up by a character. -/
def polymodShift (chk : ℕ) : ℕ :=
  ((chk &&& 0x1ffffff) <<< 5) ^^^ feedBack (chk >>> 25) (List.range 5) 0

variable {a b c : ℕ} {l : List ℕ} {hrp : List Char} {data sum : List (BitVec 8)}

theorem feedBack_eq_xor : feedBack b l c = c ^^^ feedBack b l 0 := by
  induction l generalizing c with
  | nil => simp [feedBack]
  | cons i l ih =>
    have hcons : ∀ c, feedBack b (i :: l) c =
        feedBack b l (if (b >>> i) &&& 1 = 1 then c ^^^ gen.getD i 0 else c) := fun _ => rfl
    rw [hcons, ih, hcons, ih (c := if (b >>> i) &&& 1 = 1 then 0 ^^^ gen.getD i 0 else 0)]
    split
    · rw [Nat.zero_xor, Nat.xor_assoc]
    · rw [Nat.zero_xor]

theorem feedBack_xor : feedBack (a ^^^ b) l 0 = feedBack a l 0 ^^^ feedBack b l 0 := by
  induction l with
  | nil => simp [feedBack]
  | cons i l ih =>
    have hcons : ∀ b, feedBack b (i :: l) 0 =
        (if (b >>> i) &&& 1 = 1 then gen.getD i 0 else 0) ^^^ feedBack b l 0 := by
      intro b
      rw [← feedBack_eq_xor]
      simp [feedBack]
    have hbit : ∀ b : ℕ, (b >>> i) &&& 1 = 1 ↔ b.testBit i = true := by
      intro b
      rw [Nat.and_one_is_mod, Nat.shiftRight_eq_div_pow, Nat.testBit_eq_decide_div_mod_eq,
        decide_eq_true_eq]
    -- a tap is open where the two bits differ
    have htap : (if ((a ^^^ b) >>> i) &&& 1 = 1 then gen.getD i 0 else 0) =
        (if (a >>> i) &&& 1 = 1 then gen.getD i 0 else 0) ^^^
          if (b >>> i) &&& 1 = 1 then gen.getD i 0 else 0 := by
      simp only [hbit, Nat.testBit_xor]
      cases a.testBit i <;> cases b.testBit i <;> simp
    rw [hcons, hcons, hcons, ih, htap]
    ac_rfl

theorem isRegister_polymodShift : IsRegister polymodShift 5 6 := by
  have hsmall : ∀ b < 32, feedBack b (List.range 5) 0 < 2 ^ 30 := by decide
  have hinj : ∀ b < 32, feedBack b (List.range 5) 0 % 2 ^ 5 = 0 → b = 0 := by decide
  have hmask : ∀ c, c &&& 0x1ffffff = c % 2 ^ 25 := fun c => Nat.and_two_pow_sub_one_eq_mod c 25
  have htop : ∀ {c}, c < 2 ^ (5 * 6) → c >>> 25 < 32 := by
    intro c hc
    rw [Nat.shiftRight_eq_div_pow]
    omega
  constructor
  · intro c hc
    apply Nat.xor_lt_two_pow
    · rw [hmask, Nat.shiftLeft_eq]
      omega
    · exact hsmall _ (htop hc)
  · intro a b
    rw [polymodShift, polymodShift, polymodShift, Nat.and_xor_distrib_right,
      Nat.shiftLeft_xor_distrib, Nat.shiftRight_xor_distrib, feedBack_xor]
    ac_rfl
  · intro c hc hzero
    -- what is fed back shows in the low five bits, where nothing else is
    have hlow := congrArg (· % 2 ^ 5) hzero
    simp only [polymodShift, Nat.xor_mod_two_pow, Nat.shiftLeft_eq, Nat.mul_mod_left,
      Nat.zero_xor, Nat.zero_mod] at hlow
    have hb := hinj _ (htop hc) hlow
    rw [polymodShift, hb, hmask, Nat.shiftLeft_eq] at hzero
    rw [Nat.shiftRight_eq_div_pow] at hb
    have hnone : feedBack 0 (List.range 5) 0 = 0 := by decide
    rw [hnone, Nat.xor_zero] at hzero
    omega
  · intro c hc
    have hnone : feedBack 0 (List.range 5) 0 = 0 := by decide
    have hb : c >>> 25 = 0 := by
      rw [Nat.shiftRight_eq_div_pow]
      omega
    rw [polymodShift, hb, hnone, Nat.xor_zero, hmask, Nat.mod_eq_of_lt hc]

theorem bech32Polymod_eq_feed (values : List ℕ) :
    bech32Polymod values = feed polymodShift 1 values := by
  have hstep : (fun chk v =>
      feedBack (chk >>> 25) (List.range 5) (((chk &&& 0x1ffffff) <<< 5) ^^^ v)) =
      fun chk v => polymodShift chk ^^^ v := by
    funext chk v
    rw [feedBack_eq_xor, polymodShift]
    ac_rfl
  rw [bech32Polymod, hstep, feed]

/-! ## §2 The characters of a checksum -/

/-- The values a text is fed in as: five bits each, if its characters are ASCII ones and its data
come in groups of five bits. -/
theorem lt_of_mem_values {d : ℕ} (hhrp : ∀ c ∈ hrp, c.toNat < 128)
    (hdata : ∀ b ∈ data, b.toNat < 2 ^ 5)
    (h : d ∈ bech32HrpExpand hrp ++ data.map BitVec.toNat) : d < 2 ^ 5 := by
  rcases List.mem_append.mp h with h | h
  · rw [bech32HrpExpand, List.mem_append, List.mem_cons, List.mem_map, List.mem_map] at h
    rcases h with ⟨c, hc, rfl⟩ | rfl | ⟨c, -, rfl⟩
    · have := hhrp c hc
      rw [Nat.shiftRight_eq_div_pow]
      omega
    · exact Nat.two_pow_pos 5
    · rw [Nat.and_two_pow_sub_one_eq_mod c.toNat 5]
      exact Nat.mod_lt _ (Nat.two_pow_pos 5)
  · obtain ⟨b, hb, rfl⟩ := List.mem_map.mp h
    exact hdata b hb

theorem bech32Checksum_toNat :
    (bech32Checksum hrp data).map BitVec.toNat =
      digitsOf 5 6 (feed polymodShift 1
        (bech32HrpExpand hrp ++ data.map BitVec.toNat ++ List.replicate 6 0) ^^^ 1) := by
  have hdigit : ∀ x : ℕ, (BitVec.ofNat 8 (x &&& 31)).toNat = x &&& 31 := by
    intro x
    rw [BitVec.toNat_ofNat, Nat.and_two_pow_sub_one_eq_mod x 5]
    omega
  rw [bech32Checksum, bech32Polymod_eq_feed, digitsOf, List.map_map]
  apply List.map_congr_left
  intro i _
  exact hdigit _

@[simp] theorem length_bech32Checksum : (bech32Checksum hrp data).length = 6 := by
  simp [bech32Checksum]

theorem lt_of_mem_bech32Checksum {b : BitVec 8} (h : b ∈ bech32Checksum hrp data) :
    b.toNat < 2 ^ 5 := by
  have hmem := List.mem_map_of_mem (f := BitVec.toNat) h
  rw [bech32Checksum_toNat] at hmem
  exact digitsOf_lt hmem

/-- **Six characters pass the check exactly where they are the checksum** of what precedes them. -/
theorem bech32VerifyChecksum_iff (hhrp : ∀ c ∈ hrp, c.toNat < 128)
    (hdata : ∀ b ∈ data, b.toNat < 2 ^ 5) (hsum : ∀ b ∈ sum, b.toNat < 2 ^ 5)
    (hlen : sum.length = 6) :
    bech32VerifyChecksum hrp (data ++ sum) = true ↔ sum = bech32Checksum hrp data := by
  have hsum' : ∀ d ∈ sum.map BitVec.toNat, d < 2 ^ 5 := by
    intro d hd
    obtain ⟨b, hb, rfl⟩ := List.mem_map.mp hd
    exact hsum b hb
  rw [bech32VerifyChecksum, List.map_append, ← List.append_assoc, bech32Polymod_eq_feed,
    decide_eq_true_eq,
    isRegister_polymodShift.feed_append_eq_iff (by omega) (by omega) (by omega) (by omega)
      (fun d hd => lt_of_mem_values hhrp hdata hd) hsum' (by simpa using hlen),
    ← bech32Checksum_toNat]
  exact (List.map_injective_iff.mpr fun _ _ => BitVec.eq_of_toNat_eq).eq_iff

/-- **A change of at most six characters in a row fails the check.** -/
theorem eq_of_bech32VerifyChecksum {before after xs ys : List (BitVec 8)}
    (hhrp : ∀ c ∈ hrp, c.toNat < 128) (hx : ∀ b ∈ before ++ xs ++ after, b.toNat < 2 ^ 5)
    (hy : ∀ b ∈ before ++ ys ++ after, b.toNat < 2 ^ 5) (hlen : xs.length = ys.length)
    (hle : xs.length ≤ 6) (hverx : bech32VerifyChecksum hrp (before ++ xs ++ after) = true)
    (hvery : bech32VerifyChecksum hrp (before ++ ys ++ after) = true) : xs = ys := by
  have hvalues : ∀ {zs : List (BitVec 8)}, (∀ b ∈ zs, b.toNat < 2 ^ 5) →
      ∀ d ∈ zs.map BitVec.toNat, d < 2 ^ 5 := by
    intro zs hzs d hd
    obtain ⟨b, hb, rfl⟩ := List.mem_map.mp hd
    exact hzs b hb
  have hread : ∀ zs, bech32VerifyChecksum hrp (before ++ zs ++ after) = true →
      feed polymodShift 1 ((bech32HrpExpand hrp ++ before.map BitVec.toNat) ++
        zs.map BitVec.toNat ++ after.map BitVec.toNat) = 1 := by
    intro zs h
    rw [bech32VerifyChecksum, bech32Polymod_eq_feed, decide_eq_true_eq] at h
    simpa only [List.map_append, List.append_assoc] using h
  have hbefore : ∀ b ∈ before, b.toNat < 2 ^ 5 := fun b hb => hx b (by simp [hb])
  have hafter : ∀ b ∈ after, b.toNat < 2 ^ 5 := fun b hb => hx b (by simp [hb])
  have heq : xs.map BitVec.toNat = ys.map BitVec.toNat := by
    apply isRegister_polymodShift.eq_of_feed_eq (c := 1) (by omega) (by omega) (by omega)
      (fun d hd => lt_of_mem_values hhrp hbefore hd) (hvalues hafter)
      (hvalues fun b hb => hx b (by simp [hb])) (hvalues fun b hb => hy b (by simp [hb]))
      (by simpa using hlen) (by simpa using hle)
    rw [hread xs hverx, hread ys hvery]
  exact List.map_injective_iff.mpr (fun _ _ => BitVec.eq_of_toNat_eq) heq

end GenesisEthermint.Bech32
