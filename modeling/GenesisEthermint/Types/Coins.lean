import GenesisEthermint.Types.Text
import Mathlib.Algebra.GroupWithZero.Nat
import Mathlib.Data.Int.Notation

/-!
# Coins

Amounts are `sdk.Int`: integers whose absolute value fits 256 bits, an operation that leaves
that range panics. A coin pairs an amount with a denomination, and a coin list is what bank
operations take.
-/

namespace GenesisEthermint.Types

/-- `2^256`, the first absolute value that no longer fits `maxBitLen` bits. -/
def intBound : ℕ := 2 ^ 256

/-- `sdk.Int`. -/
@[ext]
structure SdkInt where
  val : ℤ
  bounded : val.natAbs < intBound
  deriving DecidableEq

/-- `sdk.NewIntFromBigInt` for an unsigned word: a word always fits. -/
def newIntFromBigInt (n : ℕ) (h : n < intBound) : SdkInt := ⟨n, h⟩

/-- `sdk.NewIntFromUint64`. -/
def newIntFromUint64 (n : UInt64) : SdkInt :=
  ⟨n.toNat, Nat.lt_of_lt_of_le n.toNat_lt (by decide)⟩

/-- `sdk.Coin`. -/
@[ext]
structure Coin where
  denom : String
  amount : SdkInt
  deriving DecidableEq

/-- `coin.IsPositive`. -/
def Coin.isPositive (c : Coin) : Bool := 0 < c.amount.val

/-- The amount of a coin that is not negative. -/
def Coin.nat (c : Coin) : ℕ := c.amount.val.toNat

/-- `coin.String`. -/
def Coin.string (c : Coin) : String := toString c.amount.val ++ c.denom

/-- `coins.String`. -/
def coinsString (coins : List Coin) : String := String.intercalate "," (coins.map Coin.string)

/-- The loop of `coins.Validate` over the coins after the first. -/
def validateRest (lowDenom : String) (seen : List String) : List Coin → Except GoError Unit
  | [] => .ok ()
  | coin :: rest => do
    rejectIf (coin.denom ∈ seen) (.errorf ("duplicate denomination " ++ coin.denom))
    validateDenom coin.denom
    rejectIf (coin.denom ≤ lowDenom)
      (.errorf ("denomination " ++ coin.denom ++ " is not sorted"))
    rejectIf (¬ coin.isPositive) (.errorf ("coin " ++ coin.denom ++ " amount is not positive"))
    validateRest coin.denom (coin.denom :: seen) rest

/-- `coins.Validate`: sorted, positive, valid denominations, none of them twice. -/
def validateCoins : List Coin → Except GoError Unit
  | [] => .ok ()
  | coin :: rest => do
    validateDenom coin.denom
    rejectIf (¬ coin.isPositive)
      (.errorf ("coin " ++ coin.string ++ " amount is not positive"))
    validateRest coin.denom [coin.denom] rest

/-- `coins.IsValid`. -/
def coinsIsValid (coins : List Coin) : Bool := validateCoins coins = .ok ()

/-! ## What a valid list is made of -/

theorem validateDenom_ok_iff {d : String} {u : Unit} :
    validateDenom d = .ok u ↔ reDnm d.toList = true := by
  unfold validateDenom
  split <;> simp_all

private theorem isPositive_of_validateRest {coins : List Coin} {low : String}
    {seen : List String} (h : validateRest low seen coins = .ok ()) :
    ∀ c ∈ coins, c.isPositive = true := by
  induction coins generalizing low seen with
  | nil => intro c hc; cases hc
  | cons coin rest ih =>
    simp only [validateRest, Foundation.except_bind_ok_iff, rejectIf_ok_iff, not_not] at h
    obtain ⟨_, -, _, -, _, -, _, hpos, hrest⟩ := h
    intro c hc
    rcases List.mem_cons.mp hc with rfl | hc
    · exact hpos
    · exact ih hrest c hc

/-- Every coin of a valid list is positive. -/
theorem isPositive_of_coinsIsValid {coins : List Coin} (h : coinsIsValid coins = true) :
    ∀ c ∈ coins, 0 < c.amount.val := by
  suffices h : ∀ c ∈ coins, c.isPositive = true by simpa [Coin.isPositive] using h
  simp only [coinsIsValid, decide_eq_true_eq] at h
  cases coins with
  | nil => intro c hc; cases hc
  | cons coin rest =>
    simp only [validateCoins, Foundation.except_bind_ok_iff, rejectIf_ok_iff, not_not] at h
    obtain ⟨_, -, _, hpos, hrest⟩ := h
    intro c hc
    rcases List.mem_cons.mp hc with rfl | hc
    · exact hpos
    · exact isPositive_of_validateRest hrest c hc

/-- A single coin is valid when its denomination is and it is positive. -/
theorem coinsIsValid_singleton {c : Coin} :
    coinsIsValid [c] = true ↔ reDnm c.denom.toList = true ∧ 0 < c.amount.val := by
  simp [coinsIsValid, validateCoins, validateRest, Foundation.except_bind_ok_iff, rejectIf_ok_iff,
    validateDenom_ok_iff, Coin.isPositive]

end GenesisEthermint.Types
