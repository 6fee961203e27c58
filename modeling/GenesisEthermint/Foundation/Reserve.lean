import Mathlib.Data.Nat.Notation
import Mathlib.Order.Defs.Unbundled

/-!
# Reserves

A convertible asset is `outstanding` claims against the `backing` held for them. What keeps
claims redeemable is a comparison of two states: the claims grow by no more than the backing
does. That comparison is a preorder, so it is checked one step at a time, and it carries
solvency from the first state of a run to the last.
-/

namespace GenesisEthermint.Foundation

/-- Claims in circulation, and what is held to redeem them. -/
@[ext]
structure Reserve where
  backing : ℕ
  outstanding : ℕ
  deriving DecidableEq, Repr

namespace Reserve

/-- Every claim is backed. -/
def Solvent (r : Reserve) : Prop := r.outstanding ≤ r.backing

/-- From `r` to `r'` the claims grew by no more than the backing. -/
def Covers (r r' : Reserve) : Prop :=
  r'.outstanding + r.backing ≤ r.outstanding + r'.backing

instance : Std.Refl Covers := ⟨fun r => by simp only [Covers, Nat.le_refl]⟩

instance : IsTrans Reserve Covers :=
  ⟨fun r s t h h' => by simp only [Covers] at *; omega⟩

variable {r r' : Reserve} {b o n : ℕ}

theorem Covers.solvent (h : Covers r r') (hs : r.Solvent) : r'.Solvent := by
  simp only [Covers, Solvent] at *
  omega

/-- Issuing against a deposit of the same amount. -/
theorem covers_issue : Covers ⟨b, o⟩ ⟨b + n, o + n⟩ := by
  simp only [Covers]
  omega

/-- Releasing backing for claims that are handed in. -/
theorem covers_redeem : Covers ⟨b + n, o + n⟩ ⟨b, o⟩ := by
  simp only [Covers]
  omega

/-- Claims given up for nothing, and deposits against which nothing is issued. -/
theorem covers_of_le (hb : r.backing ≤ r'.backing) (ho : r'.outstanding ≤ r.outstanding) :
    Covers r r' := by
  simp only [Covers]
  omega

end Reserve

end GenesisEthermint.Foundation
