import GenesisEthermint.Foundation.Ledger

/-!
# Exchanges

Units of one ledger are exchanged for units of another. A custodian stands between the two:
what is taken on the one side it keeps or destroys, and what is paid on the other side it
hands out or creates. The two sides are stated as exact changes of every balance, and each
undoes the other.
-/

namespace GenesisEthermint.Foundation

namespace Ledger

variable {α : Type} [DecidableEq α]

/-- `n` units were taken from `a`. The custodian keeps `kept` of them, the rest is gone. -/
structure Taken (L L' : Ledger α) (a custodian : α) (n kept : ℕ) : Prop where
  covered : n ≤ L.bal a
  bal : ∀ x, (L'.bal x : ℤ) =
    L.bal x - (if x = a then n else 0) + (if x = custodian then kept else 0)
  supply : (L'.supply : ℤ) = L.supply - n + kept

/-- `n` units were paid to `b`. The custodian handed out `given` of them, the rest is new. -/
structure Paid (L L' : Ledger α) (b custodian : α) (n given : ℕ) : Prop where
  covered : given ≤ L.bal custodian
  bal : ∀ x, (L'.bal x : ℤ) =
    L.bal x + (if x = b then n else 0) - (if x = custodian then given else 0)
  supply : (L'.supply : ℤ) = L.supply + n - given

variable {L L' L'' : Ledger α} {a b custodian : α} {n e : ℕ}

/-! ## The bookings -/

/-- A move to the custodian takes the units and keeps them. -/
theorem taken_move (h : n ≤ L.bal a) :
    L.Taken (L.move a custodian n) a custodian n n where
  covered := h
  bal x := by
    simp only [move, bal_credit, bal_debit]
    -- the custodian may be the payer: then the move is none
    by_cases hc : x = custodian
    · subst hc
      by_cases hx : x = a
      · subst hx
        simp only [if_true]
        omega
      · simp only [hx, if_true, if_false]
        omega
    · simp only [hc, if_false]
      split
      · rename_i hx
        subst hx
        omega
      · omega
  supply := by
    rw [supply_move]
    omega

/-- Burning takes the units and keeps none. -/
theorem taken_burn (h : n ≤ L.bal a) (hs : n ≤ L.supply) :
    L.Taken (L.burn a n) a custodian n 0 where
  covered := h
  bal x := by
    rw [bal_burn]
    split
    · rename_i hx
      subst hx
      split <;> omega
    · split <;> omega
  supply := by
    rw [supply_burn]
    omega

/-- A move from the custodian pays the units out of custody. -/
theorem paid_move (h : n ≤ L.bal custodian) :
    L.Paid (L.move custodian b n) b custodian n n where
  covered := h
  bal x := by
    simp only [move, bal_credit, bal_debit]
    by_cases hb : x = b
    · subst hb
      by_cases hx : x = custodian
      · subst hx
        simp only [if_true]
        omega
      · simp only [hx, if_true, if_false]
        omega
    · simp only [hb, if_false]
      split
      · rename_i hx
        subst hx
        omega
      · omega
  supply := by
    rw [supply_move]
    omega

/-- Minting pays new units. -/
theorem paid_mint : L.Paid (L.mint b n) b custodian n 0 where
  covered := Nat.zero_le _
  bal x := by
    rw [bal_mint]
    split
    · rename_i hx
      subst hx
      split <;> omega
    · split <;> omega
  supply := by
    rw [supply_mint]
    omega

/-! ## Undoing -/

/-- Paying back what was taken restores the ledger. -/
theorem Taken.paid_back (h : L.Taken L' a custodian n e) (h' : L'.Paid L'' a custodian n e) :
    L'' = L := by
  ext x
  · have hx := h.bal x
    have hx' := h'.bal x
    omega
  · have hs := h.supply
    have hs' := h'.supply
    omega

/-- Taking what was paid restores the ledger. -/
theorem Paid.taken_back (h : L.Paid L' a custodian n e) (h' : L'.Taken L'' a custodian n e) :
    L'' = L := by
  ext x
  · have hx := h.bal x
    have hx' := h'.bal x
    omega
  · have hs := h.supply
    have hs' := h'.supply
    omega

end Ledger

end GenesisEthermint.Foundation
