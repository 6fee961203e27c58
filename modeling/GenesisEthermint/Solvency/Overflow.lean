import GenesisEthermint.Solvency.Footprint

/-!
# Additions that Overflow

`sdk.Int` panics when a sum leaves 256 bits. A conversion adds coins in three places: to the
module's balance, to the recipient's, and to the supply. As long as no set of accounts holds
more than the supply, a bound on the supply bounds them all.
-/

namespace GenesisEthermint.Solvency

open GenesisEthermint.Foundation GenesisEthermint.Types GenesisEthermint.Chain
open GenesisEthermint.Intrarelayer

variable {W : Type} {k : Keeper W} {s : State W} {a b : AccAddress} {c : Coin}

/-- The computation does not end with an overflowing addition. -/
abbrev NoOverflow {α : Type} (x : Exec GoError (State W) α) (s : State W) : Prop :=
  Exec.Avoids (.panic "Int overflow") x s

theorem noOverflow_sendCoins (hcov : (s.bank.ledger c.denom).Covered)
    (hsup : (s.bank.ledger c.denom).supply < intBound) : NoOverflow (sendCoins a b [c]) s := by
  by_cases hc : CanSpend s a c
  -- whoever receives holds at most the whole supply afterwards
  · have hroom : ¬ intBound ≤ ((s.bank.ledger c.denom).debit a c.nat).bal b + c.nat := by
      have hle := hc.le_bal
      rw [Ledger.bal_debit]
      split
      · have hbal := hcov.bal_le a
        omega
      · rename_i hne
        have hbal := hcov.bal_add_bal_le hne
        omega
    refine Exec.avoids_of_ok (a := ()) (t := moved s a b c) ?_
    rw [sendCoins_of_canSpend hc, if_neg hroom]
  -- what cannot be spent fails for another reason
  · obtain ⟨f, hf, -, hpanic⟩ := sendCoins_of_not_canSpend (b := b) hc
    refine Exec.avoids_of_error hf ?_
    intro hover
    exact absurd (hpanic _ hover).1 (by decide)

theorem noOverflow_escrow (hcov : (s.bank.ledger c.denom).Covered)
    (hsup : (s.bank.ledger c.denom).supply < intBound) :
    NoOverflow (sendCoinsFromAccountToModule k a ModuleName [c]) s := by
  intro t h
  rw [sendCoinsFromAccountToModule_run] at h
  refine noOverflow_sendCoins ?_ ?_ t h
  · rwa [State.ensureAccount_bank]
  · rwa [State.ensureAccount_bank]

theorem noOverflow_release (hcov : (s.bank.ledger c.denom).Covered)
    (hsup : (s.bank.ledger c.denom).supply < intBound) :
    NoOverflow (sendCoinsFromModuleToAccount k ModuleName b [c]) s := by
  intro t h
  rw [sendCoinsFromModuleToAccount_run] at h
  split at h
  · cases h
  · exact noOverflow_sendCoins hcov hsup t h

theorem noOverflow_mintCoins (hcov : (s.bank.ledger c.denom).Covered)
    (hsup : coinsIsValid [c] = true → (s.bank.ledger c.denom).supply + c.nat < intBound) :
    NoOverflow (mintCoins k ModuleName [c]) s := by
  have hbal := hcov.bal_le k.moduleAddress.bytes
  intro t h
  rw [mintCoins_one] at h
  split at h
  · cases h
  · rename_i hv
    have hroom := hsup (by simpa using hv)
    rw [if_neg (by omega), if_neg (by omega)] at h
    cases h

/-- The payout of a minted coin. -/
theorem noOverflow_release_minted (hcov : (s.bank.ledger c.denom).Covered)
    (hmint : CanMint k s c) :
    NoOverflow (sendCoinsFromModuleToAccount k ModuleName b [c]) (mintedCoin k s c) := by
  have hledger : (mintedCoin k s c).bank.ledger c.denom =
      (s.bank.ledger c.denom).mint k.moduleAddress.bytes c.nat := by
    rw [ledger_mintedCoin, if_pos rfl]
  refine noOverflow_release ?_ ?_
  · rw [hledger]
    exact Ledger.covered_mint hcov
  · rw [hledger, Ledger.supply_mint]
    exact hmint.2.2

theorem noOverflow_burnCoins (amt : List Coin) : NoOverflow (burnCoins k ModuleName amt) s := by
  refine Exec.avoids_bind (Exec.avoids_bind (Exec.avoids_panicIf _ (by decide))
    fun _ _ _ => Exec.avoids_modify _) fun _ _ _ => ?_
  refine Exec.avoids_bind (Exec.avoids_panicIf _ (by decide)) fun _ _ _ => ?_
  refine Exec.avoids_bind (Exec.avoids_bind (Exec.avoids_failIf _ _) fun _ _ _ =>
    Exec.avoids_forM amt fun _ _ _ => ?_) fun _ _ _ => Exec.avoids_forM amt fun _ _ _ => ?_
  · exact Exec.avoids_bind Exec.avoids_get fun _ _ _ =>
      Exec.avoids_bind (Exec.avoids_panicIf _ (by decide)) fun _ _ _ =>
      Exec.avoids_bind (Exec.avoids_failIf _ _) fun _ _ _ => Exec.avoids_modify _
  · exact Exec.avoids_bind Exec.avoids_get fun _ _ _ =>
      Exec.avoids_bind (Exec.avoids_panicIf _ (by decide)) fun _ _ _ => Exec.avoids_modify _

/-! ## Conversions -/

/-- Converting coins adds them to the module's balance only. -/
theorem noOverflow_convertCoin {msg : MsgConvertCoin}
    (hcov : (s.bank.ledger msg.coin.denom).Covered)
    (hsup : (s.bank.ledger msg.coin.denom).supply < intBound) :
    NoOverflow (convertCoin k msg) s := by
  refine Exec.avoids_bind Exec.avoids_get fun s₁ t₁ hget => ?_
  obtain ⟨rfl, rfl⟩ := Exec.get_ok_iff.mp hget
  refine Exec.avoids_bind (Exec.avoids_ofExcept _) fun pair t hadm => ?_
  obtain ⟨-, rfl⟩ := Exec.ofExcept_ok_iff.mp hadm
  have hescrow := Exec.avoids_mapError (g := fun e => .wrap e "failed to escrow coins")
    (noOverflow_escrow (k := k) (a := decodeOrEmpty k msg.sender) hcov hsup)
  -- escrow is the only step that adds to a balance; a burn takes
  split
  · exact Exec.avoids_bind hescrow fun _ _ _ =>
      Exec.avoids_bind avoids_callEVM fun _ _ _ => Exec.avoids_pure _
  · split
    · exact Exec.avoids_bind hescrow fun _ _ _ =>
        Exec.avoids_bind avoids_callEVM fun _ _ _ =>
        Exec.avoids_bind (Exec.avoids_ofExcept _) fun _ _ _ =>
        Exec.avoids_bind (Exec.avoids_failIf _ _) fun _ _ _ =>
        Exec.avoids_mapError (noOverflow_burnCoins _)
    · exact Exec.avoids_fail _

/-- Converting a log of an external pair adds its coins to the supply. -/
theorem noOverflow_convertLog {pair : TokenPair} {contract : Address} {ev : TransferEvent}
    (howner : pair.contractOwner = .OWNER_EXTERNAL)
    (hcov : (s.bank.ledger pair.denom).Covered)
    (hsup : (s.bank.ledger pair.denom).supply + ev.tokens < intBound) :
    NoOverflow (convertLog k pair contract ev) s := by
  have htokens : NoOverflow (convertTokens k pair contract ev) s := by
    simp only [convertTokens, howner]
    exact noOverflow_mintCoins hcov fun _ => hsup
  refine Exec.avoids_bind (Exec.avoids_attempt htokens) fun r v hr => ?_
  cases r with
  | error e => exact Exec.avoids_pure _
  | ok u =>
    rcases Exec.attempt_ok_iff.mp hr with ⟨_, -, hconv⟩ | ⟨e, he, -⟩
    swap
    · cases he
    refine Exec.avoids_bind (Exec.avoids_attempt ?_) fun _ _ _ => Exec.avoids_pure _
    simp only [convertTokens, howner] at hconv
    obtain ⟨hmint, rfl⟩ := mintCoins_ok_iff.mp hconv
    exact noOverflow_release_minted hcov hmint

theorem noOverflow_processLog {log : Log}
    (hconv : ∀ ev pair, transferOf log = some ev → ev.recipient = k.moduleAddress →
      pairOfContract s.registry log.address = some pair →
      NoOverflow (convertLog k pair log.address ev) s) :
    NoOverflow (processLog k log) s := by
  refine Exec.avoids_bind Exec.avoids_get fun s₁ t₁ hget => ?_
  obtain ⟨rfl, rfl⟩ := Exec.get_ok_iff.mp hget
  cases htr : transferOf log with
  | none => exact Exec.avoids_pure _
  | some ev =>
    cases hp : pairOfContract s.registry log.address with
    | none => exact Exec.avoids_pure _
    | some pair =>
      refine Exec.avoids_bind (Exec.avoids_failIf _ _) fun _ t hen => ?_
      obtain ⟨-, rfl⟩ := Exec.failIf_ok_iff.mp hen
      split
      · exact Exec.avoids_pure _
      · rename_i hrec
        exact hconv ev pair htr (not_not.mp hrec) hp

end GenesisEthermint.Solvency
