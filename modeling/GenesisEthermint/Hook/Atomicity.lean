import GenesisEthermint.Registry.Bijection

/-!
# One Log, All or Nothing

A log is converted in two steps: its tokens are taken, then its coins are paid out. Both can
fail, both failures are only logged, and the loop goes on in the same context. So a log whose
second step fails keeps what the first one wrote. This file says exactly when that happens.
-/

namespace GenesisEthermint.Hook

open GenesisEthermint.Foundation GenesisEthermint.Types GenesisEthermint.Chain
open GenesisEthermint.Intrarelayer GenesisEthermint.Registry GenesisEthermint.Tokens

variable {W : Type} {k : Keeper W} {s t v w : State W} {u : Unit} {log : Log} {logs : List Log}
  {ev : TransferEvent} {p : TokenPair} {book : Address → W → Ledger Address} {Sound : W → Prop}

/-! ## What a log may do -/

/-- The tokens of an external pair that the log reports are with the module. -/
def Held (k : Keeper W) (book : Address → W → Ledger Address) (p : TokenPair) (log : Log)
    (ev : TransferEvent) (v : State W) : Prop :=
  p.contractOwner = .OWNER_EXTERNAL → ev.tokens ≤ (book log.address v.evm).bal k.moduleAddress

/-! ## One log -/

private theorem ledger_moved_eq {a b : AccAddress} {c : Coin} :
    (moved v a b c).bank.ledger = Function.update v.bank.ledger c.denom
      ((v.bank.ledger c.denom).move a b c.nat) := by
  ext1 d
  rw [ledger_moved, Function.update_apply]

end GenesisEthermint.Hook
