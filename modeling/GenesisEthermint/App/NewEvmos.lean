import GenesisEthermint.Intrarelayer.ProposalHandler

/-!
# The Application

`NewEvmos` builds the keepers one after the other and hands each to the next ones. Kept here is
what decides who calls the module: the EVM keeper with its hooks, the governance router with its
handlers, and the module's keeper, in the order of the constructor's lines.
-/

namespace GenesisEthermint.App

open GenesisEthermint.Foundation GenesisEthermint.Types GenesisEthermint.Chain
open GenesisEthermint.Intrarelayer

variable {W : Type}

/-! ## The EVM keeper -/

/-- `evmtypes.EvmHooks`: what runs after a transaction, on its logs. -/
abbrev EvmHooks (W : Type) := List Log → Exec GoError (State W) Unit

/-- `evmkeeper.Keeper`. -/
structure EvmKeeper (W : Type) where
  evm : Evm W
  hooks : Option (EvmHooks W)

/-- `evmkeeper.NewKeeper`, which sets no hooks. -/
def newEvmKeeper (evm : Evm W) : EvmKeeper W := ⟨evm, none⟩

/-- `SetHooks`. -/
def EvmKeeper.setHooks (ek : EvmKeeper W) (eh : EvmHooks W) : EvmKeeper W :=
  { ek with hooks := some eh }

/-- `ErrPostTxProcessing.Error()`. -/
def ErrPostTxProcessing : String := "failed to execute post processing"

/-- `ApplyTransaction`; returns the response's `VmError`. -/
def EvmKeeper.applyTransaction (ek : EvmKeeper W) (msg : Message) :
    Exec GoError (State W) String := do
  let s ← get
  let res ← Exec.ofExcept (ek.evm.applyMessage s.evm s.accounts msg)
  let applied : State W := { s with evm := res.world, accounts := res.accounts }
  match ek.hooks with
  | none =>
    -- nothing is cached, so what the message left is written in any case
    set applied
    return res.vmError
  | some hook =>
    if res.failed then return res.vmError
    else
      match hook res.logs applied with
      | .ok _ t =>
        set t
        return res.vmError
      | .error (.error _) _ => return ErrPostTxProcessing
      | .error (.panic m) _ => Exec.panicWith m

/-! ## The governance router -/

/-- `govtypes.Router`: the handlers by path. -/
abbrev Router (W : Type) := String → Option (Handler W)

/-- `AddRoute`. -/
def addRoute (path : String) (h : Handler W) (rtr : Router W) : Router W :=
  Function.update rtr path (some h)

/-! ## The constructor -/

/-- The part of the `Evmos` struct that the module hangs on. -/
structure Evmos (W : Type) where
  evmKeeper : EvmKeeper W
  govRouter : Router W
  intrarelayerKeeper : KeeperValue W

/-- `NewEvmos`. `k` is the keeper that `irk.NewKeeper` builds, and `routes` the routes of the
other modules. -/
def newEvmos (k : Keeper W) (routes : Router W) : Evmos W :=
  -- `app := &Evmos{..}` assigns no keeper
  let intrarelayerKeeper : KeeperValue W := .zero
  -- `app.EvmKeeper = evmkeeper.NewKeeper(..)`
  let evmKeeper := newEvmKeeper k.evm
  -- `AddRoute(irt.RouterKey, NewIntrarelayerProposalHandler(app.IntrarelayerKeeper))`
  let govRouter := addRoute RouterKey (newIntrarelayerProposalHandler intrarelayerKeeper) routes
  -- `app.IntrarelayerKeeper = irk.NewKeeper(..)`
  let intrarelayerKeeper : KeeperValue W := .built k
  { evmKeeper := evmKeeper, govRouter := govRouter, intrarelayerKeeper := intrarelayerKeeper }

/-- A passed proposal's content, executed as governance does it: `GetRoute`, then the handler. -/
def Evmos.executeContent (app : Evmos W) (content : Content) : Exec GoError (State W) Unit :=
  match app.govRouter content.proposalRoute with
  | none => Exec.panicWith ("route \"" ++ content.proposalRoute ++ "\" does not exist")
  | some handler => handler content

end GenesisEthermint.App
