import GenesisEthermint.Intrarelayer.System
import GenesisEthermint.Types.Content

/-!
# The Proposal Handler

Governance executes a proposal through a handler, a function that `NewIntrarelayerProposalHandler`
returns. It holds a keeper by value, so what matters is what that value was when the handler was
made: the keeper that `NewKeeper` built, or the zero value of a field nobody has assigned yet.
-/

namespace GenesisEthermint.Intrarelayer

open GenesisEthermint.Foundation GenesisEthermint.Types GenesisEthermint.Chain

variable {W : Type} {α : Type}

/-- `keeper.Keeper` as a Go value. The zero value has no store key, a subspace without a key
table, and no other keepers. -/
inductive KeeperValue (W : Type) where
  | zero
  | built (k : Keeper W)

namespace KeeperValue

/-- The panic of a subspace that is asked for a parameter outside its key table. -/
def notRegistered (key : String) : String := "parameter " ++ key ++ " not registered"

/-- The panic of a context that is asked for a store under a nil key. -/
def noStore : String := "kv store with key <nil> has not been registered in stores"

/-- A method that reads the parameters first. -/
def withParams (v : KeeperValue W) (x : Keeper W → Exec GoError (State W) α) :
    Exec GoError (State W) α :=
  match v with
  | zero => Exec.panicWith (notRegistered "EnableIntrarelayer")
  | built k => x k

/-- A method that opens the module's store first. -/
def withStore (v : KeeperValue W) (x : Keeper W → Exec GoError (State W) α) :
    Exec GoError (State W) α :=
  match v with
  | zero => Exec.panicWith noStore
  | built k => x k

variable (v : KeeperValue W)

/-- `k.RegisterCoin`. -/
def registerCoin (coinMetadata : Metadata) : Exec GoError (State W) TokenPair :=
  v.withParams fun k => Intrarelayer.registerCoin k coinMetadata

/-- `k.RegisterERC20`. -/
def registerERC20 (contract : Address) : Exec GoError (State W) Unit :=
  v.withParams fun k => Intrarelayer.registerERC20 k contract

/-- `k.ToggleRelay`. -/
def toggleRelay (token : String) : Exec GoError (State W) TokenPair :=
  v.withStore fun k => Intrarelayer.toggleRelay k token

/-- `k.UpdateTokenPairERC20`. -/
def updateTokenPairERC20 (erc20Addr newERC20Addr : Address) :
    Exec GoError (State W) TokenPair :=
  v.withStore fun k => Intrarelayer.updateTokenPairERC20 k erc20Addr newERC20Addr

end KeeperValue

variable (v : KeeperValue W)

/-! ## The handler -/

/-- `handleRegisterCoinProposal`. -/
def handleRegisterCoinProposal (p : RegisterCoinProposal) : Exec GoError (State W) Unit := do
  let _ ← v.registerCoin p.metadata
  return ()

/-- The panic of Go where a nil pointer is followed. -/
def nilDereference : String := "runtime error: invalid memory address or nil pointer dereference"

/-- `handleRegisterERC20Proposal`. The event is built from the pair that the method returned,
and a registration that went through returns none. -/
def handleRegisterERC20Proposal (p : RegisterERC20Proposal) : Exec GoError (State W) Unit := do
  v.registerERC20 (hexToAddress p.erc20Address)
  Exec.panicWith nilDereference

/-- `handleToggleRelayProposal`. -/
def handleToggleRelayProposal (p : ToggleTokenRelayProposal) : Exec GoError (State W) Unit := do
  let _ ← v.toggleRelay p.token
  return ()

/-- `handleUpdateTokenPairERC20Proposal`. -/
def handleUpdateTokenPairERC20Proposal (p : UpdateTokenPairERC20Proposal) :
    Exec GoError (State W) Unit := do
  let _ ← v.updateTokenPairERC20 (hexToAddress p.erc20Address) (hexToAddress p.newErc20Address)
  return ()

/-- `govtypes.Handler`. -/
abbrev Handler (W : Type) := Content → Exec GoError (State W) Unit

/-- `NewIntrarelayerProposalHandler`. The error names the content's Go type, for which the
proposal type stands here. -/
def newIntrarelayerProposalHandler : Handler W
  | .registerCoin p => handleRegisterCoinProposal v p
  | .registerERC20 p => handleRegisterERC20Proposal v p
  | .toggleTokenRelay p => handleToggleRelayProposal v p
  | .updateTokenPairERC20 p => handleUpdateTokenPairERC20Proposal v p
  | .other _ type => Exec.fail (.wrap ErrUnknownRequest
      ("unrecognized " ++ ModuleName ++ " proposal content type: " ++ type))

/-- The method of the keeper that a content of the module asks for. -/
def contentMethod : Content → Option (Exec GoError (State W) Unit)
  | .registerCoin p => some (Functor.discard (v.registerCoin p.metadata))
  | .registerERC20 p => some (v.registerERC20 (hexToAddress p.erc20Address))
  | .toggleTokenRelay p => some (Functor.discard (v.toggleRelay p.token))
  | .updateTokenPairERC20 p => some (Functor.discard
      (v.updateTokenPairERC20 (hexToAddress p.erc20Address) (hexToAddress p.newErc20Address)))
  | .other .. => none

/-! ## The methods of a keeper that was built -/

variable {v} {k : Keeper W} {c : Content} {x : Exec GoError (State W) Unit} {s : State W}

/-- None of them panics. -/
theorem avoids_contentMethod {m : String} (h : contentMethod (.built k) c = some x) :
    Exec.Avoids (.panic m) x s := by
  cases c with
  | registerCoin p =>
    obtain rfl := Option.some.inj h
    exact Exec.avoids_discard (avoids_registerCoin p.metadata)
  | registerERC20 p =>
    obtain rfl := Option.some.inj h
    exact avoids_registerERC20 (hexToAddress p.erc20Address)
  | toggleTokenRelay p =>
    obtain rfl := Option.some.inj h
    exact Exec.avoids_discard (avoids_toggleRelay p.token)
  | updateTokenPairERC20 p =>
    obtain rfl := Option.some.inj h
    exact Exec.avoids_discard (avoids_updateTokenPairERC20 _ _)
  | other route type => cases h

/-- The operation of the module that a content asks for. -/
def contentOp : Content → Option Op
  | .registerCoin p => some (.registerCoin p.metadata)
  | .registerERC20 p => some (.registerERC20 (hexToAddress p.erc20Address))
  | .toggleTokenRelay p => some (.toggleRelay p.token)
  | .updateTokenPairERC20 p =>
    some (.updateTokenPairERC20 (hexToAddress p.erc20Address) (hexToAddress p.newErc20Address))
  | .other .. => none

/-- They are the operations of the state machine. -/
theorem contentMethod_built : contentMethod (.built k) c = (contentOp c).map (Op.exec k) := by
  cases c <;> rfl

end GenesisEthermint.Intrarelayer
