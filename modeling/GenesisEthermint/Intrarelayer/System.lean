import GenesisEthermint.Foundation.Run
import GenesisEthermint.Intrarelayer.EvmHooks
import GenesisEthermint.Intrarelayer.Proposals

/-!
# The System

Everything that can happen to the module, as one state machine. An operation is a message, a
proposal that passed, an Ethereum transaction, a bank transfer or a parameter change, and it
is delivered: what it wrote is kept only if it succeeds.
-/

namespace GenesisEthermint.Intrarelayer

open GenesisEthermint.Foundation GenesisEthermint.Types GenesisEthermint.Chain

/-- The operations on the chain that concern the module. -/
inductive Op where
  | registerCoin (metadata : Metadata)
  | registerERC20 (contract : Address)
  | toggleRelay (token : String)
  | updateTokenPairERC20 (erc20Addr newERC20Addr : Address)
  | convertCoin (msg : MsgConvertCoin)
  | convertERC20 (msg : MsgConvertERC20)
  | ethereumTx (msg : Message)
  | bankSend (msg : MsgSend)
  | setParams (params : Params)

variable {W : Type} (k : Keeper W)

/-- What the operation runs. -/
def Op.exec : Op → Exec GoError (State W) Unit
  | .registerCoin metadata => Functor.discard (Intrarelayer.registerCoin k metadata)
  | .registerERC20 contract => Intrarelayer.registerERC20 k contract
  | .toggleRelay token => Functor.discard (Intrarelayer.toggleRelay k token)
  | .updateTokenPairERC20 erc20Addr newERC20Addr =>
    Functor.discard (Intrarelayer.updateTokenPairERC20 k erc20Addr newERC20Addr)
  | .convertCoin msg => Intrarelayer.convertCoin k msg
  | .convertERC20 msg => Intrarelayer.convertERC20 k msg
  | .ethereumTx msg => applyTransaction k msg
  | .bankSend msg => send k msg
  | .setParams params => modify fun s => { s with params := params }

/-- Deliver one operation. -/
def step (s : State W) (op : Op) : State W := Exec.deliver (op.exec k) s

/-- The account whose signature the operation carries. Proposals carry none. -/
def Op.signer : Op → Option AccAddress
  | .convertCoin msg => some (decodeOrEmpty k msg.sender)
  | .convertERC20 msg => some (hexToAddress msg.sender).bytes
  | .ethereumTx msg => some msg.sender.bytes
  | .bankSend msg => some (decodeOrEmpty k msg.fromAddress)
  | _ => none

/-- The operation is a message, a transaction or a transfer, not governance. -/
def Op.IsUserOp : Op → Prop
  | .convertCoin _ | .convertERC20 _ | .ethereumTx _ | .bankSend _ => True
  | _ => False

/-- The operation is one of those that can convert tokens. -/
def Op.IsConversion : Op → Prop
  | .convertCoin _ | .convertERC20 _ | .ethereumTx _ => True
  | _ => False

/-- No user operation changes the registry or any other configuration. -/
theorem config_step_of_isUserOp {op : Op} (h : op.IsUserOp) (s : State W) :
    (step k s op).config = s.config := by
  have hrel : Exec.Relates (Exec.SameOn State.config) (op.exec k) := by
    cases op with
    | convertCoin msg => exact relates_convertCoin k bankBlind_config evmBlind_config msg
    | convertERC20 msg => exact relates_convertERC20 k bankBlind_config evmBlind_config msg
    | ethereumTx msg => exact relates_applyTransaction k msg
    | bankSend msg => exact relates_send bankBlind_config k msg
    | _ => exact h.elim
  rcases Exec.deliver_cases (op.exec k) s with ⟨a, ha⟩ | ha
  · exact hrel.of_ok ha
  · rw [step, ha]

end GenesisEthermint.Intrarelayer
