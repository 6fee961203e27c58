import GenesisEthermint.Intrarelayer.Evm

/-!
# Message Server

The two conversion messages. `MintingEnabled` finds the pair and decides whether the
conversion may go ahead, and the pair's owner decides which of the four flows runs it:

- coin to token, module-owned: escrow the coins, mint the tokens,
- coin to token, external: escrow the coins, release escrowed tokens, burn the coins,
- token to coin, module-owned: burn the tokens, release escrowed coins,
- token to coin, external: escrow the tokens, mint the coins and pay them out.
-/

namespace GenesisEthermint.Intrarelayer

open GenesisEthermint.Foundation GenesisEthermint.Types GenesisEthermint.Chain

variable {W : Type} (k : Keeper W)

/-! ## Admission -/

/-- The error of an entry point while the module is switched off. -/
def errDisabled : GoError :=
  .wrap ErrInternalTokenPair "intrarelaying is currently disabled by governance"

/-- The error for a token that resolves to no pair. -/
def errNotRegistered (token : String) : GoError :=
  .wrap ErrInternalTokenPair ("token " ++ token ++ " not registered")

/-- The error for an index entry without a stored pair. -/
def errNoPair : GoError := .wrap ErrInternalTokenPair "not registered"

/-- `MintingEnabled`. -/
def mintingEnabled (s : State W) (sender receiver : AccAddress) (token : String) :
    Except GoError TokenPair := do
  rejectIf (¬ s.params.enableIntrarelayer) errDisabled
  match getTokenPairID s.registry token with
  | none => throw (errNotRegistered token)
  | some id =>
    match getTokenPair s.registry id with
    | none => throw errNoPair
    | some pair =>
      rejectIf (¬ pair.enabled) (.wrap ErrNotAllowedBridge
        ("minting token " ++ token ++ " is not enabled by governance"))
      rejectIf (k.blockedAddr receiver) (.wrap ErrUnauthorized
        (k.accAddressString receiver ++ " is not allowed to receive transactions"))
      -- paying out to somebody else also needs transfers of the coin to be enabled
      rejectIf (sender ≠ receiver ∧ ¬ isSendEnabledCoin s pair.denom) (.wrap ErrSendDisabled
        ("minting " ++ token ++ " coins to an external address is currently disabled"))
      return pair

/-- `addr, _ := sdk.AccAddressFromBech32(s)`: the decoding error is dropped. -/
def decodeOrEmpty (s : String) : AccAddress :=
  match k.accAddressFromBech32 s with
  | .ok addr => addr
  | .error _ => []

/-! ## The four flows -/

/-- `convertCoinNativeCoin`. -/
def convertCoinNativeCoin (pair : TokenPair) (msg : MsgConvertCoin) (receiver : Address)
    (sender : AccAddress) : Exec GoError (State W) Unit := do
  let coins := [msg.coin]
  let contract := pair.getERC20Contract
  Exec.mapError (fun e => .wrap e "failed to escrow coins")
    (sendCoinsFromAccountToModule k sender ModuleName coins)
  -- what the contract returns is not looked at
  let _ ← callEVM k erc20BurnableAndMintable k.moduleAddress contract .mint
    [.address receiver, packInt msg.coin.amount.val]
  return ()

/-- `convertCoinNativeERC20`. -/
def convertCoinNativeERC20 (pair : TokenPair) (msg : MsgConvertCoin) (receiver : Address)
    (sender : AccAddress) : Exec GoError (State W) Unit := do
  let coins := [msg.coin]
  let contract := pair.getERC20Contract
  Exec.mapError (fun e => .wrap e "failed to escrow coins")
    (sendCoinsFromAccountToModule k sender ModuleName coins)
  -- the module pays the tokens out, and the contract must return `true`
  let ret ← callEVM k erc20BurnableAndMintable k.moduleAddress contract .transfer
    [.address receiver, packInt msg.coin.amount.val]
  let unpackedRet ← Exec.ofExcept (unpackBool ret)
  Exec.failIf (¬ unpackedRet) (.wrap ErrLogic "failed to execute unescrow tokens from user")
  Exec.mapError (fun e => .wrap e "failed to burn coins") (burnCoins k ModuleName coins)

/-- `convertERC20NativeCoin`. -/
def convertERC20NativeCoin (pair : TokenPair) (msg : MsgConvertERC20) (receiver : AccAddress)
    (sender : Address) : Exec GoError (State W) Unit := do
  let coins := [⟨pair.denom, msg.amount⟩]
  let contract := pair.getERC20Contract
  -- the module is the burner, and the tokens are the sender's
  let _ ← callEVM k erc20BurnableAndMintable k.moduleAddress contract .burnCoins
    [.address sender, packInt msg.amount.val]
  sendCoinsFromModuleToAccount k ModuleName receiver coins

/-- `convertERC20NativeToken`. -/
def convertERC20NativeToken (pair : TokenPair) (msg : MsgConvertERC20) (receiver : AccAddress)
    (sender : Address) : Exec GoError (State W) Unit := do
  let coins := [⟨pair.denom, msg.amount⟩]
  let contract := pair.getERC20Contract
  -- the call is made as the sender, who pays the tokens to the module
  let transferData ← Exec.ofExcept (erc20BurnableAndMintable.pack .transfer
    [.address k.moduleAddress, packInt msg.amount.val])
  let ret ← callEVMWithPayload k sender (some contract) transferData
  let unpackedRet ← Exec.ofExcept (unpackBool ret)
  Exec.failIf (¬ unpackedRet) (.wrap ErrLogic "failed to execute transfer")
  mintCoins k ModuleName coins
  sendCoinsFromModuleToAccount k ModuleName receiver coins

/-! ## The messages -/

/-- `ConvertCoin`. -/
def convertCoin (msg : MsgConvertCoin) : Exec GoError (State W) Unit := do
  let s ← get
  let receiver := hexToAddress msg.receiver
  let sender := decodeOrEmpty k msg.sender
  let pair ← Exec.ofExcept (mintingEnabled k s sender receiver.bytes msg.coin.denom)
  if pair.isNativeCoin then convertCoinNativeCoin k pair msg receiver sender
  else if pair.isNativeERC20 then convertCoinNativeERC20 k pair msg receiver sender
  else Exec.fail ErrUndefinedOwner

/-- `ConvertERC20`. -/
def convertERC20 (msg : MsgConvertERC20) : Exec GoError (State W) Unit := do
  let s ← get
  let receiver := decodeOrEmpty k msg.receiver
  let sender := hexToAddress msg.sender
  let pair ← Exec.ofExcept (mintingEnabled k s sender.bytes receiver msg.contractAddress)
  if pair.isNativeCoin then convertERC20NativeCoin k pair msg receiver sender
  else if pair.isNativeERC20 then convertERC20NativeToken k pair msg receiver sender
  else Exec.fail ErrUndefinedOwner

/-! ## What a conversion leaves alone -/

section Frame

variable {R : State W → State W → Prop} [Std.Refl R] [IsTrans (State W) R] (hb : BankKeeps R)
  (he : EvmKeeps k R)
include hb he

theorem relates_convertCoin (msg : MsgConvertCoin) :
    Exec.Relates R (convertCoin k msg) := by
  refine Exec.relates_bind Exec.relates_get fun s => ?_
  refine Exec.relates_bind (Exec.relates_ofExcept _) fun pair => ?_
  split
  · exact Exec.relates_bind
      (Exec.relates_mapError (relates_sendCoinsFromAccountToModule hb k _ _ _)) fun _ =>
      Exec.relates_bind (relates_callEVM he) fun _ => Exec.relates_pure _
  · split
    · exact Exec.relates_bind
        (Exec.relates_mapError (relates_sendCoinsFromAccountToModule hb k _ _ _)) fun _ =>
        Exec.relates_bind (relates_callEVM he) fun _ =>
        Exec.relates_bind (Exec.relates_ofExcept _) fun _ =>
        Exec.relates_bind (Exec.relates_failIf _ _) fun _ =>
        Exec.relates_mapError (relates_burnCoins hb k _ _)
    · exact Exec.relates_fail _

theorem relates_convertERC20 (msg : MsgConvertERC20) :
    Exec.Relates R (convertERC20 k msg) := by
  refine Exec.relates_bind Exec.relates_get fun s => ?_
  refine Exec.relates_bind (Exec.relates_ofExcept _) fun pair => ?_
  split
  · exact Exec.relates_bind (relates_callEVM he) fun _ =>
      relates_sendCoinsFromModuleToAccount hb k _ _ _
  · split
    · exact Exec.relates_bind (Exec.relates_ofExcept _) fun _ =>
        Exec.relates_bind (relates_callEVMWithPayload he) fun _ =>
        Exec.relates_bind (Exec.relates_ofExcept _) fun _ =>
        Exec.relates_bind (Exec.relates_failIf _ _) fun _ =>
        Exec.relates_bind (relates_mintCoins hb k _ _) fun _ =>
        relates_sendCoinsFromModuleToAccount hb k _ _ _
    · exact Exec.relates_fail _

end Frame

end GenesisEthermint.Intrarelayer
