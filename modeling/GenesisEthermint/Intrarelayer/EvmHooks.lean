import GenesisEthermint.Intrarelayer.MsgServer

/-!
# EVM Hooks

After an Ethereum transaction the hook walks its logs and converts every token transfer to the
module account. A log it has no use for is skipped, and so is one whose conversion fails; only
a transfer log of a disabled pair makes the hook, and with it the transaction, fail.
-/

namespace GenesisEthermint.Intrarelayer

open GenesisEthermint.Foundation GenesisEthermint.Types GenesisEthermint.Chain

variable {W : Type} (k : Keeper W)

/-- What the hook reads off a transfer log: both parties and an amount that is a word. -/
structure TransferEvent where
  sender : Address
  recipient : Address
  tokens : ℕ
  bounded : tokens < intBound

/-- `sdk.NewIntFromBigInt(tokens)`. -/
def TransferEvent.amount (ev : TransferEvent) : SdkInt := newIntFromBigInt ev.tokens ev.bounded

theorem beNat_lt (bytes : List UInt8) : beNat bytes < 256 ^ bytes.length := by
  induction bytes using List.reverseRecOn with
  | nil => decide
  | append_singleton bytes b ih =>
    have hb : b.toNat < 256 := b.toNat_lt
    rw [beNat_append_singleton, List.length_append, List.length_singleton, pow_succ]
    omega

theorem unpackEvent_lt {data : List UInt8} {n : ℕ} (h : unpackEvent data = .ok n) :
    n < intBound := by
  unfold unpackEvent firstWord at h
  split at h
  · simp [Except.map] at h
  · split at h
    · simp [Except.map] at h
    · rename_i hlen
      simp only [Except.map, Except.ok.injEq] at h
      have hw := beNat_lt (data.take 32)
      have hl : (data.take 32).length = 32 := by simp only [List.length_take]; omega
      rw [hl, h] at hw
      exact lt_of_lt_of_eq hw (by decide)

/-- The checks of the loop that look at the log alone: three topics, the `Transfer` event,
data that unpacks, and a positive amount. -/
def transferOf (log : Log) : Option TransferEvent :=
  match log.topics with
  -- logs with fewer than three topics are skipped
  | eventID :: senderTopic :: recipientTopic :: _ =>
    if eventByID eventID = some .Transfer then
      match h : unpackEvent log.data with
      | .ok tokens =>
        if 0 < tokens then
          some ⟨bytesToAddress senderTopic.bytes, bytesToAddress recipientTopic.bytes, tokens,
            unpackEvent_lt h⟩
        else none
      | .error _ => none
    else none
  | _ => none

/-- Take the tokens of a converted log off the contract, or mint the coins for them. -/
def convertTokens (pair : TokenPair) (contractAddr : Address) (ev : TransferEvent) :
    Exec GoError (State W) Unit :=
  match pair.contractOwner with
  | .OWNER_MODULE => do
    -- the transfer has paid the tokens to the module, which burns its own
    let _ ← callEVM k erc20Burnable k.moduleAddress contractAddr .burn [packInt ev.tokens]
    return ()
  | .OWNER_EXTERNAL => mintCoins k ModuleName [⟨pair.denom, ev.amount⟩]
  | .OWNER_UNSPECIFIED => Exec.fail ErrUndefinedOwner

/-- The conversion of one transfer to the module account. Both failures are only logged. -/
def convertLog (pair : TokenPair) (contractAddr : Address) (ev : TransferEvent) :
    Exec GoError (State W) Unit := do
  let converted ← Exec.attempt (convertTokens k pair contractAddr ev)
  match converted with
  | .error _ => return ()
  | .ok _ =>
    -- a payout that fails leaves the tokens taken
    let _ ← Exec.attempt (sendCoinsFromModuleToAccount k ModuleName ev.sender.bytes
      [⟨pair.denom, ev.amount⟩])
    return ()

/-- The pair a contract is registered with, as the hook looks it up. -/
def pairOfContract (r : Registry) (contractAddr : Address) : Option TokenPair :=
  (getERC20Map r contractAddr).bind (getTokenPair r)

/-- The error that makes the hook fail. -/
def errPairDisabled (contractAddr : Address) : GoError :=
  .errorf ("internal relaying is disabled for pair " ++ contractAddr.hex k.keccak256
    ++ ", please create a governance proposal")

/-- One round of the log loop. -/
def processLog (log : Log) : Exec GoError (State W) Unit := do
  let s ← get
  match transferOf log with
  | none => return ()
  | some ev =>
    match pairOfContract s.registry log.address with
    | none => return ()
    | some pair =>
      -- the pair is asked to be enabled before the destination is looked at
      Exec.failIf (¬ pair.enabled) (errPairDisabled k log.address)
      if ev.recipient ≠ k.moduleAddress then return ()
      else convertLog k pair log.address ev

/-- The error of the hook while it is switched off. -/
def errHookDisabled : GoError :=
  .wrap ErrInternalTokenPair "EVM Hook is currently disabled"

/-- `PostTxProcessing`. -/
def postTxProcessing (logs : List Log) : Exec GoError (State W) Unit := do
  let s ← get
  Exec.failIf (¬ s.params.enableEVMHook) errHookDisabled
  forM logs (processLog k)

/-- The error of a transaction whose execution failed. -/
def errTxFailed (vmError : String) : GoError := .wrap ErrVMExecution vmError

/-- `ApplyTransaction` of the EVM keeper with the hook set: the message runs in a cached
context, which is written back only if the execution and the hook both succeed. -/
def applyTransaction (msg : Message) : Exec GoError (State W) Unit := do
  let s ← get
  let res ← Exec.ofExcept (k.evm.applyMessage s.evm s.accounts msg)
  modify fun s => { s with evm := res.world, accounts := res.accounts }
  Exec.failIf res.failed (errTxFailed res.vmError)
  postTxProcessing k res.logs

/-! ## What the hook leaves alone -/

section Frame

variable {R : State W → State W → Prop} [Std.Refl R] [IsTrans (State W) R] (hb : BankKeeps R)
  (he : EvmKeeps k R)
include hb he

theorem relates_convertLog (pair : TokenPair) (contractAddr : Address) (ev : TransferEvent) :
    Exec.Relates R (convertLog k pair contractAddr ev) := by
  have htokens : Exec.Relates R (convertTokens k pair contractAddr ev) := by
    unfold convertTokens
    split
    · exact Exec.relates_bind (relates_callEVM he) fun _ => Exec.relates_pure _
    · exact relates_mintCoins hb k _ _
    · exact Exec.relates_fail _
  refine Exec.relates_bind (Exec.relates_attempt htokens) fun r => ?_
  cases r with
  | error e => exact Exec.relates_pure _
  | ok u =>
    exact Exec.relates_bind
      (Exec.relates_attempt (relates_sendCoinsFromModuleToAccount hb k _ _ _))
      fun _ => Exec.relates_pure _

theorem relates_processLog (log : Log) :
    Exec.Relates R (processLog k log) := by
  refine Exec.relates_bind Exec.relates_get fun s => ?_
  split
  · exact Exec.relates_pure _
  · split
    · exact Exec.relates_pure _
    · refine Exec.relates_bind (Exec.relates_failIf _ _) fun _ => ?_
      split
      · exact Exec.relates_pure _
      · exact relates_convertLog k hb he _ _ _

theorem relates_postTxProcessing (logs : List Log) :
    Exec.Relates R (postTxProcessing k logs) :=
  Exec.relates_bind Exec.relates_get fun _ =>
  Exec.relates_bind (Exec.relates_failIf _ _) fun _ =>
  Exec.relates_forM logs fun log _ => relates_processLog k hb he log

/-- A transaction keeps what its message and the hook keep. -/
theorem relates_applyTransaction_of {msg : Message}
    (hmsg : ∀ s res, k.evm.applyMessage s.evm s.accounts msg = .ok res →
      R s { s with evm := res.world, accounts := res.accounts }) :
    Exec.Relates R (applyTransaction k msg) := by
  intro s
  rw [applyTransaction, Exec.get_bind, Exec.ofExcept_bind]
  cases happ : k.evm.applyMessage s.evm s.accounts msg with
  | error e => exact Std.Refl.refl s
  | ok res =>
    have hrest : Exec.Relates R (do
        Exec.failIf res.failed (errTxFailed res.vmError)
        postTxProcessing k res.logs) :=
      Exec.relates_bind (Exec.relates_failIf _ _) fun _ => relates_postTxProcessing k hb he _
    exact Trans.trans (hmsg s res happ) (hrest _)

end Frame

/-- The hook does not touch the registry. -/
theorem registry_processLog {k : Keeper W} {log : Log} {s t : State W} {u : Unit}
    (h : processLog k log s = .ok u t) : t.registry = s.registry :=
  congrArg Config.registry ((relates_processLog k bankBlind_config evmBlind_config log).of_ok h)

theorem relates_applyTransaction (msg : Message) :
    Exec.Relates (Exec.SameOn State.config) (applyTransaction k msg) :=
  relates_applyTransaction_of k bankBlind_config evmBlind_config fun _ _ _ => rfl

end GenesisEthermint.Intrarelayer
