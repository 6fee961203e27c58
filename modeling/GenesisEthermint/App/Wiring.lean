import GenesisEthermint.App.NewEvmos
import GenesisEthermint.Registry.Bijection

/-!
# How the Application is Wired

The constructor hands governance a handler that holds the module's keeper as it was before it was
assigned, so no proposal of the module is ever executed: every one of them panics. And it sets no
hook on the EVM keeper, so no transaction ever credits a coin for the tokens it sends to the
module account.
-/

namespace GenesisEthermint.App

open GenesisEthermint.Foundation GenesisEthermint.Types GenesisEthermint.Chain
open GenesisEthermint.Intrarelayer GenesisEthermint.Tokens GenesisEthermint.Registry

variable {W : Type} {k : Keeper W} {routes : Router W} {c : Content} {s t : State W}

/-! ## The proposal handler holds no keeper -/

/-- Executing `x` is as good as calling `y`: the same outcome, and no panic. -/
def SameEffect (x y : Exec GoError (State W) Unit) (s : State W) : Prop :=
  x s = y s ∧ ∀ m t, x s ≠ .error (.panic m) t

/-- A content of the module is routed to the handler that was made of the zero keeper. -/
theorem executeContent_newEvmos (h : c.proposalRoute = RouterKey) :
    (newEvmos k routes).executeContent c = newIntrarelayerProposalHandler .zero c := by
  unfold Evmos.executeContent
  have hroute : (newEvmos k routes).govRouter c.proposalRoute =
      some (newIntrarelayerProposalHandler .zero) := by
    rw [h]
    exact Function.update_self RouterKey _ routes
  rw [hroute]

/-- The handler of the zero keeper panics on each of the module's contents. -/
theorem zeroHandler_panics {x : Exec GoError (State W) Unit}
    (hc : contentMethod (.built k) c = some x) (s : State W) :
    ∃ m, newIntrarelayerProposalHandler .zero c s = .error (.panic m) s := by
  cases c with
  | registerCoin p => exact ⟨KeeperValue.notRegistered "EnableIntrarelayer", rfl⟩
  | registerERC20 p => exact ⟨KeeperValue.notRegistered "EnableIntrarelayer", rfl⟩
  | toggleTokenRelay p => exact ⟨KeeperValue.noStore, rfl⟩
  | updateTokenPairERC20 p => exact ⟨KeeperValue.noStore, rfl⟩
  | other route type => cases hc

/-- **No proposal of the module reaches its keeper.** In every state, executing its content
panics and writes nothing, whereas the method it asks for, on the keeper that the application
has, never panics. -/
theorem executeContent_not_sameEffect (k : Keeper W) (routes : Router W)
    {x : Exec GoError (State W) Unit}
    (hc : contentMethod (newEvmos k routes).intrarelayerKeeper c = some x) (s : State W) :
    ¬ SameEffect ((newEvmos k routes).executeContent c) x s ∧
      ∃ m, (newEvmos k routes).executeContent c s = .error (.panic m) s ∧
        Exec.Avoids (.panic m) x s := by
  have hroute : c.proposalRoute = RouterKey := by
    cases c with
    | other route type => cases hc
    | _ => rfl
  obtain ⟨m, hm⟩ := zeroHandler_panics hc s
  have hpanic : (newEvmos k routes).executeContent c s = .error (.panic m) s := by
    rw [executeContent_newEvmos hroute]
    exact hm
  exact ⟨fun hsame => hsame.2 m s hpanic, m, hpanic, avoids_contentMethod hc⟩

/-- To switch `acoin` off. -/
def toggleCoin : Content := .toggleTokenRelay ⟨"Toggle", "switch acoin off", "acoin"⟩

/-- The keeper of the deployed application switches the pair off, the proposal panics. -/
theorem not_sameEffect_toggleCoin :
    (getTokenPair (Exec.deliver (Op.exec plainKeeper (.toggleRelay "acoin"))
        (deployed plainEvm referenceWorld)).registry (pairE.getID plainKeeper.tmhashSum)).map
      TokenPair.enabled = some false ∧
    ¬ SameEffect ((newEvmos plainKeeper fun _ => none).executeContent toggleCoin)
      (Op.exec plainKeeper (.toggleRelay "acoin")) (deployed plainEvm referenceWorld) := by
  refine ⟨by decide +kernel, fun hsame => ?_⟩
  exact hsame.2 KeeperValue.noStore (deployed plainEvm referenceWorld) rfl

theorem executeContent_not_sameEffect_toggleCoin :
    ∃ m, (newEvmos plainKeeper fun _ => none).executeContent toggleCoin
        (deployed plainEvm referenceWorld) =
          .error (.panic m) (deployed plainEvm referenceWorld) ∧
      Exec.Avoids (.panic m) (Op.exec plainKeeper (.toggleRelay "acoin"))
        (deployed plainEvm referenceWorld) :=
  (executeContent_not_sameEffect plainKeeper (fun _ => none) (c := toggleCoin) rfl _).2

/-! ## The EVM keeper has no hook -/

/-- A transaction without hooks writes what its message left, and nothing else. -/
theorem applyTransaction_newEvmos {msg : Message} {res : EvmResult W}
    (happ : k.evm.applyMessage s.evm s.accounts msg = .ok res) :
    (newEvmos k routes).evmKeeper.applyTransaction msg s =
      .ok res.vmError { s with evm := res.world, accounts := res.accounts } := by
  simp only [EvmKeeper.applyTransaction, newEvmos, newEvmKeeper, Exec.get_bind,
    Exec.ofExcept_bind, happ]
  rfl

/-- With the module's hook set, a transaction that comes back leaves what the state machine's
operation leaves. -/
theorem applyTransaction_setHooks {msg : Message} {vmError : String}
    (h : ((newEvmKeeper k.evm).setHooks (postTxProcessing k)).applyTransaction msg s =
      .ok vmError t) : t = step k s (.ethereumTx msg) := by
  simp only [EvmKeeper.applyTransaction, EvmKeeper.setHooks, newEvmKeeper, Exec.get_bind,
    Exec.ofExcept_bind] at h
  have hrun : (Op.ethereumTx msg).exec k s = Intrarelayer.applyTransaction k msg s := rfl
  simp only [step, Exec.deliver, hrun, Intrarelayer.applyTransaction, Exec.get_bind,
    Exec.ofExcept_bind]
  -- both run the message first, on the same world
  cases happly : k.evm.applyMessage s.evm s.accounts msg with
  | error e =>
    simp only [happly] at h
    cases h
  | ok res =>
    simp only [happly, Exec.modify_bind, Exec.failIf_bind] at h ⊢
    by_cases hf : res.failed = true
    · -- the execution failed: the cached context is dropped
      rw [if_pos hf] at h ⊢
      exact (Exec.pure_ok_iff.mp h).2.symm
    -- the execution succeeded: the hook decides between the new state and the cached one
    · rw [if_neg hf] at h ⊢
      cases hhook : postTxProcessing k res.logs
          { s with evm := res.world, accounts := res.accounts } with
      | ok u t' =>
        simp only [hhook] at h
        cases h
        rfl
      -- an error of the hook is reported in the result, a panic leaves the function
      | error e t' =>
        cases e with
        | error e =>
          simp only [hhook] at h
          exact (Exec.pure_ok_iff.mp h).2.symm
        | panic m =>
          simp only [hhook] at h
          cases h

/-- A transaction in which the sender transfers `n` tokens of an enabled pair to the module
account, with both parameters on. -/
structure TransfersToModule (k : Keeper W) (s : State W) (msg : Message) (res : EvmResult W)
    (p : TokenPair) (n : ℕ) : Prop where
  enableIntrarelayer : s.params.enableIntrarelayer = true
  enableEVMHook : s.params.enableEVMHook = true
  registered : pairOfContract s.registry p.getERC20Contract = some p
  enabled : p.enabled = true
  applied : k.evm.applyMessage s.evm s.accounts msg = .ok res
  executed : res.failed = false
  receipt : ∃ log ∈ res.logs, log.address = p.getERC20Contract ∧ ∃ ev, transferOf log = some ev ∧
    ev.sender = msg.sender ∧ ev.recipient = k.moduleAddress ∧ ev.tokens = n

/-- The sender was credited exactly `n` coins of the pair. -/
def Credited (s t : State W) (p : TokenPair) (a : AccAddress) (n : ℕ) : Prop :=
  (t.bank.ledger p.denom).bal a = (s.bank.ledger p.denom).bal a + n

/-- **Tokens sent to the module account are lost.** Whatever the pair, the sender and the amount,
the transaction succeeds, its transfer is written, and the bank is as it was. -/
theorem never_credited (routes : Router W) {msg : Message} {res : EvmResult W} {p : TokenPair}
    {n : ℕ} (hn : 0 < n) (htx : TransfersToModule k s msg res p n) :
    ∃ t, (newEvmos k routes).evmKeeper.applyTransaction msg s = .ok "" t ∧
      t.evm = res.world ∧ t.bank = s.bank ∧ ¬ Credited s t p msg.sender.bytes n := by
  have hok : res.vmError = "" := by
    have hexec := htx.executed
    simpa [EvmResult.failed] using hexec
  have hrun : (newEvmos k routes).evmKeeper.applyTransaction msg s = .ok "" _ :=
    hok ▸ applyTransaction_newEvmos htx.applied
  refine ⟨_, hrun, rfl, rfl, fun hcredited => ?_⟩
  exact absurd hcredited (Nat.ne_of_lt (Nat.lt_add_of_pos_right hn))

/-! ### A transfer to the module account -/

/-- Alice sends 5 of her `acoin` tokens to the module account. -/
def sentToModuleAccount : Message :=
  ⟨alice, some tokenE, 0, .call .transfer [.address moduleAccount, .uint256 5]⟩

private theorem exists_transfersToModule : ∃ res,
    TransfersToModule plainKeeper (deployed plainEvm referenceWorld) sentToModuleAccount res
      pairE 5 := by
  -- the receipt is computed once; everything below is read off it
  have hreceipt : (match plainKeeper.evm.applyMessage (deployed plainEvm referenceWorld).evm
      (deployed plainEvm referenceWorld).accounts sentToModuleAccount with
    | .ok res => some (res.failed, res.logs)
    | .error _ => none) = some (false, [transferLog tokenE alice moduleAccount 5]) := by
    decide +kernel
  cases happ : plainKeeper.evm.applyMessage (deployed plainEvm referenceWorld).evm
      (deployed plainEvm referenceWorld).accounts sentToModuleAccount with
  | error e =>
    rw [happ] at hreceipt
    cases hreceipt
  | ok res =>
    rw [happ] at hreceipt
    simp only [Option.some.injEq, Prod.mk.injEq] at hreceipt
    -- the one log is a transfer of five tokens to the module
    have hevent : (transferOf (transferLog tokenE alice moduleAccount 5)).map parts =
        some (alice, moduleAccount, 5) := transferOf_transferLog (by decide)
    obtain ⟨ev, htr, hvals⟩ := Option.map_eq_some_iff.mp hevent
    simp only [parts, Prod.mk.injEq] at hvals
    exact ⟨res, by decide, by decide, by decide +kernel, rfl, happ, hreceipt.1,
      _, hreceipt.2 ▸ List.mem_singleton_self _, by decide, ev, htr, hvals⟩

/-- **The tokens are gone and no coins came.** -/
theorem not_credited_sentToModuleAccount :
    ∃ t, (newEvmos plainKeeper fun _ => none).evmKeeper.applyTransaction sentToModuleAccount
        (deployed plainEvm referenceWorld) = .ok "" t ∧
      (tokenAt tokenE t.evm).ledger.bal alice = 35 ∧
      (tokenAt tokenE t.evm).ledger.bal moduleAccount = 5 ∧
      ¬ Credited (deployed plainEvm referenceWorld) t pairE alice.bytes 5 := by
  have hrun : (match (newEvmos plainKeeper fun _ => none).evmKeeper.applyTransaction
      sentToModuleAccount (deployed plainEvm referenceWorld) with
    | .ok vmError t => some (vmError, (tokenAt tokenE t.evm).ledger.bal alice,
        (tokenAt tokenE t.evm).ledger.bal moduleAccount,
        (t.bank.ledger pairE.denom).bal alice.bytes)
    | .error _ _ => none) = some ("", 35, 5, 60) := by decide +kernel
  have hbefore : ((deployed plainEvm referenceWorld).bank.ledger pairE.denom).bal alice.bytes =
      60 := by decide
  cases hok : (newEvmos plainKeeper fun _ => none).evmKeeper.applyTransaction
      sentToModuleAccount (deployed plainEvm referenceWorld) with
  | error e t =>
    rw [hok] at hrun
    cases hrun
  | ok vmError t =>
    rw [hok] at hrun
    simp only [Option.some.injEq, Prod.mk.injEq] at hrun
    obtain ⟨rfl, htoken, hmodule, hcoin⟩ := hrun
    refine ⟨t, rfl, htoken, hmodule, fun hcredited => ?_⟩
    rw [Credited, hcoin, hbefore] at hcredited
    exact absurd hcredited (by decide)

theorem never_credited_sentToModuleAccount :
    ∃ t, (newEvmos plainKeeper fun _ => none).evmKeeper.applyTransaction sentToModuleAccount
        (deployed plainEvm referenceWorld) = .ok "" t ∧
      ¬ Credited (deployed plainEvm referenceWorld) t pairE alice.bytes 5 := by
  obtain ⟨res, htx⟩ := exists_transfersToModule
  obtain ⟨t, hrun, -, -, hnot⟩ := never_credited (fun _ => none) (by decide) htx
  exact ⟨t, hrun, hnot⟩

end GenesisEthermint.App
