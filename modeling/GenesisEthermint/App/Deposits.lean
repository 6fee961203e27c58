import GenesisEthermint.Chain.Bank
import GenesisEthermint.Chain.Gov
import GenesisEthermint.Cmd.Coins
import GenesisEthermint.Staking.Store

/-!
# Deposits

Governance next to the bank. A deposit is paid into governance's own account and recorded under its
proposal and its depositor. When the proposal is over, every deposit on it is burned or sent back,
and the end of the block has no way to report that the bank refuses: it panics.

Nothing of this touches the proposals, the registry or the parameters. What an end of a block can
stop at is a deposit that was recorded when it began.
-/

namespace GenesisEthermint.App

open GenesisEthermint.Foundation GenesisEthermint.Types GenesisEthermint.Chain

variable {W : Type}

/-! ## §1 Governance and the bank -/

/-- The execution of a passed proposal: when, and in which state its handler began. -/
structure Execution (W : Type) where
  proposalID : ℕ
  content : Content
  blockTime : Time
  state : State W

/-- `govtypes.Deposit`. -/
structure Deposit where
  proposalId : ℕ
  depositor : String
  amount : List Coin

/-- The deposits, by proposal and by the address of the depositor with its length in front. -/
abbrev Deposits := KVStore ℕ (KVStore (List UInt8) Deposit)

/-- Governance and the module, with the executions so far, the last one first. -/
structure Node (W : Type) where
  gov : GovState
  deposits : Deposits
  state : State W
  executed : List (Execution W)

namespace Node

/-- The module's state has changed. Its parameters are those the hook of governance reads. -/
def withState (n : Node W) (t : State W) : Node W :=
  { n with
    state := t
    gov := { n.gov with params := { n.gov.params with intrarelayer := t.params } } }

/-- The deposits on a proposal, in the order of their keys. -/
def depositsOn (n : Node W) (proposalID : ℕ) : KVStore (List UInt8) Deposit :=
  (n.deposits.lookup proposalID).getD ∅

/-- The deposits on a proposal are others. -/
def withDepositsOn (n : Node W) (proposalID : ℕ) (m : KVStore (List UInt8) Deposit) : Node W :=
  { n with deposits := n.deposits.set proposalID m }

/-- `GetDeposits`. -/
def getDeposits (n : Node W) (proposalID : ℕ) : List Deposit :=
  (n.depositsOn proposalID).entries.map Prod.snd

end Node

/-- Run on the part of governance. -/
def onGov {α : Type} (x : Exec GoError GovState α) : Exec GoError (Node W) α := fun n =>
  match x n.gov with
  | .ok a g => .ok a { n with gov := g }
  | .error e g => .error e { n with gov := g }

/-- Run on the part of the module. -/
def onState {α : Type} (x : Exec GoError (State W) α) : Exec GoError (Node W) α := fun n =>
  match x n.state with
  | .ok a t => .ok a (n.withState t)
  | .error e t => .error e (n.withState t)

variable (k : Keeper W)

/-- `AccAddressFromBech32` where an error panics. -/
def mustDepositor (deposit : Deposit) : Exec GoError (Node W) AccAddress :=
  Exec.orPanic GoError.error (Exec.ofExcept (k.accAddressFromBech32 deposit.depositor))

/-- `SetDeposit`. -/
def setDeposit (deposit : Deposit) : Exec GoError (Node W) Unit := do
  let depositor ← mustDepositor k deposit
  let key ← Exec.ofRead (Staking.mustLengthPrefix depositor)
  modify fun n => n.withDepositsOn deposit.proposalId
    ((n.depositsOn deposit.proposalId).set key deposit)

/-- `store.Delete(types.DepositKey(proposalID, depositor))`. -/
def removeDeposit (proposalID : ℕ) (depositor : AccAddress) : Exec GoError (Node W) Unit := do
  let key ← Exec.ofRead (Staking.mustLengthPrefix depositor)
  modify fun n => n.withDepositsOn proposalID ((n.depositsOn proposalID).delete key)

/-- The deposit of `AddDeposit`: the transfer to governance, and the record of it. -/
def takeDeposit (proposalID : ℕ) (depositorAddr : AccAddress) (depositAmount : List Coin) :
    Exec GoError (Node W) Unit := do
  onState (sendCoinsFromAccountToModule k depositorAddr "gov" depositAmount)
  let key ← Exec.ofRead (Staking.mustLengthPrefix depositorAddr)
  let n ← get
  match (n.depositsOn proposalID).lookup key with
  | some deposit => do
    let amount ← Exec.ofRead (Cmd.safeAdd deposit.amount depositAmount)
    setDeposit k { deposit with amount := amount }
  | none => setDeposit k ⟨proposalID, k.accAddressString depositorAddr, depositAmount⟩

/-- One round of `DeleteDeposits`: the deposit is burned. -/
def deleteDeposit (proposalID : ℕ) (deposit : Deposit) : Exec GoError (Node W) Unit := do
  Exec.orPanic GoError.error (onState (burnCoins k "gov" deposit.amount))
  let depositor ← mustDepositor k deposit
  removeDeposit proposalID depositor

/-- One round of `RefundDeposits`: the deposit goes back. -/
def refundDeposit (proposalID : ℕ) (deposit : Deposit) : Exec GoError (Node W) Unit := do
  let depositor ← mustDepositor k deposit
  Exec.orPanic GoError.error
    (onState (sendCoinsFromModuleToAccount k "gov" depositor deposit.amount))
  removeDeposit proposalID depositor

/-- The loop over the deposits on a proposal. -/
def iterateDeposits (proposalID : ℕ) (round : Deposit → Exec GoError (Node W) Unit) :
    Exec GoError (Node W) Unit := do
  let n ← get
  forM (n.getDeposits proposalID) round

/-- `DeleteDeposits`. -/
def deleteDeposits (proposalID : ℕ) : Exec GoError (Node W) Unit :=
  iterateDeposits proposalID (deleteDeposit k proposalID)

/-- `RefundDeposits`. -/
def refundDeposits (proposalID : ℕ) : Exec GoError (Node W) Unit :=
  iterateDeposits proposalID (refundDeposit k proposalID)

/-- What becomes of the deposits on a proposal that is over. -/
def settleDeposits (burnDeposits : Bool) (proposalID : ℕ) : Exec GoError (Node W) Unit :=
  if burnDeposits then deleteDeposits k proposalID else refundDeposits k proposalID

/-! ## §2 What deposits leave alone -/

/-- Nothing happened but in the bank and to the deposits. -/
structure BankOnly (n n' : Node W) : Prop where
  gov : n.gov.params.intrarelayer = n.state.params → n'.gov = n.gov
  config : n'.state.config = n.state.config
  executed : n'.executed = n.executed

/-- Every deposit that is recorded was recorded before. -/
def FewerDeposits (n n' : Node W) : Prop :=
  ∀ {id d}, d ∈ n'.getDeposits id → d ∈ n.getDeposits id

/-- Nothing happened but in the bank, and deposits have gone. -/
structure Settling (n n' : Node W) : Prop extends BankOnly n n' where
  fewer : FewerDeposits n n'

section Frame

variable {k} {n n' : Node W}

theorem BankOnly.params (h : BankOnly n n') : n'.state.params = n.state.params :=
  congrArg Config.params h.config

theorem BankOnly.trans {n₁ n₂ : Node W} (h : BankOnly n n₁) (h' : BankOnly n₁ n₂) :
    BankOnly n n₂ where
  gov hp := by
    have hgov := h.gov hp
    rw [h'.gov, hgov]
    rw [hgov, h.params, hp]
  config := h'.config.trans h.config
  executed := h'.executed.trans h.executed

instance : Std.Refl (BankOnly (W := W)) := ⟨fun _ => ⟨fun _ => rfl, rfl, rfl⟩⟩

instance : IsTrans (Node W) BankOnly := ⟨fun _ _ _ h h' => h.trans h'⟩

instance : Std.Refl (Settling (W := W)) :=
  ⟨fun n => ⟨Std.Refl.refl n, fun h => h⟩⟩

instance : IsTrans (Node W) Settling :=
  ⟨fun _ _ _ h h' => ⟨h.toBankOnly.trans h'.toBankOnly, fun hd => h.fewer (h'.fewer hd)⟩⟩

/-- A computation of the bank touches neither governance nor the deposits. -/
theorem settling_onState {α : Type} {x : Exec GoError (State W) α}
    (hx : Exec.Relates (Exec.SameOn State.config) x) :
    Exec.Relates Settling (onState x) := by
  have hkept : ∀ {n : Node W} {t : State W}, t.config = n.state.config →
      Settling n (n.withState t) := by
    intro n t hconfig
    have hparams : t.params = n.state.params := congrArg Config.params hconfig
    refine ⟨⟨fun hp => ?_, hconfig, rfl⟩, fun hd => hd⟩
    rw [Node.withState, hparams, ← hp]
  intro n
  unfold onState
  cases hrun : x n.state with
  | ok a t => exact hkept (hx.of_ok hrun)
  | error e t => exact hkept (hx.of_error hrun)

theorem settling_mustDepositor (d : Deposit) : Exec.Relates Settling (mustDepositor k d) :=
  Exec.relates_orPanic (Exec.relates_ofExcept _)

theorem settling_removeDeposit (proposalID : ℕ) (depositor : AccAddress) :
    Exec.Relates (Settling (W := W)) (removeDeposit proposalID depositor) := by
  refine Exec.relates_bind (Exec.relates_ofRead _) fun key => Exec.relates_modify fun n => ?_
  refine ⟨⟨fun _ => rfl, rfl, rfl⟩, fun {id d} hd => ?_⟩
  obtain ⟨⟨a, b⟩, hmem, rfl⟩ := List.mem_map.mp hd
  refine List.mem_map.mpr ⟨(a, b), ?_, rfl⟩
  rw [KVStore.mem_entries_iff] at hmem ⊢
  rw [Node.depositsOn, Node.withDepositsOn, KVStore.lookup_set] at hmem
  split at hmem
  · -- the proposal that lost a deposit
    rename_i heq
    rw [Option.getD_some, KVStore.lookup_delete] at hmem
    split at hmem
    · cases hmem
    · rw [heq]
      exact hmem
  · exact hmem

/-- **A round of the settlement** keeps what is none of the bank's business. -/
theorem settling_deleteDeposit (proposalID : ℕ) (d : Deposit) :
    Exec.Relates Settling (deleteDeposit k proposalID d) := by
  refine Exec.relates_bind ?_ fun _ => ?_
  · exact Exec.relates_orPanic (settling_onState (relates_burnCoins bankBlind_config k _ _))
  · exact Exec.relates_bind (settling_mustDepositor d) fun _ => settling_removeDeposit _ _

theorem settling_refundDeposit (proposalID : ℕ) (d : Deposit) :
    Exec.Relates Settling (refundDeposit k proposalID d) := by
  refine Exec.relates_bind (settling_mustDepositor d) fun _ => Exec.relates_bind ?_ fun _ => ?_
  · exact Exec.relates_orPanic
      (settling_onState (relates_sendCoinsFromModuleToAccount bankBlind_config k _ _ _))
  · exact settling_removeDeposit _ _

theorem bankOnly_setDeposit (d : Deposit) : Exec.Relates BankOnly (setDeposit k d) := by
  refine Exec.relates_bind (Exec.relates_orPanic (Exec.relates_ofExcept _)) fun _ => ?_
  refine Exec.relates_bind (Exec.relates_ofRead _) fun _ => ?_
  exact Exec.relates_modify fun n => ⟨fun _ => rfl, rfl, rfl⟩

theorem bankOnly_takeDeposit (proposalID : ℕ) (depositorAddr : AccAddress) (amount : List Coin) :
    Exec.Relates BankOnly (takeDeposit k proposalID depositorAddr amount) := by
  have hpaid : Exec.Relates BankOnly
      (onState (sendCoinsFromAccountToModule k depositorAddr "gov" amount)) := fun n =>
    (settling_onState (relates_sendCoinsFromAccountToModule bankBlind_config k _ _ _) n).toBankOnly
  refine Exec.relates_bind hpaid fun _ => Exec.relates_bind (Exec.relates_ofRead _) fun key => ?_
  refine Exec.relates_bind Exec.relates_get fun n => ?_
  split
  · exact Exec.relates_bind (Exec.relates_ofRead _) fun _ => bankOnly_setDeposit _
  · exact bankOnly_setDeposit _

end Frame

/-! ## §3 What a settlement stops at -/

/-- A deposit recorded at `n` is one the settlement has stopped at: the bank does not burn it or
send it back, or the depositor's address does not read. -/
inductive StopsAt (n : Node W) (e : Failure GoError) (n' : Node W) : Prop where
  | burning {id : ℕ} {d : Deposit} {n₁ : Node W} (recorded : d ∈ n.getDeposits id)
      (stopped : deleteDeposit k id d n₁ = .error e n')
  | refunding {id : ℕ} {d : Deposit} {n₁ : Node W} (recorded : d ∈ n.getDeposits id)
      (stopped : refundDeposit k id d n₁ = .error e n')

section Settlement

variable {k} {n n' : Node W} {e : Failure GoError}

/-- What stops a settlement was recorded earlier too. -/
theorem StopsAt.of_fewer {n₀ : Node W} (h : FewerDeposits n₀ n) (hstop : StopsAt k n e n') :
    StopsAt k n₀ e n' := by
  cases hstop with
  | burning recorded stopped => exact .burning (h recorded) stopped
  | refunding recorded stopped => exact .refunding (h recorded) stopped

/-- The loop over the deposits completes, or it stops as one of its rounds does. -/
theorem iterateDeposits_cases {id : ℕ} {round : Deposit → Exec GoError (Node W) Unit}
    (hsettling : ∀ d, Exec.Relates Settling (round d))
    (hstops : ∀ {d n₁ e n'}, d ∈ n.getDeposits id → round d n₁ = .error e n' →
      StopsAt k n e n') :
    (∃ n', iterateDeposits id round n = .ok ⟨⟩ n' ∧ Settling n n') ∨
      ∃ e n', iterateDeposits id round n = .error e n' ∧ StopsAt k n e n' := by
  rw [iterateDeposits, Exec.get_bind]
  cases hrun : forM (n.getDeposits id) round n with
  | ok u n' => exact .inl ⟨n', rfl, (Exec.relates_forM _ fun d _ => hsettling d).of_ok hrun⟩
  | error e n' =>
    obtain ⟨d, hd, n₁, hstop⟩ := Exec.forM_error hrun
    exact .inr ⟨e, n', rfl, hstops hd hstop⟩

/-- **The settlement of a proposal** goes through its deposits, or stops at one of them. -/
theorem settled_or_stopsAt (burnDeposits : Bool) (id : ℕ) (n : Node W) :
    (∃ n', settleDeposits k burnDeposits id n = .ok ⟨⟩ n' ∧ Settling n n') ∨
      ∃ e n', settleDeposits k burnDeposits id n = .error e n' ∧ StopsAt k n e n' := by
  cases burnDeposits with
  | true =>
    exact iterateDeposits_cases (settling_deleteDeposit id) fun hd hstop => .burning hd hstop
  | false =>
    exact iterateDeposits_cases (settling_refundDeposit id) fun hd hstop => .refunding hd hstop

end Settlement

end GenesisEthermint.App
