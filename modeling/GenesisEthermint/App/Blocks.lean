import GenesisEthermint.App.Deposits
import GenesisEthermint.App.Wiring
import GenesisEthermint.Governance.Execution
import GenesisEthermint.Governance.Window
import GenesisEthermint.Registry.Genesis

/-!
# The Application over Blocks

Governance and the module together. A proposal is executed once on a branch of the state when it
is submitted, to see whether it goes through, and once more at the end of the block in which its
vote ends, where a panic stops the chain. In between, messages, transactions and the other modules
change everything but the registry.

The keeper the handler was made of decides what can be submitted at all: a handler that never
succeeds lets no proposal of its kind into a vote.
-/

namespace GenesisEthermint.App

open GenesisEthermint.Foundation GenesisEthermint.Types
open GenesisEthermint.Chain hiding moved submitProposal
open GenesisEthermint.Intrarelayer GenesisEthermint.Governance

variable {W : Type}

/-! ## §1 The chain -/

def ErrNoProposalHandlerExists : GoError :=
  .registered "gov" 9 "no handler exists for proposal type"
def ErrPanic : GoError := .registered "undefined" 111222 "panic"

/-- `content.ValidateBasic`; `foreign` is what the contents of other modules say, by route and
type. -/
def contentValidateBasic (foreign : String → String → Except GoError Unit) :
    Content → Except GoError Unit
  | .registerCoin p => p.validateBasic
  | .registerERC20 p => p.validateBasic
  | .toggleTokenRelay p => p.validateBasic
  | .updateTokenPairERC20 p => p.validateBasic
  | .other route type => foreign route type

variable (app : Evmos W) (k : Keeper W)

/-- What a transaction hears of a panic. -/
def recovered (m : String) : GoError := .wrap ErrPanic ("recovered: " ++ m)

/-- What `SubmitProposal` finds out about a content: it executes it on a branch of the state that
it throws away. A panic ends the transaction. -/
def dryRun (content : Content) (s : State W) : Except GoError Unit :=
  match app.govRouter content.proposalRoute with
  | none => .error (.wrap ErrNoProposalHandlerExists content.proposalRoute)
  | some handler =>
    match handler content s with
    | .ok _ _ => .ok ()
    | .error (.error e) _ => .error (.wrap ErrInvalidProposalContent e.error)
    | .error (.panic m) _ => .error (recovered m)

/-- What the bank says to the payment of a deposit. -/
def payment (depositor : AccAddress) (amount : List Coin) (s : State W) : Except GoError Unit :=
  match sendCoinsFromAccountToModule k depositor "gov" amount s with
  | .ok _ _ => .ok ()
  | .error (.error e) _ => .error e
  | .error (.panic m) _ => .error (recovered m)

/-- `MsgSubmitProposal`, from the validation of its content on. -/
def submitProposal (foreign : String → String → Except GoError Unit) (content : Content)
    (initialDeposit : List Coin) (proposer : AccAddress) : Exec GoError (Node W) Unit := do
  let n ← get
  Exec.ofExcept (contentValidateBasic foreign content)
  onGov (msgSubmitProposal afterProposalDeposit content (dryRun app content n.state)
    initialDeposit (payment k proposer initialDeposit n.state))
  takeDeposit k n.gov.proposalID proposer initialDeposit

/-- `MsgDeposit`. -/
def deposit (proposalID : ℕ) (depositor : AccAddress) (amount : List Coin) :
    Exec GoError (Node W) Unit := do
  let n ← get
  onGov (addDeposit afterProposalDeposit proposalID amount (payment k depositor amount n.state))
  takeDeposit k proposalID depositor amount

/-- The content of a passed proposal, executed on a branch of the state that is written where its
handler succeeds. -/
def execute (p : Proposal) : Exec GoError (Node W) ProposalStatus := fun n =>
  match app.executeContent p.content n.state with
  | .ok _ t => .ok .StatusPassed { n.withState t with
      executed := ⟨p.proposalId, p.content, n.gov.blockTime, n.state⟩ :: n.executed }
  | .error (.error _) _ => .ok .StatusFailed n
  | .error (.panic m) _ => .error (.panic m) n

/-- What the tally of a proposal says: whether it passes, and whether its deposits are burned. -/
structure TallyDecision where
  passes : Bool
  burnDeposits : Bool

/-- What a proposal comes to. -/
def outcome (passes : Bool) (p : Proposal) : Exec GoError (Node W) ProposalStatus :=
  if passes then execute app p else pure .StatusRejected

/-- One round over the inactive queue. -/
def dropInactive (proposalID : ℕ) : Exec GoError (Node W) Unit := do
  let p ← onGov (dueProposal proposalID)
  onGov (deleteProposal p.proposalId)
  settleDeposits k true p.proposalId

/-- One round over the active queue; `tally` is the count of the votes. -/
def tallyRound (tally : Proposal → TallyDecision) (proposalID : ℕ) :
    Exec GoError (Node W) Unit := do
  let p ← onGov (dueProposal proposalID)
  settleDeposits k (tally p).burnDeposits p.proposalId
  let status ← outcome app (tally p).passes p
  modify fun n => { n with gov := (n.gov.setProposal { p with status := status })
    |>.removeFromActiveProposalQueue p.proposalId p.votingEndTime }

/-- `EndBlocker`. -/
def endBlock (tally : Proposal → TallyDecision) : Exec GoError (Node W) Unit := do
  let n ← get
  forM (n.gov.inactiveQueue.due n.gov.blockTime) (dropInactive k)
  let n ← get
  forM (n.gov.activeQueue.due n.gov.blockTime) (tallyRound app k tally)

/-- What can happen on the chain. -/
inductive NodeOp (W : Type) where
  /-- A message or a transaction of a user. -/
  | deliver (op : Op) (user : op.IsUserOp)
  /-- What other modules do: fees and rewards among it. -/
  | elsewhere (bank : BankState) (accounts : Accounts) (evm : W)
  | submitProposal (content : Content) (initialDeposit : List Coin) (proposer : AccAddress)
  | deposit (proposalID : ℕ) (depositor : AccAddress) (amount : List Coin)
  | setGovParams (params : GovParams)
  | beginBlock (blockTime : Time)
  | endBlock (tally : Proposal → TallyDecision)

/-- What the operation runs. -/
def NodeOp.exec (foreign : String → String → Except GoError Unit) :
    NodeOp W → Exec GoError (Node W) Unit
  | .deliver op _ => onState (op.exec k)
  | .elsewhere bank accounts evm =>
    modify fun n => n.withState { n.state with bank := bank, accounts := accounts, evm := evm }
  | .submitProposal content initialDeposit proposer =>
    App.submitProposal app k foreign content initialDeposit proposer
  | .deposit proposalID depositor amount => App.deposit k proposalID depositor amount
  | .setGovParams params => modify fun n =>
    { n with gov := { n.gov with params := { params with intrarelayer := n.state.params } } }
  | .beginBlock blockTime => modify fun n => { n with gov := { n.gov with blockTime := blockTime } }
  | .endBlock tally => App.endBlock app k tally

/-- Deliver one operation. -/
def nodeStep (foreign : String → String → Except GoError Unit) (n : Node W) (op : NodeOp W) :
    Node W :=
  Exec.deliver (op.exec app k foreign) n

/-! ## §2 What the messages of governance keep -/

section Messages

variable {s t : GovState} {new : Content → Prop}

/-- A message keeps the queues right and the closed proposals as they are, and the contents it
leaves were there or are new. -/
structure Carries (new : Content → Prop) (s t : GovState) : Prop where
  queues : QueuesConsistent t
  params : t.params = s.params
  closed : ∀ {j p}, s.getProposal j = some p → ¬ IsOpen p → t.getProposal j = some p
  content : ∀ {j q}, t.getProposal j = some q →
    (∃ p, s.getProposal j = some p ∧ q.content = p.content) ∨ new q.content

theorem content_depositedProposal {p : Proposal} {amount : List Coin} :
    (moved s (depositedProposal s p amount)).content = p.content := by
  have hdeposited : (depositedProposal s p amount).content = p.content := by
    unfold depositedProposal
    split
    · rfl
    · rfl
  unfold moved
  split
  · exact hdeposited
  · exact hdeposited

theorem params_afterProposalDeposit {id : ℕ} : (afterProposalDeposit id s).params = s.params := by
  rcases afterProposalDeposit_cases id s with ⟨heq, -⟩ | ⟨q, -, -, -, heq⟩
  · rw [heq]
  · rw [heq]
    rfl

/-- A deposit with its hook touches one open proposal. -/
theorem carries_deposited {id : ℕ} {p : Proposal} {amount : List Coin} (h : QueuesConsistent s)
    (hp : s.getProposal id = some p) (ho : IsOpen p) :
    Carries new s (afterProposalDeposit id (deposited s p amount)) where
  queues := consistent_afterProposalDeposit (HookCalled.consistent (.deposit amount hp) h)
  params := by rw [params_afterProposalDeposit, params_deposited]
  closed {j q} hq hclosed := by
    rw [getProposal_addDeposit h hp, if_neg]
    · exact hq
    · rintro rfl
      exact hclosed (Option.some.inj (hp.symm.trans hq) ▸ ho)
  content {j q} hq := by
    rw [getProposal_addDeposit h hp] at hq
    split at hq
    · rename_i hj
      subst hj
      obtain rfl := Option.some.inj hq
      exact .inl ⟨p, hp, content_depositedProposal⟩
    · exact .inl ⟨q, hq, rfl⟩

/-- A proposal was submitted only where the dry run of its content went well. -/
theorem submitProposal_dryRun {content : Content} {dry : Except GoError Unit} {id : ℕ}
    (h : Chain.submitProposal content dry s = .ok id t) : dry = .ok () := by
  simp only [Chain.submitProposal, Exec.get_bind] at h
  obtain ⟨u, v, hdry, -⟩ := Exec.bind_ok_iff.mp h
  exact (Exec.ofExcept_ok_iff.mp hdry).1

theorem carries_msgSubmitProposal {content : Content} {dry payment : Except GoError Unit}
    {amount : List Coin} {u : Unit} (h : QueuesConsistent s)
    (hok : msgSubmitProposal afterProposalDeposit content dry amount payment s = .ok u t)
    (hnew : dry = .ok () → new content) : Carries new s t := by
  obtain ⟨id, v, hsub, hdep⟩ := Exec.bind_ok_iff.mp hok
  have hdry := submitProposal_dryRun hsub
  obtain ⟨rfl, rfl⟩ := submitProposal_ok hsub
  obtain ⟨p, hp, ho, -, rfl⟩ := addDeposit_ok hdep
  have hsubmitted := @consistent_submitted _ content h
  have hcarries := @carries_deposited _ new _ _ amount hsubmitted hp ho
  refine ⟨hcarries.queues, hcarries.params,
    fun {j q} hq hclosed => hcarries.closed ?_ hclosed, fun {j q} hq => ?_⟩
  · -- an ID that is taken is not the new one
    rw [getProposal_submitted, if_neg]
    · exact hq
    · exact Nat.ne_of_lt (h.fresh hq)
  · rcases hcarries.content hq with ⟨p', hp', heq⟩ | hq
    · rw [getProposal_submitted] at hp'
      split at hp'
      · obtain rfl := Option.some.inj hp'
        exact .inr (heq ▸ hnew hdry)
      · exact .inl ⟨p', hp', heq⟩
    · exact .inr hq

theorem carries_addDeposit {id : ℕ} {amount : List Coin} {payment : Except GoError Unit}
    {u : Unit} (h : QueuesConsistent s)
    (hok : addDeposit afterProposalDeposit id amount payment s = .ok u t) : Carries new s t := by
  obtain ⟨p, hp, ho, -, rfl⟩ := addDeposit_ok hok
  exact carries_deposited h hp ho

end Messages

/-! ## §3 The invariant -/

section Invariant

variable {app} {k} {foreign : String → String → Except GoError Unit} {r₀ : Registry} {n : Node W}

/-- A content whose handler has succeeded once never panics. -/
def Reliable (app : Evmos W) : Prop :=
  ∀ c s t, app.executeContent c s = .ok () t →
    ∀ s' m t', app.executeContent c s' ≠ .error (.panic m) t'

/-- A content that could be submitted: it validates, and its handler has succeeded once. -/
def Submittable (app : Evmos W) (foreign : String → String → Except GoError Unit)
    (c : Content) : Prop :=
  contentValidateBasic foreign c = .ok () ∧ ∃ s t, app.executeContent c s = .ok () t

/-- The registry is what the executions made of the first one, each beginning with what the one
before it left. -/
def Chained (app : Evmos W) (r₀ : Registry) : List (Execution W) → Registry → Prop
  | [], r => r = r₀
  | e :: es, r => (∃ t, app.executeContent e.content e.state = .ok () t ∧ t.registry = r) ∧
      Chained app r₀ es e.state.registry

/-- **What governance guarantees**: the registry is the work of passed proposals, each of them
executed once, when its vote was over. -/
structure Governed (app : Evmos W) (foreign : String → String → Except GoError Unit)
    (r₀ : Registry) (n : Node W) : Prop where
  queues : QueuesConsistent n.gov
  params : n.gov.params.intrarelayer = n.state.params
  submittable : ∀ {id p}, n.gov.getProposal id = some p → Submittable app foreign p.content
  once : (n.executed.map Execution.proposalID).Nodup
  passed : ∀ e ∈ n.executed, ∃ p, n.gov.getProposal e.proposalID = some p ∧
    p.status = .StatusPassed ∧ p.content = e.content ∧ p.votingEndTime ≤ e.blockTime
  chained : Chained app r₀ n.executed n.state.registry

/-- A passed proposal is not open. -/
theorem not_isOpen_of_passed {p : Proposal} (h : p.status = .StatusPassed) : ¬ IsOpen p := by
  rintro (ho | ho)
  · rw [h] at ho
    cases ho
  · rw [h] at ho
    cases ho

/-- The dry run succeeds where the handler does. -/
theorem dryRun_ok_iff {c : Content} {s : State W} :
    dryRun app c s = .ok () ↔ ∃ t, app.executeContent c s = .ok () t := by
  unfold dryRun Evmos.executeContent
  cases app.govRouter c.proposalRoute with
  | none => exact iff_of_false nofun (by rintro ⟨t, h⟩; cases h)
  | some handler =>
    dsimp only
    cases handler c s with
    | ok u t => exact iff_of_true rfl ⟨t, rfl⟩
    | error e t =>
      cases e with
      | error e => exact iff_of_false nofun (by rintro ⟨t, h⟩; cases h)
      | panic m => exact iff_of_false nofun (by rintro ⟨t, h⟩; cases h)

/-- The invariant survives a change of governance that carries the proposals on. -/
theorem Governed.carries {g : GovState} (h : Governed app foreign r₀ n)
    (hc : Carries (Submittable app foreign) n.gov g) :
    Governed app foreign r₀ { n with gov := g } where
  queues := hc.queues
  params := by
    rw [hc.params]
    exact h.params
  submittable hp := by
    rcases hc.content hp with ⟨q, hq, heq⟩ | hnew
    · rw [heq]
      exact h.submittable hq
    · exact hnew
  once := h.once
  passed e he := by
    obtain ⟨p, hp, hstatus, hrest⟩ := h.passed e he
    exact ⟨p, hc.closed hp (not_isOpen_of_passed hstatus), hstatus, hrest⟩
  chained := h.chained

/-- The invariant does not look at the bank and the deposits. -/
theorem Governed.bankOnly {n' : Node W} (h : Governed app foreign r₀ n) (hbank : BankOnly n n') :
    Governed app foreign r₀ n' := by
  have hgov : n'.gov = n.gov := hbank.gov h.params
  have hregistry : n'.state.registry = n.state.registry := congrArg Config.registry hbank.config
  refine ⟨?_, ?_, ?_, ?_, ?_, ?_⟩
  · rw [hgov]
    exact h.queues
  · rw [hgov, hbank.params]
    exact h.params
  · rw [hgov]
    exact h.submittable
  · rw [hbank.executed]
    exact h.once
  · rw [hgov, hbank.executed]
    exact h.passed
  · rw [hbank.executed, hregistry]
    exact h.chained

/-- A proposal that has not passed was not executed. -/
theorem Governed.ne_of_executed {id : ℕ} {p : Proposal} (h : Governed app foreign r₀ n)
    (hp : n.gov.getProposal id = some p) (hstatus : p.status ≠ .StatusPassed) :
    ∀ e ∈ n.executed, e.proposalID ≠ id := by
  rintro e he rfl
  obtain ⟨q, hq, hpassed, -⟩ := h.passed e he
  obtain rfl := Option.some.inj (hp.symm.trans hq)
  exact hstatus hpassed

/-- The proposal is collecting deposits. -/
def Collecting (id : ℕ) (n : Node W) : Prop :=
  ∃ p, n.gov.getProposal id = some p ∧ p.status = .StatusDepositPeriod

/-- The proposal's vote is over. -/
def VoteOver (id : ℕ) (n : Node W) : Prop :=
  ∃ p, n.gov.getProposal id = some p ∧ p.status = .StatusVotingPeriod ∧
    p.votingEndTime ≤ n.gov.blockTime

theorem onGov_of_ok {α : Type} {x : Exec GoError GovState α} {a : α} {g : GovState}
    (hx : x n.gov = .ok a g) : onGov x n = .ok a { n with gov := g } := by
  rw [onGov, hx]

/-- The proposal of a queue entry is found. -/
theorem onGov_dueProposal {id : ℕ} {p : Proposal} (hp : n.gov.getProposal id = some p) :
    onGov (dueProposal id) n = .ok p n :=
  onGov_of_ok (dueProposal_ok_iff.mpr ⟨hp, rfl⟩)

/-- A round over the inactive queue drops a proposal that is collecting deposits, unless it stops
at one of them. -/
theorem Governed.drop {id : ℕ} (h : Governed app foreign r₀ n) (hid : Collecting id n) :
    (∃ n', dropInactive k id n = .ok ⟨⟩ n' ∧
      (Governed app foreign r₀ n' ∧ FewerDeposits n n') ∧
      ∀ j, j ≠ id → Collecting j n → Collecting j n') ∨
    ∃ e n', dropInactive k id n = .error e n' ∧ StopsAt k n e n' := by
  obtain ⟨p, hp, hstatus⟩ := hid
  have hkey : p.proposalId = id := h.queues.stored hp
  have hother : ∀ j, j ≠ id → (dropped n.gov id p).getProposal j = n.gov.getProposal j := by
    intro j hj
    rw [getProposal_dropped, if_neg hj]
  have hgoverned : Governed app foreign r₀ { n with gov := dropped n.gov id p } := by
    refine ⟨consistent_dropped h.queues hp, h.params, fun {j q} hq => ?_, h.once, fun e he => ?_,
      h.chained⟩
    · by_cases hj : j = id
      · rw [getProposal_dropped, if_pos hj] at hq
        cases hq
      · exact h.submittable ((hother j hj).symm.trans hq)
    · obtain ⟨q, hq, hpassed, hrest⟩ := h.passed e he
      -- the dropped proposal has not passed
      have hne : p.status ≠ .StatusPassed := by simp [hstatus]
      exact ⟨q, (hother _ (h.ne_of_executed hp hne e he)).trans hq, hpassed, hrest⟩
  have hdelete : deleteProposal p.proposalId n.gov = .ok ⟨⟩ (dropped n.gov id p) := by
    have hrun := dropInactive_run h.queues hp
    rwa [Chain.dropInactive, Exec.bind_of_ok (dueProposal_ok_iff.mpr ⟨hp, rfl⟩)] at hrun
  -- the deposits are still recorded when the proposal is gone
  have hrecorded : FewerDeposits n { n with gov := dropped n.gov id p } := fun hd => hd
  rw [dropInactive, Exec.bind_of_ok (onGov_dueProposal hp), Exec.bind_of_ok (onGov_of_ok hdelete)]
  rcases settled_or_stopsAt (k := k) true p.proposalId { n with gov := dropped n.gov id p } with
    ⟨n', hrun, hsettling⟩ | ⟨e, n', hrun, hstop⟩
  · refine .inl ⟨n', hrun, ⟨hgoverned.bankOnly hsettling.toBankOnly, hsettling.fewer⟩, ?_⟩
    rintro j hj ⟨q, hq, hqstatus⟩
    refine ⟨q, ?_, hqstatus⟩
    rw [hsettling.gov hgoverned.params]
    exact (hother j hj).trans hq
  · exact .inr ⟨e, n', hrun, hstop.of_fewer hrecorded⟩

/-- The proposal after its vote. -/
def settled (n : Node W) (p : Proposal) (status : ProposalStatus) : Node W :=
  { n with gov := (n.gov.setProposal { p with status := status })
    |>.removeFromActiveProposalQueue p.proposalId p.votingEndTime }

/-- What an outcome leaves, before the proposal is settled. -/
inductive Outcome (app : Evmos W) (n : Node W) (p : Proposal) : ProposalStatus → Node W → Prop where
  | passed {t : State W} (hok : app.executeContent p.content n.state = .ok () t) :
    Outcome app n p .StatusPassed { n.withState t with
      executed := ⟨p.proposalId, p.content, n.gov.blockTime, n.state⟩ :: n.executed }
  | failed : Outcome app n p .StatusFailed n
  | rejected : Outcome app n p .StatusRejected n

/-- A proposal whose content never panics has an outcome. -/
theorem outcome_cases {passes : Bool} {p : Proposal}
    (hpanic : ∀ m t, app.executeContent p.content n.state ≠ .error (.panic m) t) :
    ∃ status n', outcome app passes p n = .ok status n' ∧ Outcome app n p status n' := by
  unfold outcome
  split
  · unfold execute
    cases hexec : app.executeContent p.content n.state with
    | ok u t => exact ⟨_, _, rfl, .passed hexec⟩
    | error e t =>
      cases e with
      | error e => exact ⟨_, _, rfl, .failed⟩
      | panic m => exact absurd hexec (hpanic m t)
  · exact ⟨_, _, rfl, .rejected⟩

/-- A settled proposal is a tallied one. -/
theorem Outcome.settled_gov {p : Proposal} {status : ProposalStatus} {n' : Node W}
    (h : Outcome app n p status n') :
    ∃ v : Verdict, v.status = status ∧
      (settled n' p status).gov = tallied n.gov (fun _ => v) p := by
  cases h with
  | passed hok => exact ⟨.passed _, rfl, rfl⟩
  | failed => exact ⟨.failed, rfl, rfl⟩
  | rejected => exact ⟨.rejected, rfl, rfl⟩

/-- The proposal has its status, and the others are as they were. -/
theorem Outcome.getProposal_settled {p : Proposal} {status : ProposalStatus} {n' : Node W}
    (h : Outcome app n p status n') (j : ℕ) : (settled n' p status).gov.getProposal j =
      if j = p.proposalId then some { p with status := status } else n.gov.getProposal j := by
  obtain ⟨v, hv, hgov⟩ := h.settled_gov
  rw [hgov, getProposal_tallied, hv]

/-- The invariant survives the outcome of a vote that is over. -/
theorem Governed.settled {id : ℕ} {p : Proposal} {status : ProposalStatus} {n' : Node W}
    (h : Governed app foreign r₀ n) (hp : n.gov.getProposal id = some p)
    (hstatus : p.status = .StatusVotingPeriod) (hend : p.votingEndTime ≤ n.gov.blockTime)
    (hout : Outcome app n p status n') : Governed app foreign r₀ (App.settled n' p status) := by
  have hkey : p.proposalId = id := h.queues.stored hp
  have hget := hout.getProposal_settled
  -- what was executed before was another proposal
  have hother : ∀ e ∈ n.executed, e.proposalID ≠ p.proposalId := by
    rw [hkey]
    exact h.ne_of_executed hp (by simp [hstatus])
  have hkept : ∀ e ∈ n.executed, ∃ q,
      (App.settled n' p status).gov.getProposal e.proposalID = some q ∧
        q.status = .StatusPassed ∧ q.content = e.content ∧ q.votingEndTime ≤ e.blockTime := by
    intro e he
    obtain ⟨q, hq, hrest⟩ := h.passed e he
    exact ⟨q, by rw [hget, if_neg (hother e he), hq], hrest⟩
  refine ⟨?_, ?_, ?_, ?_, ?_, ?_⟩
  · obtain ⟨v, -, hgov⟩ := hout.settled_gov
    rw [hgov]
    exact consistent_tallied h.queues hp hstatus
  · cases hout with
    | passed hok => rfl
    | failed => exact h.params
    | rejected => exact h.params
  · intro j q hq
    rw [hget] at hq
    split at hq
    · obtain rfl := Option.some.inj hq
      exact (h.submittable hp : Submittable app foreign p.content)
    · exact h.submittable hq
  · cases hout with
    | passed hok =>
      refine List.nodup_cons.mpr ⟨fun hmem => ?_, h.once⟩
      obtain ⟨e, he, heq⟩ := List.mem_map.mp hmem
      exact hother e he heq
    | failed => exact h.once
    | rejected => exact h.once
  · cases hout with
    | passed hok =>
      intro e he
      rcases List.mem_cons.mp he with rfl | he
      · exact ⟨_, (hget _).trans (if_pos rfl), rfl, rfl, hend⟩
      · exact hkept e he
    | failed => exact hkept
    | rejected => exact hkept
  · cases hout with
    | passed hok => exact ⟨⟨_, hok, rfl⟩, h.chained⟩
    | failed => exact h.chained
    | rejected => exact h.chained

/-- A proposal whose vote is over is concluded. -/
theorem Governed.conclude {id : ℕ} {p : Proposal} (passes : Bool) (hreliable : Reliable app)
    (h : Governed app foreign r₀ n) (hp : n.gov.getProposal id = some p)
    (hstatus : p.status = .StatusVotingPeriod) (hend : p.votingEndTime ≤ n.gov.blockTime) :
    ∃ status n', outcome app passes p n = .ok status n' ∧
      (Governed app foreign r₀ (App.settled n' p status) ∧
        FewerDeposits n (App.settled n' p status)) ∧
      ∀ j, j ≠ id → VoteOver j n → VoteOver j (App.settled n' p status) := by
  obtain ⟨-, s, t, hok⟩ := h.submittable hp
  obtain ⟨status, n', hrun, hout⟩ := @outcome_cases _ _ _ passes _
    (fun m t' => hreliable _ _ _ hok n.state m t')
  have hfewer : FewerDeposits n (App.settled n' p status) := by
    cases hout with
    | passed hok => exact fun hd => hd
    | failed => exact fun hd => hd
    | rejected => exact fun hd => hd
  refine ⟨status, n', hrun, ⟨h.settled hp hstatus hend hout, hfewer⟩, ?_⟩
  rintro j hj ⟨q, hq, hqstatus, hqend⟩
  refine ⟨q, ?_, hqstatus, ?_⟩
  · rw [hout.getProposal_settled, h.queues.stored hp, if_neg hj]
    exact hq
  · have htime : (App.settled n' p status).gov.blockTime = n.gov.blockTime := by
      obtain ⟨v, -, hgov⟩ := hout.settled_gov
      rw [hgov]
      rfl
    rwa [htime]

/-- **A round over the active queue** settles a proposal whose vote is over, unless it stops at one
of its deposits. -/
theorem Governed.tallyRound {id : ℕ} (hreliable : Reliable app) (h : Governed app foreign r₀ n)
    (tally : Proposal → TallyDecision) (hid : VoteOver id n) :
    (∃ n', App.tallyRound app k tally id n = .ok ⟨⟩ n' ∧
      (Governed app foreign r₀ n' ∧ FewerDeposits n n') ∧
      ∀ j, j ≠ id → VoteOver j n → VoteOver j n') ∨
    ∃ e n', App.tallyRound app k tally id n = .error e n' ∧ StopsAt k n e n' := by
  obtain ⟨p, hp, hstatus, hend⟩ := hid
  rw [App.tallyRound, Exec.bind_of_ok (onGov_dueProposal hp)]
  rcases settled_or_stopsAt (k := k) (tally p).burnDeposits p.proposalId n with
    ⟨n₁, hsettle, hsettling⟩ | ⟨e, n', hsettle, hstop⟩
  · have hgov : n₁.gov = n.gov := hsettling.gov h.params
    obtain ⟨status, n', hout, ⟨hgoverned, hfewer⟩, hother⟩ :=
      (h.bankOnly hsettling.toBankOnly).conclude (tally p).passes hreliable
        (by rw [hgov]; exact hp) hstatus (by rw [hgov]; exact hend)
    refine .inl ⟨App.settled n' p status, ?_,
      ⟨hgoverned, fun hd => hsettling.fewer (hfewer hd)⟩, ?_⟩
    · rw [Exec.bind_of_ok hsettle, Exec.bind_of_ok hout]
      rfl
    · intro j hj hover
      apply hother j hj
      unfold VoteOver
      rw [hgov]
      exact hover
  · exact .inr ⟨e, n', Exec.bind_of_error hsettle, hstop⟩

/-- What is due in the inactive queue is collecting deposits. -/
theorem Governed.collecting_of_due {id : ℕ} (h : Governed app foreign r₀ n)
    (hid : id ∈ n.gov.inactiveQueue.due n.gov.blockTime) : Collecting id n := by
  obtain ⟨t, -, hf⟩ := h.queues.inactive.mem_due_iff.mp hid
  obtain ⟨p, hp, hd⟩ := Option.bind_eq_some_iff.mp hf
  unfold depositDeadline at hd
  split at hd
  · exact ⟨p, hp, ‹_›⟩
  · cases hd

/-- What is due in the active queue has been voted on. -/
theorem Governed.voteOver_of_due {id : ℕ} (h : Governed app foreign r₀ n)
    (hid : id ∈ n.gov.activeQueue.due n.gov.blockTime) : VoteOver id n := by
  obtain ⟨t, ht, hf⟩ := h.queues.active.mem_due_iff.mp hid
  obtain ⟨p, hp, hd⟩ := Option.bind_eq_some_iff.mp hf
  unfold votingDeadline at hd
  split at hd
  · cases hd
    exact ⟨p, hp, ‹_›, ht⟩
  · cases hd

/-- The first loop of the end of a block, over the queue as it was when the block ended. -/
theorem Governed.dropAll (h : Governed app foreign r₀ n) :
    (∃ n', forM (n.gov.inactiveQueue.due n.gov.blockTime) (dropInactive k) n = .ok ⟨⟩ n' ∧
      Governed app foreign r₀ n' ∧ FewerDeposits n n') ∨
    ∃ e n', forM (n.gov.inactiveQueue.due n.gov.blockTime) (dropInactive k) n = .error e n' ∧
      StopsAt k n e n' := by
  refine Exec.forM_distinct (I := fun n' => Governed app foreign r₀ n' ∧ FewerDeposits n n')
    (R := Collecting) (fun {id n'} hI hid => ?_) (h.queues.inactive.nodup_due n.gov.blockTime)
    ⟨h, fun hd => hd⟩ fun id hid => h.collecting_of_due hid
  obtain ⟨hgoverned, hfewer⟩ := hI
  rcases hgoverned.drop (k := k) hid with
    ⟨n'', hrun, ⟨hgoverned', hfewer'⟩, hother⟩ | ⟨e, n'', hrun, hstop⟩
  · exact .inl ⟨n'', hrun, ⟨hgoverned', fun hd => hfewer (hfewer' hd)⟩, hother⟩
  · exact .inr ⟨e, n'', hrun, hstop.of_fewer hfewer⟩

/-- The second loop, over the votes that have ended. -/
theorem Governed.tallyAll (hreliable : Reliable app) (h : Governed app foreign r₀ n)
    (tally : Proposal → TallyDecision) :
    (∃ n', forM (n.gov.activeQueue.due n.gov.blockTime) (App.tallyRound app k tally) n =
      .ok ⟨⟩ n' ∧ Governed app foreign r₀ n' ∧ FewerDeposits n n') ∨
    ∃ e n', forM (n.gov.activeQueue.due n.gov.blockTime) (App.tallyRound app k tally) n =
      .error e n' ∧ StopsAt k n e n' := by
  refine Exec.forM_distinct (I := fun n' => Governed app foreign r₀ n' ∧ FewerDeposits n n')
    (R := VoteOver) (fun {id n'} hI hid => ?_) (h.queues.active.nodup_due n.gov.blockTime)
    ⟨h, fun hd => hd⟩ fun id hid => h.voteOver_of_due hid
  obtain ⟨hgoverned, hfewer⟩ := hI
  rcases hgoverned.tallyRound (k := k) hreliable tally hid with
    ⟨n'', hrun, ⟨hgoverned', hfewer'⟩, hother⟩ | ⟨e, n'', hrun, hstop⟩
  · exact .inl ⟨n'', hrun, ⟨hgoverned', fun hd => hfewer (hfewer' hd)⟩, hother⟩
  · exact .inr ⟨e, n'', hrun, hstop.of_fewer hfewer⟩

/-- **The end of a block completes**, whatever the tallies come to, or it stops at a deposit that
was recorded when it began. -/
theorem Governed.endBlock (hreliable : Reliable app) (h : Governed app foreign r₀ n)
    (tally : Proposal → TallyDecision) :
    (∃ n', App.endBlock app k tally n = .ok ⟨⟩ n' ∧ Governed app foreign r₀ n') ∨
      ∃ e n', App.endBlock app k tally n = .error e n' ∧ StopsAt k n e n' := by
  rw [App.endBlock, Exec.get_bind]
  rcases h.dropAll (k := k) with ⟨n₁, hdrop, hgoverned, hfewer⟩ | ⟨e, n', hdrop, hstop⟩
  · rw [Exec.bind_of_ok hdrop, Exec.get_bind]
    rcases hgoverned.tallyAll (k := k) hreliable tally with
      ⟨n', hrun, hgoverned', -⟩ | ⟨e, n', hrun, hstop⟩
    · exact .inl ⟨n', hrun, hgoverned'⟩
    · exact .inr ⟨e, n', hrun, hstop.of_fewer hfewer⟩
  · exact .inr ⟨e, n', Exec.bind_of_error hdrop, hstop⟩

/-- The invariant does not look at what a user or another module can change. -/
theorem Governed.withState {t : State W} (h : Governed app foreign r₀ n)
    (hregistry : t.registry = n.state.registry) : Governed app foreign r₀ (n.withState t) where
  queues := ⟨h.queues.stored, h.queues.fresh, h.queues.active, h.queues.inactive⟩
  params := rfl
  submittable := h.submittable
  once := h.once
  passed := h.passed
  chained := by
    show Chained app r₀ n.executed t.registry
    rw [hregistry]
    exact h.chained

end Invariant

/-! ## §4 Runs -/

section Run

variable {app} {k} {foreign : String → String → Except GoError Unit} {r₀ : Registry}
  {n : Node W}

theorem onGov_ok_iff {α : Type} {x : Exec GoError GovState α} {n' : Node W} {a : α} :
    onGov x n = .ok a n' ↔ ∃ g, x n.gov = .ok a g ∧ n' = { n with gov := g } := by
  unfold onGov
  cases x n.gov with
  | ok b g =>
    constructor
    · intro h
      cases h
      exact ⟨g, rfl, rfl⟩
    · rintro ⟨g', h, rfl⟩
      cases h
      rfl
  | error e g => exact iff_of_false nofun (by rintro ⟨g', h, -⟩; cases h)

theorem onState_ok_iff {α : Type} {x : Exec GoError (State W) α} {n' : Node W} {a : α} :
    onState x n = .ok a n' ↔ ∃ t, x n.state = .ok a t ∧ n' = n.withState t := by
  unfold onState
  cases x n.state with
  | ok b t =>
    constructor
    · intro h
      cases h
      exact ⟨t, rfl, rfl⟩
    · rintro ⟨t', h, rfl⟩
      cases h
      rfl
  | error e t => exact iff_of_false nofun (by rintro ⟨t', h, -⟩; cases h)

/-- **One step.** -/
theorem Governed.nodeStep (hreliable : Reliable app) (h : Governed app foreign r₀ n)
    (op : NodeOp W) : Governed app foreign r₀ (nodeStep app k foreign n op) := by
  cases hexec : op.exec app k foreign n with
  | error e n' =>
    rw [App.nodeStep, Exec.deliver_of_error hexec]
    exact h
  | ok u n' =>
    rw [App.nodeStep, Exec.deliver_of_ok hexec]
    cases op with
    | deliver op user =>
      obtain ⟨t, hok, rfl⟩ := onState_ok_iff.mp hexec
      have hstep : t = step k n.state op := (Exec.deliver_of_ok hok).symm
      have hconfig := config_step_of_isUserOp k user n.state
      rw [← hstep] at hconfig
      exact h.withState (congrArg Config.registry hconfig)
    | elsewhere bank accounts evm =>
      obtain rfl := Exec.modify_ok_iff.mp hexec
      exact h.withState rfl
    | submitProposal content initialDeposit proposer =>
      simp only [NodeOp.exec, App.submitProposal, Exec.get_bind] at hexec
      obtain ⟨_, v, hcheck, hsub⟩ := Exec.bind_ok_iff.mp hexec
      obtain ⟨hvalid, rfl⟩ := Exec.ofExcept_ok_iff.mp hcheck
      obtain ⟨_, v, hsub, htake⟩ := Exec.bind_ok_iff.mp hsub
      obtain ⟨g, hg, rfl⟩ := onGov_ok_iff.mp hsub
      have hcarries : Carries (Submittable app foreign) n.gov g :=
        carries_msgSubmitProposal h.queues hg fun hdry => ⟨hvalid, n.state, dryRun_ok_iff.mp hdry⟩
      exact (h.carries hcarries).bankOnly ((bankOnly_takeDeposit _ _ _).of_ok htake)
    | deposit proposalID depositor amount =>
      simp only [NodeOp.exec, App.deposit, Exec.get_bind] at hexec
      obtain ⟨_, v, hadd, htake⟩ := Exec.bind_ok_iff.mp hexec
      obtain ⟨g, hg, rfl⟩ := onGov_ok_iff.mp hadd
      exact (h.carries (carries_addDeposit h.queues hg)).bankOnly
        ((bankOnly_takeDeposit _ _ _).of_ok htake)
    | setGovParams params =>
      obtain rfl := Exec.modify_ok_iff.mp hexec
      exact ⟨⟨h.queues.stored, h.queues.fresh, h.queues.active, h.queues.inactive⟩, rfl,
        h.submittable, h.once, h.passed, h.chained⟩
    | beginBlock blockTime =>
      obtain rfl := Exec.modify_ok_iff.mp hexec
      exact ⟨⟨h.queues.stored, h.queues.fresh, h.queues.active, h.queues.inactive⟩, h.params,
        h.submittable, h.once, h.passed, h.chained⟩
    | endBlock tally =>
      rcases h.endBlock (k := k) hreliable tally with ⟨n'', hrun, hgoverned⟩ | ⟨e, n'', hrun, -⟩
      · obtain rfl : n'' = n' := (EStateM.Result.ok.inj (hrun.symm.trans hexec)).2
        exact hgoverned
      · cases hrun.symm.trans hexec

/-- **The rule of a governed registry.** What every execution of a valid content keeps holds of
the registry. -/
theorem Governed.preserves {P : Registry → Prop} (h : Governed app foreign r₀ n) (hfirst : P r₀)
    (hstep : ∀ c s t, contentValidateBasic foreign c = .ok () →
      app.executeContent c s = .ok () t → P s.registry → P t.registry) : P n.state.registry := by
  have hvalid : ∀ e ∈ n.executed, contentValidateBasic foreign e.content = .ok () := by
    intro e he
    obtain ⟨p, hp, -, hcontent, -⟩ := h.passed e he
    rw [← hcontent]
    exact (h.submittable hp).1
  have hchained := h.chained
  generalize n.executed = es at hvalid hchained
  generalize n.state.registry = r at hchained
  induction es generalizing r with
  | nil =>
    obtain rfl := hchained
    exact hfirst
  | cons e es ih =>
    obtain ⟨⟨t, hok, rfl⟩, hrest⟩ := hchained
    exact hstep _ _ _ (hvalid e List.mem_cons_self) hok
      (ih (fun e he => hvalid e (List.mem_cons_of_mem _ he)) _ hrest)

/-- The chain before its first proposal. -/
structure Quiet (n : Node W) : Prop where
  proposals : n.gov.proposals = ∅
  active : n.gov.activeQueue = ∅
  inactive : n.gov.inactiveQueue = ∅
  deposits : n.deposits = ∅
  params : n.gov.params.intrarelayer = n.state.params
  executed : n.executed = []

theorem governed_of_quiet (h : Quiet n) : Governed app foreign n.state.registry n where
  queues := queuesConsistent_of_empty h.proposals h.active h.inactive
  params := h.params
  submittable {id p} hp := by
    rw [GovState.getProposal, h.proposals, KVStore.lookup_empty] at hp
    cases hp
  once := by simp [h.executed]
  passed e he := by
    rw [h.executed] at he
    cases he
  chained := by
    rw [h.executed]
    rfl

theorem governed_of_run (hreliable : Reliable app) (h : Quiet n) (ops : List (NodeOp W)) :
    Governed app foreign n.state.registry (run (nodeStep app k foreign) n ops) :=
  run_preserves (C := fun _ _ => True) (fun _ op hs _ => hs.nodeStep hreliable op)
    (governed_of_quiet h) (along_of_mem fun _ _ => trivial)

/-- **The registry is governed.** On every run of the chain the registry is what passed proposals
made of the first one, each executed once and not before the end of its vote, and the next block
ends without a panic, unless it stops at a recorded deposit that cannot be burned or sent back. -/
theorem governed_run (hreliable : Reliable app) (h : Quiet n) (ops : List (NodeOp W))
    (tally : Proposal → TallyDecision) :
    Governed app foreign n.state.registry (run (nodeStep app k foreign) n ops) ∧
      ((∃ n', App.endBlock app k tally (run (nodeStep app k foreign) n ops) = .ok ⟨⟩ n') ∨
        ∃ e n', App.endBlock app k tally (run (nodeStep app k foreign) n ops) = .error e n' ∧
          StopsAt k (run (nodeStep app k foreign) n ops) e n') := by
  have hrun := @governed_of_run _ _ k foreign _ hreliable h ops
  refine ⟨hrun, ?_⟩
  rcases hrun.endBlock (k := k) hreliable tally with ⟨n', hn', -⟩ | hstop
  · exact .inl ⟨n', hn'⟩
  · exact .inr hstop

end Run

/-! ## §5 The handler of the zero keeper, and that of the keeper itself -/

section Wired

open GenesisEthermint.Tokens
  (TokenWorld plainEvm plainKeeper deployed referenceWorld alice bob)

variable {k : Keeper W} {routes : Router W} {foreign : String → String → Except GoError Unit}
  {c : Content} {s t : State W} {n : Node W}

/-- The application with the proposal handler made of a keeper value. -/
def evmosWith (v : KeeperValue W) (k : Keeper W) (routes : Router W) : Evmos W :=
  { newEvmos k routes with
    govRouter := addRoute RouterKey (newIntrarelayerProposalHandler v) routes }

/-- `NewEvmos` makes it of the field that is not assigned yet. -/
theorem newEvmos_eq : newEvmos k routes = evmosWith .zero k routes := rfl

/-- What the handlers of the other modules have in common: one that has succeeded on a content does
not panic on it, and none of them has the key of the module's store. -/
structure ForeignHandlers (routes : Router W) : Prop where
  reliable : ∀ {route handler c s t}, routes route = some handler → handler c s = .ok () t →
    ∀ s' m t', handler c s' ≠ .error (.panic m) t'
  registry : ∀ {route handler c s t}, routes route = some handler → handler c s = .ok () t →
    t.registry = s.registry

/-- A content is executed by the module's handler or by that of another module. -/
theorem executeContent_evmosWith (v : KeeperValue W) :
    (c.proposalRoute = RouterKey ∧
      (evmosWith v k routes).executeContent c = newIntrarelayerProposalHandler v c) ∨
    (∃ handler, routes c.proposalRoute = some handler ∧ c.proposalRoute ≠ RouterKey ∧
      (evmosWith v k routes).executeContent c = handler c) ∨
    (evmosWith v k routes).executeContent c =
      Exec.panicWith ("route \"" ++ c.proposalRoute ++ "\" does not exist") := by
  have hrouter : (evmosWith v k routes).govRouter c.proposalRoute =
      if c.proposalRoute = RouterKey then some (newIntrarelayerProposalHandler v)
      else routes c.proposalRoute := Function.update_apply ..
  unfold Evmos.executeContent
  rw [hrouter]
  by_cases hroute : c.proposalRoute = RouterKey
  · rw [if_pos hroute]
    exact .inl ⟨hroute, rfl⟩
  · rw [if_neg hroute]
    cases routes c.proposalRoute with
    | none => exact .inr (.inr rfl)
    | some handler => exact .inr (.inl ⟨handler, rfl, hroute, rfl⟩)

/-- The handler of the zero keeper never succeeds. -/
theorem zeroHandler_ne_ok : newIntrarelayerProposalHandler .zero c s ≠ .ok () t := by
  cases c with
  | other route type => exact nofun
  | registerCoin p => exact nofun
  | registerERC20 p => exact nofun
  | toggleTokenRelay p => exact nofun
  | updateTokenPairERC20 p => exact nofun

/-- The registration of a contract never succeeds: where the keeper does, the event follows a nil
pointer. -/
theorem handleRegisterERC20Proposal_ne_ok {v : KeeperValue W} {p : RegisterERC20Proposal} :
    handleRegisterERC20Proposal v p s ≠ .ok () t := by
  intro h
  obtain ⟨u, w, -, hpanic⟩ := Exec.bind_ok_iff.mp h
  cases hpanic

theorem reliable_evmosWith {v : KeeperValue W} (hforeign : ForeignHandlers routes)
    (hmodule : ∀ c s t, newIntrarelayerProposalHandler v c s = .ok () t →
      ∀ s' m t', newIntrarelayerProposalHandler v c s' ≠ .error (.panic m) t') :
    Reliable (evmosWith v k routes) := by
  intro c s t hok s' m t'
  rcases @executeContent_evmosWith _ k routes c v with
    ⟨-, heq⟩ | ⟨handler, hroute, -, heq⟩ | heq
  · rw [heq] at hok ⊢
    exact hmodule c s t hok s' m t'
  · rw [heq] at hok ⊢
    exact hforeign.reliable hroute hok s' m t'
  · rw [heq] at hok
    cases hok

theorem reliable_newEvmos (hforeign : ForeignHandlers routes) : Reliable (newEvmos k routes) :=
  reliable_evmosWith hforeign fun _ _ _ hok => absurd hok zeroHandler_ne_ok

theorem reliable_built (hforeign : ForeignHandlers routes) :
    Reliable (evmosWith (.built k) k routes) := by
  apply reliable_evmosWith hforeign
  intro c s t hok s' m t'
  apply handler_ne_panic
  rintro p rfl
  exact handleRegisterERC20Proposal_ne_ok hok

/-- In the application as it is built, no content of the module can be submitted. -/
theorem foreign_of_executeContent (hok : (newEvmos k routes).executeContent c s = .ok () t) :
    ∃ handler, routes c.proposalRoute = some handler ∧ c.proposalRoute ≠ RouterKey ∧
      handler c s = .ok () t := by
  rcases @executeContent_evmosWith _ k routes c .zero with
    ⟨-, heq⟩ | ⟨handler, hroute, hne, heq⟩ | heq
  · rw [newEvmos_eq, heq] at hok
    exact absurd hok zeroHandler_ne_ok
  · rw [newEvmos_eq, heq] at hok
    exact ⟨handler, hroute, hne, hok⟩
  · rw [newEvmos_eq, heq] at hok
    cases hok

/-- The router with the handler of text proposals alone. -/
def onlyText : Router TokenWorld := fun route =>
  if route = "gov" then some fun _ s => .ok () s else none

theorem foreignHandlers_onlyText : ForeignHandlers onlyText := by
  have hpassive : ∀ {route handler c s}, onlyText route = some handler →
      handler c s = .ok () s := by
    intro route handler c s h
    rw [onlyText] at h
    split at h
    · rw [← Option.some.inj h]
    · cases h
  constructor
  · intro route handler c s t h _ s' m t' hpanic
    rw [hpassive h] at hpanic
    cases hpanic
  · intro route handler c s t h hok
    rw [hpassive h] at hok
    cases hok
    rfl

/-- The reference deployment, nothing proposed yet. -/
def referenceNode : Node TokenWorld :=
  Node.withState ⟨quietGov, ∅, deployed plainEvm referenceWorld, []⟩
    (deployed plainEvm referenceWorld)

theorem quiet_referenceNode : Quiet referenceNode := ⟨rfl, rfl, rfl, rfl, rfl, rfl⟩

/-- Four of a coin are enough for a vote. -/
def fourCoins : GovParams := ⟨100, 50, [⟨"acoin", newIntFromUint64 4⟩], ⟨true, 10, true⟩⟩

/-- A text and a toggle are proposed, the vote on the text passes, and another text does not find
enough deposits. -/
def threeProposals : List (NodeOp TokenWorld) :=
  [.setGovParams fourCoins,
    .submitProposal (.other "gov" "Text") [⟨"acoin", newIntFromUint64 5⟩] alice.bytes,
    .submitProposal (.toggleTokenRelay ⟨"title", "description", "acoin"⟩)
      [⟨"acoin", newIntFromUint64 3⟩] bob.bytes,
    .beginBlock 500, .endBlock fun _ => ⟨true, false⟩,
    .submitProposal (.other "gov" "Text") [⟨"acoin", newIntFromUint64 3⟩] bob.bytes,
    .beginBlock 1000]

/-- Three of bob's coins are burned when the next block ends. -/
theorem governed_run_referenceNode :
    Governed (newEvmos plainKeeper onlyText) (fun _ _ => .ok ()) referenceNode.state.registry
        (run (nodeStep (newEvmos plainKeeper onlyText) plainKeeper fun _ _ => .ok ())
          referenceNode threeProposals) ∧
      ∃ n', App.endBlock (newEvmos plainKeeper onlyText) plainKeeper (fun _ => ⟨true, false⟩)
        (run (nodeStep (newEvmos plainKeeper onlyText) plainKeeper fun _ _ => .ok ())
          referenceNode threeProposals) = .ok ⟨⟩ n' := by
  refine ⟨(governed_run (reliable_newEvmos foreignHandlers_onlyText) quiet_referenceNode
    threeProposals fun _ => ⟨true, false⟩).1, Exec.exists_ok ?_⟩
  decide +kernel

/-- **As it is built, the application never changes its registry**: on every run, no proposal of the
module is ever stored, and the registry stays what it was. -/
theorem frozen_run (hforeign : ForeignHandlers routes) (h : Quiet n) (ops : List (NodeOp W)) :
    (run (nodeStep (newEvmos k routes) k foreign) n ops).state.registry = n.state.registry ∧
      ∀ id p, (run (nodeStep (newEvmos k routes) k foreign) n ops).gov.getProposal id = some p →
        p.content.proposalRoute ≠ RouterKey := by
  have hrun : Governed (newEvmos k routes) foreign n.state.registry
      (run (nodeStep (newEvmos k routes) k foreign) n ops) :=
    governed_of_run (reliable_newEvmos hforeign) h ops
  constructor
  · apply hrun.preserves (P := fun r => r = n.state.registry) rfl
    intro c s t _ hok hs
    obtain ⟨handler, hroute, -, hok⟩ := foreign_of_executeContent hok
    rw [hforeign.registry hroute hok, hs]
  · intro id p hp
    obtain ⟨-, s, t, hok⟩ := hrun.submittable hp
    obtain ⟨handler, -, hne, -⟩ := foreign_of_executeContent hok
    exact hne

theorem frozen_run_referenceNode :
    (run (nodeStep (newEvmos plainKeeper onlyText) plainKeeper fun _ _ => .ok ())
        referenceNode threeProposals).state.registry = referenceNode.state.registry ∧
      ∀ id p, (run (nodeStep (newEvmos plainKeeper onlyText) plainKeeper fun _ _ => .ok ())
        referenceNode threeProposals).gov.getProposal id = some p →
          p.content.proposalRoute ≠ RouterKey :=
  frozen_run foreignHandlers_onlyText quiet_referenceNode threeProposals

/-- The operation of a content whose handler succeeds on the keeper. -/
theorem step_of_handler (hok : newIntrarelayerProposalHandler (.built k) c s = .ok () t) :
    ∃ op, contentOp c = some op ∧ (∀ contract, op ≠ .registerERC20 contract) ∧
      t = step k s op := by
  -- a handler forgets what its method returns
  have hstep : ∀ {β : Type} {x : Exec GoError (State W) β} {op : Op},
      op.exec k = Functor.discard x → (x >>= fun _ => pure ()) s = .ok () t → t = step k s op := by
    intro β x op hexec hbind
    obtain ⟨b, u, hx, hpure⟩ := Exec.bind_ok_iff.mp hbind
    obtain ⟨-, rfl⟩ := Exec.pure_ok_iff.mp hpure
    rw [step, hexec, Exec.deliver_of_ok (Exec.discard_of_ok hx)]
  cases c with
  | registerCoin p => exact ⟨_, rfl, by rintro contract ⟨⟩, hstep rfl hok⟩
  | registerERC20 p => exact absurd hok handleRegisterERC20Proposal_ne_ok
  | toggleTokenRelay p => exact ⟨_, rfl, by rintro contract ⟨⟩, hstep rfl hok⟩
  | updateTokenPairERC20 p => exact ⟨_, rfl, by rintro contract ⟨⟩, hstep rfl hok⟩
  | other route type => cases hok

/-- With the handler made of the keeper, a content either is another module's and leaves the
registry alone, or does what its operation does. -/
theorem executeContent_built (hforeign : ForeignHandlers routes)
    (hok : (evmosWith (.built k) k routes).executeContent c s = .ok () t) :
    t.registry = s.registry ∨ ∃ op, contentOp c = some op ∧
      (∀ contract, op ≠ .registerERC20 contract) ∧ t = step k s op := by
  rcases @executeContent_evmosWith _ k routes c (.built k) with
    ⟨-, heq⟩ | ⟨handler, hroute, -, heq⟩ | heq
  · rw [heq] at hok
    exact .inr (step_of_handler hok)
  · rw [heq] at hok
    exact .inl (hforeign.registry hroute hok)
  · rw [heq] at hok
    cases hok

/-- The pair of an external contract is one that was there at first. -/
def ExternalsFrom (r₀ r : Registry) : Prop :=
  ∀ {key p}, r.tokenPairs.lookup key = some p → p.contractOwner = .OWNER_EXTERNAL →
    ∃ key' p', r₀.tokenPairs.lookup key' = some p' ∧ p'.contractOwner = .OWNER_EXTERNAL ∧
      p'.denom = p.denom

theorem externalsFrom_step {r₀ : Registry} {op : Op}
    (hop : ∀ contract, op ≠ .registerERC20 contract) (h : ExternalsFrom r₀ s.registry) :
    ExternalsFrom r₀ (step k s op).registry := by
  intro key q hq howner
  cases Registry.registryStep_cases (k := k) s op with
  | untouched registry _ =>
    rw [registry] at hq
    exact h hq howner
  | coin m nonce _ _ registry _ =>
    rw [registry] at hq
    rcases Registry.lookup_importPair hq with rfl | hq
    · cases howner
    · exact h hq howner
  | erc20 contract heq _ _ _ _ => exact absurd heq (hop contract)
  | toggled id p found registry _ =>
    rw [registry] at hq
    have hold := h (p := p) (getTokenPair_eq_some_iff.mp found).1
    rcases Registry.lookup_setTokenPair hq with rfl | ⟨-, hq⟩
    · exact hold howner
    · exact h hq howner
  | moved id p old new _ _ found registry _ =>
    rw [registry] at hq
    have hold := h (p := p) (getTokenPair_eq_some_iff.mp found).1
    rcases Registry.lookup_movePair hq with rfl | ⟨-, hq⟩
    · exact hold howner
    · exact h hq howner
  | params _ registry =>
    rw [registry] at hq
    exact h hq howner

/-- A content that validates is one the module can store. -/
theorem validContent_contentOp {op : Op} (hvalid : contentValidateBasic foreign c = .ok ())
    (hop : contentOp c = some op) : Registry.ValidContent op := by
  cases c with
  | registerCoin p =>
    obtain rfl := Option.some.inj hop
    obtain ⟨u, hmetadata, -⟩ := except_bind_ok_iff.mp hvalid
    exact hmetadata
  | registerERC20 p =>
    obtain rfl := Option.some.inj hop
    trivial
  | toggleTokenRelay p =>
    obtain rfl := Option.some.inj hop
    trivial
  | updateTokenPairERC20 p =>
    obtain rfl := Option.some.inj hop
    trivial
  | other route type => cases hop

/-- **With the handler made of the keeper**, no contract is ever registered: no proposal to register
one is stored on any run, every pair of an external contract stems from the first registry, and
what is stored stays valid. -/
theorem built_run (hforeign : ForeignHandlers routes) (h : Quiet n)
    (hstorable : Registry.Storable n.state.registry) (ops : List (NodeOp W)) :
    let n' := run (nodeStep (evmosWith (.built k) k routes) k foreign) n ops
    (∀ id p q, n'.gov.getProposal id = some p → p.content ≠ .registerERC20 q) ∧
      ExternalsFrom n.state.registry n'.state.registry ∧ Registry.Storable n'.state.registry := by
  intro n'
  have hrun : Governed (evmosWith (.built k) k routes) foreign n.state.registry n' :=
    governed_of_run (reliable_built hforeign) h ops
  refine ⟨?_, ?_, ?_⟩
  · rintro id p q hp hcontent
    obtain ⟨-, s, t, hok⟩ := hrun.submittable hp
    rw [hcontent] at hok
    rcases @executeContent_evmosWith _ k routes (.registerERC20 q) (.built k) with
      ⟨-, heq⟩ | ⟨handler, -, hne, -⟩ | heq
    · rw [heq] at hok
      exact handleRegisterERC20Proposal_ne_ok hok
    · exact hne rfl
    · rw [heq] at hok
      cases hok
  · apply hrun.preserves (P := ExternalsFrom n.state.registry)
    · intro key p hp howner
      exact ⟨key, p, hp, howner, rfl⟩
    · intro c s t _ hok hs
      rcases executeContent_built hforeign hok with heq | ⟨op, -, hne, rfl⟩
      · rwa [heq]
      · exact externalsFrom_step hne hs
  · apply hrun.preserves hstorable
    intro c s t hvalid hok hs
    rcases executeContent_built hforeign hok with heq | ⟨op, hop, -, rfl⟩
    · rwa [heq]
    · exact Registry.storable_step (validContent_contentOp hvalid hop) hs

theorem built_run_referenceNode :
    (∀ id p q, (run (nodeStep (evmosWith (.built plainKeeper) plainKeeper onlyText) plainKeeper
        fun _ _ => .ok ()) referenceNode threeProposals).gov.getProposal id = some p →
          p.content ≠ .registerERC20 q) ∧
      ExternalsFrom referenceNode.state.registry
        (run (nodeStep (evmosWith (.built plainKeeper) plainKeeper onlyText) plainKeeper
          fun _ _ => .ok ()) referenceNode threeProposals).state.registry ∧
      Registry.Storable
        (run (nodeStep (evmosWith (.built plainKeeper) plainKeeper onlyText) plainKeeper
          fun _ _ => .ok ()) referenceNode threeProposals).state.registry := by
  have hstorable : Registry.Storable referenceNode.state.registry :=
    (@Registry.exportable_run _ plainKeeper _ _ [] rfl (by decide) (by simp)).storable
  exact built_run foreignHandlers_onlyText quiet_referenceNode hstorable threeProposals

end Wired

end GenesisEthermint.App
