import GenesisEthermint.Foundation.Exec
import GenesisEthermint.Foundation.Schedule
import GenesisEthermint.Types.Content

/-!
# Governance

The SDK's governance keeper as far as proposals, their deposits and their two queues go. A
proposal collects deposits until it has enough, is then voted on until its voting period ends,
and is tallied at the end of the block. What is decided elsewhere comes in as an argument: what
the bank says to a deposit, what the tally and the proposal's handler come to, and the hook that
runs after every deposit.
-/

namespace GenesisEthermint.Chain

open GenesisEthermint.Foundation GenesisEthermint.Types

/-! ## State -/

/-- A block time, in nanoseconds. -/
abbrev Time := ℤ

/-- `time.Duration`. -/
abbrev Duration := ℤ

/-- `govtypes.ProposalStatus`. -/
inductive ProposalStatus where
  | StatusNil | StatusDepositPeriod | StatusVotingPeriod | StatusPassed | StatusRejected
  | StatusFailed
  deriving DecidableEq, Repr

/-- `govtypes.Proposal`. The total deposit is kept as the amount of each denomination. -/
structure Proposal where
  proposalId : ℕ
  content : Content
  status : ProposalStatus
  totalDeposit : String → ℕ
  submitTime : Time
  depositEndTime : Time
  votingStartTime : Time
  votingEndTime : Time

/-- The parameters that governance reads, its own and the module's. -/
structure GovParams where
  votingPeriod : Duration
  maxDepositPeriod : Duration
  minDeposit : List Coin
  intrarelayer : Params

/-- What governance keeps of proposals, at the time of a block. -/
structure GovState where
  blockTime : Time
  params : GovParams
  proposalID : ℕ
  proposals : KVStore ℕ Proposal
  activeQueue : DeadlineQueue Time ℕ
  inactiveQueue : DeadlineQueue Time ℕ

/-! ## Stores -/

namespace GovState

variable (s : GovState)

/-- `GetProposal`. -/
def getProposal (proposalID : ℕ) : Option Proposal := s.proposals.lookup proposalID

/-- `SetProposal`. -/
def setProposal (p : Proposal) : GovState :=
  { s with proposals := s.proposals.set p.proposalId p }

/-- `InsertActiveProposalQueue`. -/
def insertActiveProposalQueue (proposalID : ℕ) (endTime : Time) : GovState :=
  { s with activeQueue := s.activeQueue.insert proposalID endTime }

/-- `RemoveFromActiveProposalQueue`. -/
def removeFromActiveProposalQueue (proposalID : ℕ) (endTime : Time) : GovState :=
  { s with activeQueue := s.activeQueue.remove proposalID endTime }

/-- `InsertInactiveProposalQueue`. -/
def insertInactiveProposalQueue (proposalID : ℕ) (endTime : Time) : GovState :=
  { s with inactiveQueue := s.inactiveQueue.insert proposalID endTime }

/-- `RemoveFromInactiveProposalQueue`. -/
def removeFromInactiveProposalQueue (proposalID : ℕ) (endTime : Time) : GovState :=
  { s with inactiveQueue := s.inactiveQueue.remove proposalID endTime }

/-- `ActivateVotingPeriod`. -/
def activateVotingPeriod (p : Proposal) : GovState :=
  let p := { p with
    votingStartTime := s.blockTime
    votingEndTime := s.blockTime + s.params.votingPeriod
    status := .StatusVotingPeriod }
  ((s.setProposal p).removeFromInactiveProposalQueue p.proposalId p.depositEndTime)
    |>.insertActiveProposalQueue p.proposalId p.votingEndTime

end GovState

/-! ## Messages -/

def ErrUnknownProposal : GoError := .registered "gov" 2 "unknown proposal"
def ErrInactiveProposal : GoError := .registered "gov" 3 "inactive proposal"

/-- `coins.Add`, on amounts. -/
def addCoinsTo (total : String → ℕ) (coins : List Coin) : String → ℕ := fun d =>
  total d + ((coins.filter (·.denom = d)).map Coin.nat).sum

/-- `coins.IsAllGTE`, on amounts. -/
def isAllGTE (total : String → ℕ) (coins : List Coin) : Bool :=
  coins.all fun c => c.nat ≤ total c.denom

/-- `NewProposal`. The times of the vote are not set yet. -/
def newProposal (content : Content) (id : ℕ) (submitTime depositEndTime : Time) : Proposal where
  proposalId := id
  content := content
  status := .StatusDepositPeriod
  totalDeposit := fun _ => 0
  submitTime := submitTime
  depositEndTime := depositEndTime
  votingStartTime := 0
  votingEndTime := 0

/-- `SubmitProposal`. `dryRun` is what the router and the content's handler say to the content
before it becomes a proposal. Returns the proposal's ID. -/
def submitProposal (content : Content) (dryRun : Except GoError Unit) :
    Exec GoError GovState ℕ := do
  let s ← get
  Exec.ofExcept dryRun
  let proposal := newProposal content s.proposalID s.blockTime
    (s.blockTime + s.params.maxDepositPeriod)
  modify fun s => { (s.setProposal proposal).insertInactiveProposalQueue s.proposalID
    proposal.depositEndTime with proposalID := s.proposalID + 1 }
  return proposal.proposalId

/-- `AddDeposit`. `payment` is what the bank says to the transfer of the deposit, and `hook` is
`AfterProposalDeposit`. -/
def addDeposit (hook : ℕ → GovState → GovState) (proposalID : ℕ) (depositAmount : List Coin)
    (payment : Except GoError Unit) : Exec GoError GovState Unit := do
  let s ← get
  match s.getProposal proposalID with
  | none => Exec.fail (.wrap ErrUnknownProposal (toString proposalID))
  | some proposal =>
    Exec.failIf (proposal.status ≠ .StatusDepositPeriod ∧ proposal.status ≠ .StatusVotingPeriod)
      (.wrap ErrInactiveProposal (toString proposalID))
    Exec.ofExcept payment
    let proposal := { proposal with
      totalDeposit := addCoinsTo proposal.totalDeposit depositAmount }
    modify fun s => s.setProposal proposal
    if proposal.status = .StatusDepositPeriod ∧
        isAllGTE proposal.totalDeposit s.params.minDeposit then
      modify fun s => s.activateVotingPeriod proposal
    -- the hook runs after every deposit, also when nothing was activated
    modify fun s => hook proposalID s

/-- The handler of `MsgSubmitProposal`: the proposal, and its first deposit. -/
def msgSubmitProposal (hook : ℕ → GovState → GovState) (content : Content)
    (dryRun : Except GoError Unit) (initialDeposit : List Coin)
    (payment : Except GoError Unit) : Exec GoError GovState Unit := do
  let id ← submitProposal content dryRun
  addDeposit hook id initialDeposit payment

/-! ## The end of a block -/

/-- `DeleteProposal`. -/
def deleteProposal (proposalID : ℕ) : Exec GoError GovState Unit := do
  let s ← get
  match s.getProposal proposalID with
  | none => Exec.panicWith ("couldn't find proposal with id#" ++ toString proposalID)
  | some proposal =>
    modify fun s =>
      let s := s.removeFromInactiveProposalQueue proposalID proposal.depositEndTime
      let s := s.removeFromActiveProposalQueue proposalID proposal.votingEndTime
      { s with proposals := s.proposals.delete proposalID }

/-- What the tally and the handler of a proposal come to. A handler that succeeds may change the
parameters. -/
inductive Verdict where
  | passed (params : GovParams)
  | failed
  | rejected

/-- The status a verdict leaves the proposal with. -/
def Verdict.status : Verdict → ProposalStatus
  | passed _ => .StatusPassed
  | failed => .StatusFailed
  | rejected => .StatusRejected

/-- The parameters after a verdict. -/
def Verdict.params (current : GovParams) : Verdict → GovParams
  | passed params => params
  | _ => current

/-- A tallied proposal is in neither of its periods. -/
theorem Verdict.status_ne (v : Verdict) :
    v.status ≠ .StatusVotingPeriod ∧ v.status ≠ .StatusDepositPeriod := by
  cases v <;> simp [Verdict.status]

/-- The proposal of a queue entry, as the iterators look it up. -/
def dueProposal (proposalID : ℕ) : Exec GoError GovState Proposal := do
  let s ← get
  match s.getProposal proposalID with
  | none => Exec.panicWith ("proposal " ++ toString proposalID ++ " does not exist")
  | some proposal => return proposal

/-- One round over the inactive queue. -/
def dropInactive (proposalID : ℕ) : Exec GoError GovState Unit := do
  let proposal ← dueProposal proposalID
  deleteProposal proposal.proposalId

/-- One round over the active queue. -/
def tallyActive (verdict : Proposal → Verdict) (proposalID : ℕ) : Exec GoError GovState Unit := do
  let proposal ← dueProposal proposalID
  let outcome := verdict proposal
  modify fun s => { s with params := outcome.params s.params }
  modify fun s => (s.setProposal { proposal with status := outcome.status })
    |>.removeFromActiveProposalQueue proposal.proposalId proposal.votingEndTime

/-- `EndBlocker`. -/
def endBlocker (verdict : Proposal → Verdict) : Exec GoError GovState Unit := do
  let s ← get
  forM (s.inactiveQueue.due s.blockTime) dropInactive
  let s ← get
  forM (s.activeQueue.due s.blockTime) (tallyActive verdict)

end GenesisEthermint.Chain
