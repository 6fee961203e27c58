import GenesisEthermint.Chain.Gov
import GenesisEthermint.Foundation.Run

/-!
# Governance Hooks

After every deposit on a proposal the module may give the proposal another voting period: if it
registers a token pair and is being voted on, its vote ends when the module's own voting period,
counted from the start of the vote, is over. The other hooks do nothing.
-/

namespace GenesisEthermint.Intrarelayer

open GenesisEthermint.Foundation GenesisEthermint.Types GenesisEthermint.Chain

/-- `GetVotingPeriod`. -/
def getVotingPeriod (s : GovState) (proposalType : String) : Duration :=
  if proposalType = ProposalTypeRegisterCoin then s.params.intrarelayer.tokenPairVotingPeriod
  else if proposalType = ProposalTypeRegisterERC20 then
    s.params.intrarelayer.tokenPairVotingPeriod
  else s.params.votingPeriod

/-- `AfterProposalDeposit`. -/
def afterProposalDeposit (proposalID : ℕ) (s : GovState) : GovState :=
  let votingPeriod := s.params.votingPeriod
  let newVotingPeriod := getVotingPeriod s ProposalTypeRegisterCoin
  if newVotingPeriod = votingPeriod then s
  else
    match s.getProposal proposalID with
    | none => s
    | some proposal =>
      -- the vote has not started
      if proposal.status ≠ .StatusVotingPeriod then s
      else if proposal.content.proposalType ≠ ProposalTypeRegisterCoin ∧
          proposal.content.proposalType ≠ ProposalTypeRegisterERC20 then s
      -- the type switch on the content
      else if ¬ proposal.content.isRegistration then s
      else
        -- the end counts from the start of the vote, whatever the end was
        let originalEndTime := proposal.votingEndTime
        let proposal := { proposal with
          votingEndTime := proposal.votingStartTime + newVotingPeriod }
        let s := s.removeFromActiveProposalQueue proposalID originalEndTime
        let s := s.insertActiveProposalQueue proposalID proposal.votingEndTime
        s.setProposal proposal

/-! ## Governance as a state machine -/

/-- What can happen to proposals. -/
inductive GovOp where
  | submitProposal (content : Content) (dryRun : Except GoError Unit) (initialDeposit : List Coin)
    (payment : Except GoError Unit)
  | deposit (proposalID : ℕ) (amount : List Coin) (payment : Except GoError Unit)
  | setParams (params : GovParams)
  | advanceTime (blockTime : Time)
  | endBlock (verdict : Proposal → Verdict)

/-- What the operation runs, with the module's hook set. -/
def GovOp.exec : GovOp → Exec GoError GovState Unit
  | .submitProposal content dryRun initialDeposit payment =>
    msgSubmitProposal afterProposalDeposit content dryRun initialDeposit payment
  | .deposit proposalID amount payment =>
    addDeposit afterProposalDeposit proposalID amount payment
  | .setParams params => modify fun s => { s with params := params }
  | .advanceTime blockTime => modify fun s => { s with blockTime := blockTime }
  | .endBlock verdict => endBlocker verdict

/-- Deliver one operation. -/
def govStep (s : GovState) (op : GovOp) : GovState := Exec.deliver op.exec s

end GenesisEthermint.Intrarelayer
