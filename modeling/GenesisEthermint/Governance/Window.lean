import GenesisEthermint.Governance.Queues

/-!
# The Voting Window of a Registration

A registration is voted on for the module's voting period, not for that of governance. The end
of its vote is set when the vote starts, and set again by every deposit that is made meanwhile,
from the start of the vote and the period in force at the deposit. So a vote keeps its window as
long as the parameter stays, and a deposit made after a change of the parameter moves it.
-/

namespace GenesisEthermint.Governance

open GenesisEthermint.Foundation GenesisEthermint.Types GenesisEthermint.Chain
open GenesisEthermint.Intrarelayer

variable {s t : GovState} {u : Unit} {id j : ℕ} {p q : Proposal} {op : GovOp}
  {amount : List Coin} {d : Duration}

/-! ## What a deposit makes of a proposal -/

/-- The module's voting period. -/
abbrev tokenPairVotingPeriod (s : GovState) : Duration :=
  s.params.intrarelayer.tokenPairVotingPeriod

instance : DecidablePred IsMovable := fun _ => inferInstanceAs (Decidable (_ ∧ _))

/-- The proposal whose vote starts now. -/
def activated (s : GovState) (p : Proposal) : Proposal :=
  { p with
    votingStartTime := s.blockTime
    votingEndTime := s.blockTime + s.params.votingPeriod
    status := .StatusVotingPeriod }

/-- The proposal after the hook. -/
def moved (s : GovState) (p : Proposal) : Proposal :=
  if IsMovable p ∧ tokenPairVotingPeriod s ≠ s.params.votingPeriod then
    withVotingPeriod p (tokenPairVotingPeriod s)
  else p

/-- The proposal after a deposit was added to it, before the hook. -/
def depositedProposal (s : GovState) (p : Proposal) (amount : List Coin) : Proposal :=
  if Activates s p amount then activated s (withDeposit p amount) else withDeposit p amount

theorem getProposal_deposited : (deposited s p amount).getProposal j =
    if j = p.proposalId then some (depositedProposal s p amount) else s.getProposal j := by
  unfold deposited depositedProposal
  split
  · refine (getProposal_setProposal (s := s.setProposal (withDeposit p amount))
      (p := activated s (withDeposit p amount)) j).trans ?_
    show (if j = p.proposalId then _ else (s.setProposal (withDeposit p amount)).getProposal j) = _
    rw [getProposal_setProposal]
    split
    · rfl
    · exact if_neg ‹_›
  · exact getProposal_setProposal j

theorem params_deposited : (deposited s p amount).params = s.params := by
  unfold deposited
  split <;> rfl

/-- **A deposit with its hook**, on the proposals. -/
theorem getProposal_addDeposit (h : QueuesConsistent s) (hp : s.getProposal id = some p) :
    (afterProposalDeposit id (deposited s p amount)).getProposal j =
      if j = id then some (moved s (depositedProposal s p amount)) else s.getProposal j := by
  have hkey : p.proposalId = id := h.stored hp
  have hget : (deposited s p amount).getProposal id = some (depositedProposal s p amount) := by
    rw [getProposal_deposited, if_pos hkey.symm]
  rcases afterProposalDeposit_cases id (deposited s p amount) with
    ⟨heq, hnot⟩ | ⟨q, hq, hmov, hne, heq⟩
  · -- the hook has nothing to do
    have hsame : moved s (depositedProposal s p amount) = depositedProposal s p amount := by
      refine if_neg fun hc => ?_
      rw [params_deposited] at hnot
      rcases hnot with hnot | hnot
      · exact hc.2 hnot
      · exact hnot _ hget hc.1
    rw [heq, getProposal_deposited, hkey, hsame]
  -- the hook moved the deadline of the proposal as the deposit left it
  · obtain rfl := Option.some.inj (hget.symm.trans hq)
    rw [params_deposited] at hne
    have hmoved : moved s (depositedProposal s p amount) =
        withVotingPeriod (depositedProposal s p amount) (tokenPairVotingPeriod s) :=
      if_pos ⟨hmov, hne⟩
    have hid : (depositedProposal s p amount).proposalId = id := by
      rw [← hkey]
      unfold depositedProposal
      split <;> rfl
    rw [heq, getProposal_retimed, hid, params_deposited, hmoved, getProposal_deposited, hkey]
    split <;> rfl

/-- A vote that starts on a registration lasts for the module's period. -/
theorem window_of_activated (hp : p.status ≠ .StatusVotingPeriod)
    (hq : q = moved s (depositedProposal s p amount)) (hv : q.status = .StatusVotingPeriod)
    (hr : q.content.isRegistration = true) :
    q.votingStartTime = s.blockTime ∧
      q.votingEndTime = s.blockTime + tokenPairVotingPeriod s := by
  -- the hook writes the times only
  have hstatus : (moved s (depositedProposal s p amount)).status =
      (depositedProposal s p amount).status := by
    unfold moved
    split <;> rfl
  have hcontent : (moved s (depositedProposal s p amount)).content =
      (depositedProposal s p amount).content := by
    unfold moved
    split <;> rfl
  have hmov : IsMovable (depositedProposal s p amount) :=
    ⟨hcontent ▸ hq ▸ hr, hstatus ▸ hq ▸ hv⟩
  -- the vote was not running before, so this deposit started it
  have hact : depositedProposal s p amount = activated s (withDeposit p amount) := by
    unfold depositedProposal at hmov ⊢
    split
    · rfl
    · rename_i hno
      rw [if_neg hno] at hmov
      exact absurd hmov.2 hp
  rw [hq, moved]
  split
  · -- the hook counts from the start of the vote
    rw [hact]
    exact ⟨rfl, rfl⟩
  -- the hook did nothing because the two periods agree
  · rename_i hsame
    have hperiod : tokenPairVotingPeriod s = s.params.votingPeriod :=
      not_not.mp fun hne => hsame ⟨hmov, hne⟩
    rw [hact, hperiod]
    exact ⟨rfl, rfl⟩

/-- The voting period that an accepted deposit on a vote leaves it with. -/
def periodAfterDeposit (s : GovState) (d : Duration) : Duration :=
  if tokenPairVotingPeriod s = s.params.votingPeriod then d else tokenPairVotingPeriod s

/-- A deposit on a registration that is being voted on moves the end of the vote, at most. -/
theorem window_of_deposit (s : GovState) (amount : List Coin) (hp : IsMovable p)
    (hd : p.votingEndTime = p.votingStartTime + d) :
    IsMovable (moved s (depositedProposal s p amount)) ∧
      (moved s (depositedProposal s p amount)).votingStartTime = p.votingStartTime ∧
      (moved s (depositedProposal s p amount)).votingEndTime =
        p.votingStartTime + periodAfterDeposit s d := by
  have hdep : depositedProposal s p amount = withDeposit p amount :=
    if_neg fun hact => by
      have hstatus := hact.1
      rw [hp.2] at hstatus
      cases hstatus
  have hmov : IsMovable (withDeposit p amount) := hp
  rw [hdep, moved, periodAfterDeposit]
  by_cases hperiod : tokenPairVotingPeriod s = s.params.votingPeriod
  · rw [if_neg fun hc => hc.2 hperiod, if_pos hperiod]
    exact ⟨hmov, rfl, hd⟩
  · rw [if_pos ⟨hmov, hperiod⟩, if_neg hperiod]
    exact ⟨hp, rfl, rfl⟩

/-! ## What a step makes of a proposal -/

/-- What an operation can make of proposal `j`. -/
inductive ProposalStep (s : GovState) (op : GovOp) (j : ℕ) : Option Proposal → Prop where
  /-- The operation is about something else, or it fails. -/
  | kept (hno : ∀ amount p, op = .deposit j amount (.ok ()) → s.getProposal j = some p →
      ¬ IsOpen p) : ProposalStep s op j (s.getProposal j)
  /-- The proposal is new. -/
  | submitted (content : Content) (amount : List Coin) (hj : j = s.proposalID) :
    ProposalStep s op j
      (some (moved s (depositedProposal s (freshProposal s content) amount)))
  /-- A deposit was accepted. -/
  | deposited (p : Proposal) (amount : List Coin) (hop : op = .deposit j amount (.ok ()))
    (hp : s.getProposal j = some p) (ho : IsOpen p) :
    ProposalStep s op j (some (moved s (depositedProposal s p amount)))
  /-- Its deposit period ran out. -/
  | dropped : ProposalStep s op j none
  /-- Its vote was tallied. -/
  | tallied (p : Proposal) (v : Verdict) (hp : s.getProposal j = some p) :
    ProposalStep s op j (some { p with status := v.status })

/-- **What a step does to a proposal**, with the step's own queues right. -/
theorem proposalStep (h : QueuesConsistent s) (op : GovOp) (j : ℕ) :
    ProposalStep s op j ((govStep s op).getProposal j) := by
  have hstep := govStep_cases h op
  generalize govStep s op = t at hstep ⊢
  cases hstep with
  | failed herr =>
    -- a paid deposit on an open proposal would have gone through
    refine .kept fun amount p hop hp ho => ?_
    subst hop
    cases (addDeposit_run hp ho).symm.trans herr
  | submitted content amount hop =>
    subst hop
    rw [getProposal_addDeposit (consistent_submitted h)
      (getProposal_submitted.trans (if_pos rfl))]
    split
    · exact .submitted content amount ‹_›
    · rw [getProposal_submitted, if_neg ‹_›]
      exact .kept fun _ _ heq => by cases heq
  | deposited id p amount hop hp ho =>
    subst hop
    rw [getProposal_addDeposit h hp]
    split
    · rename_i hj
      subst hj
      exact .deposited p amount rfl hp ho
    · rename_i hj
      exact .kept fun _ _ heq => by
        cases heq
        exact absurd rfl hj
  | params params hop =>
    subst hop
    exact .kept fun _ _ heq => by cases heq
  | time blockTime hop =>
    subst hop
    exact .kept fun _ _ heq => by cases heq
  | ended verdict hop hcons hsettles =>
    subst hop
    rcases hsettles.proposals j with hj | hj | ⟨p, v, hp, hj⟩
    · rw [hj]
      exact .kept fun _ _ heq => by cases heq
    · rw [hj]
      exact .dropped
    · rw [hj]
      exact .tallied p v hp

/-- No ID is taken back. -/
theorem proposalID_govStep (h : QueuesConsistent s) : s.proposalID ≤ (govStep s op).proposalID := by
  -- neither the deposit nor the hook counts proposals
  have hhook : ∀ {v : GovState} {p amount id},
      (afterProposalDeposit id (deposited v p amount)).proposalID = v.proposalID := by
    intro v p amount id
    have hdep : (deposited v p amount).proposalID = v.proposalID := by
      unfold deposited
      split <;> rfl
    rcases afterProposalDeposit_cases id (deposited v p amount) with
      ⟨heq, -⟩ | ⟨q, -, -, -, heq⟩
    · rw [heq, hdep]
    · rw [heq]
      exact hdep
  have hstep := govStep_cases h op
  generalize govStep s op = t at hstep ⊢
  cases hstep with
  | failed _ => exact Nat.le_refl _
  | submitted content amount _ =>
    rw [hhook]
    exact Nat.le_succ _
  | deposited id p amount _ _ _ => exact Nat.le_of_eq hhook.symm
  | params _ _ => exact Nat.le_refl _
  | time _ _ => exact Nat.le_refl _
  | ended _ _ _ hsettles => exact Nat.le_of_eq hsettles.ids.symm

/-! ## From the start of a vote to its end -/

/-- The operation starts the vote on proposal `j`, which then is `q`. -/
structure StartsVote (s : GovState) (op : GovOp) (j : ℕ) (q : Proposal) : Prop where
  after : (govStep s op).getProposal j = some q
  voting : q.status = .StatusVotingPeriod
  before : ∀ p, s.getProposal j = some p → p.status ≠ .StatusVotingPeriod

/-- **The window of a vote at its start.** -/
theorem window_of_startsVote (h : QueuesConsistent s) (hstart : StartsVote s op j q)
    (hr : q.content.isRegistration = true) :
    q.votingStartTime = s.blockTime ∧
      q.votingEndTime = s.blockTime + tokenPairVotingPeriod s := by
  have hstep := proposalStep h op j
  rw [hstart.after] at hstep
  generalize hresult : some q = r at hstep
  cases hstep with
  | kept hno => exact absurd hstart.voting (hstart.before q hresult.symm)
  | submitted content amount hj =>
    exact window_of_activated (p := freshProposal s content) (fun hv => by cases hv)
      (Option.some.inj hresult) hstart.voting hr
  | deposited p amount hop hp ho =>
    exact window_of_activated (hstart.before p hp) (Option.some.inj hresult) hstart.voting hr
  | dropped => cases hresult
  | tallied p v hp =>
    obtain rfl := Option.some.inj hresult
    exact absurd hstart.voting v.status_ne.1

/-- The operation is a deposit on proposal `j`, and paid. -/
def DepositsOn (j : ℕ) (op : GovOp) : Prop := ∃ amount, op = .deposit j amount (.ok ())

instance : DecidablePred (DepositsOn j) := fun op =>
  match op with
  | .deposit id amount (.ok ()) => decidable_of_iff (id = j)
    ⟨fun h => ⟨amount, by rw [h]⟩, fun ⟨_, h⟩ => by cases h; rfl⟩
  | .deposit _ _ (.error _) => isFalse fun ⟨_, h⟩ => by cases h
  | .submitProposal .. | .setParams _ | .advanceTime _ | .endBlock _ =>
    isFalse fun ⟨_, h⟩ => by cases h

/-- The period a vote that lasts for `d` is left with by an operation. -/
def periodAfterStep (j : ℕ) (d : Duration) (s : GovState) (op : GovOp) : Duration :=
  if DepositsOn j op then periodAfterDeposit s d else d

/-- The period a vote that lasts for `d` is left with by the operations of a run. -/
def periodAfter (j : ℕ) : Duration → GovState → List GovOp → Duration
  | d, _, [] => d
  | d, s, op :: ops => periodAfter j (periodAfterStep j d s op) (govStep s op) ops

/-- The proposal is over: it was tallied, or it is gone. -/
structure IsOver (s : GovState) (j : ℕ) : Prop where
  taken : j < s.proposalID
  closed : ∀ p, s.getProposal j = some p → ¬ IsOpen p

/-- Nobody opens a proposal again. -/
theorem isOver_govStep (h : QueuesConsistent s) (hover : IsOver s j) : IsOver (govStep s op) j := by
  refine ⟨Nat.lt_of_lt_of_le hover.taken (proposalID_govStep h), fun q hq ho => ?_⟩
  have hstep := proposalStep h op j
  rw [hq] at hstep
  generalize hresult : some q = r at hstep
  cases hstep with
  | kept hno => exact hover.closed q hresult.symm ho
  | submitted content amount hj => exact absurd hover.taken (hj ▸ Nat.lt_irrefl _)
  | deposited p amount hop hp hop' => exact hover.closed p hp hop'
  | dropped => cases hresult
  | tallied p v hp =>
    obtain rfl := Option.some.inj hresult
    rcases ho with ho | ho
    · exact v.status_ne.2 ho
    · exact v.status_ne.1 ho

/-- **One step of a vote on a registration.** It goes on, and the end of its vote is where the
deposits put it, or it is over. -/
theorem vote_govStep (op : GovOp) (h : QueuesConsistent s) (hp : s.getProposal j = some p)
    (hmov : IsMovable p) (hd : p.votingEndTime = p.votingStartTime + d) :
    (∃ q, (govStep s op).getProposal j = some q ∧ IsMovable q ∧
      q.votingStartTime = p.votingStartTime ∧
      q.votingEndTime = p.votingStartTime + periodAfterStep j d s op) ∨
    IsOver (govStep s op) j := by
  -- the identifier is taken and stays taken, so a proposal that is gone is over
  have htaken : j < (govStep s op).proposalID :=
    Nat.lt_of_lt_of_le (h.fresh hp) (proposalID_govStep h)
  have hstep := proposalStep h op j
  generalize hresult : (govStep s op).getProposal j = r at hstep
  cases hstep with
  | kept hno =>
    -- a deposit on a proposal in its voting period is accepted, so there was none
    have hnot : ¬ DepositsOn j op := fun ⟨amount, hop⟩ => hno amount p hop hp (.inr hmov.2)
    exact .inl ⟨p, hp, hmov, rfl, by rw [periodAfterStep, if_neg hnot, hd]⟩
  | submitted content amount hj => exact absurd (h.fresh hp) (hj ▸ Nat.lt_irrefl _)
  | deposited p' amount hop hp' ho =>
    obtain rfl := Option.some.inj (hp.symm.trans hp')
    obtain ⟨hmov', hstart, hend⟩ := window_of_deposit s amount hmov hd
    exact .inl ⟨_, rfl, hmov', hstart, by rw [hend, periodAfterStep, if_pos ⟨amount, hop⟩]⟩
  | dropped =>
    refine .inr ⟨htaken, fun q hq => ?_⟩
    rw [hresult] at hq
    cases hq
  | tallied p' v hp' =>
    refine .inr ⟨htaken, fun q hq ho => ?_⟩
    rw [hresult] at hq
    obtain rfl := Option.some.inj hq
    rcases ho with ho | ho
    · exact v.status_ne.2 ho
    · exact v.status_ne.1 ho

/-- **A vote on a registration over a run.** -/
theorem vote_of_run (h : QueuesConsistent s) (hp : s.getProposal j = some p) (hmov : IsMovable p)
    (hd : p.votingEndTime = p.votingStartTime + d) (ops : List GovOp)
    (hq : (run govStep s ops).getProposal j = some q) (hv : q.status = .StatusVotingPeriod) :
    q.votingStartTime = p.votingStartTime ∧
      q.votingEndTime = p.votingStartTime + periodAfter j d s ops := by
  -- on the run; the start of the vote and the period so far go with it
  induction ops generalizing s p d with
  | nil =>
    obtain rfl := Option.some.inj (hp.symm.trans hq)
    exact ⟨rfl, hd⟩
  | cons op ops ih =>
    rcases vote_govStep op h hp hmov hd with ⟨p', hp', hmov', hstart, hend⟩ | hover
    · rw [← hstart] at hend ⊢
      exact ih (consistent_govStep h) hp' hmov' hend hq
    · -- the vote is over, and would be in the end
      have hend : QueuesConsistent (run govStep (govStep s op) ops) ∧
          IsOver (run govStep (govStep s op) ops) j :=
        run_preserves (P := fun s => QueuesConsistent s ∧ IsOver s j) (C := fun _ _ => True)
          (fun _ _ hs _ => ⟨consistent_govStep hs.1, isOver_govStep hs.1 hs.2⟩)
          ⟨consistent_govStep h, hover⟩ (along_of_mem (E := fun _ => True) fun _ _ => trivial)
      exact absurd (.inr hv) (hend.2.closed q hq)

/-- Deposits at which the parameter is what it was leave the period as it is. -/
theorem periodAfter_of_along {ops : List GovOp}
    (ha : Along govStep (fun s op => DepositsOn j op → tokenPairVotingPeriod s = d) s ops) :
    periodAfter j d s ops = d := by
  induction ops generalizing s with
  | nil => rfl
  | cons op ops ih =>
    have hstep : periodAfterStep j d s op = d := by
      unfold periodAfterStep periodAfterDeposit
      split
      · rw [ha.1 ‹_›, ite_self]
      · rfl
    rw [periodAfter, hstep]
    exact ih ha.2

/-- **The voting window of a registration.** It starts with the vote and lasts for the module's
voting period then. Later deposits leave the start and move the end to the period in force at
the deposit, if that is not the period of governance as well; so the window stays as it was if
every deposit finds the parameter as it was. -/
theorem votingWindow_of_run {s₀ : GovState} (h : QueuesConsistent s₀) (before : List GovOp)
    {op : GovOp} {j : ℕ} {q : Proposal} (hstart : StartsVote (run govStep s₀ before) op j q)
    (hr : q.content.isRegistration = true) (after : List GovOp) :
    let s := run govStep s₀ before
    q.votingStartTime = s.blockTime ∧
    q.votingEndTime = q.votingStartTime + tokenPairVotingPeriod s ∧
    ∀ q', (run govStep s₀ (before ++ op :: after)).getProposal j = some q' →
      q'.status = .StatusVotingPeriod →
      q'.votingStartTime = q.votingStartTime ∧
      q'.votingEndTime = q.votingStartTime +
        periodAfter j (tokenPairVotingPeriod s) (govStep s op) after ∧
      (Along govStep (fun v op => DepositsOn j op →
          tokenPairVotingPeriod v = tokenPairVotingPeriod s) (govStep s op) after →
        q'.votingEndTime = q.votingEndTime) := by
  intro s
  have hs : QueuesConsistent s :=
    run_preserves (C := fun _ _ => True) (fun _ _ hs _ => consistent_govStep hs) h
      (along_of_mem (E := fun _ => True) fun _ _ => trivial)
  obtain ⟨hbegin, hend⟩ := window_of_startsVote hs hstart hr
  rw [← hbegin] at hend
  refine ⟨hbegin, hend, fun q' hq' hv => ?_⟩
  rw [run_append, run_cons] at hq'
  obtain ⟨hbegin', hend'⟩ :=
    vote_of_run (consistent_govStep hs) hstart.after ⟨hr, hstart.voting⟩ hend after hq' hv
  refine ⟨hbegin', hend', fun ha => ?_⟩
  rw [hend', hend, periodAfter_of_along ha]

/-! ## A deposit that cuts a vote short -/

/-- No deposit after the start of a vote on a registration changes its end. -/
def FixedAtStart (s₀ : GovState) (before : List GovOp) (op : GovOp) (after : List GovOp) : Prop :=
  ∀ j q q', StartsVote (run govStep s₀ before) op j q → q.content.isRegistration = true →
    (run govStep s₀ (before ++ op :: after)).getProposal j = some q' →
    q'.status = .StatusVotingPeriod → q'.votingEndTime = q.votingEndTime

/-- The first submission of the busy vote. -/
def startOfVote : GovOp :=
  .submitProposal registerTokenE (.ok ()) [⟨"aevmos", newIntFromUint64 10⟩] (.ok ())

/-- The parameter is lowered, and a deposit of nothing is made. -/
def cutShort : List GovOp :=
  [.advanceTime 5, .setParams ⟨100, 50, [⟨"aevmos", newIntFromUint64 10⟩], ⟨true, 7, true⟩⟩,
    .deposit 1 [] (.ok ())]

/-- The times and the state of the vote on the only proposal. -/
def voteOf (s : GovState) : Option (Time × Time × ProposalStatus × Bool) :=
  (s.getProposal 1).map fun q =>
    (q.votingStartTime, q.votingEndTime, q.status, q.content.isRegistration)

/-- The vote starts at time 0, for the period of 10. -/
private theorem startsVote_startOfVote : ∃ q, StartsVote quietGov startOfVote 1 q ∧
    q.content.isRegistration = true ∧ q.votingEndTime = 10 := by
  have hvote : voteOf (govStep quietGov startOfVote) =
      some (0, 10, .StatusVotingPeriod, true) := by decide +kernel
  obtain ⟨q, hq, hvals⟩ := Option.map_eq_some_iff.mp hvote
  simp only [Prod.mk.injEq] at hvals
  have hnone : quietGov.getProposal 1 = none := KVStore.lookup_empty
  refine ⟨q, ⟨hq, hvals.2.2.1, fun p hp => ?_⟩, hvals.2.2.2, hvals.2.1⟩
  rw [hnone] at hp
  cases hp

/-- It goes on after the deposit, until time 7. -/
private theorem voting_cutShort :
    ∃ q, (run govStep quietGov (startOfVote :: cutShort)).getProposal 1 = some q ∧
      q.status = .StatusVotingPeriod ∧ q.votingEndTime = 7 := by
  have hvote : voteOf (run govStep quietGov (startOfVote :: cutShort)) =
      some (0, 7, .StatusVotingPeriod, true) := by decide +kernel
  obtain ⟨q, hq, hvals⟩ := Option.map_eq_some_iff.mp hvote
  simp only [Prod.mk.injEq] at hvals
  exact ⟨q, hq, hvals.2.2.1, hvals.2.1⟩

/-- A deposit of nothing at time 5 moves the end of the vote from time 10 to time 7. -/
theorem not_fixedAtStart_cutShort : ¬ FixedAtStart quietGov [] startOfVote cutShort := by
  intro hfixed
  obtain ⟨q, hstart, hr, hend⟩ := startsVote_startOfVote
  obtain ⟨q', hq', hv', hend'⟩ := voting_cutShort
  have heq := hfixed 1 q q' hstart hr hq' hv'
  rw [hend, hend'] at heq
  exact absurd heq (by decide)

theorem votingWindow_of_run_cutShort :
    ∃ q q' : Proposal, (run govStep quietGov (startOfVote :: cutShort)).getProposal 1 = some q' ∧
      q.votingEndTime = 10 ∧ q'.votingStartTime = q.votingStartTime ∧
      q'.votingEndTime = q.votingStartTime +
        periodAfter 1 10 (govStep quietGov startOfVote) cutShort := by
  obtain ⟨q, hstart, hr, hend⟩ := startsVote_startOfVote
  obtain ⟨q', hq', hv', -⟩ := voting_cutShort
  have hwindow := votingWindow_of_run quietGov_consistent [] hstart hr cutShort
  obtain ⟨hbegin, hlast, -⟩ := hwindow.2.2 q' hq' hv'
  exact ⟨q, q', hq', hend, hbegin, hlast⟩

end GenesisEthermint.Governance
