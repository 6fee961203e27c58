import GenesisEthermint.Intrarelayer.GovHooks

/-!
# The Proposal Queues

Governance keeps two indexes of its proposals, by the end of their deposit period and by the end
of their vote, and it is the module's hook that writes to the second one besides governance
itself. Both indexes stay right, in every interleaving of submissions, deposits, parameter
changes and blocks: the hook takes out the entry it finds in the proposal it moves, and that is
the entry there is.
-/

namespace GenesisEthermint.Governance

open GenesisEthermint.Foundation GenesisEthermint.Types GenesisEthermint.Chain
open GenesisEthermint.Intrarelayer

variable {s t : GovState} {u : Unit} {id j : ℕ} {p q : Proposal} {op : GovOp}
  {amount : List Coin}

/-! ## The invariant -/

/-- When the vote on a proposal ends. -/
def votingDeadline (p : Proposal) : Option Time :=
  if p.status = .StatusVotingPeriod then some p.votingEndTime else none

/-- When a proposal stops collecting deposits. -/
def depositDeadline (p : Proposal) : Option Time :=
  if p.status = .StatusDepositPeriod then some p.depositEndTime else none

/-- Every proposal is stored under its own ID, an ID that has been given out, and both queues
list the proposals in their period. -/
structure QueuesConsistent (s : GovState) : Prop where
  stored : ∀ {id p}, s.getProposal id = some p → p.proposalId = id
  fresh : ∀ {id p}, s.getProposal id = some p → id < s.proposalID
  active : s.activeQueue.Lists fun id => (s.getProposal id).bind votingDeadline
  inactive : s.inactiveQueue.Lists fun id => (s.getProposal id).bind depositDeadline

/-- Every proposal that is voted on has one entry in the active queue, under the end of its
vote, and every entry is that of such a proposal. -/
structure ActiveQueueConsistent (s : GovState) : Prop where
  once : ∀ id p, s.getProposal id = some p → p.status = .StatusVotingPeriod →
    s.activeQueue.entries.filter (·.1.item = id) = [(⟨p.votingEndTime, id⟩, id)]
  only : ∀ e ∈ s.activeQueue.entries, ∃ p, s.getProposal e.1.item = some p ∧
    p.status = .StatusVotingPeriod ∧ p.votingEndTime = e.1.time

/-- A proposal that the hook may move. -/
def IsMovable (p : Proposal) : Prop :=
  p.content.isRegistration = true ∧ p.status = .StatusVotingPeriod

theorem QueuesConsistent.activeQueueConsistent (h : QueuesConsistent s) :
    ActiveQueueConsistent s where
  once id p hp hv := by
    have hdeadline : (s.getProposal id).bind votingDeadline = some p.votingEndTime := by
      rw [hp, Option.bind_some, votingDeadline, if_pos hv]
    exact h.active.entries_of_item hdeadline
  only e he := by
    obtain ⟨p, hp, hd⟩ := Option.bind_eq_some_iff.mp (h.active.mem_entries_iff.mp he).1
    unfold votingDeadline at hd
    split at hd
    · rename_i hv
      exact ⟨p, hp, hv, Option.some.inj hd⟩
    · cases hd

/-- Without proposals, empty queues are right. -/
theorem queuesConsistent_of_empty (hp : s.proposals = ∅) (ha : s.activeQueue = ∅)
    (hi : s.inactiveQueue = ∅) : QueuesConsistent s := by
  have hnone : ∀ id, s.getProposal id = none := fun id => by
    rw [GovState.getProposal, hp, KVStore.lookup_empty]
  refine ⟨fun h => ?_, fun h => ?_, ?_, ?_⟩
  · rw [hnone] at h
    cases h
  · rw [hnone] at h
    cases h
  · simp only [ha, hnone, Option.bind_none]
    exact DeadlineQueue.lists_empty
  · simp only [hi, hnone, Option.bind_none]
    exact DeadlineQueue.lists_empty

/-! ## Writing one proposal -/

theorem getProposal_setProposal (j : ℕ) : (s.setProposal p).getProposal j =
    if j = p.proposalId then some p else s.getProposal j :=
  KVStore.lookup_set

/-- After a proposal was written, both queues must list what it now says. -/
private theorem QueuesConsistent.of_write (h : QueuesConsistent s)
    (hp : ∀ j, t.getProposal j = if j = p.proposalId then some p else s.getProposal j)
    (hid : p.proposalId < t.proposalID) (hids : s.proposalID ≤ t.proposalID)
    (ha : t.activeQueue.Lists (Function.update
      (fun id => (s.getProposal id).bind votingDeadline) p.proposalId (votingDeadline p)))
    (hi : t.inactiveQueue.Lists (Function.update
      (fun id => (s.getProposal id).bind depositDeadline) p.proposalId (depositDeadline p))) :
    QueuesConsistent t := by
  -- writing `p` changes each deadline table at one place
  have hdeadline : ∀ d : Proposal → Option Time,
      (fun id => (t.getProposal id).bind d) =
        Function.update (fun id => (s.getProposal id).bind d) p.proposalId (d p) := by
    intro d
    ext1 j
    rw [hp, Function.update_apply]
    split <;> rfl
  refine ⟨fun {j q} hq => ?_, fun {j q} hq => ?_, ?_, ?_⟩
  · rw [hp] at hq
    split at hq
    · rename_i hj
      obtain rfl := Option.some.inj hq
      exact hj.symm
    · exact h.stored hq
  · rw [hp] at hq
    split at hq
    · rename_i hj
      exact hj ▸ hid
    · exact Nat.lt_of_lt_of_le (h.fresh hq) hids
  · rw [hdeadline]
    exact ha
  · rw [hdeadline]
    exact hi

/-! ## Deposits -/

/-- The proposal with a deposit added to it. -/
def withDeposit (p : Proposal) (amount : List Coin) : Proposal :=
  { p with totalDeposit := addCoinsTo p.totalDeposit amount }

/-- The deposit is enough to start the vote. -/
def Activates (s : GovState) (p : Proposal) (amount : List Coin) : Prop :=
  p.status = .StatusDepositPeriod ∧
    isAllGTE (withDeposit p amount).totalDeposit s.params.minDeposit = true

instance : Decidable (Activates s p amount) := inferInstanceAs (Decidable (_ ∧ _))

/-- What a deposit leaves for the hook. -/
def deposited (s : GovState) (p : Proposal) (amount : List Coin) : GovState :=
  if Activates s p amount then
    (s.setProposal (withDeposit p amount)).activateVotingPeriod (withDeposit p amount)
  else s.setProposal (withDeposit p amount)

/-- The proposal collects deposits or is being voted on. -/
def IsOpen (p : Proposal) : Prop :=
  p.status = .StatusDepositPeriod ∨ p.status = .StatusVotingPeriod

/-- A deposit that went through was paid, and made on an open proposal. -/
theorem addDeposit_ok {hook : ℕ → GovState → GovState} {payment : Except GoError Unit}
    (h : addDeposit hook id amount payment s = .ok u t) :
    ∃ p, s.getProposal id = some p ∧ IsOpen p ∧ payment = .ok () ∧
      t = hook id (deposited s p amount) := by
  simp only [addDeposit, Exec.get_bind] at h
  -- the guards of the source: the proposal exists, is open, and the coins are paid
  cases hp : s.getProposal id with
  | none =>
    simp only [hp] at h
    exact (Exec.fail_ok_iff.mp h).elim
  | some p =>
    simp only [hp, Exec.failIf_bind] at h
    split at h
    · cases h
    rename_i hstatus
    obtain ⟨_, _, hpay, h⟩ := Exec.bind_ok_iff.mp h
    obtain ⟨hpaid, rfl⟩ := Exec.ofExcept_ok_iff.mp hpay
    refine ⟨p, rfl, ?_, hpaid, ?_⟩
    · rw [not_and_or, not_not, not_not] at hstatus
      exact hstatus
    by_cases hact : Activates s p amount
    · -- enough to start the vote
      rw [deposited, if_pos hact]
      have hc : p.status = .StatusDepositPeriod ∧
          isAllGTE (addCoinsTo p.totalDeposit amount) s.params.minDeposit = true := hact
      simp only [Exec.modify_bind, if_pos hc] at h
      exact Exec.modify_ok_iff.mp h
    · rw [deposited, if_neg hact]
      have hc : ¬ (p.status = .StatusDepositPeriod ∧
          isAllGTE (addCoinsTo p.totalDeposit amount) s.params.minDeposit = true) := hact
      simp only [Exec.modify_bind, if_neg hc] at h
      exact Exec.modify_ok_iff.mp h

/-- An open proposal takes every deposit that is paid. -/
theorem addDeposit_run {hook : ℕ → GovState → GovState} (hp : s.getProposal id = some p)
    (ho : IsOpen p) :
    addDeposit hook id amount (.ok ()) s = .ok () (hook id (deposited s p amount)) := by
  have hstatus : ¬ (p.status ≠ .StatusDepositPeriod ∧ p.status ≠ .StatusVotingPeriod) := by
    rw [not_and_or, not_not, not_not]
    exact ho
  simp only [addDeposit, Exec.get_bind, hp, Exec.failIf_bind, if_neg hstatus, Exec.ofExcept_bind,
    Exec.modify_bind, deposited]
  by_cases hact : Activates s p amount
  · have hc : p.status = .StatusDepositPeriod ∧
        isAllGTE (addCoinsTo p.totalDeposit amount) s.params.minDeposit = true := hact
    rw [if_pos hact, if_pos hc]
    rfl
  · have hc : ¬ (p.status = .StatusDepositPeriod ∧
        isAllGTE (addCoinsTo p.totalDeposit amount) s.params.minDeposit = true) := hact
    rw [if_neg hact, if_neg hc]
    rfl

/-- A proposal that is rewritten with its periods unchanged stays where it is. -/
private theorem consistent_setProposal (h : QueuesConsistent s) (hp : s.getProposal id = some p)
    (hid : q.proposalId = p.proposalId) (hv : votingDeadline q = votingDeadline p)
    (hd : depositDeadline q = depositDeadline p) : QueuesConsistent (s.setProposal q) := by
  have hkey : p.proposalId = id := h.stored hp
  refine h.of_write (t := s.setProposal q) (p := q) getProposal_setProposal ?_ (Nat.le_refl _) ?_ ?_
  · rw [hid, hkey]
    exact h.fresh hp
  · rw [hv, hid, hkey, Function.update_eq_self_iff.mpr (by rw [hp, Option.bind_some])]
    exact h.active
  · rw [hd, hid, hkey, Function.update_eq_self_iff.mpr (by rw [hp, Option.bind_some])]
    exact h.inactive

/-- Starting the vote moves the proposal from one queue to the other. -/
private theorem consistent_activateVotingPeriod (h : QueuesConsistent s)
    (hp : s.getProposal id = some p) (hd : p.status = .StatusDepositPeriod) :
    QueuesConsistent (s.activateVotingPeriod p) := by
  have hkey : p.proposalId = id := h.stored hp
  refine h.of_write (p := { p with
    votingStartTime := s.blockTime
    votingEndTime := s.blockTime + s.params.votingPeriod
    status := .StatusVotingPeriod }) (fun j => getProposal_setProposal j) ?_ (Nat.le_refl _) ?_ ?_
  · show p.proposalId < s.proposalID
    rw [hkey]
    exact h.fresh hp
  · refine h.active.insert (.inl ?_)
    rw [hkey, hp, Option.bind_some, votingDeadline, if_neg (by rw [hd]; decide)]
  · refine h.inactive.remove (.inr ?_)
    rw [hkey, hp, Option.bind_some, depositDeadline, if_pos hd]

private theorem consistent_deposited (h : QueuesConsistent s) (hp : s.getProposal id = some p) :
    QueuesConsistent (deposited s p amount) := by
  have hset : QueuesConsistent (s.setProposal (withDeposit p amount)) :=
    consistent_setProposal h hp rfl rfl rfl
  unfold deposited
  split
  · rename_i hact
    have hget : (s.setProposal (withDeposit p amount)).getProposal p.proposalId =
        some (withDeposit p amount) := by
      rw [getProposal_setProposal]
      exact if_pos rfl
    exact consistent_activateVotingPeriod hset hget hact.1
  · exact hset

/-! ## The hook -/

/-- The proposal with its vote ending a period after it started. -/
def withVotingPeriod (p : Proposal) (d : Duration) : Proposal :=
  { p with votingEndTime := p.votingStartTime + d }

/-- The proposal's vote moved to the end of the module's voting period. -/
def retimed (s : GovState) (id : ℕ) (p : Proposal) : GovState :=
  let endTime := p.votingStartTime + s.params.intrarelayer.tokenPairVotingPeriod
  ((s.removeFromActiveProposalQueue id p.votingEndTime).insertActiveProposalQueue id endTime)
    |>.setProposal (withVotingPeriod p s.params.intrarelayer.tokenPairVotingPeriod)

theorem getProposal_retimed (j : ℕ) : (retimed s id p).getProposal j =
    if j = p.proposalId then
      some (withVotingPeriod p s.params.intrarelayer.tokenPairVotingPeriod)
    else s.getProposal j :=
  KVStore.lookup_set

/-- **What the hook does**: it leaves everything as it is, or it moves one proposal, a
registration that is being voted on, and then the two voting periods differ. -/
theorem afterProposalDeposit_cases (id : ℕ) (s : GovState) :
    (afterProposalDeposit id s = s ∧
      (s.params.intrarelayer.tokenPairVotingPeriod = s.params.votingPeriod ∨
        ∀ p, s.getProposal id = some p → ¬ IsMovable p)) ∨
    ∃ p, s.getProposal id = some p ∧ IsMovable p ∧
      s.params.intrarelayer.tokenPairVotingPeriod ≠ s.params.votingPeriod ∧
      afterProposalDeposit id s = retimed s id p := by
  have hperiod : getVotingPeriod s ProposalTypeRegisterCoin =
      s.params.intrarelayer.tokenPairVotingPeriod := by
    rw [getVotingPeriod, if_pos rfl]
  unfold afterProposalDeposit
  rw [hperiod]
  -- the three early returns come in this order: the period, the proposal, its status and content
  by_cases hsame : s.params.intrarelayer.tokenPairVotingPeriod = s.params.votingPeriod
  · exact .inl ⟨if_pos hsame, .inl hsame⟩
  simp only [if_neg hsame]
  cases hp : s.getProposal id with
  | none => exact .inl ⟨rfl, .inr fun p h => by cases h⟩
  | some p =>
    by_cases hv : p.status = .StatusVotingPeriod
    · by_cases hr : p.content.isRegistration = true
      · -- the type is one of the two as well, since it goes with the Go type
        have htype := Content.proposalType_of_isRegistration hr
        refine .inr ⟨p, rfl, ⟨hr, hv⟩, hsame, ?_⟩
        simp only
        rw [if_neg (by simp [hv]), if_neg (by tauto), if_neg (by simp [hr])]
        rfl
      · refine .inl ⟨?_, .inr fun q hq hmov => hr (Option.some.inj hq ▸ hmov.1)⟩
        simp only
        rw [if_neg (by simp [hv]), if_pos hr, ite_self]
    · refine .inl ⟨?_, .inr fun q hq hmov => hv (Option.some.inj hq ▸ hmov.2)⟩
      simp only
      rw [if_pos hv]

/-- The hook takes out the entry it finds in the proposal, and enters the new one. -/
theorem consistent_afterProposalDeposit (h : QueuesConsistent s) :
    QueuesConsistent (afterProposalDeposit id s) := by
  rcases afterProposalDeposit_cases id s with ⟨heq, -⟩ | ⟨p, hp, hmov, -, heq⟩
  · rw [heq]
    exact h
  rw [heq]
  -- the stored proposal carries the identifier it is stored under
  have hkey : p.proposalId = id := h.stored hp
  have hlisted : (s.getProposal id).bind votingDeadline = some p.votingEndTime := by
    rw [hp, Option.bind_some, votingDeadline, if_pos hmov.2]
  refine h.of_write (p := withVotingPeriod p s.params.intrarelayer.tokenPairVotingPeriod)
    (fun j => getProposal_setProposal j) ?_ (Nat.le_refl _) ?_ ?_
  · show p.proposalId < s.proposalID
    rw [hkey]
    exact h.fresh hp
  -- out of the queue at the old end of the vote, in again at the new one
  · have hmoved := (h.active.remove (.inr hlisted)).insert (i := id)
      (t := p.votingStartTime + s.params.intrarelayer.tokenPairVotingPeriod)
      (.inl (Function.update_self ..))
    rw [Function.update_idem] at hmoved
    have hnew : votingDeadline (withVotingPeriod p s.params.intrarelayer.tokenPairVotingPeriod) =
        some (p.votingStartTime + s.params.intrarelayer.tokenPairVotingPeriod) :=
      if_pos hmov.2
    rw [hnew]
    exact hkey ▸ hmoved
  -- the other queue has no entry for a proposal in its voting period, before and after
  · show DeadlineQueue.Lists s.inactiveQueue (Function.update _ p.proposalId (depositDeadline p))
    rw [hkey, Function.update_eq_self_iff.mpr (by rw [hp, Option.bind_some])]
    exact h.inactive

/-- **The hook leaves alone every proposal it has no business with.** -/
theorem getProposal_afterProposalDeposit (h : QueuesConsistent s) {j : ℕ}
    (hq : s.getProposal j = some q) (hmov : ¬ IsMovable q) :
    (afterProposalDeposit id s).getProposal j = some q := by
  rcases afterProposalDeposit_cases id s with ⟨heq, -⟩ | ⟨p, hp, hp', -, heq⟩
  · rw [heq]
    exact hq
  · rw [heq, getProposal_retimed]
    split
    · rename_i hj
      have hj' : j = id := hj.trans (h.stored hp)
      subst hj'
      rw [hq] at hp
      exact absurd (Option.some.inj hp ▸ hp') hmov
    · exact hq

/-! ## Submissions and blocks -/

/-- The proposal that a submission makes. -/
def freshProposal (s : GovState) (content : Content) : Proposal :=
  newProposal content s.proposalID s.blockTime (s.blockTime + s.params.maxDepositPeriod)

/-- The state with a proposal submitted. -/
def submitted (s : GovState) (content : Content) : GovState :=
  { (s.setProposal (freshProposal s content)).insertInactiveProposalQueue s.proposalID
      (freshProposal s content).depositEndTime with proposalID := s.proposalID + 1 }

theorem getProposal_submitted {content : Content} : (submitted s content).getProposal j =
    if j = s.proposalID then some (freshProposal s content) else s.getProposal j :=
  KVStore.lookup_set

theorem submitProposal_ok {content : Content} {dryRun : Except GoError Unit}
    (h : submitProposal content dryRun s = .ok id t) :
    id = s.proposalID ∧ t = submitted s content := by
  simp only [submitProposal, Exec.get_bind] at h
  obtain ⟨_, _, hdry, h⟩ := Exec.bind_ok_iff.mp h
  obtain ⟨-, rfl⟩ := Exec.ofExcept_ok_iff.mp hdry
  rw [Exec.modify_bind] at h
  obtain ⟨hid, ht⟩ := Exec.pure_ok_iff.mp h
  exact ⟨hid.symm, ht.symm⟩

/-- A new proposal takes the next ID, which no proposal has. -/
theorem consistent_submitted {content : Content} (h : QueuesConsistent s) :
    QueuesConsistent (submitted s content) := by
  have hnone : s.getProposal s.proposalID = none := by
    cases hp : s.getProposal s.proposalID with
    | none => rfl
    | some p => exact absurd (h.fresh hp) (Nat.lt_irrefl _)
  refine h.of_write (p := freshProposal s content) (fun j => getProposal_submitted)
    (Nat.lt_succ_self _) (Nat.le_succ _) ?_ ?_
  · show DeadlineQueue.Lists s.activeQueue (Function.update _ s.proposalID none)
    rw [Function.update_eq_self_iff.mpr (by rw [hnone, Option.bind_none])]
    exact h.active
  · exact h.inactive.insert (.inl (by rw [hnone, Option.bind_none]))

theorem dueProposal_ok_iff : dueProposal id s = .ok p t ↔ s.getProposal id = some p ∧ s = t := by
  simp only [dueProposal, Exec.get_bind]
  cases hp : s.getProposal id with
  | none => simp [Exec.panicWith, Exec.throw_run]
  | some q => simp [Exec.pure_ok_iff]

/-- The state without one proposal. -/
def dropped (s : GovState) (id : ℕ) (p : Proposal) : GovState :=
  let s := s.removeFromInactiveProposalQueue id p.depositEndTime
  let s := s.removeFromActiveProposalQueue id p.votingEndTime
  { s with proposals := s.proposals.delete id }

/-- The state after the tally of one proposal. -/
def tallied (s : GovState) (verdict : Proposal → Verdict) (p : Proposal) : GovState :=
  let s := { s with params := (verdict p).params s.params }
  (s.setProposal { p with status := (verdict p).status }).removeFromActiveProposalQueue
    p.proposalId p.votingEndTime

theorem getProposal_dropped (j : ℕ) : (dropped s id p).getProposal j =
    if j = id then none else s.getProposal j :=
  KVStore.lookup_delete

theorem getProposal_tallied {verdict : Proposal → Verdict} (j : ℕ) :
    (tallied s verdict p).getProposal j =
      if j = p.proposalId then some { p with status := (verdict p).status }
      else s.getProposal j :=
  KVStore.lookup_set

/-- A proposal that is there can be dropped. -/
theorem dropInactive_run (h : QueuesConsistent s) (hp : s.getProposal id = some p) :
    dropInactive id s = .ok () (dropped s id p) := by
  have hkey : p.proposalId = id := h.stored hp
  refine (Exec.bind_of_ok (dueProposal_ok_iff.mpr ⟨hp, rfl⟩)).trans ?_
  simp only [deleteProposal, Exec.get_bind, hkey, hp]
  exact Exec.modify_run ..

theorem tallyActive_run {verdict : Proposal → Verdict} (hp : s.getProposal id = some p) :
    tallyActive verdict id s = .ok () (tallied s verdict p) := by
  refine (Exec.bind_of_ok (dueProposal_ok_iff.mpr ⟨hp, rfl⟩)).trans ?_
  simp only [Exec.modify_bind]
  exact Exec.modify_run ..

theorem consistent_dropped (h : QueuesConsistent s) (hp : s.getProposal id = some p) :
    QueuesConsistent (dropped s id p) := by
  -- dropping `p` clears each deadline table at one place
  have hdeadline : ∀ d : Proposal → Option Time,
      (fun j => ((dropped s id p).getProposal j).bind d) =
        Function.update (fun j => (s.getProposal j).bind d) id none := by
    intro d
    ext1 j
    rw [getProposal_dropped, Function.update_apply]
    split <;> rfl
  have hkept : ∀ {j q}, (dropped s id p).getProposal j = some q → s.getProposal j = some q := by
    intro j q hq
    rw [getProposal_dropped] at hq
    split at hq
    · cases hq
    · exact hq
  refine ⟨fun hq => h.stored (hkept hq), fun hq => h.fresh (hkept hq), ?_, ?_⟩
  · rw [hdeadline]
    -- a proposal with no deadline was not in the queue, and need not be removed from it
    refine h.active.remove ?_
    rw [hp, Option.bind_some, votingDeadline]
    split
    · exact .inr rfl
    · exact .inl rfl
  · rw [hdeadline]
    refine h.inactive.remove ?_
    rw [hp, Option.bind_some, depositDeadline]
    split
    · exact .inr rfl
    · exact .inl rfl

theorem consistent_tallied {verdict : Proposal → Verdict} (h : QueuesConsistent s)
    (hp : s.getProposal id = some p) (hv : p.status = .StatusVotingPeriod) :
    QueuesConsistent (tallied s verdict p) := by
  have hkey : p.proposalId = id := h.stored hp
  -- the tally ends in a status that neither queue lists
  have hfinal := (verdict p).status_ne
  refine h.of_write (p := { p with status := (verdict p).status })
    (fun j => getProposal_tallied j) ?_ (Nat.le_refl _) ?_ ?_
  · show p.proposalId < s.proposalID
    rw [hkey]
    exact h.fresh hp
  · have hnone : votingDeadline { p with status := (verdict p).status } = none :=
      if_neg hfinal.1
    rw [hnone]
    refine h.active.remove (.inr ?_)
    rw [hkey, hp, Option.bind_some, votingDeadline, if_pos hv]
  · have hnone : depositDeadline { p with status := (verdict p).status } = none :=
      if_neg hfinal.2
    show DeadlineQueue.Lists s.inactiveQueue (Function.update _ p.proposalId _)
    rw [hnone, hkey, Function.update_eq_self_iff.mpr]
    · exact h.inactive
    · rw [hp, Option.bind_some, depositDeadline, if_neg (by rw [hv]; decide)]

/-- What the end of a block can do to proposals: one may be dropped, or get its verdict. -/
structure Settles (s t : GovState) : Prop where
  ids : t.proposalID = s.proposalID
  proposals : ∀ j, t.getProposal j = s.getProposal j ∨ t.getProposal j = none ∨
    ∃ p, ∃ v : Verdict, s.getProposal j = some p ∧
      t.getProposal j = some { p with status := v.status }

instance : Std.Refl Settles := ⟨fun _ => ⟨rfl, fun _ => .inl rfl⟩⟩

instance : IsTrans GovState Settles where
  trans s t v hst htv := by
    refine ⟨htv.ids.trans hst.ids, fun j => ?_⟩
    rcases htv.proposals j with hv | hv | ⟨p, w, hp, hv⟩
    · rw [hv]
      exact hst.proposals j
    · exact .inr (.inl hv)
    · -- a second verdict would replace the first
      rcases hst.proposals j with ht | ht | ⟨q, w', hq, ht⟩
      · exact .inr (.inr ⟨p, w, ht ▸ hp, hv⟩)
      · rw [ht] at hp
        cases hp
      · obtain rfl := Option.some.inj (ht.symm.trans hp)
        exact .inr (.inr ⟨q, w, hq, hv⟩)

private theorem settles_dropped : Settles s (dropped s id p) := by
  refine ⟨rfl, fun j => ?_⟩
  rw [getProposal_dropped]
  split
  · exact .inr (.inl rfl)
  · exact .inl rfl

private theorem settles_tallied {verdict : Proposal → Verdict} (h : QueuesConsistent s)
    (hp : s.getProposal id = some p) : Settles s (tallied s verdict p) := by
  refine ⟨rfl, fun j => ?_⟩
  rw [getProposal_tallied]
  split
  · rename_i hj
    exact .inr (.inr ⟨p, verdict p, by rw [hj, h.stored hp, hp], rfl⟩)
  · exact .inl rfl

/-- A loop over different proposals, each of them there and in the state the round needs,
completes, if a round touches its own proposal only. -/
private theorem forM_rounds {f : ℕ → Exec GoError GovState PUnit} {C : Proposal → Prop}
    (hround : ∀ {s id p}, QueuesConsistent s → s.getProposal id = some p → C p →
      ∃ t, f id s = .ok ⟨⟩ t ∧ QueuesConsistent t ∧ Settles s t ∧
        ∀ j, j ≠ id → t.getProposal j = s.getProposal j)
    {l : List ℕ} (hl : l.Nodup) (hs : QueuesConsistent s)
    (hp : ∀ id ∈ l, ∃ p, s.getProposal id = some p ∧ C p) :
    ∃ t, forM l f s = .ok ⟨⟩ t ∧ QueuesConsistent t ∧ Settles s t := by
  induction l generalizing s with
  | nil => exact ⟨s, rfl, hs, Std.Refl.refl s⟩
  | cons id rest ih =>
    obtain ⟨hnot, hrest⟩ := List.nodup_cons.mp hl
    obtain ⟨p, hid, hc⟩ := hp id (List.mem_cons_self ..)
    obtain ⟨v, hv, hcons, hsv, hsame⟩ := hround hs hid hc
    -- the rest of the list finds its proposals as they were
    obtain ⟨t, ht, htcons, hvt⟩ := ih hrest hcons fun j hj => by
      rw [hsame j fun heq => hnot (heq ▸ hj)]
      exact hp j (List.mem_cons_of_mem _ hj)
    exact ⟨t, Exec.forM_cons_ok_iff.mpr ⟨v, hv, ht⟩, htcons, Trans.trans hsv hvt⟩

/-- **The end of a block never panics**, and leaves both queues right. -/
theorem endBlocker_run (verdict : Proposal → Verdict) (h : QueuesConsistent s) :
    ∃ t, endBlocker verdict s = .ok () t ∧ QueuesConsistent t ∧ Settles s t := by
  -- the deposits that ran out, over the queue as it was when the block ended
  obtain ⟨v, hv, hcons, hsv⟩ := forM_rounds (f := dropInactive) (C := fun _ => True)
    (fun {s id p} hs hp _ => ⟨_, dropInactive_run hs hp, consistent_dropped hs hp,
      settles_dropped, fun j hj => by rw [getProposal_dropped, if_neg hj]⟩)
    (h.inactive.nodup_due s.blockTime) h fun id hid => by
      obtain ⟨_, -, hf⟩ := h.inactive.mem_due_iff.mp hid
      obtain ⟨p, hp, -⟩ := Option.bind_eq_some_iff.mp hf
      exact ⟨p, hp, trivial⟩
  -- then the votes that ended; a proposal in the active queue is in its voting period
  obtain ⟨t, ht, htcons, hvt⟩ := forM_rounds (f := tallyActive verdict)
    (C := fun p => p.status = .StatusVotingPeriod)
    (fun {s id p} hs hp hc => ⟨_, tallyActive_run hp, consistent_tallied hs hp hc,
      settles_tallied hs hp, fun j hj => by
        rw [getProposal_tallied, if_neg (by rw [hs.stored hp]; exact hj)]⟩)
    (hcons.active.nodup_due v.blockTime) hcons fun id hid => by
      obtain ⟨_, -, hf⟩ := hcons.active.mem_due_iff.mp hid
      obtain ⟨p, hp, hd⟩ := Option.bind_eq_some_iff.mp hf
      refine ⟨p, hp, ?_⟩
      unfold votingDeadline at hd
      split at hd
      · assumption
      · cases hd
  refine ⟨t, ?_, htcons, Trans.trans hsv hvt⟩
  rw [endBlocker, Exec.get_bind]
  exact (Exec.bind_of_ok hv).trans ht

/-! ## Steps and runs -/

/-- What an operation can make of the state. -/
inductive GovStepped (s : GovState) (op : GovOp) : GovState → Prop where
  | failed {e : Failure GoError} {t : GovState} (herr : op.exec s = .error e t) :
    GovStepped s op s
  | submitted {dryRun payment : Except GoError Unit} (content : Content) (amount : List Coin)
    (hop : op = .submitProposal content dryRun amount payment) :
    GovStepped s op (afterProposalDeposit s.proposalID
      (deposited (submitted s content) (freshProposal s content) amount))
  | deposited (id : ℕ) (p : Proposal) (amount : List Coin)
    (hop : op = .deposit id amount (.ok ())) (hp : s.getProposal id = some p) (ho : IsOpen p) :
    GovStepped s op (afterProposalDeposit id (deposited s p amount))
  | params (params : GovParams) (hop : op = .setParams params) :
    GovStepped s op { s with params }
  | time (blockTime : Time) (hop : op = .advanceTime blockTime) :
    GovStepped s op { s with blockTime }
  | ended {t : GovState} (verdict : Proposal → Verdict) (hop : op = .endBlock verdict)
    (hcons : QueuesConsistent t) (hsettles : Settles s t) : GovStepped s op t

/-- **What a step can do**, from right queues. -/
theorem govStep_cases (h : QueuesConsistent s) (op : GovOp) :
    GovStepped s op (govStep s op) := by
  cases hok : op.exec s with
  | error e t =>
    have hstep : govStep s op = s := Exec.deliver_of_error hok
    rw [hstep]
    exact .failed hok
  | ok u t =>
    have hstep : govStep s op = t := Exec.deliver_of_ok hok
    rw [hstep]
    cases op with
    | submitProposal content dryRun initialDeposit payment =>
      obtain ⟨id, v, hsub, hdep⟩ := Exec.bind_ok_iff.mp hok
      obtain ⟨rfl, rfl⟩ := submitProposal_ok hsub
      obtain ⟨p, hp, -, -, rfl⟩ := addDeposit_ok hdep
      -- the deposit is on the proposal that was just stored
      obtain rfl := Option.some.inj ((getProposal_submitted.trans (if_pos rfl)).symm.trans hp)
      exact .submitted content initialDeposit rfl
    | deposit id amount payment =>
      obtain ⟨p, hp, ho, rfl, rfl⟩ := addDeposit_ok hok
      exact .deposited id p amount rfl hp ho
    | setParams params =>
      obtain rfl := Exec.modify_ok_iff.mp hok
      exact .params params rfl
    | advanceTime blockTime =>
      obtain rfl := Exec.modify_ok_iff.mp hok
      exact .time blockTime rfl
    | endBlock verdict =>
      obtain ⟨w, hw, hcons, hsettles⟩ := endBlocker_run verdict h
      obtain rfl : w = t := (EStateM.Result.ok.inj (hw.symm.trans hok)).2
      exact .ended verdict rfl hcons hsettles

/-- **One step.** -/
theorem consistent_govStep (h : QueuesConsistent s) : QueuesConsistent (govStep s op) := by
  have hstep := govStep_cases h op
  generalize govStep s op = t at hstep ⊢
  cases hstep with
  | failed _ => exact h
  | submitted content amount _ =>
    exact consistent_afterProposalDeposit
      (consistent_deposited (consistent_submitted h) (getProposal_submitted.trans (if_pos rfl)))
  | deposited id p amount _ hp _ =>
    exact consistent_afterProposalDeposit (consistent_deposited h hp)
  | params _ _ => exact ⟨h.stored, h.fresh, h.active, h.inactive⟩
  | time _ _ => exact ⟨h.stored, h.fresh, h.active, h.inactive⟩
  | ended _ _ hcons _ => exact hcons

/-- The hook is called in `t`, on a proposal: one of `s` that was deposited on, or one that was
submitted in `s` together with its first deposit. -/
inductive HookCalled (s : GovState) : ℕ → GovState → Prop where
  | deposit {id : ℕ} {p : Proposal} (amount : List Coin) (hp : s.getProposal id = some p) :
    HookCalled s id (deposited s p amount)
  | submitProposal (content : Content) (amount : List Coin) : HookCalled s s.proposalID
    (deposited (submitted s content) (freshProposal s content) amount)

theorem HookCalled.consistent (hc : HookCalled s id t) (h : QueuesConsistent s) :
    QueuesConsistent t := by
  cases hc with
  | deposit amount hp => exact consistent_deposited h hp
  | submitProposal content amount =>
    exact consistent_deposited (consistent_submitted h)
      (getProposal_submitted.trans (if_pos rfl))

/-- **The active queue over whole runs.** It lists what is being voted on, and wherever the hook
is called it leaves alone the proposals it has no business with. -/
theorem activeQueue_of_run {s₀ : GovState} (h : QueuesConsistent s₀) (ops : List GovOp) :
    ActiveQueueConsistent (run govStep s₀ ops) ∧
      ∀ id v, HookCalled (run govStep s₀ ops) id v → ∀ j q, v.getProposal j = some q →
        ¬ IsMovable q → (afterProposalDeposit id v).getProposal j = some q := by
  have hrun : QueuesConsistent (run govStep s₀ ops) :=
    run_preserves (C := fun _ _ => True) (fun _ _ hs _ => consistent_govStep hs) h
      (along_of_mem (E := fun _ => True) fun _ _ => trivial)
  exact ⟨hrun.activeQueueConsistent, fun id v hc j q hq hmov =>
    getProposal_afterProposalDeposit (hc.consistent hrun) hq hmov⟩

/-! ## A proposal whose vote is moved -/

/-- A chain on which nothing has been proposed yet: governance votes for 100, the module for a
tenth of that. -/
def quietGov : GovState where
  blockTime := 0
  params := ⟨100, 50, [⟨"aevmos", newIntFromUint64 10⟩], ⟨true, 10, true⟩⟩
  proposalID := 1
  proposals := ∅
  activeQueue := ∅
  inactiveQueue := ∅

theorem quietGov_consistent : QueuesConsistent quietGov :=
  queuesConsistent_of_empty rfl rfl rfl

/-- To register a contract. -/
def registerTokenE : Content :=
  .registerERC20 ⟨"Token E", "register it", "0x1111111111111111111111111111111111111111"⟩

/-- A registration goes into its vote at once, another proposal only with its second deposit, and
governance changes its mind about the module's voting period in between. -/
def busyVote : List GovOp :=
  [.submitProposal registerTokenE (.ok ()) [⟨"aevmos", newIntFromUint64 10⟩] (.ok ()),
    .submitProposal (.other "gov" "Text") (.ok ()) [] (.ok ()),
    .advanceTime 5,
    .setParams ⟨100, 50, [⟨"aevmos", newIntFromUint64 10⟩], ⟨true, 7, true⟩⟩,
    .deposit 1 [] (.ok ()),
    .deposit 2 [⟨"aevmos", newIntFromUint64 12⟩] (.ok ()),
    .advanceTime 8,
    .endBlock fun _ => .rejected]

theorem activeQueue_of_run_busyVote :
    (ActiveQueueConsistent (run govStep quietGov busyVote) ∧
      ∀ id v, HookCalled (run govStep quietGov busyVote) id v → ∀ j q, v.getProposal j = some q →
        ¬ IsMovable q → (afterProposalDeposit id v).getProposal j = some q) ∧
    (run govStep quietGov busyVote).activeQueue.entries = [(⟨105, 2⟩, 2)] :=
  ⟨activeQueue_of_run quietGov_consistent busyVote, by decide +kernel⟩

end GenesisEthermint.Governance
