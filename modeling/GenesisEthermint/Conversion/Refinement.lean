import GenesisEthermint.Conversion.Ahead
import GenesisEthermint.Registry.Genesis

/-!
# The Hook Replays Messages

Over whole transactions, with any logs of enabled pairs, the hook path refines the message path:
a replay of the transaction with messages in the place of the transfers to the module ends with
the same coins and the same tokens. A log of a disabled pair is the exception. It fails the
transaction, whoever the transfer was for.
-/

namespace GenesisEthermint.Conversion

open GenesisEthermint.Foundation GenesisEthermint.Types GenesisEthermint.Chain
open GenesisEthermint.Intrarelayer GenesisEthermint.Registry GenesisEthermint.Tokens
open GenesisEthermint.Hook

variable {W : Type} {k : Keeper W} {s t u v h : State W} {p q : TokenPair} {a c : Address} {n : ℕ}
  {book : Address → W → Ledger Address} {Sound : Address → W → Prop} {S : Finset Address}
  {m : Movement} {log : Log} {logs : List Log} {ev : TransferEvent} {msg : MsgConvertERC20}
  {res : EvmResult W}

/-! ## Whole transactions -/

section WholeTransactions

variable {B : Address → Ledger Address} {hs : List TokenHappening} {tx : Message}

/-- The next step of a replay that does not get stuck. -/
private theorem exists_replayStep {x : TokenHappening} (hcan : CanReplay k book u x)
    (hpossible : Replayable k book Sound S (x :: hs)) (hsound : ∀ c ∈ S, Sound c u.evm) :
    ∃ v, ReplayStep k book Sound S x u v := by
  have hx := List.mem_cons_self (a := x) (l := hs)
  cases x with
  | outside log => exact ⟨u, .outside log u⟩
  | step c m e =>
    obtain ⟨hallows, hsubmits⟩ := hcan
    cases hconv : conversionOf k.moduleAddress m with
    | none =>
      obtain ⟨v, hkept⟩ := hpossible.keeps c m e hx hconv u hsound (hallows hconv)
      exact ⟨v, .kept hconv hkept⟩
    | some sent =>
      obtain ⟨a, n⟩ := sent
      obtain ⟨msg, hmsg⟩ := hpossible.texts c m e hx a n hconv
      obtain ⟨v, hv⟩ := hsubmits a n msg hconv hmsg
      exact ⟨v, .converted hconv hmsg hv⟩

/-- **The log loop and the replay**, by induction on what happened. -/
theorem ahead_run (hset : Setting k book Sound S s) (husual : ∀ x ∈ hs, Usual k S s x)
    (hahead : Ahead k book Sound S s hs B h) :
    ∃ t, forM (hs.filterMap Happening.entry) (processLog k) h = .ok ⟨⟩ t ∧
      ∀ u, Follows book Sound S s B h u →
        (∀ before x after w, hs = before ++ x :: after → Replay k book Sound S before u w →
          CanReplay k book w x) ∧
        (∀ t', Replay k book Sound S hs u t' →
          t'.bank.ledger = t.bank.ledger ∧ ∀ c ∈ S, book c t'.evm = book c t.evm) ∧
        (Replayable k book Sound S hs → ∃ t', Replay k book Sound S hs u t') := by
  -- on what is still to come; the hook stays ahead of the replay by what it has settled
  induction hs generalizing B h with
  | nil =>
    refine ⟨h, rfl, fun u hfollows => ⟨fun before x after w heq => ?_, fun t' hreplay => ?_,
      fun _ => ⟨u, .nil u⟩⟩⟩
    · exact absurd heq.symm (by simp)
    · -- nothing is left to come, so the hook is where the replay is
      cases hreplay with
      | nil =>
        refine ⟨hfollows.bank, fun c hc => ?_⟩
        rw [hfollows.books c hc]
        exact (hahead.posts c hc).eq_of_nil.symm
  | cons x hs ih =>
    obtain ⟨B', h', hx, hahead', hstep⟩ := ahead_step hset (husual x (List.mem_cons_self ..)) hahead
    obtain ⟨t, ht, hrun⟩ := ih (fun y hy => husual y (List.mem_cons_of_mem _ hy)) hahead'
    refine ⟨t, ?_, fun u hfollows => ⟨fun before y after w heq hreplay => ?_,
      fun t' hreplay => ?_, fun hpossible => ?_⟩⟩
    -- the hook goes over the logs of the first happening, then over those of the rest
    · have hentries : (x :: hs).filterMap Happening.entry =
          x.entry.toList ++ hs.filterMap Happening.entry := by
        rw [List.filterMap_cons]
        cases x.entry <;> rfl
      rw [hentries]
      exact Exec.forM_append_ok_iff.mpr ⟨h', hx, ht⟩
    -- a prefix of the history is empty or begins with the first happening
    · cases hreplay with
      | nil =>
        obtain ⟨rfl, -⟩ := List.cons.inj heq
        exact (hstep u hfollows).1
      | cons hfirst hrest =>
        obtain ⟨rfl, htail⟩ := List.cons.inj heq
        exact (hrun _ ((hstep u hfollows).2 _ hfirst)).1 _ y after w htail hrest
    · cases hreplay with
      | cons hfirst hrest => exact (hrun _ ((hstep u hfollows).2 _ hfirst)).2.1 t' hrest
    · obtain ⟨hcan, hnext⟩ := hstep u hfollows
      obtain ⟨v, hfirst⟩ := exists_replayStep hcan hpossible hfollows.sound
      obtain ⟨t', hrest⟩ := (hrun v (hnext v hfirst)).2.2 hpossible.tail
      exact ⟨t', .cons hfirst hrest⟩

/-- The happenings of a trace are usual when its logs are. -/
private theorem usual_of_trace (htrace : Trace k book S s.evm res hs)
    (hen : NoneDisabled s.registry res.logs)
    (hscope : ∀ log ∈ res.logs, ∀ ev p, transferOf log = some ev →
      pairOfContract s.registry log.address = some p → log.address ∈ S)
    (hordinary : ∀ log ∈ res.logs, ∀ ev, transferOf log = some ev → log.address ∈ S →
      ev.recipient = k.moduleAddress → Ordinary k s ev.sender) :
    ∀ x ∈ hs, Usual k S s x := by
  intro x hx
  have hfits := htrace.fits x hx
  cases x with
  | outside log =>
    -- a log outside the scope belongs to no pair, or the scope would contain it
    have hlog : log ∈ res.logs := by
      rw [← htrace.logs]
      exact List.mem_filterMap.mpr ⟨_, hx, rfl⟩
    intro ev htr
    have hout : log.address ∉ S := hfits _ (by rw [readLog, htr]; rfl)
    cases hpair : pairOfContract s.registry log.address with
    | none => rfl
    | some p => exact absurd (hscope log hlog ev p htr hpair) hout
  | step c m e =>
    -- a movement that is reported has its log, and the log says what the movement says
    have hlogged : ∀ said, m.reported = some said →
        ∃ log ∈ res.logs, ∃ ev, transferOf log = some ev ∧ log.address = c ∧ parts ev = said := by
      intro said hrep
      have hread := hfits.2
      rw [hrep] at hread
      obtain ⟨log, rfl, hread⟩ := Option.bind_eq_some_iff.mp hread
      obtain ⟨ev, htr, heq⟩ := Option.map_eq_some_iff.mp hread
      obtain ⟨haddr, hparts⟩ := Prod.mk.inj heq
      refine ⟨log, ?_, ev, htr, haddr, hparts⟩
      rw [← htrace.logs]
      exact List.mem_filterMap.mpr ⟨_, hx, rfl⟩
    refine ⟨hfits.1, hfits.2, fun said p hrep hpair => ?_, fun a n hrep => ?_⟩
    · obtain ⟨log, hlog, ev, htr, rfl, -⟩ := hlogged said hrep
      exact hen log hlog ev p htr hpair
    · obtain ⟨log, hlog, ev, htr, rfl, hparts⟩ := hlogged _ hrep
      obtain ⟨rfl, hrec, -⟩ := by simpa only [parts, Prod.mk.injEq] using hparts
      exact hordinary log hlog ev htr hfits.1 hrec

/-- After the transaction's own message, the hook is ahead by everything that happened. -/
private theorem ahead_afterTx (hset : Setting k book Sound S s)
    (hsound : ∀ c ∈ S, Sound c s.evm)
    (hsolvent : ∀ p, Stored s.registry p → p.getERC20Contract ∈ S →
      PairSolvent k p (book p.getERC20Contract s.evm) s)
    (hsigner : tx.sender ≠ k.moduleAddress)
    (happ : k.evm.applyMessage s.evm s.accounts tx = .ok res) (hf : res.failed = false)
    (htrace : Trace k book S s.evm res hs) :
    Ahead k book Sound S s hs (fun c => book c s.evm) (afterTx s res) := by
  -- a transaction of a user is no call of the module
  have hnot : ∀ c, ¬ FromModuleTo k c tx := fun c hm => hsigner hm.1
  refine ⟨rfl, hset.keepsAccounts happ _ hset.account, fun c hc => ?_, htrace.posts,
    htrace.spares, fun p hp hpS => ?_⟩
  · obtain ⟨p, rfl, htr⟩ := hset.contracts c hc
    exact (htr.eip20.moved (hsound _ hc) happ hf (hnot _)).1
  · have hsolv := hsolvent p hp hpS
    refine ⟨hsolv.covered, hsolv.bounded, fun ho => ?_, fun ho => ?_, hsolv.backing⟩
    · cases (hset.tracked hp hpS).service with
      | ofModule _ serves => exact serves.covered (hsound _ hpS)
      | ofOthers owner _ =>
        rw [ho] at owner
        cases owner
    · cases (hset.tracked hp hpS).service with
      | ofModule _ serves =>
        exact (serves.supply_le (hsound _ hpS) happ (hnot _)).trans (hsolv.escrow ho)
      | ofOthers owner _ =>
        rw [ho] at owner
        cases owner

/-- **The hook replays the messages of a transaction.** The transaction succeeds with the hook. It
has a trace, and a replay of any trace of it, with the sender's own message in the place of each
transfer to the module, never gets stuck, ends with the same coins and the same tokens, and exists
as soon as the kept movements and the messages do. -/
def HookReplays (k : Keeper W) (book : Address → W → Ledger Address)
    (Sound : Address → W → Prop) (S : Finset Address) (tx : Message) (res : EvmResult W)
    (s : State W) : Prop :=
  ∃ t, applyTransaction k tx s = .ok () t ∧ (∃ hs, Trace k book S s.evm res hs) ∧
    ∀ hs, Trace k book S s.evm res hs →
      (∀ before x after u, hs = before ++ x :: after → Replay k book Sound S before s u →
        CanReplay k book u x) ∧
      (∀ t', Replay k book Sound S hs s t' →
        t'.bank.ledger = t.bank.ledger ∧ ∀ c ∈ S, book c t'.evm = book c t.evm) ∧
      (Replayable k book Sound S hs → ∃ t', Replay k book Sound S hs s t')

/-- A transaction that succeeds with the hook logged no transfer of a disabled pair. -/
theorem HookReplays.noneDisabled (h : HookReplays k book Sound S tx res s)
    (happ : k.evm.applyMessage s.evm s.accounts tx = .ok res) :
    NoneDisabled s.registry res.logs := by
  obtain ⟨t, ht, -⟩ := h
  obtain ⟨res', happ', -, hhook⟩ := applyTransaction_ok_iff.mp ht
  obtain rfl := Except.ok.inj (happ.symm.trans happ')
  obtain ⟨-, hloop⟩ := postTxProcessing_ok_iff.mp hhook
  exact noneDisabled_of_forM_ok (s := afterTx s res) hloop

section Refines

variable (hset : Setting k book Sound S s) (hhook : s.params.enableEVMHook = true)
  (hsound : ∀ c ∈ S, Sound c s.evm)
  (hsolvent : ∀ p, Stored s.registry p → p.getERC20Contract ∈ S →
    PairSolvent k p (book p.getERC20Contract s.evm) s)
  (hsigner : tx.sender ≠ k.moduleAddress)
  (happ : k.evm.applyMessage s.evm s.accounts tx = .ok res) (hf : res.failed = false)
  (hscope : ∀ log ∈ res.logs, ∀ ev p, transferOf log = some ev →
    pairOfContract s.registry log.address = some p → log.address ∈ S)
  (hordinary : ∀ log ∈ res.logs, ∀ ev, transferOf log = some ev → log.address ∈ S →
    ev.recipient = k.moduleAddress → Ordinary k s ev.sender)
include hset hhook hsound hsolvent hsigner happ hf hscope hordinary

/-- Whatever its logs are, as long as they are of enabled pairs. -/
theorem hookReplays_of_noneDisabled (hen : NoneDisabled s.registry res.logs) :
    HookReplays k book Sound S tx res s := by
  have heip20 : ∀ c ∈ S, Eip20 k c (book c) (Sound c) := by
    intro c hc
    obtain ⟨p, rfl, htr⟩ := hset.contracts c hc
    exact htr.eip20
  have hstart : Follows book Sound S s (fun c => book c s.evm) (afterTx s res) s :=
    ⟨rfl, rfl, fun _ hx => hx, hsound, fun _ _ => rfl⟩
  have hrun : ∀ hs, Trace k book S s.evm res hs → _ := fun hs htrace =>
    ahead_run hset (usual_of_trace htrace hen hscope hordinary)
      (ahead_afterTx hset hsound hsolvent hsigner happ hf htrace)
  obtain ⟨hs₀, htrace₀⟩ := exists_trace heip20 hsound happ hf hsigner
  obtain ⟨t, ht, -⟩ := hrun hs₀ htrace₀
  rw [htrace₀.logs] at ht
  refine ⟨t, applyTransaction_ok_iff.mpr ⟨res, happ, hf, postTxProcessing_ok_iff.mpr ⟨hhook, ht⟩⟩,
    ⟨hs₀, htrace₀⟩, fun hs htrace => ?_⟩
  obtain ⟨t', ht', hreplay⟩ := hrun hs htrace
  rw [htrace.logs, ht] at ht'
  obtain rfl := (EStateM.Result.ok.inj ht').2
  exact hreplay s hstart

/-- **The hook path refines the message path while the pairs are on.** A transaction whose
execution succeeds is replayed by messages exactly when every registered pair whose contract
logged a positive transfer in it, to whomever, is enabled. -/
theorem hook_replays_messages_iff :
    HookReplays k book Sound S tx res s ↔ NoneDisabled s.registry res.logs :=
  ⟨fun h => h.noneDisabled happ, hookReplays_of_noneDisabled hset hhook hsound hsolvent hsigner
    happ hf hscope hordinary⟩

end Refines

end WholeTransactions

/-! ## Transactions on the reference machine -/

section Batch

variable {on : Bool}

/-- Alice sends 5 tokens of one contract to the module and 2 to bob, and bob sends 3 tokens of the
other one to the module. -/
def batch : List TokenCall := [
  ⟨alice, tokenA, .transfer, [.address moduleAccount, .uint256 5]⟩,
  ⟨alice, tokenA, .transfer, [.address bob, .uint256 2]⟩,
  ⟨bob, tokenE, .transfer, [.address moduleAccount, .uint256 3]⟩]

/-- A machine whose raw payloads are all that script. -/
def batchKeeper : Keeper TokenWorld :=
  keeperOver (referenceEvm referenceCreateAddress fun _ _ => batch)

def batchTx : Message := ⟨alice, some tokenA, 0, .raw []⟩

/-- The third party's pair, switched on or off. -/
def switchedPair (on : Bool) : TokenPair := { pairA with enabled := on }

/-- The deployment with the third party's pair switched on or off. -/
def batchState (on : Bool) : State TokenWorld :=
  initGenesis batchKeeper ⟨⟨true, 172800000000000, true⟩, [switchedPair on, pairE]⟩
    (referenceState referenceWorld)

def batchBook (c : Address) (w : TokenWorld) : Ledger Address := (tokenAt c w).ledger

/-- The module's own token serves it, and the other one is in nobody's hands but the users'. -/
def batchSound (c : Address) : TokenWorld → Prop :=
  if c = tokenE then
    OzContract.Serving batchKeeper (tokenAt tokenE) fun w => (w tokenE).isSome = true
  else fun w => (w c).isSome = true ∧ (tokenAt c w).Guarded batchKeeper.moduleAddress

private theorem moduleAddress_batchKeeper : batchKeeper.moduleAddress = moduleAccount :=
  moduleAddress_keeperOver _

private theorem evm_batchKeeper :
    batchKeeper.evm = referenceEvm referenceCreateAddress fun _ _ => batch := rfl

private theorem ozContract_batchKeeper (c : Address) :
    OzContract batchKeeper c (tokenAt c) (fun w => (w c).isSome = true) := by
  refine ozContract_of_referenceEvm evm_batchKeeper ?_ c
  intro _ _ call hcall
  rw [moduleAddress_batchKeeper]
  exact (by decide : ∀ call ∈ batch, call.caller ≠ moduleAccount) call hcall

private theorem answers_batchKeeper (c : Address) :
    Answers batchKeeper c (fun w => (w c).isSome = true) := by
  intro w accounts sender nonce m args _ _
  simp only [evm_batchKeeper, referenceEvm]
  split
  · exact ⟨_, rfl⟩
  · exact ⟨_, rfl⟩

private theorem keepsAccounts_batchKeeper : KeepsAccounts batchKeeper := by
  intro w accounts tx res happ x hx
  simp only [evm_batchKeeper, referenceEvm] at happ
  split at happ
  · split at happ <;> · obtain rfl := Except.ok.inj happ; exact hx
  · split at happ <;> · obtain rfl := Except.ok.inj happ; exact hx
  · split at happ
    · obtain rfl := Except.ok.inj happ
      exact hx
    · -- a deployment counts the creator's nonce up
      obtain rfl := Except.ok.inj happ
      simp only [Function.update_apply]
      split
      · rfl
      · exact hx
  · obtain rfl := Except.ok.inj happ
    exact hx

private theorem batchSound_congr {w w' : TokenWorld} (heq : w' c = w c) (hs : batchSound c w) :
    batchSound c w' := by
  have htok : tokenAt c w' = tokenAt c w := by rw [tokenAt, tokenAt, heq]
  unfold batchSound at hs ⊢
  split
  · rename_i hc
    subst hc
    simpa only [if_true, OzContract.Serving, heq, htok] using hs
  · rename_i hc
    simpa only [hc, if_false, heq, htok] using hs

private theorem separate_batchKeeper : Separate batchKeeper batchBook batchSound S := by
  intro w accounts sender nonce c m args res _ _ _ happ c' _ hne hs'
  have hworld : res.world c' = w c' := by
    simp only [evm_batchKeeper, referenceEvm] at happ
    cases hcall : w.call ⟨sender, c, m, args⟩ with
    | none =>
      simp only [hcall] at happ
      obtain rfl := Except.ok.inj happ
      rfl
    | some out =>
      obtain ⟨w', ret, logs⟩ := out
      simp only [hcall] at happ
      obtain rfl := Except.ok.inj happ
      exact (TokenWorld.call_other (Ne.symm hne) hcall).1
  exact ⟨by rw [batchBook, batchBook, tokenAt, tokenAt, hworld], batchSound_congr hworld hs'⟩

private theorem zero_ne_batchModule : batchKeeper.moduleAddress ≠ zeroAddress := by
  rw [moduleAddress_batchKeeper]
  decide

private theorem evm_batchState : (batchState on).evm = referenceWorld := rfl

private theorem bank_batchState :
    (batchState on).bank = (referenceState referenceWorld).bank := rfl

private theorem distinctPairs_batch (on : Bool) :
    DistinctPairs batchKeeper [switchedPair on, pairE] := by
  have hids : batchKeeper.tmhashSum (switchedPair on).idText ≠
      batchKeeper.tmhashSum pairE.idText :=
    (by decide +kernel : batchKeeper.tmhashSum pairA.idText ≠ batchKeeper.tmhashSum pairE.idText)
  cases on
  · exact ⟨by decide, by decide, by decide, List.pairwise_pair.mpr fun h => absurd h hids⟩
  · exact ⟨by decide, by decide, by decide, List.pairwise_pair.mpr fun h => absurd h hids⟩

private theorem stored_batch :
    Stored (batchState on).registry p ↔ p = switchedPair on ∨ p = pairE :=
  (stored_initGenesis_iff rfl (distinctPairs_batch on)).trans List.mem_pair

private theorem getERC20Contract_switchedPair (on : Bool) :
    (switchedPair on).getERC20Contract = tokenA :=
  (by decide : pairA.getERC20Contract = tokenA)

private theorem getERC20Contract_pairE : pairE.getERC20Contract = tokenE := by decide

private theorem batchSound_tokenA : batchSound tokenA = fun w =>
    (w tokenA).isSome = true ∧ (tokenAt tokenA w).Guarded batchKeeper.moduleAddress :=
  if_neg (by decide)

private theorem batchSound_tokenE : batchSound tokenE =
    OzContract.Serving batchKeeper (tokenAt tokenE) fun w => (w tokenE).isSome = true :=
  if_pos rfl

private theorem eip20_tokenA :
    Eip20 batchKeeper tokenA (batchBook tokenA) (batchSound tokenA) := by
  rw [batchSound_tokenA]
  exact (ozContract_batchKeeper tokenA).eip20

private theorem honoursAll_tokenA :
    HonoursAll batchKeeper tokenA (batchBook tokenA) (batchSound tokenA) := by
  rw [batchSound_tokenA]
  intro w accounts sender nonce recipient n hw
  exact (ozContract_batchKeeper tokenA).honoursAll (answers_batchKeeper tokenA) hw.1

private theorem tracked_switchedPair : Tracked batchKeeper (batchState on).registry
    (switchedPair on) (batchBook tokenA) (batchSound tokenA) where
  stored := stored_batch.mpr (.inl rfl)
  denom := (by decide : reDnm pairA.denom.toList = true)
  eip20 := getERC20Contract_switchedPair on ▸ eip20_tokenA
  service := .ofOthers rfl (getERC20Contract_switchedPair on ▸ honoursAll_tokenA)

private theorem tracked_pairE : Tracked batchKeeper (batchState on).registry pairE
    (batchBook tokenE) (batchSound tokenE) := by
  refine ⟨stored_batch.mpr (.inr rfl), by decide, ?_, .ofModule rfl ?_⟩
  · rw [getERC20Contract_pairE, batchSound_tokenE]
    exact (ozContract_batchKeeper tokenE).eip20_serving
  · rw [getERC20Contract_pairE, batchSound_tokenE]
    exact (ozContract_batchKeeper tokenE).serves (answers_batchKeeper tokenE) zero_ne_batchModule

private theorem setting_batch (on : Bool) :
    Setting batchKeeper batchBook batchSound {tokenA, tokenE} (batchState on) where
  consistent := consistent_initGenesis rfl (distinctPairs_batch on)
  on := rfl
  nonzero := zero_ne_batchModule
  account :=
    (by decide : ((batchState true).accounts batchKeeper.moduleAddress.bytes).isSome = true)
  contracts c hc := by
    rcases Finset.mem_insert.mp hc with rfl | hc
    · exact ⟨switchedPair on, getERC20Contract_switchedPair on, tracked_switchedPair⟩
    · obtain rfl := Finset.mem_singleton.mp hc
      exact ⟨pairE, getERC20Contract_pairE, tracked_pairE⟩
  locked _ _ _ := rfl
  separate := separate_batchKeeper
  keepsAccounts := keepsAccounts_batchKeeper

private theorem sound_batch : ∀ c ∈ ({tokenA, tokenE} : Finset Address),
    batchSound c (batchState on).evm := by
  intro c hc
  rw [evm_batchState]
  rcases Finset.mem_insert.mp hc with rfl | hc
  · rw [batchSound_tokenA]
    exact ⟨by decide, fun _ ha => absurd ha Bool.false_ne_true, fun _ => rfl⟩
  · obtain rfl := Finset.mem_singleton.mp hc
    have honly : ∀ a, (tokenAt tokenE referenceWorld).minter a = true →
        a = batchKeeper.moduleAddress := fun a ha =>
      (beq_iff_eq.mp ha).trans moduleAddress_batchKeeper.symm
    rw [batchSound_tokenE]
    exact ⟨⟨by decide, honly, by decide⟩, honly, fun _ => rfl⟩

private theorem solvent_batch : ∀ p, Stored (batchState on).registry p →
    p.getERC20Contract ∈ ({tokenA, tokenE} : Finset Address) →
      PairSolvent batchKeeper p (batchBook p.getERC20Contract (batchState on).evm)
        (batchState on) := by
  intro p hp _
  obtain ⟨hcovered, hbounded, hescrow, hdenoms⟩ :
      (∀ d, ((batchState on).bank.ledger d).Covered) ∧
        ((batchState on).bank.ledger pairE.denom).supply < intBound ∧
        (batchBook tokenE (batchState on).evm).supply ≤
          ((batchState on).bank.ledger pairE.denom).bal batchKeeper.moduleAddress.bytes ∧
        ((batchState on).bank.ledger pairA.denom).supply = 0 := by
    rw [evm_batchState, bank_batchState]
    refine ⟨fun d => ?_, by decide, by decide, by decide⟩
    simp only [referenceState]
    split <;> exact covered_ledgerOf _
  rcases stored_batch.mp hp with rfl | rfl
  · have hsupply : ((batchState on).bank.ledger (switchedPair on).denom).supply = 0 := hdenoms
    refine ⟨hcovered _, ?_, by rintro ⟨⟩, fun _ => ?_⟩
    · rw [hsupply]
      exact Nat.two_pow_pos 256
    · rw [hsupply]
      exact Nat.zero_le _
  · exact ⟨hcovered _, hbounded, fun _ => getERC20Contract_pairE ▸ hescrow, by rintro ⟨⟩⟩

private theorem sender_of_transferLog {b : Address} (hn : n < 2 ^ 256)
    (htr : transferOf (transferLog c a b n) = some ev) : ev.sender = a := by
  have hparts := transferOf_transferLog (c := c) (a := a) (b := b) hn
  rw [htr, Option.map_some] at hparts
  split at hparts
  · exact congrArg Prod.fst (Option.some.inj hparts)
  · cases hparts

private theorem ordinary_batch : Ordinary batchKeeper (batchState true) alice ∧
    Ordinary batchKeeper (batchState true) bob :=
  ⟨⟨by decide, by decide, by decide⟩, ⟨by decide, by decide, by decide⟩⟩

/-- The script on the machine, with what it logs. -/
private theorem applyMessage_batch : ∃ res,
    batchKeeper.evm.applyMessage (batchState true).evm (batchState true).accounts batchTx =
        .ok res ∧ res.failed = false ∧
      TokenWorld.script referenceWorld batch = some (res.world, res.logs) ∧
      res.logs = [transferLog tokenA alice moduleAccount 5, transferLog tokenA alice bob 2,
        transferLog tokenE bob moduleAccount 3] := by
  obtain ⟨⟨w, logs⟩, hw⟩ := Option.isSome_iff_exists.mp
    (by decide +kernel : (TokenWorld.script referenceWorld batch).isSome = true)
  have hlogs : (TokenWorld.script referenceWorld batch).map Prod.snd =
      some [transferLog tokenA alice moduleAccount 5, transferLog tokenA alice bob 2,
        transferLog tokenE bob moduleAccount 3] := by
    decide +kernel
  rw [hw] at hlogs
  refine ⟨⟨w, (batchState true).accounts, "", [], logs⟩, ?_, rfl, hw, Option.some.inj hlogs⟩
  have hevm : (batchState true).evm = referenceWorld := rfl
  simp only [evm_batchKeeper, referenceEvm, batchTx, hevm, hw]

/-! ### Its trace -/

/-- What happened in it. -/
def batchHistory : List TokenHappening := [
  .step tokenA (.transfer alice moduleAccount 5) (some (transferLog tokenA alice moduleAccount 5)),
  .step tokenA (.transfer alice bob 2) (some (transferLog tokenA alice bob 2)),
  .step tokenE (.transfer bob moduleAccount 3) (some (transferLog tokenE bob moduleAccount 3))]

/-- The log of a transfer is read as what the transfer reports. -/
private theorem readLog_transferLog {b : Address} (hn : n < 2 ^ 256) :
    readLog (transferLog c a b n) = (Movement.transfer a b n).reported.map (c, ·) := by
  rw [Movement.reported, ← transferOf_transferLog (c := c) hn, Option.map_map]
  rfl

/-- What the transfers of a token book. -/
private theorem posts_of_transfers {token token' : OzToken} {self : Address}
    (ms : List (Address × Address × ℕ))
    (h : OzToken.execAll self token
      (ms.map fun x => ⟨x.1, .transfer, [.address x.2.1, .uint256 x.2.2]⟩) =
        some (token', logs)) :
    token.ledger.Posts (ms.map fun x => .move x.1 x.2.1 x.2.2) token'.ledger := by
  induction ms generalizing token logs with
  | nil =>
    obtain ⟨rfl, -⟩ := OzToken.execAll_nil_iff.mp h
    exact .nil _
  | cons x rest ih =>
    obtain ⟨r, hr, logs', hrest, -⟩ := OzToken.execAll_cons_iff.mp h
    obtain ⟨moved, hmoved, rfl⟩ := OzToken.exec_transfer_iff.mp hr
    obtain ⟨hn, hledger, -⟩ := OzToken.transferred_some hmoved
    refine .cons hn ?_
    have hposts := ih hrest
    rwa [hledger] at hposts

private theorem trace_batch {res : EvmResult TokenWorld}
    (hscript : TokenWorld.script referenceWorld batch = some (res.world, res.logs))
    (hlogs : res.logs = [transferLog tokenA alice moduleAccount 5,
      transferLog tokenA alice bob 2, transferLog tokenE bob moduleAccount 3]) :
    Trace batchKeeper batchBook {tokenA, tokenE} referenceWorld res batchHistory := by
  refine ⟨hlogs.symm, ?_, fun c hc => ?_, fun c _ m hm => ?_⟩
  · simp only [batchHistory, List.forall_mem_cons]
    exact ⟨⟨by decide, readLog_transferLog (by decide)⟩,
      ⟨by decide, readLog_transferLog (by decide)⟩,
      ⟨by decide, readLog_transferLog (by decide)⟩, by simp⟩
  · rcases Finset.mem_insert.mp hc with rfl | hc
    · exact posts_of_transfers [(alice, moduleAccount, 5), (alice, bob, 2)]
        (TokenWorld.script_execAll (by decide) hscript).2
    · obtain rfl := Finset.mem_singleton.mp hc
      exact posts_of_transfers [(bob, moduleAccount, 3)]
        (TokenWorld.script_execAll (by decide) hscript).2
  · -- alice and bob are not the module
    have hpayers : ∀ x ∈ batchHistory, ∀ c m e, x = .step c m e →
        m.entry.Spares batchKeeper.moduleAddress := by
      rw [moduleAddress_batchKeeper]
      simp only [batchHistory, List.forall_mem_cons]
      refine ⟨?_, ?_, ?_, by simp⟩ <;>
        · rintro c m e ⟨⟩
          exact fun hpayer => absurd hpayer (by decide)
    obtain ⟨x, hx, hstep⟩ := List.mem_filterMap.mp hm
    cases x with
    | outside log => cases hstep
    | step c' m' e =>
      simp only [Happening.stepOf] at hstep
      split at hstep
      · obtain rfl := Option.some.inj hstep
        exact hpayers _ hx c' m' e rfl
      · cases hstep

/-! ### Its replay -/

/-- Alice's own payment to bob, on top of whatever the replay has reached. -/
private theorem kept_batch {s : State TokenWorld}
    (hs : ∀ c ∈ ({tokenA, tokenE} : Finset Address), batchSound c s.evm)
    (hn : 2 ≤ (batchBook tokenA s.evm).bal alice) :
    ∃ v, Kept batchBook batchSound {tokenA, tokenE} tokenA (.transfer alice bob 2) s v := by
  have hsA := hs tokenA (by decide)
  have hnonce : (batchState true).accounts alice.bytes = some 0 := by decide
  obtain ⟨res, happ, hf, hret⟩ := honoursAll_tokenA hsA hnonce (by decide)
    (by decide : bob ≠ zeroAddress) hn
  obtain ⟨hs', ⟨-, -, hmoved⟩ | ⟨hfalse, -⟩⟩ := eip20_tokenA.transferred hsA happ hf
  swap
  · rw [hret] at hfalse
    exact absurd hfalse (by decide)
  have hother : ∀ c ∈ ({tokenA, tokenE} : Finset Address), c ≠ tokenA →
      batchBook c res.world = batchBook c s.evm ∧ batchSound c res.world := fun c hc hne =>
    separate_batchKeeper (by decide) (by decide) hsA happ c hc hne (hs c hc)
  refine ⟨{ s with evm := res.world }, rfl, rfl, fun _ hx => hx, hmoved,
    fun c hc hne => (hother c hc hne).1, fun c hc => ?_⟩
  by_cases hne : c = tokenA
  · subst hne
    exact hs'
  · exact (hother c hc hne).2

private theorem replayable_batch :
    Replayable batchKeeper batchBook batchSound {tokenA, tokenE} batchHistory := by
  have hcases : ∀ c m e, .step c m e ∈ batchHistory →
      (c = tokenA ∧ m = .transfer alice moduleAccount 5) ∨
        (c = tokenA ∧ m = .transfer alice bob 2) ∨
        (c = tokenE ∧ m = .transfer bob moduleAccount 3) := by
    intro c m e hx
    simp only [batchHistory, List.mem_cons, List.not_mem_nil, or_false, Happening.step.injEq] at hx
    rcases hx with ⟨rfl, rfl, -⟩ | ⟨rfl, rfl, -⟩ | ⟨rfl, rfl, -⟩
    · exact .inl ⟨rfl, rfl⟩
    · exact .inr (.inl ⟨rfl, rfl⟩)
    · exact .inr (.inr ⟨rfl, rfl⟩)
  refine ⟨fun c m e hx hconv s hs hallows => ?_, fun c m e hx a n hconv => ?_⟩
  · rw [moduleAddress_batchKeeper] at hconv
    rcases hcases c m e hx with ⟨-, rfl⟩ | ⟨rfl, rfl⟩ | ⟨-, rfl⟩
    · exact absurd hconv (by decide)
    · exact kept_batch hs hallows
    · exact absurd hconv (by decide)
  · rw [moduleAddress_batchKeeper] at hconv
    rcases hcases c m e hx with ⟨rfl, rfl⟩ | ⟨-, rfl⟩ | ⟨rfl, rfl⟩
    · obtain ⟨rfl, rfl⟩ := by
        simpa only [conversionOf, true_and, if_pos (by decide : 0 < 5), Option.some.injEq,
          Prod.mk.injEq] using hconv
      exact ⟨⟨"0x1111111111111111111111111111111111111111", newIntFromUint64 5, aliceBech32,
          "0x3333333333333333333333333333333333333333"⟩,
        hexSpelling_iff.mpr (by decide), rfl, hexSpelling_iff.mpr (by decide), by decide⟩
    · -- bob is not the module
      simp only [conversionOf, if_neg (by decide : ¬ (bob = moduleAccount ∧ 0 < 2))] at hconv
      cases hconv
    · obtain ⟨rfl, rfl⟩ := by
        simpa only [conversionOf, true_and, if_pos (by decide : 0 < 3), Option.some.injEq,
          Prod.mk.injEq] using hconv
      exact ⟨⟨"0x5555555555555555555555555555555555555555", newIntFromUint64 3, bobBech32,
          "0x4444444444444444444444444444444444444444"⟩,
        hexSpelling_iff.mpr (by decide), rfl, hexSpelling_iff.mpr (by decide), by decide⟩

theorem hook_replays_messages_iff_batch :
    ∃ res t t', batchKeeper.evm.applyMessage (batchState true).evm (batchState true).accounts
        batchTx = .ok res ∧
      applyTransaction batchKeeper batchTx (batchState true) = .ok () t ∧
      Trace batchKeeper batchBook {tokenA, tokenE} (batchState true).evm res batchHistory ∧
      Replay batchKeeper batchBook batchSound {tokenA, tokenE} batchHistory (batchState true) t' ∧
      t'.bank.ledger = t.bank.ledger ∧
      ∀ c ∈ ({tokenA, tokenE} : Finset Address), batchBook c t'.evm = batchBook c t.evm := by
  obtain ⟨res, happ, hf, hscript, hlogs⟩ := applyMessage_batch
  have hscope : ∀ log ∈ res.logs, log.address ∈ ({tokenA, tokenE} : Finset Address) := by
    rw [hlogs]
    decide
  have hordinary : ∀ log ∈ res.logs, ∀ ev, transferOf log = some ev →
      Ordinary batchKeeper (batchState true) ev.sender := by
    intro log hlog ev htr
    rw [hlogs] at hlog
    simp only [List.mem_cons, List.not_mem_nil, or_false] at hlog
    rcases hlog with rfl | rfl | rfl
    · rw [sender_of_transferLog (by decide) htr]
      exact ordinary_batch.1
    · rw [sender_of_transferLog (by decide) htr]
      exact ordinary_batch.1
    · rw [sender_of_transferLog (by decide) htr]
      exact ordinary_batch.2
  -- both pairs are on
  have henabled : NoneDisabled (batchState true).registry res.logs := by
    intro log _ ev p _ hp
    obtain ⟨hstored, -⟩ := (setting_batch true).consistent.pairOfContract_eq_some_iff.mp hp
    rcases stored_batch.mp hstored with rfl | rfl <;> rfl
  obtain ⟨t, ht, -, hreplays⟩ := (hook_replays_messages_iff (setting_batch true) rfl sound_batch
    solvent_batch (by decide) happ hf (fun log hlog _ _ _ _ => hscope log hlog)
    fun log hlog ev htr _ _ => hordinary log hlog ev htr).mpr henabled
  have htrace := trace_batch hscript hlogs
  obtain ⟨-, hsame, hexists⟩ := hreplays batchHistory htrace
  obtain ⟨t', hreplay⟩ := hexists replayable_batch
  obtain ⟨hbank, hbooks⟩ := hsame t' hreplay
  exact ⟨res, t, t', happ, ht, htrace, hreplay, hbank, hbooks⟩

/-! ### A user's transfer of a disabled pair -/

/-- Alice sends bob a token of the third party. -/
def userTx : Message := ⟨alice, some tokenA, 0, .call .transfer [.address bob, .uint256 1]⟩

/-- **A disabled pair blocks the transfers between its users**, which no replay has anything to
do with: the registry is consistent, the pairs are solvent and their contracts conform, and no
transfer goes to the module. -/
theorem not_hookReplays_disabledPair :
    Setting batchKeeper batchBook batchSound {tokenA, tokenE} (batchState false) ∧
    (batchState false).params.enableEVMHook = true ∧
    (∀ c ∈ ({tokenA, tokenE} : Finset Address), batchSound c (batchState false).evm) ∧
    (∀ p, Stored (batchState false).registry p →
      p.getERC20Contract ∈ ({tokenA, tokenE} : Finset Address) →
      PairSolvent batchKeeper p (batchBook p.getERC20Contract (batchState false).evm)
        (batchState false)) ∧
    ∃ res, batchKeeper.evm.applyMessage (batchState false).evm (batchState false).accounts
        userTx = .ok res ∧ res.failed = false ∧ res.logs = [transferLog tokenA alice bob 1] ∧
      ¬ HookReplays batchKeeper batchBook batchSound {tokenA, tokenE} userTx res
        (batchState false) := by
  refine ⟨setting_batch false, rfl, sound_batch, solvent_batch, ?_⟩
  obtain ⟨⟨w, ret, logs⟩, hw⟩ := Option.isSome_iff_exists.mp
    (by decide +kernel : (TokenWorld.call referenceWorld
      ⟨alice, tokenA, .transfer, [.address bob, .uint256 1]⟩).isSome = true)
  have hlogs : (TokenWorld.call referenceWorld
      ⟨alice, tokenA, .transfer, [.address bob, .uint256 1]⟩).map (·.2.2) =
        some [transferLog tokenA alice bob 1] := by
    decide +kernel
  rw [hw] at hlogs
  obtain rfl := Option.some.inj hlogs
  have happ : batchKeeper.evm.applyMessage (batchState false).evm (batchState false).accounts
      userTx = .ok ⟨w, (batchState false).accounts, "", ret, [transferLog tokenA alice bob 1]⟩ := by
    simp only [evm_batchKeeper, referenceEvm, userTx, evm_batchState, hw]
  refine ⟨_, happ, rfl, rfl, fun h => ?_⟩
  -- the hook stops at the log, since the pair of its contract is disabled
  obtain ⟨ev, htr⟩ := Option.isSome_iff_exists.mp
    (by decide : (transferOf (transferLog tokenA alice bob 1)).isSome = true)
  have hpair : pairOfContract (batchState false).registry tokenA = some (switchedPair false) :=
    (setting_batch false).consistent.pairOfContract_eq_some_iff.mpr
      ⟨stored_batch.mpr (.inl rfl), getERC20Contract_switchedPair false⟩
  have hen := h.noneDisabled happ _ (List.mem_singleton_self _) ev _ htr hpair
  cases hen

end Batch

end GenesisEthermint.Conversion
