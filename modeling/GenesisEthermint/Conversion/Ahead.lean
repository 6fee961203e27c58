import GenesisEthermint.Conversion.Replay

/-!
# The Hook Ahead of the Replay

The transaction has made all its movements before the hook sees the first log. So at every log
the hook is ahead of the replay by the movements that are still to come, and by nothing else.
This file defines that relation and proves that one happening keeps it.
-/

namespace GenesisEthermint.Conversion

open GenesisEthermint.Foundation GenesisEthermint.Types GenesisEthermint.Chain
open GenesisEthermint.Intrarelayer GenesisEthermint.Registry GenesisEthermint.Tokens
open GenesisEthermint.Hook

variable {W : Type} {k : Keeper W} {s t u v h : State W} {p q : TokenPair} {a c : Address} {n : ℕ}
  {book : Address → W → Ledger Address} {Sound : Address → W → Prop} {S : Finset Address}
  {m : Movement} {log : Log} {logs : List Log} {ev : TransferEvent} {msg : MsgConvertERC20}
  {res : EvmResult W}

/-! ## The relation -/

/-- What the comparison rests on: a consistent registry with the module on, the contracts in
scope with their pairs, and a machine on which they do not interfere. -/
structure Setting (k : Keeper W) (book : Address → W → Ledger Address)
    (Sound : Address → W → Prop) (S : Finset Address) (s : State W) : Prop where
  consistent : RegistryConsistent k s.registry
  on : s.params.enableIntrarelayer = true
  nonzero : k.moduleAddress ≠ zeroAddress
  account : (s.accounts k.moduleAddress.bytes).isSome = true
  contracts : ∀ c ∈ S, ∃ p, p.getERC20Contract = c ∧ Tracked k s.registry p (book c) (Sound c)
  locked : ∀ p, Stored s.registry p → p.getERC20Contract ∈ S →
    s.bank.locked k.moduleAddress.bytes p.denom = 0
  separate : Separate k book Sound S
  keepsAccounts : KeepsAccounts k

theorem Setting.tracked (hset : Setting k book Sound S s) (hp : Stored s.registry p)
    (hpS : p.getERC20Contract ∈ S) :
    Tracked k s.registry p (book p.getERC20Contract) (Sound p.getERC20Contract) := by
  obtain ⟨q, hq, htr⟩ := hset.contracts _ hpS
  rcases hset.consistent.apart hp htr.stored with rfl | ⟨-, hne⟩
  · exact htr
  · exact absurd hq hne

/-- The hook has the balances `H` of a pair's contract where the replay has `L`. -/
structure PairAhead (k : Keeper W) (p : TokenPair) (L H : Ledger Address) (h : State W) :
    Prop where
  covered : (h.bank.ledger p.denom).Covered
  bounded : (h.bank.ledger p.denom).supply < intBound
  tokens : p.contractOwner = .OWNER_MODULE → L.Covered
  escrow : p.contractOwner = .OWNER_MODULE →
    H.supply ≤ (h.bank.ledger p.denom).bal k.moduleAddress.bytes
  backing : p.contractOwner = .OWNER_EXTERNAL →
    (h.bank.ledger p.denom).supply ≤ L.bal k.moduleAddress

/-- The hook, in the state `h`, is ahead of a replay with the balances `B` by the movements in
`rest`. -/
structure Ahead (k : Keeper W) (book : Address → W → Ledger Address) (Sound : Address → W → Prop)
    (S : Finset Address) (s : State W) (rest : List TokenHappening)
    (B : Address → Ledger Address) (h : State W) : Prop where
  config : h.config = s.config
  account : (h.accounts k.moduleAddress.bytes).isSome = true
  sound : ∀ c ∈ S, Sound c h.evm
  posts : ∀ c ∈ S, (B c).Posts ((Happening.stepsOf c rest).map Movement.entry) (book c h.evm)
  spares : ∀ c ∈ S, ∀ m ∈ Happening.stepsOf c rest, m.entry.Spares k.moduleAddress
  pairs : ∀ p, Stored s.registry p → p.getERC20Contract ∈ S →
    PairAhead k p (B p.getERC20Contract) (book p.getERC20Contract h.evm) h

/-- The replay, in the state `u`, has the balances `B` and the coins of `h`. -/
structure Follows (book : Address → W → Ledger Address) (Sound : Address → W → Prop)
    (S : Finset Address) (s : State W) (B : Address → Ledger Address) (h u : State W) :
    Prop where
  bank : u.bank.ledger = h.bank.ledger
  config : u.config = s.config
  accounts : ∀ x, (s.accounts x).isSome = true → (u.accounts x).isSome = true
  sound : ∀ c ∈ S, Sound c u.evm
  books : ∀ c ∈ S, book c u.evm = B c

section Frames

variable {B : Address → Ledger Address} {rest : List TokenHappening} {L H : Ledger Address}
  {e : Option Log} {h' : State W}

/-- A step of one contract: the other contracts and pairs are as far ahead as before. -/
private theorem Ahead.update (hset : Setting k book Sound S s)
    (hahead : Ahead k book Sound S s (.step p.getERC20Contract m e :: rest) B h)
    (hp : Stored s.registry p) (hpS : p.getERC20Contract ∈ S)
    (hbooked : Booked book Sound S p.getERC20Contract H h h')
    (hacc : (h'.accounts k.moduleAddress.bytes).isSome = true)
    (hbank : ∀ d ≠ p.denom, h'.bank.ledger d = h.bank.ledger d)
    (hposts : L.Posts ((Happening.stepsOf p.getERC20Contract rest).map Movement.entry) H)
    (hpair : PairAhead k p L H h') :
    Ahead k book Sound S s rest (Function.update B p.getERC20Contract L) h' := by
  -- the books, the spare tokens and the pairs: in each the contract of `p` is split off
  refine ⟨hbooked.config.trans hahead.config, hacc, hbooked.sound, fun c hc => ?_,
    fun c hc m' hm' => ?_, fun q hq hqS => ?_⟩
  · by_cases hne : c = p.getERC20Contract
    · subst hne
      rw [Function.update_self, hbooked.booked]
      exact hposts
    · have hold := hahead.posts c hc
      rw [Happening.stepsOf_step_of_ne m e (Ne.symm hne)] at hold
      rw [Function.update_of_ne hne, hbooked.others c hc hne]
      exact hold
  · refine hahead.spares c hc m' ?_
    -- a movement that is still to come was to come before
    by_cases hne : c = p.getERC20Contract
    · subst hne
      rw [Happening.stepsOf_step_self]
      exact List.mem_cons_of_mem _ hm'
    · rw [Happening.stepsOf_step_of_ne m e (Ne.symm hne)]
      exact hm'
  -- another pair has another denomination and another contract, so it is as it was
  · rcases hset.consistent.apart hp hq with rfl | ⟨hd, hne⟩
    · rw [Function.update_self, hbooked.booked]
      exact hpair
    · have hold := hahead.pairs q hq hqS
      rw [Function.update_of_ne hne, hbooked.others _ hqS hne]
      refine ⟨?_, ?_, hold.tokens, ?_, ?_⟩
      · rw [hbank _ hd]
        exact hold.covered
      · rw [hbank _ hd]
        exact hold.bounded
      · rw [hbank _ hd]
        exact hold.escrow
      · rw [hbank _ hd]
        exact hold.backing

/-- The replay's step books the same and reaches the same coins. -/
private theorem Follows.update (hfollows : Follows book Sound S s B h u)
    (hbooked : Booked book Sound S c L u v) (hbank : v.bank.ledger = h'.bank.ledger)
    (hacc : ∀ x, (u.accounts x).isSome = true → (v.accounts x).isSome = true) :
    Follows book Sound S s (Function.update B c L) h' v := by
  refine ⟨hbank, hbooked.config.trans hfollows.config,
    fun x hx => hacc x (hfollows.accounts x hx), hbooked.sound, fun c' hc' => ?_⟩
  by_cases hne : c' = c
  · subst hne
    rw [Function.update_self, hbooked.booked]
  · rw [Function.update_of_ne hne, hbooked.others c' hc' hne, hfollows.books c' hc']

private theorem Follows.sameBank (hfollows : Follows book Sound S s B h u)
    (hcfg : h.config = s.config) : SameBank h u := by
  refine ⟨hfollows.bank, ?_⟩
  have hu : u.bank.locked = s.bank.locked := congrArg Config.locked hfollows.config
  have hh : h.bank.locked = s.bank.locked := congrArg Config.locked hcfg
  exact hu.trans hh.symm

private theorem Kept.booked (hkept : Kept book Sound S c m u v) :
    Booked book Sound S c ((book c u.evm).post m.entry) u v :=
  ⟨hkept.config, hkept.moved, hkept.others, hkept.sound⟩

/-- What is still to come starts with a movement. -/
private theorem Ahead.head (hahead : Ahead k book Sound S s (.step c m e :: rest) B h)
    (hc : c ∈ S) : (B c).Allows m.entry ∧
      ((B c).post m.entry).Posts ((Happening.stepsOf c rest).map Movement.entry) (book c h.evm) ∧
      m.entry.Spares k.moduleAddress ∧
      ∀ e ∈ (Happening.stepsOf c rest).map Movement.entry, e.Spares k.moduleAddress := by
  have hposts := hahead.posts c hc
  have hspares := hahead.spares c hc
  rw [Happening.stepsOf_step_self] at hposts hspares
  rw [List.map_cons] at hposts
  obtain ⟨hallow, hrest⟩ := Ledger.posts_cons_iff.mp hposts
  refine ⟨hallow, hrest, hspares m (List.mem_cons_self ..), fun e he => ?_⟩
  obtain ⟨m', hm', rfl⟩ := List.mem_map.mp he
  exact hspares m' (List.mem_cons_of_mem _ hm')

end Frames

/-! ## One happening -/

/-- What is assumed of a happening: a foreign log is of no registered contract, the log of a
movement is of an enabled pair, and whoever sends tokens to the module is an ordinary user. -/
def Usual (k : Keeper W) (S : Finset Address) (s : State W) : TokenHappening → Prop
  | .outside log => ∀ ev, transferOf log = some ev → pairOfContract s.registry log.address = none
  | .step c m e => c ∈ S ∧ e.bind readLog = m.reported.map (c, ·) ∧
      (∀ said p, m.reported = some said → pairOfContract s.registry c = some p →
        p.enabled = true) ∧
      ∀ a n, m.reported = some (a, k.moduleAddress, n) → Ordinary k s a

private theorem eq_transfer_of_conversion {module : Address}
    (hconv : conversionOf module m = some (a, n)) : m = .transfer a module n ∧ 0 < n := by
  cases m with
  | transfer x y j =>
    simp only [conversionOf] at hconv
    split at hconv
    · rename_i hc
      obtain ⟨rfl, rfl⟩ := by simpa only [Option.some.injEq, Prod.mk.injEq] using hconv
      exact ⟨hc.1 ▸ rfl, hc.2⟩
    · cases hconv
  | mint x j l => cases hconv
  | burn x j l => cases hconv

/-- Only a transfer reports a payment to the module by an ordinary user. -/
private theorem conversion_of_reported {module : Address} (hmodule : module ≠ zeroAddress)
    (ha : a ≠ zeroAddress) (hrep : m.reported = some (a, module, n)) :
    conversionOf module m = some (a, n) := by
  -- a mint comes from the zero address, and a burn goes to it
  cases m with
  | transfer x y j =>
    simp only [Movement.reported] at hrep
    split at hrep
    · rename_i hpos
      obtain ⟨rfl, rfl, rfl⟩ := by simpa only [Option.some.injEq, Prod.mk.injEq] using hrep
      exact if_pos ⟨rfl, hpos⟩
    · cases hrep
  | mint x j l =>
    simp only [Movement.reported] at hrep
    split at hrep
    · obtain ⟨rfl, -, -⟩ := by simpa only [Option.some.injEq, Prod.mk.injEq] using hrep
      exact absurd rfl ha
    · cases hrep
  | burn x j l =>
    simp only [Movement.reported] at hrep
    split at hrep
    · obtain ⟨-, rfl, -⟩ := by simpa only [Option.some.injEq, Prod.mk.injEq] using hrep
      exact absurd rfl hmodule
    · cases hrep

private theorem reported_transfer {x y : Address} (hn : 0 < n) :
    (Movement.transfer x y n).reported = some (x, y, n) :=
  if_pos hn

section OneHappening

variable {B : Address → Ledger Address} {rest : List TokenHappening} {e : Option Log}

/-- The hook skips the log of a movement that is no transfer to the module. -/
private theorem forM_processLog_kept (hset : Setting k book Sound S s)
    (hcfg : h.config = s.config) (husual : Usual k S s (.step p.getERC20Contract m e))
    (hconv : conversionOf k.moduleAddress m = none) :
    forM e.toList (processLog k) h = .ok ⟨⟩ h := by
  obtain ⟨-, hfits, hen, hordinary⟩ := husual
  -- the hook reads the registry the replay started with
  have hreg : h.registry = s.registry := congrArg Config.registry hcfg
  cases e with
  | none => rfl
  | some log =>
    rw [Option.toList_some]
    refine Exec.forM_cons_ok_iff.mpr ⟨h, processLog_eq_skip (fun ev htr hrec => ?_)
      (fun ev q htr hq => ?_), Exec.forM_nil_ok_iff.mpr rfl⟩
    · -- a transfer to the module would be a conversion
      rw [Option.bind_some, readLog, htr] at hfits
      obtain ⟨parts', hrep, heq⟩ := Option.map_eq_some_iff.mp hfits.symm
      obtain ⟨-, rfl⟩ := Prod.mk.inj heq
      rw [parts, hrec] at hrep
      have hzero := (hordinary _ _ hrep).nonzero
      rw [conversion_of_reported hset.nonzero hzero hrep] at hconv
      cases hconv
    -- and the movement is logged, so the pair of its contract is enabled
    · rw [Option.bind_some, readLog, htr] at hfits
      obtain ⟨said, hrep, heq⟩ := Option.map_eq_some_iff.mp hfits.symm
      obtain ⟨haddr, -⟩ := Prod.mk.inj heq
      rw [hreg, ← haddr] at hq
      exact hen said q hrep hq

/-- A movement that is kept. -/
private theorem ahead_kept (hset : Setting k book Sound S s)
    (hahead : Ahead k book Sound S s (.step p.getERC20Contract m e :: rest) B h)
    (hp : Stored s.registry p) (hpS : p.getERC20Contract ∈ S) :
    Ahead k book Sound S s rest (Function.update B p.getERC20Contract
      ((B p.getERC20Contract).post m.entry)) h := by
  obtain ⟨hallow, hrest, hspares, -⟩ := hahead.head hpS
  have hold := hahead.pairs p hp hpS
  refine hahead.update hset hp hpS (booked_of_evm_eq hahead.sound rfl rfl) hahead.account
    (fun _ _ => rfl) hrest ⟨hold.covered, hold.bounded, fun ho => ?_, hold.escrow, fun ho => ?_⟩
  · exact Ledger.covered_post (hold.tokens ho) hallow
  · rw [Ledger.bal_post_of_spares hspares]
    exact (hold.backing ho).trans (Nat.le_add_right _ _)

/-- The log of a transfer to the module. -/
private theorem exists_event (husual : Usual k S s (.step c m e))
    (hconv : conversionOf k.moduleAddress m = some (a, n)) :
    ∃ log ev, e = some log ∧ transferOf log = some ev ∧ log.address = c ∧
      ev.recipient = k.moduleAddress ∧ m = .transfer ev.sender k.moduleAddress ev.tokens ∧
      a = ev.sender ∧ n = ev.tokens := by
  obtain ⟨-, hfits, -, -⟩ := husual
  obtain ⟨rfl, hpos⟩ := eq_transfer_of_conversion hconv
  rw [reported_transfer hpos] at hfits
  cases e with
  | none => cases hfits
  | some log =>
    obtain ⟨ev, htr, heq⟩ := Option.map_eq_some_iff.mp hfits
    obtain ⟨haddr, hparts⟩ := Prod.mk.inj heq
    obtain ⟨rfl, hrec, rfl⟩ := by simpa only [parts, Prod.mk.injEq] using hparts
    exact ⟨log, ev, rfl, htr, haddr, hrec, rfl, rfl, rfl⟩

/-- The module's balance of coins, and the user's, after a payout to her. -/
private theorem paidOut_ledger_of_ne {b : AccAddress} {coin : Coin} {d : String}
    (hd : d ≠ coin.denom) : (paidOut k p h b coin).bank.ledger d = h.bank.ledger d := by
  unfold paidOut
  split
  · rw [ledger_moved, if_neg hd]
  · rw [ledger_moved, if_neg hd, ledger_mintedCoin, if_neg hd]

/-- The message of an ordinary user is admitted in the replay. -/
private theorem Follows.admits (hset : Setting k book Sound S s)
    (hfollows : Follows book Sound S s B h u) (hp : Stored s.registry p)
    (hen : p.enabled = true) (hunblocked : k.blockedAddr a.bytes = false)
    (hmsg : OwnConversion k p.getERC20Contract a ev.tokens msg) :
    Admits k u (hexToAddress msg.sender).bytes (decodeOrEmpty k msg.receiver)
      msg.contractAddress p := by
  have hreg : u.registry = s.registry := congrArg Config.registry hfollows.config
  have hparams : u.params = s.params := congrArg Config.params hfollows.config
  exact hmsg.admits (hreg ▸ hset.consistent) (hreg ▸ hp) (hparams ▸ hset.on) hen hunblocked

section Converted

variable (hset : Setting k book Sound S s)
  (hahead : Ahead k book Sound S s
    (.step p.getERC20Contract (.transfer ev.sender k.moduleAddress ev.tokens) e :: rest) B h)
  (hp : Stored s.registry p) (hpS : p.getERC20Contract ∈ S) (hen : p.enabled = true)
  (hordinary : Ordinary k s ev.sender) (hvalid : coinsIsValid [logPayout p ev] = true)
include hset hahead hp hpS hen hordinary hvalid

/-- A transfer of module-owned tokens: the hook burns what the module received, the message burns
what the user has, and the escrow pays in both. -/
private theorem ahead_ofModule (howner : p.contractOwner = .OWNER_MODULE)
    (hserves : Serves k p.getERC20Contract (book p.getERC20Contract)
      (Sound p.getERC20Contract)) :
    ∃ B' h', convertLog k p p.getERC20Contract ev h = .ok () h' ∧
      Ahead k book Sound S s rest B' h' ∧
      ∀ u msg, Follows book Sound S s B h u →
        OwnConversion k p.getERC20Contract ev.sender ev.tokens msg →
        ∃ v, convertERC20 k msg u = .ok () v ∧ Follows book Sound S s B' h' v := by
  have hne : ev.sender.bytes ≠ k.moduleAddress.bytes := k.ne_module_of_unblocked hordinary.unblocked
  have hne' : ev.sender ≠ k.moduleAddress := fun heq => hne (congrArg Address.bytes heq)
  obtain ⟨hallow, hrest, -, hspares⟩ := hahead.head hpS
  have hold := hahead.pairs p hp hpS
  have hcov := hold.tokens howner
  have hH := hserves.covered (hahead.sound _ hpS)
  -- what the user sent is still with the module
  have hin : ev.tokens ≤ ((B p.getERC20Contract).move ev.sender k.moduleAddress
      ev.tokens).bal k.moduleAddress := by
    rw [Ledger.bal_move_to hne']
    exact Nat.le_add_left _ _
  have hheld : ev.tokens ≤ (book p.getERC20Contract h.evm).bal k.moduleAddress := by
    rw [hrest.bal_of_spares hspares]
    exact hin.trans (Nat.le_add_right _ _)
  have hescrow := hold.escrow howner
  have hsupply := hH.bal_le k.moduleAddress
  have hlocked : h.bank.locked k.moduleAddress.bytes p.denom = 0 := by
    have heq : h.bank.locked = s.bank.locked := congrArg Config.locked hahead.config
    rw [heq]
    exact hset.locked p hp hpS
  -- so the escrow has the coins
  have hsum := hold.covered.bal_add_bal_le hne
  have hbounded := hold.bounded
  have hrel : CanRelease k h ev.sender.bytes (logPayout p ev) := by
    refine ⟨hordinary.unblocked, ⟨hvalid, ?_, ?_⟩, ?_⟩
    · rw [denom_logPayout, hlocked]
      exact Nat.zero_le _
    · rw [nat_logPayout, denom_logPayout, spendable, hlocked]
      omega
    · simp only [Fits, denom_logPayout, nat_logPayout, Ledger.bal_debit, hne, if_false]
      omega
  obtain ⟨h', hconv, hbank, hacc, hbooked⟩ := convertLog_ofModule_ok hset.separate hpS
    hahead.sound howner hserves hahead.account hheld hrel
  have hledger : h'.bank.ledger p.denom = (h.bank.ledger p.denom).move k.moduleAddress.bytes
      ev.sender.bytes ev.tokens := by
    rw [hbank, paidOut, if_pos howner, ledger_moved, denom_logPayout, if_pos rfl, nat_logPayout]
  have hposts : ((B p.getERC20Contract).burn ev.sender ev.tokens).Posts
      ((Happening.stepsOf p.getERC20Contract rest).map Movement.entry)
      ((book p.getERC20Contract h.evm).burn k.moduleAddress ev.tokens) := by
    have hburn := hrest.burn_of_spares (Ledger.covered_post hcov hallow) hspares hin
    rwa [show (B p.getERC20Contract).post _ = _ from rfl, Movement.entry, Ledger.post,
      Ledger.burn_move] at hburn
  refine ⟨_, h', hconv, hahead.update hset hp hpS hbooked hacc (fun d hd => ?_) hposts
    ⟨?_, ?_, fun _ => Ledger.covered_burn hcov hallow, fun _ => ?_, fun ho => ?_⟩,
    fun u msg hfollows hmsg => ?_⟩
  · rw [hbank]
    exact paidOut_ledger_of_ne hd
  · rw [hledger]
    exact Ledger.covered_move hold.covered (by omega)
  · rw [hledger]
    exact hbounded
  · rw [hledger, Ledger.bal_move_from hne.symm, Ledger.supply_burn]
    omega
  · rw [howner] at ho
    cases ho
  · -- the message finds the same coins and the same tokens
    have hsame := hfollows.sameBank hahead.config
    have hadm := hfollows.admits hset hp hen hordinary.unblocked hmsg
    obtain ⟨v, hv, hvbank, hvacc, hvbooked⟩ := convertERC20_ofModule_ok hset.separate hpS
      hfollows.sound hmsg hadm hset.keepsAccounts hordinary.nonzero howner hserves
      (hfollows.accounts _ hset.account) (by rw [hfollows.books _ hpS]; exact hallow)
      (hsame.canRelease.mpr hrel)
    rw [hfollows.books _ hpS] at hvbooked
    refine ⟨v, hv, hfollows.update hvbooked ?_ hvacc⟩
    rw [hvbank, hbank, paidOut, paidOut, if_pos howner, if_pos howner]
    exact hsame.ledger_moved_eq

/-- A transfer of external tokens: the module keeps them in both, and the coins are minted and
paid out. -/
private theorem ahead_ofOthers (howner : p.contractOwner = .OWNER_EXTERNAL)
    (hhonours : HonoursAll k p.getERC20Contract (book p.getERC20Contract)
      (Sound p.getERC20Contract)) :
    ∃ B' h', convertLog k p p.getERC20Contract ev h = .ok () h' ∧
      Ahead k book Sound S s rest B' h' ∧
      ∀ u msg, Follows book Sound S s B h u →
        OwnConversion k p.getERC20Contract ev.sender ev.tokens msg →
        ∃ v, convertERC20 k msg u = .ok () v ∧ Follows book Sound S s B' h' v := by
  have hne : ev.sender.bytes ≠ k.moduleAddress.bytes := k.ne_module_of_unblocked hordinary.unblocked
  have hne' : ev.sender ≠ k.moduleAddress := fun heq => hne (congrArg Address.bytes heq)
  have heip20 := (hset.tracked hp hpS).eip20
  obtain ⟨hallow, hrest, -, hspares⟩ := hahead.head hpS
  have hold := hahead.pairs p hp hpS
  have hin : ((B p.getERC20Contract).move ev.sender k.moduleAddress ev.tokens).bal
      k.moduleAddress = (B p.getERC20Contract).bal k.moduleAddress + ev.tokens :=
    Ledger.bal_move_to hne'
  -- the module's balance is a word, so the coins for it are too
  have hword := heip20.bal_lt (hahead.sound _ hpS) k.moduleAddress
  have hbacking := hold.backing howner
  have hroom : (h.bank.ledger p.denom).supply + ev.tokens < intBound := by
    have hheld := hrest.bal_of_spares hspares
    have hbound : intBound = 2 ^ 256 := rfl
    rw [show ((B p.getERC20Contract).post (Movement.transfer ev.sender k.moduleAddress
      ev.tokens).entry) = (B p.getERC20Contract).move ev.sender k.moduleAddress ev.tokens
      from rfl, hin] at hheld
    omega
  have hlocked : h.bank.locked k.moduleAddress.bytes p.denom = 0 := by
    have heq : h.bank.locked = s.bank.locked := congrArg Config.locked hahead.config
    rw [heq]
    exact hset.locked p hp hpS
  have hle := hold.covered.bal_le k.moduleAddress.bytes
  -- so the mint is not refused, and does not overflow
  have hmint : CanMint k h (logPayout p ev) := by
    refine ⟨hvalid, ?_, hroom⟩
    rw [denom_logPayout, nat_logPayout]
    omega
  have hminted : (mintedCoin k h (logPayout p ev)).bank.ledger p.denom =
      (h.bank.ledger p.denom).mint k.moduleAddress.bytes ev.tokens := by
    rw [ledger_mintedCoin, denom_logPayout, if_pos rfl, nat_logPayout]
  have hsum := hold.covered.bal_add_bal_le hne
  -- and the payout releases what was minted just now
  have hrel : CanRelease k (mintedCoin k h (logPayout p ev)) ev.sender.bytes
      (logPayout p ev) := by
    have hlock : (mintedCoin k h (logPayout p ev)).bank.locked = h.bank.locked :=
      congrArg Config.locked (mintedCoin_config (k := k) (s := h) (c := logPayout p ev))
    refine ⟨hordinary.unblocked, ⟨hvalid, ?_, ?_⟩, ?_⟩
    · rw [hlock, denom_logPayout, hlocked]
      exact Nat.zero_le _
    · rw [nat_logPayout, denom_logPayout, spendable, hlock, hlocked, hminted,
        Ledger.bal_mint_self]
      omega
    · simp only [Fits, denom_logPayout, nat_logPayout, hminted, Ledger.bal_debit,
        Ledger.bal_mint, hne, if_false]
      omega
  obtain ⟨h', hconv, hbank, hacc, hbooked⟩ :=
    convertLog_ofOthers_ok hahead.sound howner hmint hrel
  have hledger : h'.bank.ledger p.denom =
      (h.bank.ledger p.denom).mint ev.sender.bytes ev.tokens := by
    rw [hbank, paidOut, if_neg (by simp [howner]), ledger_moved, denom_logPayout, if_pos rfl,
      hminted, nat_logPayout, Ledger.move_mint]
  refine ⟨_, h', hconv, hahead.update hset hp hpS hbooked hacc (fun d hd => ?_) hrest
    ⟨?_, ?_, fun ho => ?_, fun ho => ?_, fun _ => ?_⟩, fun u msg hfollows hmsg => ?_⟩
  · rw [hbank]
    exact paidOut_ledger_of_ne hd
  · rw [hledger]
    exact Ledger.covered_mint hold.covered
  · rw [hledger, Ledger.supply_mint]
    exact hroom
  · rw [howner] at ho
    cases ho
  · rw [howner] at ho
    cases ho
  · rw [hledger, Ledger.supply_mint]
    exact (Nat.add_le_add_right hbacking _).trans (le_of_eq hin.symm)
  -- the message finds the same coins and the same tokens
  · have hsame := hfollows.sameBank hahead.config
    have hadm := hfollows.admits hset hp hen hordinary.unblocked hmsg
    obtain ⟨v, hv, hvbank, hvacc, hvbooked⟩ := convertERC20_ofOthers_ok hset.separate hpS
      hfollows.sound hmsg hadm hset.keepsAccounts hordinary.nonzero howner heip20 hhonours
      (hfollows.accounts _ hordinary.account) hset.nonzero
      (by rw [hfollows.books _ hpS]; exact hallow) (hsame.canMint.mpr hmint)
      (hsame.of_minted.canRelease.mpr hrel)
    rw [hfollows.books _ hpS] at hvbooked
    refine ⟨v, hv, hfollows.update hvbooked ?_ hvacc⟩
    rw [hvbank, hbank, paidOut, paidOut, if_neg (by simp [howner]), if_neg (by simp [howner])]
    exact hsame.of_minted.ledger_moved_eq

end Converted

/-- **One happening.** The hook completes its part of the loop, and whatever the replay does from
a state that follows, it does not get stuck and still follows. -/
theorem ahead_step (hset : Setting k book Sound S s) {x : TokenHappening}
    (husual : Usual k S s x) (hahead : Ahead k book Sound S s (x :: rest) B h) :
    ∃ B' h', forM x.entry.toList (processLog k) h = .ok ⟨⟩ h' ∧
      Ahead k book Sound S s rest B' h' ∧ ∀ u, Follows book Sound S s B h u →
        CanReplay k book u x ∧
        ∀ v, ReplayStep k book Sound S x u v → Follows book Sound S s B' h' v := by
  have hreg : h.registry = s.registry := congrArg Config.registry hahead.config
  cases x with
  | outside log =>
    -- the log belongs to no pair: the hook skips it, and the replay has nothing to do
    have hskip : processLog k log h = .ok () h :=
      processLog_eq_skip (fun ev htr _ => hreg ▸ husual ev htr) fun ev q htr hq => by
        rw [hreg, husual ev htr] at hq
        cases hq
    refine ⟨B, h, Exec.forM_cons_ok_iff.mpr ⟨h, hskip, Exec.forM_nil_ok_iff.mpr rfl⟩,
      ⟨hahead.config, hahead.account, hahead.sound, hahead.posts, hahead.spares, hahead.pairs⟩,
      fun u hfollows => ⟨trivial, fun v hstep => ?_⟩⟩
    cases hstep with
    | outside log s => exact hfollows
  | step c m e =>
    -- a movement of a pair in the scope, which is kept or converted
    have hc : c ∈ S := husual.1
    obtain ⟨p, rfl, htr⟩ := hset.contracts c hc
    have hp := htr.stored
    cases hconv : conversionOf k.moduleAddress m with
    | none =>
      refine ⟨_, h, forM_processLog_kept hset hahead.config husual hconv,
        ahead_kept hset hahead hp hc, fun u hfollows => ⟨⟨fun _ => ?_, ?_⟩, fun v hstep => ?_⟩⟩
      · rw [hfollows.books _ hc]
        exact (hahead.head hc).1
      · intro a n msg hsome _
        rw [hconv] at hsome
        cases hsome
      · cases hstep with
        | kept _ hkept =>
          have hbooked := hkept.booked
          rw [hfollows.books _ hc] at hbooked
          exact hfollows.update hbooked ((congrArg BankState.ledger hkept.bank).trans
            hfollows.bank) hkept.accounts
        | converted hsome _ _ =>
          rw [hconv] at hsome
          cases hsome
    | some sent =>
      obtain ⟨a, n⟩ := sent
      obtain ⟨log, ev, rfl, hev, haddr, hrec, rfl, rfl, rfl⟩ := exists_event husual hconv
      have hpos := tokens_pos_of_transferOf hev
      obtain ⟨-, -, hlogged, hsent⟩ := husual
      have hordinary := hsent _ _ (reported_transfer hpos)
      have hvalid := (coinsIsValid_logPayout hev).mpr htr.denom
      have hpair : pairOfContract s.registry p.getERC20Contract = some p :=
        hset.consistent.pairOfContract_eq_some_iff.mpr ⟨hp, rfl⟩
      have hen := hlogged _ p (reported_transfer hpos) hpair
      rw [← hreg, ← haddr] at hpair
      -- both owners end the same way
      obtain ⟨B', h', hlog, hahead', hmessages⟩ : ∃ B' h',
          convertLog k p p.getERC20Contract ev h = .ok () h' ∧
          Ahead k book Sound S s rest B' h' ∧ ∀ u msg, Follows book Sound S s B h u →
            OwnConversion k p.getERC20Contract ev.sender ev.tokens msg →
            ∃ v, convertERC20 k msg u = .ok () v ∧ Follows book Sound S s B' h' v := by
        cases htr.service with
        | ofModule owner serves =>
          exact ahead_ofModule hset hahead hp hc hen hordinary hvalid owner serves
        | ofOthers owner honours =>
          exact ahead_ofOthers hset hahead hp hc hen hordinary hvalid owner honours
      refine ⟨B', h', Exec.forM_cons_ok_iff.mpr ⟨h', ?_, Exec.forM_nil_ok_iff.mpr rfl⟩, hahead',
        fun u hfollows => ⟨⟨fun hnone => ?_, fun a n msg hsome hmsg => ?_⟩, fun v hstep => ?_⟩⟩
      · rw [processLog_of_transfer hev hrec hpair hen, haddr]
        exact hlog
      · rw [hconv] at hnone
        cases hnone
      · obtain ⟨rfl, rfl⟩ := by simpa only [hconv, Option.some.injEq, Prod.mk.injEq] using hsome
        obtain ⟨v, hv, -⟩ := hmessages u msg hfollows hmsg
        exact ⟨v, (hmsg.submit_eq hpos).trans hv⟩
      · cases hstep with
        | kept hnone _ =>
          rw [hconv] at hnone
          cases hnone
        | converted hsome hmsg hsubmit =>
          obtain ⟨rfl, rfl⟩ := by
            simpa only [hconv, Option.some.injEq, Prod.mk.injEq] using hsome
          obtain ⟨v', hv', hfollows'⟩ := hmessages u _ hfollows hmsg
          rw [hmsg.submit_eq hpos, hv'] at hsubmit
          obtain rfl := (EStateM.Result.ok.inj hsubmit).2
          exact hfollows'

end OneHappening

end GenesisEthermint.Conversion
