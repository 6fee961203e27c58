import GenesisEthermint.Intrarelayer.Outcomes
import GenesisEthermint.Tokens.OpenZeppelin

/-!
# Conforming Contracts

What it means for a contract of the virtual machine to be a token, stated as laws on the
messages the machine applies. `Eip20` is the token standard as it is documented: transfers
move exactly their amount and log it, and nobody else moves the module's tokens. `OzContract`
says that the contract computes the OpenZeppelin token. The second gives the first.

Every law is about worlds that satisfy a predicate `Sound`, kept by all messages: the storage
layouts that the contract's own code can produce.
-/

namespace GenesisEthermint.Tokens

open GenesisEthermint.Foundation GenesisEthermint.Types GenesisEthermint.Chain
open GenesisEthermint.Intrarelayer

/-! ## Movements and the logs that report them -/

/-- One movement of tokens. A creation or a destruction need not be logged. -/
inductive Movement where
  | transfer (sender recipient : Address) (n : ℕ)
  | mint (account : Address) (n : ℕ) (logged : Bool)
  | burn (account : Address) (n : ℕ) (logged : Bool)

namespace Movement

/-- The booking of a movement. -/
def entry : Movement → Ledger.Entry Address
  | transfer a b n => .move a b n
  | mint a n _ => .mint a n
  | burn a n _ => .burn a n

/-- The positive transfer that the movement's log reports, if it has one. -/
def reported : Movement → Option (Address × Address × ℕ)
  | transfer a b n => if 0 < n then some (a, b, n) else none
  | mint a n logged => if logged ∧ 0 < n then some (zeroAddress, a, n) else none
  | burn a n logged => if logged ∧ 0 < n then some (a, zeroAddress, n) else none

end Movement

/-- The parties and the amount of a transfer event. -/
def parts (ev : TransferEvent) : Address × Address × ℕ := (ev.sender, ev.recipient, ev.tokens)

/-- The positive transfers that the logs of the contract `c` report, in order. -/
def reportedBy (c : Address) (logs : List Log) : List (Address × Address × ℕ) :=
  (logs.filter (·.address = c)).filterMap fun log => (transferOf log).map parts

/-- The amounts of them that went to `a`. -/
def amountsTo (a : Address) (reports : List (Address × Address × ℕ)) : List ℕ :=
  reports.filterMap fun r => if r.2.1 = a then some r.2.2 else none

section Reports

variable {c a b : Address} {n : ℕ} {log : Log} {logs rest : List Log}

theorem reportedBy_nil : reportedBy c [] = [] := rfl

theorem reportedBy_append :
    reportedBy c (logs ++ rest) = reportedBy c logs ++ reportedBy c rest := by
  simp only [reportedBy, List.filter_append, List.filterMap_append]

theorem reportedBy_cons_of_ne (h : log.address ≠ c) :
    reportedBy c (log :: rest) = reportedBy c rest := by
  simp only [reportedBy, List.filter_cons, h, decide_false, Bool.false_eq_true, if_false]

theorem reportedBy_cons (h : log.address = c) :
    reportedBy c (log :: rest) = ((transferOf log).map parts).toList ++ reportedBy c rest := by
  simp only [reportedBy, List.filter_cons, h, decide_true, if_true, List.filterMap_cons]
  cases transferOf log <;> rfl

/-- The log of a transfer is read back as that transfer. -/
theorem transferOf_transferLog (h : n < 2 ^ 256) :
    (transferOf (transferLog c a b n)).map parts = if 0 < n then some (a, b, n) else none := by
  have hid : eventByID transferID = some .Transfer := by decide
  have hdata := unpackEvent_word h
  simp only [transferOf, transferLog, hid, if_true]
  split
  · rename_i tokens htok
    obtain rfl := Except.ok.inj (hdata.symm.trans htok)
    split
    · simp only [Option.map_some, parts, bytesToAddress_addressTopic]
    · rfl
  · rename_i e he
    rw [hdata] at he
    cases he

theorem transferOf_approvalLog : transferOf (OzToken.approvalLog c a b n) = none := by
  have hid : eventByID approvalID = some .Approval := by decide
  simp only [transferOf, OzToken.approvalLog, hid]
  rfl

end Reports

/-! ## What the hook is asked to convert -/

section Asked

variable {W : Type} {k : Keeper W} {c : Address} {log : Log} {rest : List Log}
  {ev : TransferEvent}

/-- What the contract's log asks the hook to convert. -/
def logAmount (k : Keeper W) (c : Address) (log : Log) : ℕ :=
  (amountsTo k.moduleAddress (reportedBy c [log])).sum

/-- What a transaction's logs ask the hook to convert. -/
def logsAmount (k : Keeper W) (c : Address) (logs : List Log) : ℕ :=
  (amountsTo k.moduleAddress (reportedBy c logs)).sum

theorem amountsTo_append {a : Address} {l r : List (Address × Address × ℕ)} :
    amountsTo a (l ++ r) = amountsTo a l ++ amountsTo a r :=
  List.filterMap_append

theorem logsAmount_cons :
    logsAmount k c (log :: rest) = logAmount k c log + logsAmount k c rest := by
  have happ : log :: rest = [log] ++ rest := rfl
  rw [logsAmount, happ, reportedBy_append, amountsTo_append, List.sum_append]
  rfl

/-- A transfer to the module asks for its amount. -/
theorem logAmount_of_transfer (htr : transferOf log = some ev)
    (hrec : ev.recipient = k.moduleAddress) (haddr : log.address = c) :
    logAmount k c log = ev.tokens := by
  rw [logAmount, reportedBy_cons haddr, htr, reportedBy_nil]
  simp [parts, amountsTo, hrec]

/-- Any other log asks for nothing. -/
theorem logAmount_eq_zero
    (h : ∀ ev, transferOf log = some ev → ev.recipient = k.moduleAddress → log.address ≠ c) :
    logAmount k c log = 0 := by
  by_cases haddr : log.address = c
  · rw [logAmount, reportedBy_cons haddr, reportedBy_nil]
    cases htr : transferOf log with
    | none => rfl
    | some ev =>
      have hrec : ev.recipient ≠ k.moduleAddress := fun hrec => h ev htr hrec haddr
      simp [parts, amountsTo, hrec]
  · rw [logAmount, reportedBy_cons_of_ne haddr]
    rfl

end Asked

/-! ## The laws -/

section Laws

variable {W : Type} (k : Keeper W) (c : Address)

/-- The message is a call of the contract by the module itself. -/
def FromModuleTo (msg : Message) : Prop := msg.sender = k.moduleAddress ∧ msg.toAddr = some c

/-- **The token standard.** `book` reads the contract's balances off the world. -/
structure Eip20 (book : W → Ledger Address) (Sound : W → Prop) : Prop where
  /-- A balance is a word. -/
  bal_lt : ∀ {w}, Sound w → ∀ a, (book w).bal a < 2 ^ 256
  /-- A message whose execution failed has no effect. -/
  reverted : ∀ {w accounts msg res}, Sound w →
    k.evm.applyMessage w accounts msg = .ok res → res.failed = true →
    Sound res.world ∧ book res.world = book w
  /-- Whatever somebody else makes the contract do is a sequence of movements that takes
  nothing from the module, each transfer among them logged once. -/
  moved : ∀ {w accounts msg res}, Sound w →
    k.evm.applyMessage w accounts msg = .ok res → res.failed = false →
    ¬ FromModuleTo k c msg →
    Sound res.world ∧ ∃ ms : List Movement,
      (book w).Posts (ms.map Movement.entry) (book res.world) ∧
      (∀ m ∈ ms, m.entry.Spares k.moduleAddress) ∧
      reportedBy c res.logs = ms.filterMap Movement.reported
  /-- A call of `transfer` moves the amount and returns true, or returns false. -/
  transferred : ∀ {w accounts sender nonce recipient n res}, Sound w →
    k.evm.applyMessage w accounts
      ⟨sender, some c, nonce, .call .transfer [.address recipient, .uint256 n]⟩ = .ok res →
    res.failed = false →
    Sound res.world ∧
      ((res.ret = word 1 ∧ n ≤ (book w).bal sender ∧
          book res.world = (book w).move sender recipient n) ∨
        (res.ret = word 0 ∧ book res.world = book w))

/-- **The OpenZeppelin token.** `token` reads the contract's storage off the world. -/
structure OzContract (token : W → OzToken) (Sound : W → Prop) : Prop where
  /-- A message whose execution failed has no effect. -/
  reverted : ∀ {w accounts msg res}, Sound w →
    k.evm.applyMessage w accounts msg = .ok res → res.failed = true →
    Sound res.world ∧ token res.world = token w
  /-- A call of the contract executes it. The module never approves anybody. -/
  called : ∀ {w accounts sender nonce m args res}, Sound w →
    (sender = k.moduleAddress → m ≠ .approve) →
    k.evm.applyMessage w accounts ⟨sender, some c, nonce, .call m args⟩ = .ok res →
    Sound res.world ∧
      ((res.failed = true ∧ (token w).exec c sender m args = none) ∨
        ∃ r, (token w).exec c sender m args = some r ∧ res.failed = false ∧
          token res.world = r.token ∧ res.ret = r.ret ∧
          res.logs.filter (·.address = c) = r.logs)
  /-- What other messages make of the contract are calls by others than the module. -/
  others : ∀ {w accounts msg res}, Sound w →
    k.evm.applyMessage w accounts msg = .ok res → res.failed = false →
    ¬ FromModuleTo k c msg →
    Sound res.world ∧ ∃ calls : List OzToken.Invocation,
      (∀ i ∈ calls, i.caller ≠ k.moduleAddress) ∧
      OzToken.execAll c (token w) calls =
        some (token res.world, res.logs.filter (·.address = c))

/-- **The contract honours its transfers**: what the module can cover it can send to any
ordinary account. The standard itself lets a contract refuse. -/
def Honours (book : W → Ledger Address) (Sound : W → Prop) : Prop :=
  ∀ {w accounts nonce recipient n}, Sound w → accounts k.moduleAddress.bytes = some nonce →
    recipient ≠ zeroAddress → n ≤ (book w).bal k.moduleAddress →
    ∃ res, k.evm.applyMessage w accounts
        ⟨k.moduleAddress, some c, nonce, .call .transfer [.address recipient, .uint256 n]⟩ =
          .ok res ∧
      res.failed = false ∧ res.ret = word 1

/-- The machine applies every call of the contract by an account that exists. -/
def Answers (Sound : W → Prop) : Prop :=
  ∀ {w accounts sender nonce m args}, Sound w → accounts sender.bytes = some nonce →
    ∃ res, k.evm.applyMessage w accounts ⟨sender, some c, nonce, .call m args⟩ = .ok res

end Laws

/-! ## The OpenZeppelin token conforms -/

namespace OzToken

variable {t t' : OzToken} {self caller guard : Address} {m : Method} {args : List AbiArg}
  {r : OzResult} {calls : List Invocation} {logs : List Log}

/-- Nobody but `guard` can touch the tokens of `guard`: it is the only burner, and it has
approved nobody. -/
structure Guarded (guard : Address) (t : OzToken) : Prop where
  burner : ∀ a, t.burner a = true → a = guard
  allowance : ∀ a, t.allowance guard a = 0

theorem Executed.guarded (h : Executed t self caller m r) (hg : Guarded guard t)
    (hc : guard ≠ caller ∨ m ≠ .approve) : Guarded guard r.token where
  burner a ha := hg.burner a (h.roles.2 ▸ ha)
  allowance a := Nat.le_zero.mp (hg.allowance a ▸ h.allowance_le guard a hc)

/-- The movement of a booking: this token logs every one. -/
def movementOf : Ledger.Entry Address → Movement
  | .move a b n => .transfer a b n
  | .mint a n => .mint a n true
  | .burn a n => .burn a n true

@[simp] theorem entry_movementOf (e : Ledger.Entry Address) : (movementOf e).entry = e := by
  cases e <;> rfl

/-- The amounts a token books are words. -/
private theorem reported_entryLog {e : Ledger.Entry Address} (he : t.ledger.Allows e)
    (hb : (t.ledger.post e).supply < 2 ^ 256) :
    (transferOf (entryLog self e)).map parts = (movementOf e).reported := by
  have hsupply := t.bounded
  cases e with
  | move a b n =>
    have hbal := t.covered.bal_le a
    have hn : n ≤ t.ledger.bal a := he
    exact transferOf_transferLog (by omega)
  | mint a n =>
    have hn : t.ledger.supply + n < 2 ^ 256 := hb
    simp only [entryLog, movementOf, Movement.reported, true_and]
    exact transferOf_transferLog (by omega)
  | burn a n =>
    have hbal := t.covered.bal_le a
    have hn : n ≤ t.ledger.bal a := he
    simp only [entryLog, movementOf, Movement.reported, true_and]
    exact transferOf_transferLog (by omega)

private theorem reportedBy_approvals
    (h : ∀ log ∈ logs, ∃ owner spender n, log = approvalLog self owner spender n) :
    reportedBy self logs = [] := by
  induction logs with
  | nil => rfl
  | cons log rest ih =>
    obtain ⟨owner, spender, n, rfl⟩ := h log (List.mem_cons_self ..)
    have haddr : (approvalLog self owner spender n).address = self := rfl
    rw [reportedBy_cons haddr, transferOf_approvalLog,
      ih fun l hl => h l (List.mem_cons_of_mem _ hl)]
    rfl

/-- A call by somebody else books at most one movement, which spares the guard. -/
theorem exec_movements (hg : Guarded guard t) (hc : caller ≠ guard)
    (h : t.exec self caller m args = some r) :
    ∃ ms : List Movement, t.ledger.Posts (ms.map Movement.entry) r.token.ledger ∧
      (∀ x ∈ ms, x.entry.Spares guard) ∧
      reportedBy self r.logs = ms.filterMap Movement.reported := by
  cases (exec_spec h).effect with
  | silent hl hlogs =>
    refine ⟨[], ?_, by simp, reportedBy_approvals hlogs⟩
    rw [hl]
    exact .nil _
  | booked e hauth hallow hl rest hlogs hrest =>
    refine ⟨[movementOf e], ?_, ?_, ?_⟩
    · rw [hl]
      simpa using Ledger.Posts.cons hallow (.nil _)
    · intro x hx
      obtain rfl := List.mem_singleton.mp hx
      rw [entry_movementOf]
      -- an allowance of nothing lets others move or burn nothing
      cases e with
      | move a b n =>
        rintro rfl
        rcases hauth with h | h
        · exact absurd h hc
        · exact Nat.le_zero.mp (hg.allowance caller ▸ h)
      | mint a n => trivial
      | burn a n =>
        rintro rfl
        rcases hauth with h | h | h
        · exact absurd h hc
        · exact Nat.le_zero.mp (hg.allowance caller ▸ h)
        · exact absurd (hg.burner caller h) hc
    · rw [hlogs, reportedBy_cons (address_entryLog e),
        reported_entryLog hallow (hl ▸ r.token.bounded), reportedBy_approvals hrest]
      cases h : (movementOf e).reported <;> simp [h]

theorem execAll_movements (hg : Guarded guard t) (hc : ∀ i ∈ calls, i.caller ≠ guard)
    (h : execAll self t calls = some (t', logs)) :
    Guarded guard t' ∧ ∃ ms : List Movement,
      t.ledger.Posts (ms.map Movement.entry) t'.ledger ∧
      (∀ x ∈ ms, x.entry.Spares guard) ∧
      reportedBy self logs = ms.filterMap Movement.reported := by
  -- on the calls; the guard that holds before a call holds after it
  induction calls generalizing t logs with
  | nil =>
    obtain ⟨rfl, rfl⟩ := execAll_nil_iff.mp h
    exact ⟨hg, [], .nil _, by simp, rfl⟩
  | cons i rest ih =>
    obtain ⟨r, hr, logs', hrest, rfl⟩ := execAll_cons_iff.mp h
    have hi := hc i (List.mem_cons_self ..)
    obtain ⟨ms, hms, hs, hrep⟩ := exec_movements hg hi hr
    obtain ⟨hg', ms', hms', hs', hrep'⟩ := ih
      ((exec_spec hr).guarded hg (.inl (Ne.symm hi)))
      (fun j hj => hc j (List.mem_cons_of_mem _ hj)) hrest
    -- the movements of the first call come before those of the rest
    refine ⟨hg', ms ++ ms', ?_, ?_, ?_⟩
    · rw [List.map_append]
      exact hms.append hms'
    · intro x hx
      rcases List.mem_append.mp hx with hx | hx
      · exact hs x hx
      · exact hs' x hx
    · rw [reportedBy_append, List.filterMap_append, hrep, hrep']

/-- The module is the only account that may create tokens. -/
def OnlyMinter (guard : Address) (t : OzToken) : Prop := ∀ a, t.minter a = true → a = guard

theorem Executed.onlyMinter (h : Executed t self caller m r) (hg : OnlyMinter guard t) :
    OnlyMinter guard r.token :=
  fun a ha => hg a (h.roles.1 ▸ ha)

/-- Calls by others create nothing. -/
theorem execAll_supply_le (hg : OnlyMinter guard t) (hc : ∀ i ∈ calls, i.caller ≠ guard)
    (h : execAll self t calls = some (t', logs)) :
    OnlyMinter guard t' ∧ t'.ledger.supply ≤ t.ledger.supply := by
  induction calls generalizing t logs with
  | nil =>
    obtain ⟨rfl, -⟩ := execAll_nil_iff.mp h
    exact ⟨hg, le_refl _⟩
  | cons i rest ih =>
    obtain ⟨r, hr, logs', hrest, rfl⟩ := execAll_cons_iff.mp h
    have hspec := exec_spec hr
    obtain ⟨hg', hle⟩ := ih (hspec.onlyMinter hg)
      (fun j hj => hc j (List.mem_cons_of_mem _ hj)) hrest
    refine ⟨hg', hle.trans ?_⟩
    cases hspec.effect with
    | silent hl _ => rw [hl]
    | booked e hauth _ hl =>
      rw [hl]
      cases e with
      | move a b n => exact le_refl _
      | mint a n => exact absurd (hg _ hauth) (hc i (List.mem_cons_self ..))
      | burn a n => exact Nat.sub_le ..

end OzToken

/-! ### What the module's calls do to the supply -/

namespace OzContract

variable {W : Type} {k : Keeper W} {c : Address} {token : W → OzToken} {Sound : W → Prop}
  {w : W} {accounts : Accounts} {nonce n : ℕ} {a : Address} {msg : Message}
  {res : EvmResult W}

/-- What the invariants of a module-owned token need to know of a world. -/
structure Held (k : Keeper W) (token : W → OzToken) (Sound : W → Prop) (w : W) : Prop where
  sound : Sound w
  minter : (token w).OnlyMinter k.moduleAddress

theorem others_supply_le (h : OzContract k c token Sound) (hw : Held k token Sound w)
    (happ : k.evm.applyMessage w accounts msg = .ok res) (hm : ¬ FromModuleTo k c msg) :
    Held k token Sound res.world ∧
      (token res.world).ledger.supply ≤ (token w).ledger.supply := by
  cases hf : res.failed with
  | true =>
    obtain ⟨hs, htok⟩ := h.reverted hw.sound happ hf
    rw [htok]
    exact ⟨⟨hs, htok ▸ hw.minter⟩, le_refl _⟩
  | false =>
    obtain ⟨hs, calls, hc, hexec⟩ := h.others hw.sound happ hf hm
    obtain ⟨hg, hle⟩ := OzToken.execAll_supply_le hw.minter hc hexec
    exact ⟨⟨hs, hg⟩, hle⟩

/-- A call that did not fail was executed. -/
theorem executed {sender : Address} {m : Method} {args : List AbiArg}
    (h : OzContract k c token Sound) (hs : Sound w) (hm : sender = k.moduleAddress → m ≠ .approve)
    (happ : k.evm.applyMessage w accounts ⟨sender, some c, nonce, .call m args⟩ = .ok res)
    (hf : res.failed = false) :
    Sound res.world ∧ ∃ r, (token w).exec c sender m args = some r ∧ token res.world = r.token ∧
      res.ret = r.ret := by
  obtain ⟨hsound, ⟨hfail, -⟩ | ⟨r, hexec, -, htok, hret, -⟩⟩ := h.called hs hm happ
  · rw [hf] at hfail
    cases hfail
  · exact ⟨hsound, r, hexec, htok, hret⟩

private theorem called_held {m : Method} {args : List AbiArg} (h : OzContract k c token Sound)
    (hw : Held k token Sound w) (hm : m ≠ .approve)
    (happ : k.evm.applyMessage w accounts
      ⟨k.moduleAddress, some c, nonce, .call m args⟩ = .ok res) (hf : res.failed = false) :
    Held k token Sound res.world ∧
      ∃ r, (token w).exec c k.moduleAddress m args = some r ∧ token res.world = r.token := by
  obtain ⟨hs, r, hexec, htok, -⟩ := h.executed hw.sound (fun _ => hm) happ hf
  exact ⟨⟨hs, htok ▸ (OzToken.exec_spec hexec).onlyMinter hw.minter⟩, r, hexec, htok⟩

theorem mint_supply (h : OzContract k c token Sound) (hw : Held k token Sound w)
    (happ : k.evm.applyMessage w accounts
      ⟨k.moduleAddress, some c, nonce, .call .mint [.address a, .uint256 n]⟩ = .ok res)
    (hf : res.failed = false) :
    Held k token Sound res.world ∧
      (token res.world).ledger.supply = (token w).ledger.supply + n := by
  obtain ⟨hheld, r, hexec, htok⟩ := called_held h hw (by decide) happ hf
  obtain ⟨-, t', ht, rfl⟩ := OzToken.exec_mint_iff.mp hexec
  refine ⟨hheld, ?_⟩
  rw [htok, (OzToken.minted_some ht).1]
  rfl

private theorem supply_of_burned {t t' : OzToken} (ht : t.burned a n = some t') :
    t'.ledger.supply + n = t.ledger.supply := by
  obtain ⟨hn, hl, -⟩ := OzToken.burned_some ht
  have hbal := t.covered.bal_le a
  rw [hl, Ledger.supply_burn]
  omega

theorem burn_supply (h : OzContract k c token Sound) (hw : Held k token Sound w)
    (happ : k.evm.applyMessage w accounts
      ⟨k.moduleAddress, some c, nonce, .call .burn [.uint256 n]⟩ = .ok res)
    (hf : res.failed = false) :
    Held k token Sound res.world ∧
      (token res.world).ledger.supply + n = (token w).ledger.supply := by
  obtain ⟨hheld, r, hexec, htok⟩ := called_held h hw (by decide) happ hf
  obtain ⟨t', ht, rfl⟩ := OzToken.exec_burn_iff.mp hexec
  exact ⟨hheld, htok ▸ supply_of_burned ht⟩

theorem burnCoins_supply (h : OzContract k c token Sound) (hw : Held k token Sound w)
    (happ : k.evm.applyMessage w accounts
      ⟨k.moduleAddress, some c, nonce, .call .burnCoins [.address a, .uint256 n]⟩ = .ok res)
    (hf : res.failed = false) :
    Held k token Sound res.world ∧
      (token res.world).ledger.supply + n = (token w).ledger.supply := by
  obtain ⟨hheld, r, hexec, htok⟩ := called_held h hw (by decide) happ hf
  obtain ⟨-, t', ht, rfl⟩ := OzToken.exec_burnCoins_iff.mp hexec
  exact ⟨hheld, htok ▸ supply_of_burned ht⟩

end OzContract

theorem reportedBy_filter {c : Address} {logs : List Log} :
    reportedBy c (logs.filter (·.address = c)) = reportedBy c logs := by
  simp only [reportedBy, List.filter_filter, Bool.and_self]

/-- **An OpenZeppelin contract is an EIP-20 contract**, as long as the module is its only
burner and has approved nobody. -/
theorem OzContract.eip20 {W : Type} {k : Keeper W} {c : Address} {token : W → OzToken}
    {Sound : W → Prop} (h : OzContract k c token Sound) :
    Eip20 k c (fun w => (token w).ledger)
      (fun w => Sound w ∧ (token w).Guarded k.moduleAddress) where
  bal_lt := fun {w} _ a => lt_of_le_of_lt ((token w).covered.bal_le a) (token w).bounded
  reverted := fun hs happ hf => by
    obtain ⟨hsound, htok⟩ := h.reverted hs.1 happ hf
    rw [htok]
    exact ⟨⟨hsound, hs.2⟩, rfl⟩
  moved := fun hs happ hf hm => by
    obtain ⟨hsound, calls, hc, hexec⟩ := h.others hs.1 happ hf hm
    obtain ⟨hg, ms, hposts, hspares, hrep⟩ := OzToken.execAll_movements hs.2 hc hexec
    exact ⟨⟨hsound, hg⟩, ms, hposts, hspares, reportedBy_filter.symm.trans hrep⟩
  transferred := fun hs happ hf => by
    obtain ⟨hsound, r, hexec, htok, hret⟩ := h.executed hs.1 (fun _ => by decide) happ hf
    -- the module is the caller here, but a transfer sets no allowance
    have hg := (OzToken.exec_spec hexec).guarded hs.2 (.inr (by decide))
    obtain ⟨t', ht, rfl⟩ := OzToken.exec_transfer_iff.mp hexec
    obtain ⟨hn, hl, -, -⟩ := OzToken.transferred_some ht
    rw [htok]
    exact ⟨⟨hsound, hg⟩, .inl ⟨hret, hn, hl⟩⟩

/-- A call that the token executes does not fail. -/
theorem OzContract.answered {W : Type} {k : Keeper W} {c : Address} {token : W → OzToken}
    {Sound : W → Prop} (h : OzContract k c token Sound) (hans : Answers k c Sound) {w : W}
    {accounts : Accounts} {sender : Address} {nonce : ℕ} {m : Method} {args : List AbiArg}
    {r : OzResult} (hs : Sound w) (hm : sender = k.moduleAddress → m ≠ .approve)
    (hnonce : accounts sender.bytes = some nonce)
    (hexec : (token w).exec c sender m args = some r) :
    ∃ res, k.evm.applyMessage w accounts ⟨sender, some c, nonce, .call m args⟩ = .ok res ∧
      res.failed = false ∧ Sound res.world ∧ token res.world = r.token ∧ res.ret = r.ret := by
  obtain ⟨res, happ⟩ := @hans _ _ _ _ m args hs hnonce
  obtain ⟨hsound, ⟨-, hnone⟩ | ⟨r', hr', hf, htok, hret, -⟩⟩ := h.called hs hm happ
  · rw [hexec] at hnone
    cases hnone
  · rw [hexec] at hr'
    obtain rfl := Option.some.inj hr'
    exact ⟨res, happ, hf, hsound, htok, hret⟩

/-- **An OpenZeppelin contract honours its transfers.** -/
theorem OzContract.honours {W : Type} {k : Keeper W} {c : Address} {token : W → OzToken}
    {Sound : W → Prop} (h : OzContract k c token Sound) (hans : Answers k c Sound)
    (hzero : k.moduleAddress ≠ zeroAddress) :
    Honours k c (fun w => (token w).ledger)
      (fun w => Sound w ∧ (token w).Guarded k.moduleAddress) := by
  intro w accounts nonce recipient n hs hnonce hrec hn
  obtain ⟨t', ht⟩ := OzToken.exists_transferred hzero hrec hn
  obtain ⟨res, happ, hf, -, -, hret⟩ := h.answered hans hs.1 (fun _ => by decide) hnonce
    (OzToken.exec_transfer_iff.mpr ⟨t', ht, rfl⟩)
  exact ⟨res, happ, hf, hret⟩

/-! ## What the standard gives -/

/-- What a movement reports as sent to an account reached it. -/
private theorem reported_le_received {a : Address} (ha : a ≠ zeroAddress) (m : Movement) :
    (amountsTo a m.reported.toList).sum ≤ m.entry.received a := by
  -- only a transfer or a mint to `a` reports to `a`, and each credits what it reports
  cases m with
  | transfer x y n =>
    by_cases hn : 0 < n
    · by_cases hy : y = a <;>
        simp [Movement.reported, Movement.entry, amountsTo, Ledger.Entry.received, hn, hy]
    · simp [Movement.reported, amountsTo, hn]
  | mint y n logged =>
    by_cases hn : logged = true ∧ 0 < n
    · by_cases hy : y = a <;>
        simp [Movement.reported, Movement.entry, amountsTo, Ledger.Entry.received, hn, hy]
    · simp only [Movement.reported, hn, if_false]
      exact Nat.zero_le _
  | burn x n logged =>
    by_cases hn : logged = true ∧ 0 < n
    · simp [Movement.reported, Movement.entry, amountsTo, Ledger.Entry.received, hn, Ne.symm ha]
    · simp only [Movement.reported, hn, if_false]
      exact Nat.zero_le _

theorem sum_amountsTo_le {a : Address} (ha : a ≠ zeroAddress) (ms : List Movement) :
    (amountsTo a (ms.filterMap Movement.reported)).sum ≤
      ((ms.map Movement.entry).map (Ledger.Entry.received a)).sum := by
  induction ms with
  | nil => exact le_refl _
  | cons m ms ih =>
    have hm := reported_le_received ha m
    have hcons : (m :: ms).filterMap Movement.reported =
        m.reported.toList ++ ms.filterMap Movement.reported := by
      rw [List.filterMap_cons]
      cases m.reported <;> rfl
    rw [hcons, amountsTo_append, List.sum_append, List.map_cons, List.map_cons, List.sum_cons]
    omega

namespace Eip20

variable {W : Type} {k : Keeper W} {c : Address} {book : W → Ledger Address} {Sound : W → Prop}
  {w : W} {accounts : Accounts} {msg : Message} {res : EvmResult W}

/-- A message by somebody else does not lower the module's balance. -/
theorem bal_le (h : Eip20 k c book Sound) (hs : Sound w)
    (happ : k.evm.applyMessage w accounts msg = .ok res) (hm : ¬ FromModuleTo k c msg) :
    Sound res.world ∧ (book w).bal k.moduleAddress ≤ (book res.world).bal k.moduleAddress := by
  cases hf : res.failed with
  | true =>
    obtain ⟨hs', hbook⟩ := h.reverted hs happ hf
    exact ⟨hs', le_of_eq (by rw [hbook])⟩
  | false =>
    obtain ⟨hs', ms, hposts, hspares, -⟩ := h.moved hs happ hf hm
    refine ⟨hs', ?_⟩
    rw [hposts.bal_of_spares fun e he => by
      obtain ⟨m, hmem, rfl⟩ := List.mem_map.mp he
      exact hspares m hmem]
    exact Nat.le_add_right ..

/-- It raises it at least by what the contract's logs report as sent to the module. -/
theorem bal_add_reported_le (h : Eip20 k c book Sound) (hzero : k.moduleAddress ≠ zeroAddress)
    (hs : Sound w) (happ : k.evm.applyMessage w accounts msg = .ok res)
    (hf : res.failed = false) (hm : ¬ FromModuleTo k c msg) :
    (book w).bal k.moduleAddress + (amountsTo k.moduleAddress (reportedBy c res.logs)).sum ≤
      (book res.world).bal k.moduleAddress := by
  obtain ⟨-, ms, hposts, hspares, hrep⟩ := h.moved hs happ hf hm
  have hsum := sum_amountsTo_le hzero ms
  rw [hrep, hposts.bal_of_spares fun e he => by
    obtain ⟨m, hmem, rfl⟩ := List.mem_map.mp he
    exact hspares m hmem]
  omega

end Eip20

end GenesisEthermint.Tokens
