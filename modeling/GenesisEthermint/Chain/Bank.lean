import GenesisEthermint.Chain.State

/-!
# Bank Keeper

The bank operations the module calls, as the SDK's bank keeper computes them, with their
validation, errors and panics. The module moves one coin at a time, and for one coin each
operation has an exact description: when it succeeds, and what it leaves.
-/

namespace GenesisEthermint.Chain

open GenesisEthermint.Foundation GenesisEthermint.Types

variable {W : Type}

/-! ## Operations -/

/-- One round of `subUnlockedCoins`: only what vesting does not lock can be spent. -/
def subUnlockedCoin (addr : AccAddress) (coin : Coin) : Exec GoError (State W) Unit := do
  let s ← get
  let balance := (s.bank.ledger coin.denom).bal addr
  let locked := s.bank.locked addr coin.denom
  Exec.panicIf (balance < locked) "negative coin amount"
  Exec.failIf (balance - locked < coin.nat) (.wrap ErrInsufficientFunds
    (toString (balance - locked) ++ coin.denom ++ " is smaller than " ++ coin.string))
  modify fun s => s.setLedger coin.denom ((s.bank.ledger coin.denom).debit addr coin.nat)

/-- `subUnlockedCoins`. -/
def subUnlockedCoins (addr : AccAddress) (amt : List Coin) : Exec GoError (State W) Unit := do
  Exec.failIf (¬ coinsIsValid amt) (.wrap ErrInvalidCoins (coinsString amt))
  forM amt (subUnlockedCoin addr)

/-- One round of `addCoins`. -/
def addCoin (addr : AccAddress) (coin : Coin) : Exec GoError (State W) Unit := do
  let s ← get
  Exec.panicIf (intBound ≤ (s.bank.ledger coin.denom).bal addr + coin.nat) "Int overflow"
  modify fun s => s.setLedger coin.denom ((s.bank.ledger coin.denom).credit addr coin.nat)

/-- `addCoins`. -/
def addCoins (addr : AccAddress) (amt : List Coin) : Exec GoError (State W) Unit := do
  Exec.failIf (¬ coinsIsValid amt) (.wrap ErrInvalidCoins (coinsString amt))
  forM amt (addCoin addr)

/-- `SendCoins`: take, give, and make sure the recipient has an account. -/
def sendCoins (fromAddr toAddr : AccAddress) (amt : List Coin) :
    Exec GoError (State W) Unit := do
  subUnlockedCoins fromAddr amt
  addCoins toAddr amt
  modify fun s => s.ensureAccount toAddr

variable (k : Keeper W)

/-- `GetModuleAccount`: creates the account of a known module the first time. -/
def getModuleAccount (moduleName : String) : Exec GoError (State W) Unit := do
  Exec.panicIf (maccPerms.lookup moduleName = none)
    ("module account " ++ moduleName ++ " does not exist")
  modify fun s => s.ensureAccount (k.newModuleAddress moduleName).bytes

/-- `SendCoinsFromAccountToModule`. -/
def sendCoinsFromAccountToModule (senderAddr : AccAddress) (recipientModule : String)
    (amt : List Coin) : Exec GoError (State W) Unit := do
  getModuleAccount k recipientModule
  sendCoins senderAddr (k.newModuleAddress recipientModule).bytes amt

/-- `SendCoinsFromModuleToAccount`. -/
def sendCoinsFromModuleToAccount (senderModule : String) (recipientAddr : AccAddress)
    (amt : List Coin) : Exec GoError (State W) Unit := do
  Exec.panicIf (maccPerms.lookup senderModule = none)
    ("module account " ++ senderModule ++ " does not exist")
  Exec.failIf (k.blockedAddr recipientAddr) (.wrap ErrUnauthorized
    (k.accAddressString recipientAddr ++ " is not allowed to receive funds"))
  sendCoins (k.newModuleAddress senderModule).bytes recipientAddr amt

/-- One round of the supply loop of `MintCoins`. -/
def addSupply (coin : Coin) : Exec GoError (State W) Unit := do
  let s ← get
  Exec.panicIf (intBound ≤ (s.bank.ledger coin.denom).supply + coin.nat) "Int overflow"
  modify fun s => s.setLedger coin.denom ((s.bank.ledger coin.denom).issue coin.nat)

/-- `MintCoins`. -/
def mintCoins (moduleName : String) (amounts : List Coin) : Exec GoError (State W) Unit := do
  getModuleAccount k moduleName
  Exec.panicIf (¬ Keeper.hasPermission moduleName "minter")
    ("module account " ++ moduleName ++ " does not have permissions to mint tokens")
  addCoins (k.newModuleAddress moduleName).bytes amounts
  forM amounts addSupply

/-- One round of the supply loop of `BurnCoins`. -/
def subSupply (coin : Coin) : Exec GoError (State W) Unit := do
  let s ← get
  Exec.panicIf ((s.bank.ledger coin.denom).supply < coin.nat) "negative coin amount"
  modify fun s => s.setLedger coin.denom ((s.bank.ledger coin.denom).retire coin.nat)

/-- `BurnCoins`. -/
def burnCoins (moduleName : String) (amounts : List Coin) : Exec GoError (State W) Unit := do
  getModuleAccount k moduleName
  Exec.panicIf (¬ Keeper.hasPermission moduleName "burner")
    ("module account " ++ moduleName ++ " does not have permissions to burn tokens")
  subUnlockedCoins (k.newModuleAddress moduleName).bytes amounts
  forM amounts subSupply

/-- `SendEnabledDenom`: the first entry for the denomination decides. -/
def isSendEnabledCoin (s : State W) (denom : String) : Bool :=
  (s.bank.sendEnabled.lookup denom).getD s.bank.defaultSendEnabled

/-- `GetDenomMetaData`. -/
def getDenomMetaData (s : State W) (denom : String) : Option Metadata :=
  s.bank.metadata.lookup denom

/-- The bank's message handler for `MsgSend`. -/
def send (msg : MsgSend) : Exec GoError (State W) Unit := do
  let s ← get
  forM msg.amount fun coin =>
    Exec.failIf (¬ isSendEnabledCoin s coin.denom)
      (.wrap ErrSendDisabled (coin.denom ++ " transfers are currently disabled"))
  let fromAddr ← Exec.ofExcept (k.accAddressFromBech32 msg.fromAddress)
  let toAddr ← Exec.ofExcept (k.accAddressFromBech32 msg.toAddress)
  Exec.failIf (k.blockedAddr toAddr)
    (.wrap ErrUnauthorized (msg.toAddress ++ " is not allowed to receive funds"))
  sendCoins fromAddr toAddr msg.amount

/-! ## One coin -/

section OneCoin

variable {s t : State W} {a b : AccAddress} {c : Coin} {u : Unit}

/-- What an account can spend of a denomination: the balance, less what vesting locks. -/
def spendable (s : State W) (a : AccAddress) (d : String) : ℕ :=
  (s.bank.ledger d).bal a - s.bank.locked a d

/-- The coin can be taken from `a`. -/
def CanSpend (s : State W) (a : AccAddress) (c : Coin) : Prop :=
  coinsIsValid [c] = true ∧ s.bank.locked a c.denom ≤ (s.bank.ledger c.denom).bal a ∧
    c.nat ≤ spendable s a c.denom

theorem CanSpend.le_bal (h : CanSpend s a c) : c.nat ≤ (s.bank.ledger c.denom).bal a :=
  le_trans h.2.2 (Nat.sub_le _ _)

private theorem forM_singleton (c : Coin) (f : Coin → Exec GoError (State W) PUnit) :
    forM [c] f = f c := by
  rw [List.forM_cons, List.forM_nil]
  exact bind_pure (f c)

theorem subUnlockedCoins_one (s : State W) : subUnlockedCoins a [c] s =
    if coinsIsValid [c] = false then
      .error (.error (.wrap ErrInvalidCoins (coinsString [c]))) s
    else if (s.bank.ledger c.denom).bal a < s.bank.locked a c.denom then
      .error (.panic "negative coin amount") s
    else if spendable s a c.denom < c.nat then
      .error (.error (.wrap ErrInsufficientFunds
        (toString (spendable s a c.denom) ++ c.denom ++ " is smaller than " ++ c.string))) s
    else .ok () (s.setLedger c.denom ((s.bank.ledger c.denom).debit a c.nat)) := by
  rw [subUnlockedCoins, forM_singleton, subUnlockedCoin, Exec.failIf_bind, Exec.get_bind,
    Exec.panicIf_bind, Exec.failIf_bind, Exec.modify_run]
  simp only [Bool.not_eq_true, spendable]
  rfl

theorem addCoins_one (s : State W) : addCoins a [c] s =
    if coinsIsValid [c] = false then
      .error (.error (.wrap ErrInvalidCoins (coinsString [c]))) s
    else if intBound ≤ (s.bank.ledger c.denom).bal a + c.nat then
      .error (.panic "Int overflow") s
    else .ok () (s.setLedger c.denom ((s.bank.ledger c.denom).credit a c.nat)) := by
  rw [addCoins, forM_singleton, addCoin, Exec.failIf_bind, Exec.get_bind, Exec.panicIf_bind,
    Exec.modify_run]
  simp only [Bool.not_eq_true]

/-- The recipient's balance after receiving the coin still fits. -/
def Fits (s : State W) (a b : AccAddress) (c : Coin) : Prop :=
  (((s.bank.ledger c.denom).debit a c.nat).bal b + c.nat) < intBound

/-- The state after one coin moved. -/
def moved (s : State W) (a b : AccAddress) (c : Coin) : State W :=
  (s.setLedger c.denom ((s.bank.ledger c.denom).move a b c.nat)).ensureAccount b

theorem sendCoins_of_canSpend (h : CanSpend s a c) : sendCoins a b [c] s =
    if intBound ≤ ((s.bank.ledger c.denom).debit a c.nat).bal b + c.nat then
      .error (.panic "Int overflow")
        (s.setLedger c.denom ((s.bank.ledger c.denom).debit a c.nat))
    else .ok () (moved s a b c) := by
  obtain ⟨hv, hl, hn⟩ := h
  have hsub : subUnlockedCoins a [c] s =
      .ok () (s.setLedger c.denom ((s.bank.ledger c.denom).debit a c.nat)) := by
    rw [subUnlockedCoins_one, if_neg (by simp [hv]), if_neg (by omega), if_neg (by omega)]
  rw [sendCoins, Exec.bind_of_ok hsub]
  by_cases ho : intBound ≤ ((s.bank.ledger c.denom).debit a c.nat).bal b + c.nat
  · rw [if_pos ho]
    refine Exec.bind_of_error ?_
    rw [addCoins_one, if_neg (by simp [hv]), State.setLedger_self, if_pos ho]
  · rw [if_neg ho]
    refine (Exec.bind_of_ok (a := ()) ?_).trans (Exec.modify_run ..)
    rw [addCoins_one, if_neg (by simp [hv]), State.setLedger_self, if_neg ho,
      State.setLedger_setLedger]
    rfl

/-- A coin that cannot be taken stops the transfer before anything is written: with the error
for insufficient funds only when a valid coin exceeds what can be spent, and with a panic only
when more is locked than there is. -/
theorem sendCoins_of_not_canSpend (h : ¬ CanSpend s a c) :
    ∃ f, sendCoins a b [c] s = .error f s ∧
      (∀ e, f = .error e → e.is ErrInsufficientFunds = true →
        coinsIsValid [c] = true ∧ spendable s a c.denom < c.nat) ∧
      ∀ m, f = .panic m → m = "negative coin amount" ∧
        (s.bank.ledger c.denom).bal a < s.bank.locked a c.denom := by
  simp only [CanSpend, not_and, not_le] at h
  rw [sendCoins]
  by_cases hv : coinsIsValid [c] = true
  · by_cases hl : s.bank.locked a c.denom ≤ (s.bank.ledger c.denom).bal a
    · refine ⟨.error (.wrap ErrInsufficientFunds
          (toString (spendable s a c.denom) ++ c.denom ++ " is smaller than " ++ c.string)),
        Exec.bind_of_error ?_, fun _ _ _ => ⟨hv, h hv hl⟩, by simp⟩
      rw [subUnlockedCoins_one, if_neg (by simp [hv]), if_neg (by omega), if_pos (h hv hl)]
    · refine ⟨.panic "negative coin amount", Exec.bind_of_error ?_, by simp,
        fun _ hm => ⟨(Failure.panic.inj hm).symm, Nat.lt_of_not_le hl⟩⟩
      rw [subUnlockedCoins_one, if_neg (by simp [hv]), if_pos (by omega)]
  · refine ⟨.error (.wrap ErrInvalidCoins (coinsString [c])), Exec.bind_of_error ?_, ?_, by simp⟩
    · rw [subUnlockedCoins_one, if_pos (by simpa using hv)]
    · rintro e he his
      obtain rfl := Failure.error.inj he
      simp [GoError.is, ErrInvalidCoins, ErrInsufficientFunds] at his

theorem sendCoins_ok_iff : sendCoins a b [c] s = .ok u t ↔
    CanSpend s a c ∧ Fits s a b c ∧ t = moved s a b c := by
  by_cases h : CanSpend s a c
  · rw [sendCoins_of_canSpend h, Fits]
    by_cases ho : intBound ≤ ((s.bank.ledger c.denom).debit a c.nat).bal b + c.nat
    · simp [ho, h]
    · simp [ho, h, not_le.mp ho, eq_comm]
  · obtain ⟨f, hf, -⟩ := sendCoins_of_not_canSpend (b := b) h
    simp [hf, h]

/-- A transfer of one coin that returns an error has written nothing. -/
theorem eq_of_sendCoins_error {e : GoError} (h : sendCoins a b [c] s = .error (.error e) t) :
    t = s ∧ ¬ CanSpend s a c := by
  by_cases hc : CanSpend s a c
  · rw [sendCoins_of_canSpend hc] at h
    split at h <;> simp at h
  · obtain ⟨f, hf, -⟩ := sendCoins_of_not_canSpend (b := b) hc
    rw [hf] at h
    exact ⟨(EStateM.Result.error.inj h).2.symm, hc⟩

/-! ### The module account -/

variable {k}

theorem getModuleAccount_run (s : State W) : getModuleAccount k ModuleName s =
    .ok () (s.ensureAccount k.moduleAddress.bytes) := by
  rw [getModuleAccount, Exec.panicIf_bind, if_neg (by decide), Exec.modify_run]
  rfl

/-- With the module account in place, escrowing is a transfer to it. -/
theorem sendCoinsFromAccountToModule_run (s : State W) :
    sendCoinsFromAccountToModule k a ModuleName [c] s =
      sendCoins a k.moduleAddress.bytes [c] (s.ensureAccount k.moduleAddress.bytes) := by
  rw [sendCoinsFromAccountToModule, Exec.bind_of_ok (getModuleAccount_run s)]
  rfl

/-- Releasing coins is a transfer from the module account, unless the recipient is blocked. -/
theorem sendCoinsFromModuleToAccount_run (s : State W) :
    sendCoinsFromModuleToAccount k ModuleName b [c] s =
      if k.blockedAddr b then
        .error (.error (.wrap ErrUnauthorized
          (k.accAddressString b ++ " is not allowed to receive funds"))) s
      else sendCoins k.moduleAddress.bytes b [c] s := by
  rw [sendCoinsFromModuleToAccount, Exec.panicIf_bind, if_neg (by decide), Exec.failIf_bind]
  rfl

theorem mintCoins_one (s : State W) : mintCoins k ModuleName [c] s =
    if coinsIsValid [c] = false then
      .error (.error (.wrap ErrInvalidCoins (coinsString [c])))
        (s.ensureAccount k.moduleAddress.bytes)
    else if intBound ≤ (s.bank.ledger c.denom).bal k.moduleAddress.bytes + c.nat then
      .error (.panic "Int overflow") (s.ensureAccount k.moduleAddress.bytes)
    else if intBound ≤ (s.bank.ledger c.denom).supply + c.nat then
      .error (.panic "Int overflow") ((s.ensureAccount k.moduleAddress.bytes).setLedger c.denom
        ((s.bank.ledger c.denom).credit k.moduleAddress.bytes c.nat))
    else .ok () ((s.ensureAccount k.moduleAddress.bytes).setLedger c.denom
      ((s.bank.ledger c.denom).mint k.moduleAddress.bytes c.nat)) := by
  rw [mintCoins, Exec.bind_of_ok (getModuleAccount_run s), Exec.panicIf_bind,
    if_neg (by decide), forM_singleton]
  have hadd := addCoins_one (a := k.moduleAddress.bytes) (c := c)
    (s.ensureAccount k.moduleAddress.bytes)
  rw [State.ensureAccount_bank] at hadd
  by_cases hv : coinsIsValid [c] = false
  · rw [if_pos hv] at hadd ⊢
    exact Exec.bind_of_error hadd
  rw [if_neg hv] at hadd ⊢
  by_cases hb : intBound ≤ (s.bank.ledger c.denom).bal k.moduleAddress.bytes + c.nat
  · rw [if_pos hb] at hadd ⊢
    exact Exec.bind_of_error hadd
  rw [if_neg hb] at hadd ⊢
  refine (Exec.bind_of_ok hadd).trans ?_
  rw [addSupply, Exec.get_bind, Exec.panicIf_bind, Exec.modify_run, State.setLedger_self,
    State.setLedger_setLedger]
  rfl

theorem canSpend_ensureAccount : CanSpend (s.ensureAccount b) a c ↔ CanSpend s a c := by
  simp only [CanSpend, spendable, State.ensureAccount_bank]

theorem burnCoins_ok_iff : burnCoins k ModuleName [c] s = .ok u t ↔
    CanSpend s k.moduleAddress.bytes c ∧ c.nat ≤ (s.bank.ledger c.denom).supply ∧
      t = (s.ensureAccount k.moduleAddress.bytes).setLedger c.denom
        ((s.bank.ledger c.denom).burn k.moduleAddress.bytes c.nat) := by
  rw [burnCoins, Exec.bind_of_ok (getModuleAccount_run s), Exec.panicIf_bind,
    if_neg (by decide), forM_singleton]
  -- taking one coin: the amount is valid, the unlocked part suffices, and so does the balance
  have hsub := subUnlockedCoins_one (a := k.moduleAddress.bytes) (c := c)
    (s.ensureAccount k.moduleAddress.bytes)
  simp only [spendable, State.ensureAccount_bank] at hsub
  by_cases h : CanSpend s k.moduleAddress.bytes c
  · obtain ⟨hv, hl, hn⟩ := id h
    rw [if_neg (by simp [hv]), if_neg (by omega), if_neg (by unfold spendable at hn; omega)]
      at hsub
    -- then the supply falls, or the subtraction panics
    have hrun := Exec.bind_of_ok (f := fun _ => subSupply c) hsub
    rw [subSupply, Exec.get_bind, Exec.panicIf_bind, Exec.modify_run, State.setLedger_self,
      State.setLedger_setLedger] at hrun
    refine (iff_of_eq (congrArg (· = EStateM.Result.ok u t) hrun)).trans ?_
    by_cases hs : (s.bank.ledger c.denom).supply < c.nat
    · simp [hs, Nat.not_le.mpr hs]
    · simp [hs, h, Nat.le_of_not_lt hs, eq_comm]
      rfl
  · -- the coin cannot be taken, so the first step already fails
    obtain ⟨f, t', hf⟩ : ∃ f t', subUnlockedCoins k.moduleAddress.bytes [c]
        (s.ensureAccount k.moduleAddress.bytes) = .error f t' := by
      rw [hsub]
      simp only [CanSpend, spendable, not_and, not_le] at h
      split
      · exact ⟨_, _, rfl⟩
      · split
        · exact ⟨_, _, rfl⟩
        · rw [if_pos (h (by simp_all) (by omega))]
          exact ⟨_, _, rfl⟩
    have hrun := Exec.bind_of_error (f := fun _ => subSupply c) hf
    refine (iff_of_eq (congrArg (· = EStateM.Result.ok u t) hrun)).trans ?_
    simp [h]

end OneCoin

/-! ## What the bank leaves alone -/

/-- A relation that holds across the bank's two kinds of writes. -/
structure BankKeeps (R : State W → State W → Prop) : Prop where
  setLedger : ∀ s d L, R s (s.setLedger d L)
  ensureAccount : ∀ s a, R s (s.ensureAccount a)

/-- A part of the state that neither a ledger nor a new account belongs to. -/
abbrev BankBlind {τ : Type} (π : State W → τ) : Prop := BankKeeps (Exec.SameOn π)

theorem bankBlind_config : BankBlind (State.config (W := W)) :=
  ⟨fun _ _ _ => rfl, fun s a => s.ensureAccount_config a⟩

theorem bankBlind_evm : BankBlind (State.evm (W := W)) :=
  ⟨fun _ _ _ => rfl, fun s a => s.ensureAccount_evm a⟩

section Bookings

variable {R : State W → State W → Prop} [Std.Refl R] [IsTrans (State W) R] {a b : AccAddress}

theorem relates_subUnlockedCoins_of (amt : List Coin)
    (hdebit : ∀ s d n, R s (s.setLedger d ((s.bank.ledger d).debit a n))) :
    Exec.Relates R (subUnlockedCoins (W := W) a amt) := by
  refine Exec.relates_bind (Exec.relates_failIf _ _) fun _ => ?_
  refine Exec.relates_forM amt fun coin _ => ?_
  refine Exec.relates_bind Exec.relates_get fun s => ?_
  refine Exec.relates_bind (Exec.relates_panicIf _ _) fun _ => ?_
  refine Exec.relates_bind (Exec.relates_failIf _ _) fun _ => ?_
  exact Exec.relates_modify fun t => hdebit t coin.denom coin.nat

theorem relates_addCoins_of (amt : List Coin)
    (hcredit : ∀ s d n, R s (s.setLedger d ((s.bank.ledger d).credit b n))) :
    Exec.Relates R (addCoins (W := W) b amt) := by
  refine Exec.relates_bind (Exec.relates_failIf _ _) fun _ => ?_
  refine Exec.relates_forM amt fun coin _ => ?_
  refine Exec.relates_bind Exec.relates_get fun s => ?_
  refine Exec.relates_bind (Exec.relates_panicIf _ _) fun _ => ?_
  exact Exec.relates_modify fun t => hcredit t coin.denom coin.nat

/-- A transfer keeps what its bookings and a new account keep. -/
theorem relates_sendCoins_of (amt : List Coin)
    (hdebit : ∀ s d n, R s (s.setLedger d ((s.bank.ledger d).debit a n)))
    (hcredit : ∀ s d n, R s (s.setLedger d ((s.bank.ledger d).credit b n)))
    (haccount : ∀ s : State W, R s (s.ensureAccount b)) :
    Exec.Relates R (sendCoins (W := W) a b amt) := by
  refine Exec.relates_bind (relates_subUnlockedCoins_of amt hdebit) fun _ => ?_
  refine Exec.relates_bind (relates_addCoins_of amt hcredit) fun _ => ?_
  exact Exec.relates_modify haccount

end Bookings

section Frame

variable {R : State W → State W → Prop} [Std.Refl R] [IsTrans (State W) R] (hR : BankKeeps R)
  (k : Keeper W)
include hR

omit [Std.Refl R] [IsTrans (State W) R] in
private theorem relates_setLedger (d : String) (g : State W → Ledger AccAddress) :
    Exec.Relates R
      (modify fun s => s.setLedger d (g s) : Exec GoError (State W) Unit) :=
  Exec.relates_modify fun s => hR.setLedger s d (g s)

omit [Std.Refl R] [IsTrans (State W) R] in
private theorem relates_ensureAccount (a : AccAddress) :
    Exec.Relates R
      (modify fun s => s.ensureAccount a : Exec GoError (State W) Unit) :=
  Exec.relates_modify fun s => hR.ensureAccount s a

theorem relates_subUnlockedCoins (a : AccAddress) (amt : List Coin) :
    Exec.Relates R (subUnlockedCoins (W := W) a amt) :=
  relates_subUnlockedCoins_of amt fun s d _ => hR.setLedger s d _

theorem relates_addCoins (a : AccAddress) (amt : List Coin) :
    Exec.Relates R (addCoins (W := W) a amt) :=
  relates_addCoins_of amt fun s d _ => hR.setLedger s d _

theorem relates_sendCoins (a b : AccAddress) (amt : List Coin) :
    Exec.Relates R (sendCoins (W := W) a b amt) :=
  relates_sendCoins_of amt (fun s d _ => hR.setLedger s d _) (fun s d _ => hR.setLedger s d _)
    fun s => hR.ensureAccount s b

theorem relates_getModuleAccount (m : String) :
    Exec.Relates R (getModuleAccount k m) :=
  Exec.relates_bind (Exec.relates_panicIf _ _) fun _ => relates_ensureAccount hR _

theorem relates_sendCoinsFromAccountToModule (a : AccAddress) (m : String) (amt : List Coin) :
    Exec.Relates R (sendCoinsFromAccountToModule k a m amt) :=
  Exec.relates_bind (relates_getModuleAccount hR k m) fun _ => relates_sendCoins hR _ _ _

theorem relates_sendCoinsFromModuleToAccount (m : String) (a : AccAddress) (amt : List Coin) :
    Exec.Relates R (sendCoinsFromModuleToAccount k m a amt) :=
  Exec.relates_bind (Exec.relates_panicIf _ _) fun _ =>
  Exec.relates_bind (Exec.relates_failIf _ _) fun _ => relates_sendCoins hR _ _ _

theorem relates_mintCoins (m : String) (amt : List Coin) :
    Exec.Relates R (mintCoins k m amt) :=
  Exec.relates_bind (relates_getModuleAccount hR k m) fun _ =>
  Exec.relates_bind (Exec.relates_panicIf _ _) fun _ =>
  Exec.relates_bind (relates_addCoins hR _ _) fun _ =>
  Exec.relates_forM amt fun _ _ =>
  Exec.relates_bind Exec.relates_get fun _ =>
  Exec.relates_bind (Exec.relates_panicIf _ _) fun _ => relates_setLedger hR _ _

theorem relates_burnCoins (m : String) (amt : List Coin) :
    Exec.Relates R (burnCoins k m amt) :=
  Exec.relates_bind (relates_getModuleAccount hR k m) fun _ =>
  Exec.relates_bind (Exec.relates_panicIf _ _) fun _ =>
  Exec.relates_bind (relates_subUnlockedCoins hR _ _) fun _ =>
  Exec.relates_forM amt fun _ _ =>
  Exec.relates_bind Exec.relates_get fun _ =>
  Exec.relates_bind (Exec.relates_panicIf _ _) fun _ => relates_setLedger hR _ _

theorem relates_send (msg : MsgSend) : Exec.Relates R (send k msg) :=
  Exec.relates_bind Exec.relates_get fun _ =>
  Exec.relates_bind (Exec.relates_forM _ fun _ _ => Exec.relates_failIf _ _) fun _ =>
  Exec.relates_bind (Exec.relates_ofExcept _) fun _ =>
  Exec.relates_bind (Exec.relates_ofExcept _) fun _ =>
  Exec.relates_bind (Exec.relates_failIf _ _) fun _ => relates_sendCoins hR _ _ _

end Frame

/-! ## What a transfer of any coins keeps -/

/-- No supply changes, and only the account `a` can have lost anything. -/
structure OnlyPaidBy (a : AccAddress) (s t : State W) : Prop where
  supply : ∀ d, (t.bank.ledger d).supply = (s.bank.ledger d).supply
  bal : ∀ d x, x ≠ a → (s.bank.ledger d).bal x ≤ (t.bank.ledger d).bal x

instance (a : AccAddress) : Std.Refl (OnlyPaidBy (W := W) a) :=
  ⟨fun _ => ⟨fun _ => rfl, fun _ _ _ => le_refl _⟩⟩

instance (a : AccAddress) : IsTrans (State W) (OnlyPaidBy a) :=
  ⟨fun _ _ _ h h' => ⟨fun d => (h'.supply d).trans (h.supply d),
    fun d x hx => (h.bal d x hx).trans (h'.bal d x hx)⟩⟩

theorem onlyPaidBy_debit {s : State W} {a : AccAddress} {d : String} {n : ℕ} :
    OnlyPaidBy a s (s.setLedger d ((s.bank.ledger d).debit a n)) where
  supply e := by
    rw [State.ledger_setLedger]
    split <;> simp_all
  bal e x hx := by
    rw [State.ledger_setLedger]
    split
    · simp_all [Ledger.bal_debit]
    · exact le_refl _

theorem onlyPaidBy_credit {s : State W} {a b : AccAddress} {d : String} {n : ℕ} :
    OnlyPaidBy a s (s.setLedger d ((s.bank.ledger d).credit b n)) where
  supply e := by
    rw [State.ledger_setLedger]
    split <;> simp_all
  bal e x hx := by
    rw [State.ledger_setLedger]
    split
    · rename_i he
      rw [Ledger.bal_credit, he]
      split <;> simp_all
    · exact le_refl _

theorem onlyPaidBy_ensureAccount {s : State W} {a b : AccAddress} :
    OnlyPaidBy a s (s.ensureAccount b) where
  supply d := by rw [State.ensureAccount_bank]
  bal d x _ := by rw [State.ensureAccount_bank]

theorem onlyPaidBy_sendCoins (a b : AccAddress) (amt : List Coin) :
    Exec.Relates (OnlyPaidBy a) (sendCoins (W := W) a b amt) := by
  apply relates_sendCoins_of
  · exact fun _ _ _ => onlyPaidBy_debit
  · exact fun _ _ _ => onlyPaidBy_credit
  · exact fun _ => onlyPaidBy_ensureAccount

/-- A bank send that went through is a transfer from the account that signed it. -/
theorem send_ok {k : Keeper W} {msg : MsgSend} {s t : State W} {u : Unit}
    (h : send k msg s = .ok u t) :
    ∃ a b, k.accAddressFromBech32 msg.fromAddress = .ok a ∧
      sendCoins a b msg.amount s = .ok u t := by
  simp only [send, Exec.bind_ok_iff, Exec.get_ok_iff, Exec.ofExcept_ok_iff,
    Exec.failIf_ok_iff] at h
  obtain ⟨_, _, ⟨rfl, rfl⟩, _, v, hloop, a, _, ⟨ha, rfl⟩, b, _, ⟨-, rfl⟩, _, _, ⟨-, rfl⟩,
    hsend⟩ := h
  have hv : v = s := (Exec.relates_forM (R := Exec.SameOn id) msg.amount fun _ _ =>
    Exec.relates_failIf _ _).of_ok hloop
  subst hv
  exact ⟨a, b, ha, hsend⟩

end GenesisEthermint.Chain
