import GenesisEthermint.Intrarelayer.System

/-!
# Outcomes

What each entry point did, read off its success. One lemma for each function of the message
server and the hook: the checks that passed, the message that was committed, and the state it
left. Everything said about conversions later rests on these and never unfolds a handler.
-/

namespace GenesisEthermint.Intrarelayer

open GenesisEthermint.Foundation GenesisEthermint.Types GenesisEthermint.Chain

variable {W : Type} {k : Keeper W} {s t v : State W} {u : Unit}
  {a b : AccAddress} {c : Coin} {pair : TokenPair}

/-! ## Amounts -/

/-- A valid coin's amount is packed as it is. -/
theorem packInt_of_valid (h : coinsIsValid [c] = true) :
    packInt c.amount.val = .uint256 c.nat := by
  have hpos := (coinsIsValid_singleton.mp h).2
  have hlt : c.amount.val.natAbs < 2 ^ 256 := c.amount.bounded
  have hmod : c.amount.val % 2 ^ 256 = c.amount.val := by
    refine Int.emod_eq_of_lt hpos.le ?_
    omega
  rw [packInt, hmod]
  rfl

theorem nat_pos_of_valid (h : coinsIsValid [c] = true) : 0 < c.nat := by
  have hpos := (coinsIsValid_singleton.mp h).2
  simp only [Coin.nat]
  omega

/-! ## Bank movements of the module -/

/-- The state after `a` put a coin into escrow. -/
def escrowed (k : Keeper W) (s : State W) (a : AccAddress) (c : Coin) : State W :=
  moved (s.ensureAccount k.moduleAddress.bytes) a k.moduleAddress.bytes c

/-- The state after the module minted a coin. -/
def mintedCoin (k : Keeper W) (s : State W) (c : Coin) : State W :=
  (s.ensureAccount k.moduleAddress.bytes).setLedger c.denom
    ((s.bank.ledger c.denom).mint k.moduleAddress.bytes c.nat)

/-- The state after the module burned a coin it held. -/
def burnedCoin (k : Keeper W) (s : State W) (c : Coin) : State W :=
  (s.ensureAccount k.moduleAddress.bytes).setLedger c.denom
    ((s.bank.ledger c.denom).burn k.moduleAddress.bytes c.nat)

/-- There is room for the coin in the module's balance and in the supply. -/
def CanMint (k : Keeper W) (s : State W) (c : Coin) : Prop :=
  coinsIsValid [c] = true ∧
    (s.bank.ledger c.denom).bal k.moduleAddress.bytes + c.nat < intBound ∧
    (s.bank.ledger c.denom).supply + c.nat < intBound

/-- The coin can be paid out of the module's balance to `b`. -/
def CanRelease (k : Keeper W) (s : State W) (b : AccAddress) (c : Coin) : Prop :=
  k.blockedAddr b = false ∧ CanSpend s k.moduleAddress.bytes c ∧
    Fits s k.moduleAddress.bytes b c

theorem escrow_ok_iff : sendCoinsFromAccountToModule k a ModuleName [c] s = .ok u t ↔
    CanSpend s a c ∧ Fits s a k.moduleAddress.bytes c ∧ t = escrowed k s a c := by
  rw [sendCoinsFromAccountToModule_run, sendCoins_ok_iff, canSpend_ensureAccount]
  simp only [Fits, State.ensureAccount_bank, escrowed]

theorem release_ok_iff : sendCoinsFromModuleToAccount k ModuleName b [c] s = .ok u t ↔
    CanRelease k s b c ∧ t = moved s k.moduleAddress.bytes b c := by
  rw [sendCoinsFromModuleToAccount_run]
  cases h : k.blockedAddr b with
  | true => simp [CanRelease, h]
  | false => simp [CanRelease, h, sendCoins_ok_iff, and_assoc]

theorem mintCoins_ok_iff : mintCoins k ModuleName [c] s = .ok u t ↔
    CanMint k s c ∧ t = mintedCoin k s c := by
  rw [mintCoins_one, CanMint]
  by_cases hv : coinsIsValid [c] = false
  · simp [hv]
  rw [if_neg hv]
  simp only [Bool.not_eq_false] at hv
  by_cases hb : intBound ≤ (s.bank.ledger c.denom).bal k.moduleAddress.bytes + c.nat
  · simp [hb, Nat.not_lt.mpr hb]
  rw [if_neg hb]
  by_cases hs : intBound ≤ (s.bank.ledger c.denom).supply + c.nat
  · simp [hs, Nat.not_lt.mpr hs]
  · simp [hs, hv, Nat.lt_of_not_le hb, Nat.lt_of_not_le hs, mintedCoin, eq_comm]

/-- Minting fails with an error only for a coin that is not valid, and then leaves nothing but
the module's account behind. -/
theorem eq_of_mintCoins_error {e : GoError}
    (h : mintCoins k ModuleName [c] s = .error (.error e) t) :
    t = s.ensureAccount k.moduleAddress.bytes ∧ coinsIsValid [c] = false := by
  rw [mintCoins_one] at h
  split at h
  · rename_i hv
    exact ⟨(EStateM.Result.error.inj h).2.symm, hv⟩
  · split at h
    · simp at h
    · split at h <;> simp at h

/-- A release that fails with an error has moved nothing. -/
theorem eq_of_release_error {e : GoError}
    (h : sendCoinsFromModuleToAccount k ModuleName b [c] s = .error (.error e) t) :
    t = s ∧ (k.blockedAddr b = true ∨ ¬ CanSpend s k.moduleAddress.bytes c) := by
  rw [sendCoinsFromModuleToAccount_run] at h
  split at h
  · rename_i hb
    exact ⟨(EStateM.Result.error.inj h).2.symm, .inl hb⟩
  · obtain ⟨ht, hc⟩ := eq_of_sendCoins_error h
    exact ⟨ht, .inr hc⟩

theorem burn_ok_iff : burnCoins k ModuleName [c] s = .ok u t ↔
    CanSpend s k.moduleAddress.bytes c ∧ c.nat ≤ (s.bank.ledger c.denom).supply ∧
      t = burnedCoin k s c :=
  burnCoins_ok_iff

/-! ### What the movements leave -/

section Movements

variable {d : String}

theorem ledger_moved : (moved s a b c).bank.ledger d =
    if d = c.denom then (s.bank.ledger c.denom).move a b c.nat else s.bank.ledger d := by
  simp only [moved, State.ensureAccount_bank, State.ledger_setLedger]

theorem ledger_escrowed : (escrowed k s a c).bank.ledger d =
    if d = c.denom then (s.bank.ledger c.denom).move a k.moduleAddress.bytes c.nat
    else s.bank.ledger d := by
  simp only [escrowed, ledger_moved, State.ensureAccount_bank]

theorem ledger_mintedCoin : (mintedCoin k s c).bank.ledger d =
    if d = c.denom then (s.bank.ledger c.denom).mint k.moduleAddress.bytes c.nat
    else s.bank.ledger d := by
  simp only [mintedCoin, State.ledger_setLedger, State.ensureAccount_bank]

theorem ledger_burnedCoin : (burnedCoin k s c).bank.ledger d =
    if d = c.denom then (s.bank.ledger c.denom).burn k.moduleAddress.bytes c.nat
    else s.bank.ledger d := by
  simp only [burnedCoin, State.ledger_setLedger, State.ensureAccount_bank]

@[simp] theorem supply_moved :
    ((moved s a b c).bank.ledger d).supply = (s.bank.ledger d).supply := by
  rw [ledger_moved]
  split <;> simp_all

@[simp] theorem supply_escrowed :
    ((escrowed k s a c).bank.ledger d).supply = (s.bank.ledger d).supply := by
  simp only [escrowed, supply_moved, State.ensureAccount_bank]

theorem supply_mintedCoin (h : c.denom = d) :
    ((mintedCoin k s c).bank.ledger d).supply = (s.bank.ledger d).supply + c.nat := by
  subst h
  rw [ledger_mintedCoin, if_pos rfl, Ledger.supply_mint]

/-- Escrowing adds the coin to the module's balance. -/
theorem bal_escrowed (h : a ≠ k.moduleAddress.bytes) :
    ((escrowed k s a c).bank.ledger c.denom).bal k.moduleAddress.bytes =
      (s.bank.ledger c.denom).bal k.moduleAddress.bytes + c.nat := by
  rw [ledger_escrowed, if_pos rfl, Ledger.bal_move_to h]

theorem CanRelease.ne_module (h : CanRelease k s b c) : k.moduleAddress.bytes ≠ b :=
  (k.ne_module_of_unblocked h.1).symm

/-- A release takes the coin off the module's balance. -/
theorem CanRelease.bal_moved (h : CanRelease k s b c) :
    ((moved s k.moduleAddress.bytes b c).bank.ledger c.denom).bal k.moduleAddress.bytes +
      c.nat = (s.bank.ledger c.denom).bal k.moduleAddress.bytes := by
  have hle := h.2.1.le_bal
  rw [ledger_moved, if_pos rfl, Ledger.bal_move_from h.ne_module]
  omega

@[simp] theorem moved_evm : (moved s a b c).evm = s.evm := by simp [moved]

@[simp] theorem escrowed_evm : (escrowed k s a c).evm = s.evm := by simp [escrowed]

@[simp] theorem mintedCoin_evm : (mintedCoin k s c).evm = s.evm := by simp [mintedCoin]

@[simp] theorem burnedCoin_evm : (burnedCoin k s c).evm = s.evm := by simp [burnedCoin]

@[simp] theorem moved_config : (moved s a b c).config = s.config := by simp [moved]

@[simp] theorem escrowed_config : (escrowed k s a c).config = s.config := by simp [escrowed]

@[simp] theorem mintedCoin_config : (mintedCoin k s c).config = s.config := by
  simp [mintedCoin]

@[simp] theorem burnedCoin_config : (burnedCoin k s c).config = s.config := by
  simp [burnedCoin]

end Movements

/-! ## Admission -/

/-- What `MintingEnabled` establishes about the pair it returns. -/
structure Admits (k : Keeper W) (s : State W) (sender receiver : AccAddress) (token : String)
    (pair : TokenPair) : Prop where
  on : s.params.enableIntrarelayer = true
  found : ∃ id, getTokenPairID s.registry token = some id ∧
    getTokenPair s.registry id = some pair
  enabled : pair.enabled = true
  unblocked : k.blockedAddr receiver = false
  sendable : sender = receiver ∨ isSendEnabledCoin s pair.denom = true

theorem mintingEnabled_ok_iff {token : String} :
    mintingEnabled k s a b token = .ok pair ↔ Admits k s a b token pair := by
  unfold mintingEnabled
  constructor
  -- the checks one by one, with the two lookups between them
  · intro h
    obtain ⟨_, hon, h⟩ := except_bind_ok_iff.mp h
    cases hid : getTokenPairID s.registry token with
    | none => simp [hid, throw, throwThe, MonadExceptOf.throw] at h
    | some id =>
      cases hp : getTokenPair s.registry id with
      | none => simp [hid, hp, throw, throwThe, MonadExceptOf.throw] at h
      | some q =>
        simp only [hid, hp, except_bind_ok_iff, rejectIf_ok_iff, pure, Except.pure,
          Except.ok.injEq, not_and, Bool.not_eq_true, Bool.not_eq_false] at h
        obtain ⟨_, he, _, hb, _, hs, rfl⟩ := h
        refine ⟨by simpa [rejectIf_ok_iff] using hon, ⟨id, hid, hp⟩, he, hb, ?_⟩
        exact (em (a = b)).imp_right hs
  -- the other way the same checks evaluate
  · rintro ⟨hon, ⟨id, hid, hp⟩, he, hb, hs⟩
    simp only [hid, hp, except_bind_ok_iff, rejectIf_ok_iff, pure, Except.pure,
      not_and, Bool.not_eq_true, Bool.not_eq_false]
    exact ⟨(), hon, (), he, (), hb, (), hs.resolve_left, trivial⟩

/-- A refusal by `MintingEnabled` is never about funds. -/
theorem mintingEnabled_error {token : String} {e : GoError}
    (h : mintingEnabled k s a b token = .error e) : e.is ErrInsufficientFunds = false := by
  -- every check either is this error or was passed
  have hreject : ∀ {c : Prop} [Decidable c] {e' : GoError} {α : Type}
      {f : Unit → Except GoError α}, (rejectIf c e' >>= f) = .error e →
      e = e' ∨ f () = .error e := by
    intro c _ e' α f hb
    unfold rejectIf at hb
    split at hb
    · exact .inl (Except.error.inj hb).symm
    · exact .inr hb
  unfold mintingEnabled at h
  -- the checks of the source in their order; none of their errors is this one
  rcases hreject h with rfl | h
  · rfl
  cases hid : getTokenPairID s.registry token with
  | none =>
    simp only [hid] at h
    obtain rfl := Except.error.inj h
    rfl
  | some id =>
    cases hp : getTokenPair s.registry id with
    | none =>
      simp only [hid, hp] at h
      obtain rfl := Except.error.inj h
      rfl
    | some q =>
      simp only [hid, hp] at h
      rcases hreject h with rfl | h
      · rfl
      rcases hreject h with rfl | h
      · rfl
      rcases hreject h with rfl | h
      · rfl
      · cases h

/-! ## The four flows -/

section Flows

variable {coinMsg : MsgConvertCoin} {erc20Msg : MsgConvertERC20} {account : AccAddress}
  {address : Address}

/-- The coin a token conversion pays out. -/
def payout (pair : TokenPair) (msg : MsgConvertERC20) : Coin := ⟨pair.denom, msg.amount⟩

private theorem packInt_payout (h : coinsIsValid [payout pair erc20Msg] = true) :
    packInt erc20Msg.amount.val = .uint256 (payout pair erc20Msg).nat :=
  packInt_of_valid h

/-- Coins to module-owned tokens: the coins are in escrow and the tokens were minted. -/
theorem convertCoinNativeCoin_ok_iff :
    convertCoinNativeCoin k pair coinMsg address account s = .ok u t ↔
      CanSpend s account coinMsg.coin ∧
      Fits s account k.moduleAddress.bytes coinMsg.coin ∧
      ∃ res, Committed k (escrowed k s account coinMsg.coin) k.moduleAddress
          (some pair.getERC20Contract)
          (.call .mint [.address address, .uint256 coinMsg.coin.nat]) res t ∧
        res.failed = false := by
  simp only [convertCoinNativeCoin, Exec.bind_ok_iff, Exec.mapError_ok_iff, escrow_ok_iff,
    Exec.pure_ok_iff]
  constructor
  · rintro ⟨_, _, ⟨hc, hf, rfl⟩, _, v, hcall, -, rfl⟩
    rw [packInt_of_valid hc.1] at hcall
    obtain ⟨res, hcom, hok, -⟩ := (callEVM_ok_iff rfl).mp hcall
    exact ⟨hc, hf, res, hcom, hok⟩
  · rintro ⟨hc, hf, res, hcom, hok⟩
    refine ⟨(), _, ⟨hc, hf, rfl⟩, res.ret, t, ?_, trivial, rfl⟩
    rw [packInt_of_valid hc.1]
    exact (callEVM_ok_iff rfl).mpr ⟨res, hcom, hok, rfl⟩

/-- Coins to external tokens: the coins went into escrow, the contract reported the transfer of
as many tokens, and the coins were burned. -/
theorem convertCoinNativeERC20_ok_iff :
    convertCoinNativeERC20 k pair coinMsg address account s = .ok u t ↔
      CanSpend s account coinMsg.coin ∧
      Fits s account k.moduleAddress.bytes coinMsg.coin ∧
      ∃ res v, Committed k (escrowed k s account coinMsg.coin) k.moduleAddress
          (some pair.getERC20Contract)
          (.call .transfer [.address address, .uint256 coinMsg.coin.nat]) res v ∧
        res.failed = false ∧ unpackBool res.ret = .ok true ∧
        CanSpend v k.moduleAddress.bytes coinMsg.coin ∧
        coinMsg.coin.nat ≤ (v.bank.ledger coinMsg.coin.denom).supply ∧
        t = burnedCoin k v coinMsg.coin := by
  simp only [convertCoinNativeERC20, Exec.bind_ok_iff, Exec.mapError_ok_iff, escrow_ok_iff,
    Exec.ofExcept_ok_iff, Exec.failIf_ok_iff, burn_ok_iff]
  constructor
  · rintro ⟨_, _, ⟨hc, hf, rfl⟩, ret, v, hcall, b, _, ⟨hb, rfl⟩, _, _, ⟨hret, rfl⟩, hburn⟩
    -- a coin that can be spent is not negative, so its amount packs as it is
    rw [packInt_of_valid hc.1] at hcall
    obtain ⟨res, hcom, hok, rfl⟩ := (callEVM_ok_iff rfl).mp hcall
    rw [not_not] at hret
    subst hret
    exact ⟨hc, hf, res, v, hcom, hok, hb, hburn⟩
  · rintro ⟨hc, hf, res, v, hcom, hok, hb, hburn⟩
    refine ⟨(), _, ⟨hc, hf, rfl⟩, res.ret, v, ?_, true, v, ⟨hb, rfl⟩, (), v, ⟨by simp, rfl⟩, hburn⟩
    rw [packInt_of_valid hc.1]
    exact (callEVM_ok_iff rfl).mpr ⟨res, hcom, hok, rfl⟩

/-- Module-owned tokens to coins: the tokens were burned and coins left the escrow. -/
theorem convertERC20NativeCoin_ok_iff :
    convertERC20NativeCoin k pair erc20Msg account address s = .ok u t ↔
      ∃ res v, Committed k s k.moduleAddress (some pair.getERC20Contract)
          (.call .burnCoins [.address address, .uint256 (payout pair erc20Msg).nat]) res v ∧
        res.failed = false ∧ CanRelease k v account (payout pair erc20Msg) ∧
        t = moved v k.moduleAddress.bytes account (payout pair erc20Msg) := by
  simp only [convertERC20NativeCoin, Exec.bind_ok_iff]
  constructor
  · rintro ⟨ret, v, hcall, hrel⟩
    obtain ⟨hr, rfl⟩ := release_ok_iff.mp hrel
    have hv : coinsIsValid [payout pair erc20Msg] = true := hr.2.1.1
    rw [packInt_payout hv] at hcall
    obtain ⟨res, hcom, hok, -⟩ := (callEVM_ok_iff rfl).mp hcall
    exact ⟨res, v, hcom, hok, hr, rfl⟩
  · rintro ⟨res, v, hcom, hok, hr, rfl⟩
    have hv : coinsIsValid [payout pair erc20Msg] = true := hr.2.1.1
    refine ⟨res.ret, v, ?_, release_ok_iff.mpr ⟨hr, rfl⟩⟩
    rw [packInt_payout hv]
    exact (callEVM_ok_iff rfl).mpr ⟨res, hcom, hok, rfl⟩

/-- External tokens to coins: the contract reported the transfer of the tokens to the module,
and as many coins were minted and paid out. -/
theorem convertERC20NativeToken_ok_iff :
    convertERC20NativeToken k pair erc20Msg account address s = .ok u t ↔
      ∃ res v, Committed k s address (some pair.getERC20Contract)
          (.call .transfer [.address k.moduleAddress, .uint256 (payout pair erc20Msg).nat])
          res v ∧
        res.failed = false ∧ unpackBool res.ret = .ok true ∧
        CanMint k v (payout pair erc20Msg) ∧
        CanRelease k (mintedCoin k v (payout pair erc20Msg)) account (payout pair erc20Msg) ∧
        t = moved (mintedCoin k v (payout pair erc20Msg)) k.moduleAddress.bytes account
          (payout pair erc20Msg) := by
  simp only [convertERC20NativeToken, Exec.bind_ok_iff, Exec.ofExcept_ok_iff,
    Exec.failIf_ok_iff]
  constructor
  · rintro ⟨data, _, ⟨hdata, rfl⟩, ret, v, hcall, b, _, ⟨hb, rfl⟩, _, _, ⟨hret, rfl⟩, _, w,
      hmint, hrel⟩
    obtain ⟨hm, rfl⟩ := mintCoins_ok_iff.mp hmint
    obtain ⟨hr, rfl⟩ := release_ok_iff.mp hrel
    rw [@packInt_payout pair erc20Msg hm.1] at hdata
    obtain rfl := Except.ok.inj hdata
    obtain ⟨res, hcom, hok, rfl⟩ := callEVMWithPayload_ok_iff.mp hcall
    rw [not_not] at hret
    subst hret
    exact ⟨res, v, hcom, hok, hb, hm, hr, rfl⟩
  · rintro ⟨res, v, hcom, hok, hb, hm, hr, rfl⟩
    refine ⟨_, s, ⟨?_, rfl⟩, res.ret, v, callEVMWithPayload_ok_iff.mpr ⟨res, hcom, hok, rfl⟩,
      true, v, ⟨hb, rfl⟩, (), v, ⟨by simp, rfl⟩, (), _, mintCoins_ok_iff.mpr ⟨hm, rfl⟩,
      release_ok_iff.mpr ⟨hr, rfl⟩⟩
    rw [packInt_payout hm.1]
    rfl

/-- A flow is chosen by the owner of the pair, and an undefined owner has none. -/
private theorem flow_ok_iff {pair : TokenPair} {x y : Exec GoError (State W) Unit} {e : GoError} :
    (if pair.isNativeCoin = true then x else if pair.isNativeERC20 = true then y
        else Exec.fail e) s = .ok u t ↔
      (pair.contractOwner = .OWNER_MODULE ∧ x s = .ok u t) ∨
        (pair.contractOwner = .OWNER_EXTERNAL ∧ y s = .ok u t) := by
  cases ho : pair.contractOwner with
  | OWNER_MODULE => simp [TokenPair.isNativeCoin, ho]
  | OWNER_EXTERNAL => simp [TokenPair.isNativeCoin, TokenPair.isNativeERC20, ho]
  | OWNER_UNSPECIFIED =>
    simp [TokenPair.isNativeCoin, TokenPair.isNativeERC20, ho, Exec.fail_ok_iff]

/-- The flow of a coin message is chosen by the owner of the admitted pair. -/
theorem convertCoin_ok_iff : convertCoin k coinMsg s = .ok u t ↔
    ∃ pair, Admits k s (decodeOrEmpty k coinMsg.sender) (hexToAddress coinMsg.receiver).bytes
        coinMsg.coin.denom pair ∧
      ((pair.contractOwner = .OWNER_MODULE ∧ convertCoinNativeCoin k pair coinMsg
          (hexToAddress coinMsg.receiver) (decodeOrEmpty k coinMsg.sender) s = .ok u t) ∨
        (pair.contractOwner = .OWNER_EXTERNAL ∧ convertCoinNativeERC20 k pair coinMsg
          (hexToAddress coinMsg.receiver) (decodeOrEmpty k coinMsg.sender) s = .ok u t)) := by
  simp only [convertCoin, Exec.bind_ok_iff, Exec.get_ok_iff, Exec.ofExcept_ok_iff,
    mintingEnabled_ok_iff, flow_ok_iff]
  constructor
  · rintro ⟨_, _, ⟨rfl, rfl⟩, pair, _, ⟨hp, rfl⟩, h⟩
    exact ⟨pair, hp, h⟩
  · rintro ⟨pair, hp, h⟩
    exact ⟨s, s, ⟨rfl, rfl⟩, pair, s, ⟨hp, rfl⟩, h⟩

/-- The flow of a token message is chosen by the owner of the admitted pair. -/
theorem convertERC20_ok_iff : convertERC20 k erc20Msg s = .ok u t ↔
    ∃ pair, Admits k s (hexToAddress erc20Msg.sender).bytes (decodeOrEmpty k erc20Msg.receiver)
        erc20Msg.contractAddress pair ∧
      ((pair.contractOwner = .OWNER_MODULE ∧ convertERC20NativeCoin k pair erc20Msg
          (decodeOrEmpty k erc20Msg.receiver) (hexToAddress erc20Msg.sender) s = .ok u t) ∨
        (pair.contractOwner = .OWNER_EXTERNAL ∧ convertERC20NativeToken k pair erc20Msg
          (decodeOrEmpty k erc20Msg.receiver) (hexToAddress erc20Msg.sender) s = .ok u t)) := by
  simp only [convertERC20, Exec.bind_ok_iff, Exec.get_ok_iff, Exec.ofExcept_ok_iff,
    mintingEnabled_ok_iff, flow_ok_iff]
  constructor
  · rintro ⟨_, _, ⟨rfl, rfl⟩, pair, _, ⟨hp, rfl⟩, h⟩
    exact ⟨pair, hp, h⟩
  · rintro ⟨pair, hp, h⟩
    exact ⟨s, s, ⟨rfl, rfl⟩, pair, s, ⟨hp, rfl⟩, h⟩

end Flows

/-! ## The hook -/

section Hook

variable {contract : Address} {ev : TransferEvent} {log : Log} {logs : List Log}
  {msg : Message}

/-- The coin a converted log pays out. -/
def logPayout (pair : TokenPair) (ev : TransferEvent) : Coin := ⟨pair.denom, ev.amount⟩

@[simp] theorem nat_logPayout : (logPayout pair ev).nat = ev.tokens := rfl

@[simp] theorem denom_logPayout : (logPayout pair ev).denom = pair.denom := rfl

/-- A transfer event the hook looks at is positive. -/
theorem tokens_pos_of_transferOf (h : transferOf log = some ev) : 0 < ev.tokens := by
  unfold transferOf at h
  split at h
  · split at h
    · split at h
      · split at h
        · rename_i hpos
          obtain rfl := Option.some.inj h
          exact hpos
        · cases h
      · cases h
    · cases h
  · cases h

/-- The coin of a log is valid exactly when the pair's denomination is. -/
theorem coinsIsValid_logPayout (h : transferOf log = some ev) :
    coinsIsValid [logPayout pair ev] = true ↔ reDnm pair.denom.toList = true := by
  have hpos : 0 < (ev.amount).val := Int.natCast_pos.mpr (tokens_pos_of_transferOf h)
  rw [coinsIsValid_singleton]
  exact and_iff_left hpos

/-- The hook took a log's tokens off the contract, or minted the coins for them. -/
inductive TokensTaken (k : Keeper W) (pair : TokenPair) (contract : Address)
    (ev : TransferEvent) (s v : State W) : Prop where
  | burned (res : EvmResult W) (owner : pair.contractOwner = .OWNER_MODULE)
      (committed : Committed k s k.moduleAddress (some contract)
        (.call .burn [.uint256 ev.tokens]) res v) (succeeded : res.failed = false)
  | minted (owner : pair.contractOwner = .OWNER_EXTERNAL)
      (canMint : CanMint k s (logPayout pair ev))
      (left : v = mintedCoin k s (logPayout pair ev))

/-- The hook could not convert a log and went on; what the attempt left behind. -/
inductive TokensKept (k : Keeper W) (pair : TokenPair) (contract : Address)
    (ev : TransferEvent) (s v : State W) : Prop where
  | nothing (owner : pair.contractOwner ≠ .OWNER_EXTERNAL) (left : v = s)
  | reverted (res : EvmResult W) (owner : pair.contractOwner = .OWNER_MODULE)
      (committed : Committed k s k.moduleAddress (some contract)
        (.call .burn [.uint256 ev.tokens]) res v) (failed : res.failed = true)
  | invalid (owner : pair.contractOwner = .OWNER_EXTERNAL)
      (coin : coinsIsValid [logPayout pair ev] = false)
      (left : v = s.ensureAccount k.moduleAddress.bytes)

private theorem packInt_tokens : packInt (ev.tokens : ℤ) = .uint256 ev.tokens := by
  have hlt : ev.tokens < 2 ^ 256 := ev.bounded
  have hmod : (ev.tokens : ℤ) % 2 ^ 256 = ev.tokens :=
    Int.emod_eq_of_lt (by omega) (by omega)
  rw [packInt, hmod]
  rfl

theorem convertTokens_ok_iff :
    convertTokens k pair contract ev s = .ok u v ↔ TokensTaken k pair contract ev s v := by
  unfold convertTokens
  cases ho : pair.contractOwner with
  | OWNER_MODULE =>
    -- burning is a call, whose result the hook does not look at
    simp only [Exec.bind_ok_iff, Exec.pure_ok_iff, packInt_tokens]
    constructor
    · rintro ⟨ret, _, hcall, -, rfl⟩
      obtain ⟨res, hcom, hok, -⟩ := (callEVM_ok_iff rfl).mp hcall
      exact .burned res ho hcom hok
    · rintro (⟨res, -, hcom, hok⟩ | ⟨ho', -, -⟩)
      · exact ⟨res.ret, v, (callEVM_ok_iff rfl).mpr ⟨res, hcom, hok, rfl⟩, trivial, rfl⟩
      · simp [ho] at ho'
  | OWNER_EXTERNAL =>
    constructor
    · intro h
      obtain ⟨hm, rfl⟩ := mintCoins_ok_iff.mp h
      exact .minted ho hm rfl
    · rintro (⟨res, ho', -, -⟩ | ⟨-, hm, rfl⟩)
      · simp [ho] at ho'
      · exact mintCoins_ok_iff.mpr ⟨hm, rfl⟩
  | OWNER_UNSPECIFIED =>
    simp only [Exec.fail_ok_iff, false_iff]
    -- a pair without an owner is never taken
    rintro (⟨res, ho', -, -⟩ | ⟨ho', -, -⟩) <;> simp [ho] at ho'

theorem convertTokens_error {e : GoError}
    (h : convertTokens k pair contract ev s = .error (.error e) v) :
    TokensKept k pair contract ev s v := by
  unfold convertTokens at h
  cases ho : pair.contractOwner with
  | OWNER_MODULE =>
    -- the owner decides which of the two failures it was
    simp only [ho, packInt_tokens] at h
    rcases Exec.bind_error_iff.mp h with h | ⟨_, _, -, h⟩
    · rcases (callEVM_error rfl h).2 with rfl | ⟨res, hcom, hf⟩
      · exact .nothing (by simp [ho]) rfl
      · exact .reverted res ho hcom hf
    · exact (Exec.pure_error_iff.mp h).elim
  | OWNER_EXTERNAL =>
    simp only [ho] at h
    obtain ⟨rfl, hv⟩ := eq_of_mintCoins_error h
    exact .invalid ho hv rfl
  | OWNER_UNSPECIFIED =>
    simp only [ho] at h
    exact .nothing (by simp [ho]) (Exec.fail_error_iff.mp h).2

/-- A converted log: either its tokens could not be taken, or the coin was paid out to the
sender, or it could not be paid out and stayed where it was. -/
theorem convertLog_ok_cases (h : convertLog k pair contract ev s = .ok u t) :
    (∃ e, convertTokens k pair contract ev s = .error (.error e) t) ∨
    ∃ v, convertTokens k pair contract ev s = .ok () v ∧
      ((CanRelease k v ev.sender.bytes (logPayout pair ev) ∧
          t = moved v k.moduleAddress.bytes ev.sender.bytes (logPayout pair ev)) ∨
        ((k.blockedAddr ev.sender.bytes = true ∨
          ¬ CanSpend v k.moduleAddress.bytes (logPayout pair ev)) ∧ t = v)) := by
  obtain ⟨r, v, hr, h⟩ := Exec.bind_ok_iff.mp h
  rcases Exec.attempt_ok_iff.mp hr with ⟨_, rfl, htok⟩ | ⟨e, rfl, hkept⟩
  · refine .inr ⟨v, htok, ?_⟩
    obtain ⟨_, w, hw, h⟩ := Exec.bind_ok_iff.mp h
    obtain ⟨-, rfl⟩ := Exec.pure_ok_iff.mp h
    rcases Exec.attempt_ok_iff.mp hw with ⟨_, -, hrel⟩ | ⟨e, -, hrel⟩
    · exact .inl (release_ok_iff.mp hrel)
    · obtain ⟨hw, hwhy⟩ := eq_of_release_error hrel
      exact .inr ⟨hwhy, hw⟩
  · obtain ⟨-, rfl⟩ := Exec.pure_ok_iff.mp h
    exact .inl ⟨e, hkept⟩

theorem convertLog_ok (h : convertLog k pair contract ev s = .ok u t) :
    TokensKept k pair contract ev s t ∨
    ∃ v, TokensTaken k pair contract ev s v ∧
      ((CanRelease k v ev.sender.bytes (logPayout pair ev) ∧
          t = moved v k.moduleAddress.bytes ev.sender.bytes (logPayout pair ev)) ∨
        ((k.blockedAddr ev.sender.bytes = true ∨
          ¬ CanSpend v k.moduleAddress.bytes (logPayout pair ev)) ∧ t = v)) :=
  (convertLog_ok_cases h).imp (fun ⟨_, hkept⟩ => convertTokens_error hkept)
    fun ⟨v, htok, hpaid⟩ => ⟨v, convertTokens_ok_iff.mp htok, hpaid⟩

/-- A log whose tokens can be taken and whose coin can be paid out is converted. -/
theorem convertLog_of_paid (htok : TokensTaken k pair contract ev s v)
    (hrel : CanRelease k v ev.sender.bytes (logPayout pair ev)) :
    convertLog k pair contract ev s =
      .ok () (moved v k.moduleAddress.bytes ev.sender.bytes (logPayout pair ev)) := by
  refine Exec.bind_ok_iff.mpr ⟨.ok (), v,
    Exec.attempt_ok_iff.mpr (.inl ⟨(), rfl, convertTokens_ok_iff.mpr htok⟩), ?_⟩
  refine Exec.bind_ok_iff.mpr ⟨.ok (), _, ?_, Exec.pure_ok_iff.mpr ⟨rfl, rfl⟩⟩
  exact Exec.attempt_ok_iff.mpr (.inl ⟨(), rfl, release_ok_iff.mpr ⟨hrel, rfl⟩⟩)

/-- One round of the loop: the log was skipped, or it was a transfer to the module on an
enabled pair and was handed to the conversion. -/
theorem processLog_ok (h : processLog k log s = .ok u t) :
    t = s ∨ ∃ ev pair, transferOf log = some ev ∧ ev.recipient = k.moduleAddress ∧
      pairOfContract s.registry log.address = some pair ∧ pair.enabled = true ∧
      convertLog k pair log.address ev s = .ok u t := by
  simp only [processLog, Exec.get_bind] at h
  cases htr : transferOf log with
  | none =>
    simp only [htr] at h
    exact .inl (Exec.pure_ok_iff.mp h).2.symm
  | some ev =>
    cases hp : pairOfContract s.registry log.address with
    | none =>
      simp only [htr, hp] at h
      exact .inl (Exec.pure_ok_iff.mp h).2.symm
    | some pair =>
      simp only [htr, hp, Exec.failIf_bind] at h
      split at h
      · cases h
      rename_i hen
      split at h
      · exact .inl (Exec.pure_ok_iff.mp h).2.symm
      · rename_i hrec
        exact .inr ⟨ev, pair, rfl, not_not.mp hrec, rfl, not_not.mp hen, h⟩

/-- A transfer to the module on an enabled pair is converted. -/
theorem processLog_of_transfer (htr : transferOf log = some ev)
    (hrec : ev.recipient = k.moduleAddress)
    (hp : pairOfContract s.registry log.address = some pair) (hen : pair.enabled = true) :
    processLog k log s = convertLog k pair log.address ev s := by
  simp only [processLog, Exec.get_bind, htr, hp, Exec.failIf_bind]
  rw [if_neg (by simp [hen]), if_neg (by simp [hrec])]

/-- When a round of the loop completes on a transfer to the module, of a registered contract,
the pair was enabled and the log went to the conversion. -/
theorem processLog_ok_of_transfer (htr : transferOf log = some ev)
    (hrec : ev.recipient = k.moduleAddress)
    (hp : pairOfContract s.registry log.address = some pair)
    (h : processLog k log s = .ok u t) :
    pair.enabled = true ∧ convertLog k pair log.address ev s = .ok u t := by
  simp only [processLog, Exec.get_bind, htr, hp, Exec.failIf_bind] at h
  rw [if_neg (show ¬ ev.recipient ≠ k.moduleAddress from not_not.mpr hrec)] at h
  split at h
  · cases h
  · rename_i hen
    exact ⟨not_not.mp hen, h⟩

theorem postTxProcessing_ok_iff : postTxProcessing k logs s = .ok u t ↔
    s.params.enableEVMHook = true ∧ forM logs (processLog k) s = .ok u t := by
  rw [postTxProcessing, Exec.get_bind, Exec.failIf_bind]
  split
  · simp_all
  · simp_all

/-- The state the hook sees: what the transaction's message left. -/
def afterTx (s : State W) (res : EvmResult W) : State W :=
  { s with evm := res.world, accounts := res.accounts }

theorem applyTransaction_ok_iff : applyTransaction k msg s = .ok u t ↔
    ∃ res, k.evm.applyMessage s.evm s.accounts msg = .ok res ∧ res.failed = false ∧
      postTxProcessing k res.logs (afterTx s res) = .ok u t := by
  simp only [applyTransaction, Exec.get_bind, Exec.ofExcept_bind]
  cases k.evm.applyMessage s.evm s.accounts msg with
  | error e => simp
  | ok res =>
    simp only [Exec.modify_bind, Exec.failIf_bind]
    cases hf : res.failed <;> simp [hf, afterTx]

end Hook

end GenesisEthermint.Intrarelayer
