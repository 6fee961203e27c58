import GenesisEthermint.Hook.KillSwitch

/-!
# Pairs without Code

The contract of a pair may be gone: it destroyed itself, or the pair came from a genesis that
did not bring it along. A call to an address without code succeeds and returns nothing. The two
flows of external pairs decode what comes back and stop. The two flows of module-owned pairs do
not look at it, and take or release coins for tokens that are not there.
-/

namespace GenesisEthermint.Conversion

open GenesisEthermint.Foundation GenesisEthermint.Types GenesisEthermint.Chain
open GenesisEthermint.Intrarelayer GenesisEthermint.Registry GenesisEthermint.Tokens
open GenesisEthermint.Hook

variable {W : Type} {k : Keeper W} {s t v : State W} {u : Unit} {c : Address} {p : TokenPair}
  {coinMsg : MsgConvertCoin} {erc20Msg : MsgConvertERC20} {account : AccAddress}
  {address : Address} {op : Op}

/-- An address without code, as the machine treats it: every call by an account that exists
succeeds and returns nothing. -/
def Codeless (k : Keeper W) (c : Address) (w : W) : Prop :=
  ∀ {accounts sender nonce m args}, accounts sender.bytes = some nonce →
    ∃ res, k.evm.applyMessage w accounts ⟨sender, some c, nonce, .call m args⟩ = .ok res ∧
      res.failed = false ∧ res.ret = []

/-- The operation returns an error, and its delivery leaves everything as it was. -/
def Refused (k : Keeper W) (s : State W) (op : Op) : Prop :=
  (∀ u t, op.exec k s ≠ .ok u t) ∧ (step k s op).bank.ledger = s.bank.ledger ∧
    (step k s op).evm = s.evm

/-- The coins of the message can be put into escrow. -/
def CanEscrow (k : Keeper W) (s : State W) (p : TokenPair) (msg : MsgConvertCoin) : Prop :=
  Admits k s (decodeOrEmpty k msg.sender) (hexToAddress msg.receiver).bytes msg.coin.denom p ∧
    CanSpend s (decodeOrEmpty k msg.sender) msg.coin ∧
    Fits s (decodeOrEmpty k msg.sender) k.moduleAddress.bytes msg.coin

/-- The coins the message asks for can be paid out of the escrow. -/
def CanPayOut (k : Keeper W) (s : State W) (p : TokenPair) (msg : MsgConvertERC20) : Prop :=
  Admits k s (hexToAddress msg.sender).bytes (decodeOrEmpty k msg.receiver) msg.contractAddress p ∧
    (s.accounts k.moduleAddress.bytes).isSome = true ∧
    CanRelease k s (decodeOrEmpty k msg.receiver) (payout p msg)

/-! ## The four flows -/

/-- Nothing is not a boolean. -/
theorem unpackBool_nil (b : Bool) : unpackBool [] ≠ .ok b := by
  cases b <;> decide

/-- A committed call of an address without code returned nothing. -/
private theorem ret_of_committed (hc : Codeless k c s.evm) {sender : Address} {m : Method}
    {args : List AbiArg} {res : EvmResult W}
    (h : Committed k s sender (some c) (.call m args) res t) : res.ret = [] := by
  obtain ⟨nonce, hnonce, happ, -⟩ := h
  obtain ⟨res', happ', -, hret⟩ := @hc _ _ _ m args hnonce
  obtain rfl := Except.ok.inj (happ.symm.trans happ')
  exact hret

/-- A call of it is committed whenever the caller exists. -/
private theorem exists_committed (hc : Codeless k c s.evm) {sender : Address} {m : Method}
    {args : List AbiArg} {nonce : ℕ} (hnonce : s.accounts sender.bytes = some nonce) :
    ∃ res t, Committed k s sender (some c) (.call m args) res t ∧ res.failed = false := by
  obtain ⟨res, happ, hf, -⟩ := @hc _ _ _ m args hnonce
  exact ⟨res, _, ⟨nonce, hnonce, happ, rfl⟩, hf⟩

/-- Coins are taken for tokens that nobody minted. -/
private theorem exists_convertCoinNativeCoin_ok (hc : Codeless k p.getERC20Contract s.evm)
    (hs : CanSpend s account coinMsg.coin)
    (hfit : Fits s account k.moduleAddress.bytes coinMsg.coin) :
    ∃ t, convertCoinNativeCoin k p coinMsg address account s = .ok () t := by
  have hc' : Codeless k p.getERC20Contract (escrowed k s account coinMsg.coin).evm := by
    rw [escrowed_evm]
    exact hc
  -- the escrow made sure that the module has an account
  obtain ⟨nonce, hnonce⟩ : ∃ n, (escrowed k s account coinMsg.coin).accounts
      k.moduleAddress.bytes = some n := State.exists_accounts_ensureAccount _ _
  obtain ⟨res, t, hcom, hf⟩ := exists_committed hc' hnonce
  exact ⟨t, convertCoinNativeCoin_ok_iff.mpr ⟨hs, hfit, res, hcom, hf⟩⟩

/-- Coins are released for tokens that nobody burned. -/
private theorem convertERC20NativeCoin_ok_iff_of_codeless
    (hc : Codeless k p.getERC20Contract s.evm) :
    (∃ t, convertERC20NativeCoin k p erc20Msg account address s = .ok () t) ↔
      (s.accounts k.moduleAddress.bytes).isSome = true ∧
        CanRelease k s account (payout p erc20Msg) := by
  -- the payout reads the bank alone
  have hcongr : ∀ {v : State W}, v.bank = s.bank →
      (CanRelease k v account (payout p erc20Msg) ↔
        CanRelease k s account (payout p erc20Msg)) := by
    intro v hv
    simp only [CanRelease, CanSpend, Fits, spendable, hv]
  constructor
  · rintro ⟨t, h⟩
    obtain ⟨res, v, hcom, -, hrel, -⟩ := convertERC20NativeCoin_ok_iff.mp h
    obtain ⟨nonce, hnonce, -⟩ := id hcom
    exact ⟨by rw [hnonce]; rfl, (hcongr hcom.bank_eq).mp hrel⟩
  -- a call of an account without code succeeds, whatever its data
  · rintro ⟨hacc, hrel⟩
    obtain ⟨nonce, hnonce⟩ := Option.isSome_iff_exists.mp hacc
    obtain ⟨res, v, hcom, hf⟩ := exists_committed hc hnonce
    exact ⟨_, convertERC20NativeCoin_ok_iff.mpr
      ⟨res, v, hcom, hf, (hcongr hcom.bank_eq).mpr hrel, rfl⟩⟩

/-! ## Refusal -/

private theorem refused_iff : Refused k s op ↔ ∀ u t, op.exec k s ≠ .ok u t := by
  constructor
  · exact And.left
  · intro h
    have hstep := step_of_not_ok h
    exact ⟨h, by rw [hstep], by rw [hstep]⟩

/-- **Coins to tokens, without code.** The message is refused exactly when the pair is not
module-owned or its coins cannot be escrowed. -/
theorem convertCoin_refused_iff (hn : Names s.registry coinMsg.coin.denom p)
    (hc : Codeless k p.getERC20Contract s.evm) :
    Refused k s (.convertCoin coinMsg) ↔
      (p.contractOwner = .OWNER_MODULE → ¬ CanEscrow k s p coinMsg) := by
  rw [refused_iff]
  constructor
  · rintro h ho ⟨hadm, hs, hfit⟩
    obtain ⟨t, ht⟩ := exists_convertCoinNativeCoin_ok hc hs hfit
    exact h () t (convertCoin_ok_iff.mpr ⟨p, hadm, .inl ⟨ho, ht⟩⟩)
  · intro h u t hok
    obtain ⟨q, hadm, hflow⟩ := convertCoin_ok_iff.mp hok
    obtain rfl := hn.eq_of_admits hadm
    rcases hflow with ⟨ho, hflow⟩ | ⟨ho, hflow⟩
    · obtain ⟨hs, hfit, -⟩ := convertCoinNativeCoin_ok_iff.mp hflow
      exact h ho ⟨hadm, hs, hfit⟩
    · -- the external flow decodes what the call returned
      obtain ⟨-, -, res, v, hcom, -, hret, -⟩ := convertCoinNativeERC20_ok_iff.mp hflow
      have hc' : Codeless k q.getERC20Contract
          (escrowed k s (decodeOrEmpty k coinMsg.sender) coinMsg.coin).evm := by
        rw [escrowed_evm]
        exact hc
      rw [ret_of_committed hc' hcom] at hret
      exact unpackBool_nil true hret

/-- **Tokens to coins, without code.** The message is refused exactly when the pair is not
module-owned or its coins cannot be paid out. -/
theorem convertERC20_refused_iff (hn : Names s.registry erc20Msg.contractAddress p)
    (hc : Codeless k p.getERC20Contract s.evm) :
    Refused k s (.convertERC20 erc20Msg) ↔
      (p.contractOwner = .OWNER_MODULE → ¬ CanPayOut k s p erc20Msg) := by
  rw [refused_iff]
  constructor
  · rintro h ho ⟨hadm, hacc, hrel⟩
    obtain ⟨t, ht⟩ := (convertERC20NativeCoin_ok_iff_of_codeless hc).mpr ⟨hacc, hrel⟩
    exact h () t (convertERC20_ok_iff.mpr ⟨p, hadm, .inl ⟨ho, ht⟩⟩)
  · intro h u t hok
    obtain ⟨q, hadm, hflow⟩ := convertERC20_ok_iff.mp hok
    obtain rfl := hn.eq_of_admits hadm
    rcases hflow with ⟨ho, hflow⟩ | ⟨ho, hflow⟩
    · obtain ⟨hacc, hrel⟩ := (convertERC20NativeCoin_ok_iff_of_codeless hc).mp ⟨t, hflow⟩
      exact h ho ⟨hadm, hacc, hrel⟩
    · obtain ⟨res, v, hcom, -, hret, -⟩ := convertERC20NativeToken_ok_iff.mp hflow
      rw [ret_of_committed hc hcom] at hret
      exact unpackBool_nil true hret

/-- **A pair without code converts nothing, unless it is module-owned**: then whatever can be
escrowed is taken, and whatever can be paid out is released. -/
theorem codeless_refused_iff (hc : Codeless k p.getERC20Contract s.evm) :
    (∀ msg, Names s.registry msg.coin.denom p → (Refused k s (.convertCoin msg) ↔
      (p.contractOwner = .OWNER_MODULE → ¬ CanEscrow k s p msg))) ∧
    (∀ msg, Names s.registry msg.contractAddress p → (Refused k s (.convertERC20 msg) ↔
      (p.contractOwner = .OWNER_MODULE → ¬ CanPayOut k s p msg))) :=
  ⟨fun _ hn => convertCoin_refused_iff hn hc, fun _ hn => convertERC20_refused_iff hn hc⟩

/-! ## A genesis without the contracts -/

/-- The deployment on a world in which no contract exists. -/
def withoutContracts : State TokenWorld := deployed plainEvm fun _ => none

/-- Alice's messages to convert coins of the module-owned pair, and back. -/
def coinsForNothing : MsgConvertCoin :=
  ⟨⟨"acoin", newIntFromUint64 5⟩, "0x3333333333333333333333333333333333333333", aliceBech32⟩

def releaseForNothing : MsgConvertERC20 :=
  ⟨"0x5555555555555555555555555555555555555555", newIntFromUint64 7, aliceBech32,
    "0x3333333333333333333333333333333333333333"⟩

theorem codeless_withoutContracts (c : Address) :
    Codeless plainKeeper c withoutContracts.evm := by
  intro accounts sender nonce m args _
  exact ⟨_, rfl, rfl, rfl⟩

/-- Her message to convert tokens of the external pair. -/
def tokensOfPairA : MsgConvertERC20 :=
  ⟨"0x1111111111111111111111111111111111111111", newIntFromUint64 5, aliceBech32,
    "0x3333333333333333333333333333333333333333"⟩

theorem codeless_refused_iff_tokensOfPairA :
    Refused plainKeeper withoutContracts (.convertERC20 tokensOfPairA) := by
  have hn : Names withoutContracts.registry tokensOfPairA.contractAddress pairA :=
    ⟨pairA.getID plainKeeper.tmhashSum, by decide +kernel, by decide +kernel⟩
  refine ((codeless_refused_iff (codeless_withoutContracts _)).2 tokensOfPairA hn).mpr ?_
  intro ho
  cases ho

/-- **Coins are taken, and coins are released, with no contract in existence.** -/
theorem not_refused_withoutContracts :
    ¬ Refused plainKeeper withoutContracts (.convertCoin coinsForNothing) ∧
    ¬ Refused plainKeeper withoutContracts (.convertERC20 releaseForNothing) := by
  have htaken : ((step plainKeeper withoutContracts (.convertCoin coinsForNothing)).bank.ledger
      "acoin").bal alice.bytes = 55 := by decide +kernel
  have hreleased : ((step plainKeeper withoutContracts
      (.convertERC20 releaseForNothing)).bank.ledger "acoin").bal alice.bytes = 67 := by
    decide +kernel
  have hbefore : (withoutContracts.bank.ledger "acoin").bal alice.bytes = 60 := by decide +kernel
  constructor
  · intro h
    rw [h.2.1, hbefore] at htaken
    cases htaken
  · intro h
    rw [h.2.1, hbefore] at hreleased
    cases hreleased

end GenesisEthermint.Conversion
