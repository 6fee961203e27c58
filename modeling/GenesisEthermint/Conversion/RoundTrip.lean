import GenesisEthermint.Conversion.Effect
import GenesisEthermint.Registry.Bijection

/-!
# Round Trips

A user takes tokens to coins and the coins back to tokens, or the other way round, with
messages that pass validation before the message server sees them. For a module-owned pair the
two conversions undo each other. For an external pair the coins do not come back: the
denomination that `RegisterERC20` makes is one that the validation of the coin message rejects.
-/

namespace GenesisEthermint.Conversion

open GenesisEthermint.Foundation GenesisEthermint.Types GenesisEthermint.Chain
open GenesisEthermint.Intrarelayer GenesisEthermint.Registry GenesisEthermint.Tokens
open GenesisEthermint.Hook

variable {W σ : Type} {k : Keeper W} {s t v : State W} {u : Unit} {p : TokenPair} {a : Address}
  {n : SdkInt} {token : W → OzToken} {Sound : W → Prop} {storage : W → Address → σ}
  {tokens : MsgConvertERC20} {coins : MsgConvertCoin} {book : W → Ledger Address} {m : ℕ}

/-- A coin message on its whole path: stateless validation, then the message server. -/
def submitConvertCoin (k : Keeper W) (msg : MsgConvertCoin) : Exec GoError (State W) Unit := do
  Exec.ofExcept (msg.validateBasic k.accAddressFromBech32)
  convertCoin k msg

/-- A token message on its whole path. -/
def submitConvertERC20 (k : Keeper W) (msg : MsgConvertERC20) : Exec GoError (State W) Unit := do
  Exec.ofExcept (msg.validateBasic k.accAddressFromBech32)
  convertERC20 k msg

/-- The messages are those of the user `a` about `n` units of the pair, to herself. -/
structure OwnMessages (k : Keeper W) (p : TokenPair) (a : Address) (n : SdkInt)
    (tokens : MsgConvertERC20) (coins : MsgConvertCoin) : Prop where
  contract : HexSpelling tokens.contractAddress p.getERC20Contract
  amount : tokens.amount = n
  tokenSender : HexSpelling tokens.sender a
  coinReceiver : k.accAddressFromBech32 tokens.receiver = .ok a.bytes
  coin : coins.coin = ⟨p.denom, n⟩
  coinSender : k.accAddressFromBech32 coins.sender = .ok a.bytes
  tokenReceiver : HexSpelling coins.receiver a

/-- Every bank balance and supply, every balance of the token and its total supply, and the
storage of every other contract are in `t` what they were in `s`. -/
structure Restored (p : TokenPair) (book : W → Ledger Address) (storage : W → Address → σ)
    (s t : State W) : Prop where
  coins : t.bank.ledger = s.bank.ledger
  tokens : book t.evm = book s.evm
  contracts : ∀ c ≠ p.getERC20Contract, storage t.evm c = storage s.evm c

/-- **A round trip**: both messages succeed, one after the other, and together they change
nothing. -/
def RoundTrip (p : TokenPair) (book : W → Ledger Address) (storage : W → Address → σ)
    (there back : Exec GoError (State W) Unit) (s : State W) : Prop :=
  ∃ v t, there s = .ok () v ∧ back v = .ok () t ∧ Restored p book storage s t

/-- The pair was registered by a proposal: a coin whose proposal was valid, or a contract. An
update of the contract keeps the denomination that was made for the first one. -/
inductive Registered (k : Keeper W) (p : TokenPair) : Prop where
  | coin (proposal : RegisterCoinProposal) (valid : proposal.validateBasic = .ok ())
      (denom : p.denom = proposal.metadata.base) (owner : p.contractOwner = .OWNER_MODULE)
  | erc20 (contract : Address) (denom : p.denom = createDenom (contract.hex k.keccak256))
      (owner : p.contractOwner = .OWNER_EXTERNAL)

/-! ## The two conversions undo each other -/

/-- Converting tokens and then as many coins changes nothing, for either kind of pair. -/
theorem restored_of_tokensConverted (h : TokensConverted k p book storage a a.bytes m s v)
    (h' : CoinsConverted k p book storage p.denom a.bytes a m v t) :
    Restored p book storage s t where
  coins := by
    funext d
    by_cases hd : d = p.denom
    · subst hd
      exact h.coins.taken_back h'.coins
    · exact (h'.rest.denoms d hd).trans (h.rest.denoms d hd)
  tokens := h.tokens.paid_back h'.tokens
  contracts c hc := (h'.rest.contracts c hc).trans (h.rest.contracts c hc)

/-- Converting coins and then as many tokens changes nothing. -/
theorem restored_of_coinsConverted (h : CoinsConverted k p book storage p.denom a.bytes a m s v)
    (h' : TokensConverted k p book storage a a.bytes m v t) :
    Restored p book storage s t where
  coins := by
    funext d
    by_cases hd : d = p.denom
    · subst hd
      exact h.coins.paid_back h'.coins
    · exact (h'.rest.denoms d hd).trans (h.rest.denoms d hd)
  tokens := h.tokens.taken_back h'.tokens
  contracts c hc := (h'.rest.contracts c hc).trans (h.rest.contracts c hc)

/-! ## Which denominations pass validation -/

private theorem splitSlash_createDenom (text : String) :
    splitSlash (createDenom text) = (ModuleName, some text) := by
  have hlist : (createDenom text).toList = "intrarelayer".toList ++ '/' :: text.toList := by
    simp [createDenom, ModuleName, String.toList_append]
  have hhead : (createDenom text).toList.takeWhile (· ≠ '/') = "intrarelayer".toList := by
    rw [hlist]
    rfl
  have htail : (createDenom text).toList.drop "intrarelayer".toList.length =
      '/' :: text.toList := by
    rw [hlist]
    rfl
  simp only [splitSlash, hhead, htail]
  simp [ModuleName]

/-- The denominations made for contracts are no IBC denominations. -/
theorem validateIBCDenom_createDenom (text : String) :
    validateIBCDenom (createDenom text) ≠ .ok () := by
  intro h
  obtain ⟨_, -, h⟩ := except_bind_ok_iff.mp h
  rw [splitSlash_createDenom] at h
  have hne : ModuleName ≠ DenomPrefix := by decide
  simp only [hne, ne_eq, not_false_eq_true, true_or, or_true, if_true] at h
  cases h

/-- **Validation takes the coins of a registered pair exactly if the pair is module-owned.** -/
theorem validateIBCDenom_iff_of_registered (h : Registered k p) :
    validateIBCDenom p.denom = .ok () ↔ p.contractOwner = .OWNER_MODULE := by
  cases h with
  | coin proposal valid denom owner =>
    obtain ⟨_, -, hvalid⟩ := except_bind_ok_iff.mp valid
    obtain ⟨_, hdenom, -⟩ := except_bind_ok_iff.mp hvalid
    rw [denom]
    exact iff_of_true hdenom owner
  | erc20 contract denom owner =>
    rw [denom]
    refine iff_of_false (validateIBCDenom_createDenom _) ?_
    simp [owner]

/-! ## Validation of a user's own messages -/

private theorem wrapError_ok {α : Type} {desc : String} {r : Except GoError α} {x : α}
    (h : r = .ok x) : wrapError desc r = .ok () := by
  rw [h]
  rfl

private theorem isHexAddress_of_hexSpelling {text : String} (h : HexSpelling text a) :
    isHexAddress text = true :=
  (hexSpelling_iff.mp h).1

/-- What validation asks of a token message. -/
theorem validateBasic_convertERC20 {msg : MsgConvertERC20} {c : Address} {b : AccAddress}
    (hcontract : HexSpelling msg.contractAddress c) (hn : 0 < msg.amount.val)
    (hreceiver : k.accAddressFromBech32 msg.receiver = .ok b) (hsender : HexSpelling msg.sender a) :
    msg.validateBasic k.accAddressFromBech32 = .ok () := by
  have hcontract := isHexAddress_of_hexSpelling hcontract
  have hsender := isHexAddress_of_hexSpelling hsender
  refine except_bind_ok_iff.mpr ⟨(), rejectIf_ok_iff.mpr (by simp [hcontract]), ?_⟩
  refine except_bind_ok_iff.mpr ⟨(), rejectIf_ok_iff.mpr (by simp [hn]), ?_⟩
  exact except_bind_ok_iff.mpr ⟨(), wrapError_ok hreceiver,
    rejectIf_ok_iff.mpr (by simp [hsender])⟩

/-- A valid message reaches the message server. -/
theorem submitConvertERC20_of_valid {msg : MsgConvertERC20}
    (hvalid : msg.validateBasic k.accAddressFromBech32 = .ok ()) :
    submitConvertERC20 k msg s = convertERC20 k msg s := by
  rw [submitConvertERC20, hvalid]
  rfl

/-- Validation takes a user's own coin message exactly if it takes the denomination. -/
theorem validateBasic_ownCoins_iff (hmsgs : OwnMessages k p a n tokens coins)
    (hn : 0 < n.val) : coins.validateBasic k.accAddressFromBech32 = .ok () ↔
      validateIBCDenom p.denom = .ok () := by
  have hreceiver := isHexAddress_of_hexSpelling hmsgs.tokenReceiver
  rw [MsgConvertCoin.validateBasic, except_bind_ok_iff, hmsgs.coin]
  constructor
  · rintro ⟨_, hdenom, -⟩
    exact hdenom
  · intro hdenom
    refine ⟨(), hdenom, except_bind_ok_iff.mpr ⟨(), rejectIf_ok_iff.mpr (by simp [hn]), ?_⟩⟩
    exact except_bind_ok_iff.mpr ⟨(), wrapError_ok hmsgs.coinSender,
      rejectIf_ok_iff.mpr (by simp [hreceiver])⟩

/-- Of a user's own coin message, validation stops at most the denomination. -/
theorem submitConvertCoin_own_iff (hmsgs : OwnMessages k p a n tokens coins) (hn : 0 < n.val) :
    submitConvertCoin k coins s = .ok () v ↔
      validateIBCDenom p.denom = .ok () ∧ convertCoin k coins s = .ok () v := by
  simp only [submitConvertCoin, Exec.bind_ok_iff, Exec.ofExcept_ok_iff]
  constructor
  · rintro ⟨_, _, ⟨hvalid, rfl⟩, h⟩
    exact ⟨(validateBasic_ownCoins_iff hmsgs hn).mp hvalid, h⟩
  · rintro ⟨hdenom, h⟩
    exact ⟨(), s, ⟨(validateBasic_ownCoins_iff hmsgs hn).mpr hdenom, rfl⟩, h⟩

/-- A user's own token message is not stopped by validation. -/
theorem submitConvertERC20_own_iff (hmsgs : OwnMessages k p a n tokens coins) (hn : 0 < n.val) :
    submitConvertERC20 k tokens s = .ok () v ↔ convertERC20 k tokens s = .ok () v := by
  have hamount : 0 < tokens.amount.val := by
    rw [hmsgs.amount]
    exact hn
  rw [submitConvertERC20_of_valid (validateBasic_convertERC20 hmsgs.contract hamount
    hmsgs.coinReceiver hmsgs.tokenSender)]

/-! ## What a round trip takes -/

/-- What the way over coins asks of the state: the escrow can pay the coins out, and taking
them back meets no lock and no overflow. -/
structure PaysOut (k : Keeper W) (p : TokenPair) (a : Address) (n : SdkInt)
    (L : Ledger Address) (s : State W) : Prop where
  user : a ≠ zeroAddress
  balance : n.val.toNat ≤ L.bal a
  account : (s.accounts k.moduleAddress.bytes).isSome = true
  release : CanRelease k s a.bytes ⟨p.denom, n⟩
  unlocked : s.bank.locked a.bytes p.denom ≤ (s.bank.ledger p.denom).bal a.bytes
  bounded : (s.bank.ledger p.denom).bal k.moduleAddress.bytes < intBound

/-- What the way over tokens asks of the state: the escrow can take the coins in and the
contract has room for the tokens, and giving the coins back meets no lock and no overflow. -/
structure TakesIn (k : Keeper W) (p : TokenPair) (a : Address) (n : SdkInt)
    (L : Ledger Address) (s : State W) : Prop where
  user : a ≠ zeroAddress
  spend : CanSpend s a.bytes ⟨p.denom, n⟩
  fits : Fits s a.bytes k.moduleAddress.bytes ⟨p.denom, n⟩
  room : L.supply + n.val.toNat < 2 ^ 256
  unlocked : s.bank.locked k.moduleAddress.bytes p.denom ≤
    (s.bank.ledger p.denom).bal k.moduleAddress.bytes
  bounded : (s.bank.ledger p.denom).bal a.bytes < intBound

/-- The pair is stored in a consistent registry and the module is on. -/
structure Convertible (k : Keeper W) (p : TokenPair) (s : State W) : Prop where
  consistent : RegistryConsistent k s.registry
  stored : Stored s.registry p
  on : s.params.enableIntrarelayer = true

/-- The token of a module-owned pair is the one the module deployed: it runs the OpenZeppelin
code, and the module still has its two roles. -/
structure HonestToken (k : Keeper W) (p : TokenPair) (token : W → OzToken)
    (book : W → Ledger Address) (storage : W → Address → σ) (Sound : W → Prop)
    (s : State W) : Prop where
  contract : OzContract k p.getERC20Contract token Sound
  reads : ∀ w, book w = (token w).ledger
  answers : Answers k p.getERC20Contract Sound
  confined : Confined k p.getERC20Contract storage Sound
  sound : Sound s.evm
  minter : (token s.evm).minter k.moduleAddress = true
  burner : (token s.evm).burner k.moduleAddress = true

theorem Convertible.of_config (h : Convertible k p s) (hcfg : t.config = s.config) :
    Convertible k p t := by
  have hreg : t.registry = s.registry := congrArg Config.registry hcfg
  have hparams : t.params = s.params := congrArg Config.params hcfg
  exact ⟨hreg ▸ h.consistent, hreg ▸ h.stored, hparams ▸ h.on⟩

/-- What a call executed leaves the token honest. -/
theorem HonestToken.of_exec {self caller : Address} {method : Method} {args : List AbiArg}
    {r : OzResult} (h : HonestToken k p token book storage Sound s) (hs : Sound t.evm)
    (hr : (token s.evm).exec self caller method args = some r) (htok : token t.evm = r.token) :
    HonestToken k p token book storage Sound t := by
  have hroles := (OzToken.exec_spec hr).roles
  refine { h with sound := hs, minter := ?_, burner := ?_ }
  · rw [htok, hroles.1]
    exact h.minter
  · rw [htok, hroles.2]
    exact h.burner

theorem HonestToken.conforming (h : HonestToken k p token book storage Sound s)
    (howner : p.contractOwner = .OWNER_MODULE) : Conforming k p book Sound :=
  .ofModule howner token h.contract h.reads

/-! ## One conversion of a user's own -/

namespace OwnMessages

variable (h : OwnMessages k p a n tokens coins)
include h

theorem coinReceiver_eq : decodeOrEmpty k tokens.receiver = a.bytes := by
  rw [decodeOrEmpty, h.coinReceiver]

theorem coinSender_eq : decodeOrEmpty k coins.sender = a.bytes := by
  rw [decodeOrEmpty, h.coinSender]

theorem tokenSender_eq : hexToAddress tokens.sender = a :=
  (hexSpelling_iff.mp h.tokenSender).2

theorem tokenReceiver_eq : hexToAddress coins.receiver = a :=
  (hexSpelling_iff.mp h.tokenReceiver).2

theorem payout_eq : payout p tokens = ⟨p.denom, n⟩ := by
  rw [payout, h.amount]

end OwnMessages

section Own

variable (hpair : Convertible k p s) (hmsgs : OwnMessages k p a n tokens coins)
include hpair hmsgs

private theorem names_tokens : Names s.registry tokens.contractAddress p :=
  ⟨_, hpair.consistent.getTokenPairID_of_hexSpelling hpair.stored hmsgs.contract,
    hpair.consistent.getTokenPair_getID hpair.stored⟩

private theorem names_coins (hdenom : isHexAddress p.denom = false) :
    Names s.registry coins.coin.denom p := by
  rw [hmsgs.coin]
  exact ⟨_, hpair.consistent.getTokenPairID_denom hpair.stored hdenom,
    hpair.consistent.getTokenPair_getID hpair.stored⟩

variable (hhonest : HonestToken k p token book storage Sound s)
  (howner : p.contractOwner = .OWNER_MODULE)
include hhonest howner

/-- What a user's token message did, when it succeeded. -/
private theorem own_convertERC20_ok (h : convertERC20 k tokens s = .ok () v) :
    (a ≠ zeroAddress ∧ n.val.toNat ≤ (book s.evm).bal a ∧
      (s.accounts k.moduleAddress.bytes).isSome = true ∧ CanRelease k s a.bytes ⟨p.denom, n⟩) ∧
      Convertible k p v ∧ HonestToken k p token book storage Sound v ∧
      TokensConverted k p book storage a a.bytes n.val.toNat s v := by
  have hconv := convertERC20_converted (hhonest.conforming howner) hhonest.confined
    hhonest.sound (names_tokens hpair hmsgs) h
  rw [hmsgs.tokenSender_eq, hmsgs.coinReceiver_eq, hmsgs.payout_eq] at hconv
  -- admission found the pair that the message names, so the flow is that of the module's pair
  obtain ⟨q, hadm, hflow⟩ := convertERC20_ok_iff.mp h
  obtain rfl := (names_tokens hpair hmsgs).eq_of_admits hadm
  rcases hflow with ⟨-, hflow⟩ | ⟨ho, -⟩
  swap
  · simp [howner] at ho
  obtain ⟨res, w, hcom, hf, hrel, rfl⟩ := convertERC20NativeCoin_ok_iff.mp hflow
  rw [hmsgs.coinReceiver_eq, hmsgs.payout_eq] at hrel
  rw [hmsgs.tokenSender_eq, hmsgs.payout_eq] at hcom
  obtain ⟨nonce, hnonce, happ, rfl⟩ := hcom
  -- the contract executed the burn, so the guards of the burn held
  obtain ⟨hs, r, hr, htok, -⟩ :=
    hhonest.contract.executed hhonest.sound (fun _ => by decide) happ hf
  obtain ⟨-, t', hburned, -⟩ := OzToken.exec_burnCoins_iff.mp hr
  refine ⟨⟨OzToken.ne_zero_of_burned hburned, ?_, by rw [hnonce]; rfl, hrel⟩,
    hpair.of_config hconv.rest.config, hhonest.of_exec ?_ hr ?_, hconv⟩
  · rw [hhonest.reads]
    exact (OzToken.burned_some hburned).1
  · rw [moved_evm]
    exact hs
  · rw [moved_evm]
    exact htok

/-- What a user's coin message did, when it succeeded. -/
private theorem own_convertCoin_ok (hdenom : isHexAddress p.denom = false)
    (h : convertCoin k coins s = .ok () v) :
    (a ≠ zeroAddress ∧ CanSpend s a.bytes ⟨p.denom, n⟩ ∧
      Fits s a.bytes k.moduleAddress.bytes ⟨p.denom, n⟩ ∧
      (book s.evm).supply + n.val.toNat < 2 ^ 256) ∧
      Convertible k p v ∧ HonestToken k p token book storage Sound v ∧
      (v.accounts k.moduleAddress.bytes).isSome = true ∧
      CoinsConverted k p book storage p.denom a.bytes a n.val.toNat s v := by
  have hconv := convertCoin_converted (hhonest.conforming howner) hhonest.confined
    hhonest.sound (names_coins hpair hmsgs hdenom) h
  rw [hmsgs.coinSender_eq, hmsgs.tokenReceiver_eq, hmsgs.coin] at hconv
  obtain ⟨q, hadm, hflow⟩ := convertCoin_ok_iff.mp h
  obtain rfl := (names_coins hpair hmsgs hdenom).eq_of_admits hadm
  rcases hflow with ⟨-, hflow⟩ | ⟨ho, -⟩
  swap
  · simp [howner] at ho
  obtain ⟨hspend, hfits, res, hcom, hf⟩ := convertCoinNativeCoin_ok_iff.mp hflow
  rw [hmsgs.coinSender_eq, hmsgs.coin] at hspend hfits hcom
  rw [hmsgs.tokenReceiver_eq] at hcom
  obtain ⟨nonce, hnonce, happ, rfl⟩ := hcom
  rw [escrowed_evm] at happ
  obtain ⟨hs, r, hr, htok, -⟩ :=
    hhonest.contract.executed hhonest.sound (fun _ => by decide) happ hf
  obtain ⟨-, t', hminted, rfl⟩ := OzToken.exec_mint_iff.mp hr
  refine ⟨⟨OzToken.ne_zero_of_minted hminted, hspend, hfits, ?_⟩,
    hpair.of_config hconv.rest.config, hhonest.of_exec hs hr htok, ?_, hconv⟩
  · -- the new supply of the token is still a word
    have hb := t'.bounded
    rw [(OzToken.minted_some hminted).1, Ledger.supply_mint] at hb
    rw [hhonest.reads]
    exact hb
  · simp [afterMessage]

variable (hen : p.enabled = true) (hunblocked : k.blockedAddr a.bytes = false)
  (hzero : a ≠ zeroAddress)
include hen hunblocked hzero

/-- A user's token message succeeds when she has the tokens and the escrow has the coins. -/
private theorem exists_own_convertERC20 (hn : n.val.toNat ≤ (book s.evm).bal a)
    (hacc : (s.accounts k.moduleAddress.bytes).isSome = true)
    (hrel : CanRelease k s a.bytes ⟨p.denom, n⟩) :
    ∃ v, convertERC20 k tokens s = .ok () v := by
  obtain ⟨id, hid, hfound⟩ := names_tokens hpair hmsgs
  have hadm : Admits k s (hexToAddress tokens.sender).bytes (decodeOrEmpty k tokens.receiver)
      tokens.contractAddress p := by
    rw [hmsgs.tokenSender_eq, hmsgs.coinReceiver_eq]
    exact ⟨hpair.on, ⟨id, hid, hfound⟩, hen, hunblocked, .inl rfl⟩
  -- the contract burns the tokens
  rw [hhonest.reads] at hn
  obtain ⟨nonce, hnonce⟩ := Option.isSome_iff_exists.mp hacc
  obtain ⟨t', hburned⟩ := OzToken.exists_burned hzero hn
  obtain ⟨res, happ, hf, -⟩ := hhonest.contract.answered hhonest.answers hhonest.sound
    (fun _ => by decide) hnonce (OzToken.exec_burnCoins_iff.mpr ⟨hhonest.burner, t', hburned, rfl⟩)
  obtain ⟨v, hcom, hbank⟩ : ∃ v, Committed k s k.moduleAddress (some p.getERC20Contract)
      (.call .burnCoins [.address a, .uint256 n.val.toNat]) res v ∧ v.bank = s.bank :=
    ⟨_, ⟨nonce, hnonce, happ, rfl⟩, rfl⟩
  -- and the escrow, which the contract does not touch, pays
  have hrel' : CanRelease k v a.bytes ⟨p.denom, n⟩ := by
    simpa only [CanRelease, CanSpend, Fits, spendable, hbank] using hrel
  have hflow : convertERC20NativeCoin k p tokens (decodeOrEmpty k tokens.receiver)
      (hexToAddress tokens.sender) s =
        .ok () (moved v k.moduleAddress.bytes a.bytes ⟨p.denom, n⟩) := by
    rw [hmsgs.tokenSender_eq, hmsgs.coinReceiver_eq]
    refine convertERC20NativeCoin_ok_iff.mpr ⟨res, v, ?_, hf, ?_, ?_⟩
    · rw [hmsgs.payout_eq]
      exact hcom
    · rw [hmsgs.payout_eq]
      exact hrel'
    · rw [hmsgs.payout_eq]
  exact ⟨_, convertERC20_ok_iff.mpr ⟨p, hadm, .inl ⟨howner, hflow⟩⟩⟩

/-- A user's coin message succeeds when she has the coins and there is room for the tokens. -/
private theorem exists_own_convertCoin (hdenom : isHexAddress p.denom = false)
    (hspend : CanSpend s a.bytes ⟨p.denom, n⟩)
    (hfits : Fits s a.bytes k.moduleAddress.bytes ⟨p.denom, n⟩)
    (hroom : (book s.evm).supply + n.val.toNat < 2 ^ 256) :
    ∃ v, convertCoin k coins s = .ok () v := by
  obtain ⟨id, hid, hfound⟩ := names_coins hpair hmsgs hdenom
  have hadm : Admits k s (decodeOrEmpty k coins.sender) (hexToAddress coins.receiver).bytes
      coins.coin.denom p := by
    rw [hmsgs.tokenReceiver_eq, hmsgs.coinSender_eq]
    exact ⟨hpair.on, ⟨id, hid, hfound⟩, hen, hunblocked, .inl rfl⟩
  -- the contract mints the tokens
  rw [hhonest.reads] at hroom
  obtain ⟨nonce, hnonce⟩ : ∃ m, (escrowed k s a.bytes coins.coin).accounts
      k.moduleAddress.bytes = some m := State.exists_accounts_ensureAccount _ _
  obtain ⟨t', hminted⟩ := OzToken.exists_minted hzero hroom
  obtain ⟨res, happ, hf, -⟩ := hhonest.contract.answered hhonest.answers hhonest.sound
    (fun _ => by decide) hnonce (OzToken.exec_mint_iff.mpr ⟨hhonest.minter, t', hminted, rfl⟩)
  obtain ⟨v, hcom⟩ : ∃ v, Committed k (escrowed k s a.bytes coins.coin) k.moduleAddress
      (some p.getERC20Contract) (.call .mint [.address a, .uint256 n.val.toNat]) res v :=
    ⟨_, nonce, hnonce, by rw [escrowed_evm]; exact happ, rfl⟩
  have hnat : coins.coin.nat = n.val.toNat := by rw [hmsgs.coin, Coin.nat]
  have hflow : convertCoinNativeCoin k p coins (hexToAddress coins.receiver)
      (decodeOrEmpty k coins.sender) s = .ok () v := by
    rw [hmsgs.tokenReceiver_eq, hmsgs.coinSender_eq]
    exact convertCoinNativeCoin_ok_iff.mpr ⟨hmsgs.coin ▸ hspend, hmsgs.coin ▸ hfits, res,
      hnat ▸ hcom, hf⟩
  exact ⟨_, convertCoin_ok_iff.mpr ⟨p, hadm, .inl ⟨howner, hflow⟩⟩⟩

end Own

/-! ## The two round trips of a module-owned pair -/

private theorem Untouched.locked_eq {d : String} {c : Address}
    (h : Untouched d c storage s v) : v.bank.locked = s.bank.locked :=
  congrArg Config.locked h.config

section Trips

variable (hpair : Convertible k p s) (hmsgs : OwnMessages k p a n tokens coins)
  (hhonest : HonestToken k p token book storage Sound s)
  (howner : p.contractOwner = .OWNER_MODULE) (hdenom : isHexAddress p.denom = false)
  (hen : p.enabled = true) (hunblocked : k.blockedAddr a.bytes = false)
include hpair hmsgs hhonest howner hdenom hen hunblocked

/-- Tokens to coins to tokens: the handlers do both exactly if the escrow can pay out. -/
private theorem tokens_there_and_back_iff :
    RoundTrip p book storage (convertERC20 k tokens) (convertCoin k coins) s ↔
      PaysOut k p a n (book s.evm) s := by
  have hne := k.ne_module_of_unblocked hunblocked
  have hne' := hne.symm
  constructor
  · rintro ⟨v, t, hv, ht, -⟩
    obtain ⟨⟨hzero, hbal, hacc, hrel⟩, hpair', hhonest', hconv⟩ :=
      own_convertERC20_ok hpair hmsgs hhonest howner hv
    obtain ⟨⟨-, hspend, hfits, -⟩, -⟩ :=
      own_convertCoin_ok hpair' hmsgs hhonest' howner hdenom ht
    have huser := hconv.coins.bal a.bytes
    have hescrow := hconv.coins.bal k.moduleAddress.bytes
    simp only [coinsKept, howner, if_true, hne, hne', if_false] at huser hescrow
    refine ⟨hzero, hbal, hacc, hrel, ?_, ?_⟩
    · have hle := hspend.2.2
      have hlocked := hspend.2.1
      simp only [spendable, Coin.nat, hconv.rest.locked_eq] at hle hlocked
      omega
    · simp only [Fits, Ledger.bal_debit, hne', if_false, Coin.nat] at hfits
      omega
  · rintro ⟨hzero, hbal, hacc, hrel, hlocked, hbounded⟩
    obtain ⟨v, hv⟩ :=
      exists_own_convertERC20 hpair hmsgs hhonest howner hen hunblocked hzero hbal hacc hrel
    obtain ⟨-, hpair', hhonest', hconv⟩ := own_convertERC20_ok hpair hmsgs hhonest howner hv
    have huser := hconv.coins.bal a.bytes
    have hescrow := hconv.coins.bal k.moduleAddress.bytes
    have hsupply := hconv.tokens.supply
    have hcovered := hconv.tokens.covered
    simp only [coinsKept, tokensKept, howner, if_true, hne, hne', if_false] at huser hescrow hsupply
    -- the coins that came in are the ones that go back
    have hspend : CanSpend v a.bytes ⟨p.denom, n⟩ := by
      refine ⟨hrel.2.1.1, ?_, ?_⟩
      · rw [hconv.rest.locked_eq]
        dsimp only
        omega
      · simp only [spendable, Coin.nat, hconv.rest.locked_eq]
        omega
    have hfits : Fits v a.bytes k.moduleAddress.bytes ⟨p.denom, n⟩ := by
      simp only [Fits, Ledger.bal_debit, hne', if_false, Coin.nat]
      omega
    have hroom : (book v.evm).supply + n.val.toNat < 2 ^ 256 := by
      have hb := (token s.evm).bounded
      rw [← hhonest.reads] at hb
      simp only [reduceCtorEq, if_false] at hsupply
      omega
    obtain ⟨t, ht⟩ := exists_own_convertCoin hpair' hmsgs hhonest' howner hen hunblocked hzero
      hdenom hspend hfits hroom
    obtain ⟨-, -, -, -, hconv'⟩ := own_convertCoin_ok hpair' hmsgs hhonest' howner hdenom ht
    exact ⟨v, t, hv, ht, restored_of_tokensConverted hconv hconv'⟩

/-- Coins to tokens to coins: the handlers do both exactly if the escrow can take in. -/
private theorem coins_there_and_back_iff :
    RoundTrip p book storage (convertCoin k coins) (convertERC20 k tokens) s ↔
      TakesIn k p a n (book s.evm) s := by
  have hne := k.ne_module_of_unblocked hunblocked
  have hne' := hne.symm
  constructor
  · -- the second message's conditions, in terms of the balances before the first one
    rintro ⟨v, t, hv, ht, -⟩
    obtain ⟨⟨hzero, hspend, hfits, hroom⟩, hpair', hhonest', -, hconv⟩ :=
      own_convertCoin_ok hpair hmsgs hhonest howner hdenom hv
    obtain ⟨⟨-, -, -, hrel⟩, -⟩ := own_convertERC20_ok hpair' hmsgs hhonest' howner ht
    have huser := hconv.coins.bal a.bytes
    have hescrow := hconv.coins.bal k.moduleAddress.bytes
    simp only [coinsKept, howner, if_true, hne, hne', if_false] at huser hescrow
    refine ⟨hzero, hspend, hfits, hroom, ?_, ?_⟩
    · have hle := hrel.2.1.2.2
      have hlocked := hrel.2.1.2.1
      simp only [spendable, Coin.nat, hconv.rest.locked_eq] at hle hlocked
      omega
    · have hfits' := hrel.2.2
      have hcovered := hconv.coins.covered
      simp only [Fits, Ledger.bal_debit, hne, if_false, Coin.nat] at hfits'
      omega
  · rintro ⟨hzero, hspend, hfits, hroom, hlocked, hbounded⟩
    obtain ⟨v, hv⟩ := exists_own_convertCoin hpair hmsgs hhonest howner hen hunblocked hzero
      hdenom hspend hfits hroom
    obtain ⟨-, hpair', hhonest', hacc, hconv⟩ :=
      own_convertCoin_ok hpair hmsgs hhonest howner hdenom hv
    have huser := hconv.coins.bal a.bytes
    have hescrow := hconv.coins.bal k.moduleAddress.bytes
    have htokens := hconv.tokens.bal a
    have hcovered := hconv.coins.covered
    have hne_address : a ≠ k.moduleAddress := fun h => hne (congrArg Address.bytes h)
    simp only [coinsKept, howner, if_true, hne, hne', hne_address, if_false]
      at huser hescrow htokens
    -- after the first message the user has the tokens, and the escrow the coins
    have hbal : n.val.toNat ≤ (book v.evm).bal a := by omega
    have hrel : CanRelease k v a.bytes ⟨p.denom, n⟩ := by
      refine ⟨hunblocked, ⟨hspend.1, ?_, ?_⟩, ?_⟩
      · rw [hconv.rest.locked_eq]
        dsimp only
        omega
      · simp only [spendable, Coin.nat, hconv.rest.locked_eq]
        omega
      · simp only [Fits, Ledger.bal_debit, hne, if_false, Coin.nat]
        omega
    obtain ⟨t, ht⟩ := exists_own_convertERC20 hpair' hmsgs hhonest' howner hen hunblocked hzero
      hbal hacc hrel
    obtain ⟨-, -, -, hconv'⟩ := own_convertERC20_ok hpair' hmsgs hhonest' howner ht
    exact ⟨v, t, hv, ht, restored_of_coinsConverted hconv hconv'⟩

end Trips

/-! ## Solvent states -/

section Backed

variable {L : Ledger Address} (hunblocked : k.blockedAddr a.bytes = false) (hzero : a ≠ zeroAddress)
  (hcoin : coinsIsValid [⟨p.denom, n⟩] = true) (hcoins : (s.bank.ledger p.denom).Covered)
  (hbounded : (s.bank.ledger p.denom).supply < intBound)
  (hlocked : s.bank.locked k.moduleAddress.bytes p.denom = 0)
  (hunlocked : s.bank.locked a.bytes p.denom ≤ (s.bank.ledger p.denom).bal a.bytes)
  (htokens : L.Covered)
  (hbacked : L.supply ≤ (s.bank.ledger p.denom).bal k.moduleAddress.bytes)
include hunblocked hzero hcoin hcoins hbounded hlocked hunlocked htokens hbacked

/-- When the escrow backs the tokens, it can pay out whatever a user has. -/
theorem paysOut_of_backed (hacc : (s.accounts k.moduleAddress.bytes).isSome = true)
    (hn : n.val.toNat ≤ L.bal a) : PaysOut k p a n L s := by
  have hne := k.ne_module_of_unblocked hunblocked
  -- a balance is no more than the supply, and that no more than the escrow
  have hcover := hn.trans ((htokens.bal_le a).trans hbacked)
  have hsum := hcoins.bal_add_bal_le hne
  refine ⟨hzero, hn, hacc, ⟨hunblocked, ⟨hcoin, ?_, ?_⟩, ?_⟩, hunlocked, ?_⟩
  · rw [hlocked]
    exact Nat.zero_le _
  · rw [spendable, hlocked]
    exact hcover
  · simp only [Fits, Ledger.bal_debit, hne, if_false, Coin.nat]
    omega
  · exact lt_of_le_of_lt (hcoins.bal_le _) hbounded

omit htokens in
/-- And it can take in whatever a user may spend, while the tokens stay words. -/
theorem takesIn_of_backed
    (hn : n.val.toNat ≤ spendable s a.bytes p.denom) : TakesIn k p a n L s := by
  have hne := k.ne_module_of_unblocked hunblocked
  have hsum := hcoins.bal_add_bal_le hne
  have hle := hn.trans (Nat.sub_le _ _)
  have hword : intBound = 2 ^ 256 := rfl
  refine ⟨hzero, ⟨hcoin, hunlocked, hn⟩, ?_, ?_, ?_, ?_⟩
  · simp only [Fits, Ledger.bal_debit, hne.symm, if_false, Coin.nat]
    omega
  · omega
  · rw [hlocked]
    exact Nat.zero_le _
  · exact lt_of_le_of_lt (hcoins.bal_le _) hbounded

end Backed

/-! ## All pairs -/

/-- **Exactly when a round trip works.** Of the pairs that proposals register, validation takes
the coins of the module-owned ones only. So a user's round trip fails in either order when the
pair is external; when it is module-owned it restores everything exactly if the escrow can pay
out the coins, or take them in. -/
theorem round_trip_iff (hpair : Convertible k p s) (hregistered : Registered k p)
    (hdenom : isHexAddress p.denom = false) (hen : p.enabled = true)
    (hunblocked : k.blockedAddr a.bytes = false) (hn : 0 < n.val)
    (hmsgs : OwnMessages k p a n tokens coins)
    (hhonest : p.contractOwner = .OWNER_MODULE → HonestToken k p token book storage Sound s) :
    (validateIBCDenom p.denom = .ok () ↔ p.contractOwner = .OWNER_MODULE) ∧
    (RoundTrip p book storage (submitConvertERC20 k tokens) (submitConvertCoin k coins) s ↔
      p.contractOwner = .OWNER_MODULE ∧ PaysOut k p a n (book s.evm) s) ∧
    (RoundTrip p book storage (submitConvertCoin k coins) (submitConvertERC20 k tokens) s ↔
      p.contractOwner = .OWNER_MODULE ∧ TakesIn k p a n (book s.evm) s) := by
  have howner := validateIBCDenom_iff_of_registered hregistered
  -- validation of the coin message depends on the denomination only, so it moves to the front
  refine ⟨howner, ?_, ?_⟩
  · have htrip : RoundTrip p book storage (submitConvertERC20 k tokens) (submitConvertCoin k coins)
        s ↔ validateIBCDenom p.denom = .ok () ∧
          RoundTrip p book storage (convertERC20 k tokens) (convertCoin k coins) s := by
      simp only [RoundTrip, submitConvertERC20_own_iff hmsgs hn, submitConvertCoin_own_iff hmsgs hn]
      constructor
      · rintro ⟨v, t, hv, ⟨hvalid, ht⟩, hrestored⟩
        exact ⟨hvalid, v, t, hv, ht, hrestored⟩
      · rintro ⟨hvalid, v, t, hv, ht, hrestored⟩
        exact ⟨v, t, hv, ⟨hvalid, ht⟩, hrestored⟩
    rw [htrip, howner]
    exact and_congr_right fun ho =>
      tokens_there_and_back_iff hpair hmsgs (hhonest ho) ho hdenom hen hunblocked
  · have htrip : RoundTrip p book storage (submitConvertCoin k coins) (submitConvertERC20 k tokens)
        s ↔ validateIBCDenom p.denom = .ok () ∧
          RoundTrip p book storage (convertCoin k coins) (convertERC20 k tokens) s := by
      simp only [RoundTrip, submitConvertERC20_own_iff hmsgs hn, submitConvertCoin_own_iff hmsgs hn]
      constructor
      · rintro ⟨v, t, ⟨hvalid, hv⟩, ht, hrestored⟩
        exact ⟨hvalid, v, t, hv, ht, hrestored⟩
      · rintro ⟨hvalid, v, t, hv, ht, hrestored⟩
        exact ⟨v, t, ⟨hvalid, hv⟩, ht, hrestored⟩
    rw [htrip, howner]
    exact and_congr_right fun ho =>
      coins_there_and_back_iff hpair hmsgs (hhonest ho) ho hdenom hen hunblocked

/-! ## On the reference machine -/

/-- The proposal behind the module-owned pair of the deployment. -/
def registerAcoin : RegisterCoinProposal :=
  ⟨"Register", "a coin", ⟨"a coin", [⟨"acoin", 0, []⟩], "acoin", "acoin", "acoin", "ACOIN"⟩⟩

/-- Alice takes 7 tokens to coins, and 7 coins to tokens. -/
def sevenTokens : MsgConvertERC20 :=
  ⟨"0x5555555555555555555555555555555555555555", newIntFromUint64 7, aliceBech32,
    "0x3333333333333333333333333333333333333333"⟩

def sevenCoins : MsgConvertCoin :=
  ⟨⟨"acoin", newIntFromUint64 7⟩, "0x3333333333333333333333333333333333333333", aliceBech32⟩

theorem round_trip_iff_sevenTokens :
    RoundTrip pairE (fun w => (tokenAt tokenE w).ledger) tokenStorage
      (submitConvertERC20 plainKeeper sevenTokens) (submitConvertCoin plainKeeper sevenCoins)
      (deployed plainEvm referenceWorld) ∧
    RoundTrip pairE (fun w => (tokenAt tokenE w).ledger) tokenStorage
      (submitConvertCoin plainKeeper sevenCoins) (submitConvertERC20 plainKeeper sevenTokens)
      (deployed plainEvm referenceWorld) := by
  have hcontract : pairE.getERC20Contract = tokenE := by decide
  have hzero : alice ≠ zeroAddress := by decide
  have hunblocked : plainKeeper.blockedAddr alice.bytes = false := by decide +kernel
  have hmsgs : OwnMessages plainKeeper pairE alice (newIntFromUint64 7) sevenTokens sevenCoins :=
    ⟨hexSpelling_iff.mpr (by decide), rfl, hexSpelling_iff.mpr (by decide), rfl, rfl, rfl,
      hexSpelling_iff.mpr (by decide)⟩
  have hpair : Convertible plainKeeper pairE (deployed plainEvm referenceWorld) :=
    ⟨consistent_deployed plainEvm referenceWorld,
      (stored_deployed plainEvm referenceWorld).mpr (.inr rfl), rfl⟩
  have hregistered : Registered plainKeeper pairE := .coin registerAcoin (by decide) rfl rfl
  have hconfined : Confined plainKeeper pairE.getERC20Contract tokenStorage
      (fun w => (w tokenE).isSome = true) :=
    confined_plainKeeper pairE.getERC20Contract fun w => (w tokenE).isSome = true
  have hhonest : HonestToken plainKeeper pairE (tokenAt tokenE)
      (fun w => (tokenAt tokenE w).ledger) tokenStorage (fun w => (w tokenE).isSome = true)
      (deployed plainEvm referenceWorld) :=
    ⟨hcontract ▸ ozContract_plainKeeper tokenE, fun _ => rfl,
      hcontract ▸ answers_plainKeeper tokenE, hconfined, by decide,
      by decide +kernel, by decide +kernel⟩
  -- the escrow holds a coin for each of the tokens
  have hcovered : ((deployed plainEvm referenceWorld).bank.ledger pairE.denom).Covered :=
    covered_ledgerOf _
  obtain ⟨hbounded, hbacked, hbal, hspend⟩ :
      ((deployed plainEvm referenceWorld).bank.ledger pairE.denom).supply < intBound ∧
        (tokenAt tokenE referenceWorld).ledger.supply ≤
          ((deployed plainEvm referenceWorld).bank.ledger pairE.denom).bal
            plainKeeper.moduleAddress.bytes ∧
        7 ≤ (tokenAt tokenE referenceWorld).ledger.bal alice ∧
        7 ≤ spendable (deployed plainEvm referenceWorld) alice.bytes pairE.denom := by
    decide +kernel
  have htrips := round_trip_iff hpair hregistered (by decide) rfl hunblocked (by decide) hmsgs
    fun _ => hhonest
  refine ⟨htrips.2.1.mpr ⟨rfl, ?_⟩, htrips.2.2.mpr ⟨rfl, ?_⟩⟩
  · exact paysOut_of_backed hunblocked hzero (by decide) hcovered hbounded rfl (Nat.zero_le _)
      (tokenAt tokenE referenceWorld).covered hbacked (by decide +kernel) hbal
  · exact takesIn_of_backed hunblocked hzero (by decide) hcovered hbounded rfl (Nat.zero_le _)
      hbacked hspend

/-! ## No way back -/

/-- A contract of a third party, registered. -/
def tokenRegistered : State TokenWorld := step plainKeeper afterGenesis (.registerERC20 tokenA)

/-- Alice takes 30 tokens to coins, and 30 coins to tokens. -/
def thirtyTokens : MsgConvertERC20 :=
  ⟨"0x1111111111111111111111111111111111111111", newIntFromUint64 30, aliceBech32,
    "0x3333333333333333333333333333333333333333"⟩

def thirtyCoins : MsgConvertCoin :=
  ⟨⟨"intrarelayer/0x1111111111111111111111111111111111111111", newIntFromUint64 30⟩,
    "0x3333333333333333333333333333333333333333", aliceBech32⟩

/-- **Coins without a way back.** Alice takes 30 tokens of a registered contract to coins. The
message server would take the coins back, but the message does not pass validation. -/
theorem not_round_trip_thirtyTokens :
    Convertible plainKeeper pairA tokenRegistered ∧ Registered plainKeeper pairA ∧
    isHexAddress pairA.denom = false ∧ plainKeeper.blockedAddr alice.bytes = false ∧
    OwnMessages plainKeeper pairA alice (newIntFromUint64 30) thirtyTokens thirtyCoins ∧
    OzContract plainKeeper tokenA (tokenAt tokenA) (fun w => (w tokenA).isSome = true) ∧
    (tokenRegistered.evm tokenA).isSome = true ∧
    30 ≤ (tokenAt tokenA tokenRegistered.evm).ledger.bal alice ∧
    ∃ v, submitConvertERC20 plainKeeper thirtyTokens tokenRegistered = .ok () v ∧
      (v.bank.ledger pairA.denom).bal alice.bytes = 30 ∧
      (∃ t, convertCoin plainKeeper thirtyCoins v = .ok () t) ∧
      ∀ t, submitConvertCoin plainKeeper thirtyCoins v ≠ .ok () t := by
  have hmsgs : OwnMessages plainKeeper pairA alice (newIntFromUint64 30) thirtyTokens thirtyCoins :=
    ⟨hexSpelling_iff.mpr (by decide), rfl, hexSpelling_iff.mpr (by decide), rfl, rfl, rfl,
      hexSpelling_iff.mpr (by decide)⟩
  have hconsistent : RegistryConsistent plainKeeper tokenRegistered.registry := by
    refine consistent_step
      (consistent_initGenesis rfl (by constructor <;> simp [noPairs])) trivial ?_
    exact hashesApart_of_entries _ (by decide +kernel)
  obtain ⟨hstored, hon, hsound, hbal, hthere, hpaid, hback⟩ :
      tokenRegistered.registry.tokenPairs.lookup (pairA.getID plainKeeper.tmhashSum).bytes =
          some pairA ∧
        tokenRegistered.params.enableIntrarelayer = true ∧
        (tokenRegistered.evm tokenA).isSome = true ∧
        30 ≤ (tokenAt tokenA tokenRegistered.evm).ledger.bal alice ∧
        (submitConvertERC20 plainKeeper thirtyTokens).succeeds tokenRegistered = true ∧
        (((submitConvertERC20 plainKeeper thirtyTokens).deliver tokenRegistered).bank.ledger
          pairA.denom).bal alice.bytes = 30 ∧
        (convertCoin plainKeeper thirtyCoins).succeeds
          ((submitConvertERC20 plainKeeper thirtyTokens).deliver tokenRegistered) = true := by
    decide +kernel
  obtain ⟨v, hv⟩ := Exec.exists_ok hthere
  rw [Exec.deliver_of_ok hv] at hpaid hback
  refine ⟨⟨hconsistent, ⟨_, hstored⟩, hon⟩, .erc20 tokenA (by decide +kernel) rfl, by decide,
    by decide +kernel, hmsgs, ozContract_plainKeeper tokenA, hsound, hbal, v, hv, hpaid,
    Exec.exists_ok hback, fun t ht => ?_⟩
  -- the denomination of the coins is none that validation takes
  have hvalid := ((submitConvertCoin_own_iff hmsgs (by decide)).mp ht).1
  exact absurd hvalid (by decide)

end GenesisEthermint.Conversion
