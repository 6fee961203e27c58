import GenesisEthermint.Foundation.Exchange
import GenesisEthermint.Hook.KillSwitch
import GenesisEthermint.Tokens.Reference

/-!
# The Effect of a Conversion

A conversion takes units of one representation from the account that signed it and pays as
many of the other one to the receiver. The module stands between them: coins of its own pairs
and tokens of external pairs go into its escrow and come out of it, and the other
representation is destroyed and created. Nothing else changes.
-/

namespace GenesisEthermint.Conversion

open GenesisEthermint.Foundation GenesisEthermint.Types GenesisEthermint.Chain
open GenesisEthermint.Intrarelayer GenesisEthermint.Registry GenesisEthermint.Tokens
open GenesisEthermint.Hook

variable {W σ : Type} {k : Keeper W} {s t v : State W} {u : Unit} {c : Address} {p : TokenPair}
  {coinMsg : MsgConvertCoin} {erc20Msg : MsgConvertERC20} {account : AccAddress}
  {address : Address} {n : ℕ} {book : W → Ledger Address} {token : W → OzToken}
  {Sound : W → Prop} {storage : W → Address → σ}

/-- What the module keeps of `n` coins that are converted, and hands out when they come back. -/
def coinsKept (p : TokenPair) (n : ℕ) : ℕ :=
  if p.contractOwner = .OWNER_MODULE then n else 0

/-- What the module keeps of `n` tokens that are converted, and hands out when they come
back. -/
def tokensKept (p : TokenPair) (n : ℕ) : ℕ :=
  if p.contractOwner = .OWNER_EXTERNAL then n else 0

/-- The contract of the pair conforms: the module's own token is the OpenZeppelin one, and
somebody else's meets the standard. `book` reads its balances. -/
inductive Conforming (k : Keeper W) (p : TokenPair) (book : W → Ledger Address)
    (Sound : W → Prop) : Prop where
  | ofModule (owner : p.contractOwner = .OWNER_MODULE) (token : W → OzToken)
      (contract : OzContract k p.getERC20Contract token Sound)
      (reads : ∀ w, book w = (token w).ledger)
  | ofOthers (owner : p.contractOwner = .OWNER_EXTERNAL)
      (contract : Eip20 k p.getERC20Contract book Sound)

/-- Moving, creating and destroying tokens is the contract's own business: it writes no other
contract's storage. -/
def Confined (k : Keeper W) (c : Address) (storage : W → Address → σ) (Sound : W → Prop) :
    Prop :=
  ∀ {w accounts sender nonce m args res}, Sound w → m ∈ [Method.transfer, .mint, .burnCoins] →
    k.evm.applyMessage w accounts ⟨sender, some c, nonce, .call m args⟩ = .ok res →
    ∀ c' ≠ c, storage res.world c' = storage w c'

/-- Nothing but the coins of the denomination `d`, the contract `c` and the accounts' nonces
has changed. -/
structure Untouched (d : String) (c : Address) (storage : W → Address → σ) (s t : State W) :
    Prop where
  denoms : ∀ d' ≠ d, t.bank.ledger d' = s.bank.ledger d'
  contracts : ∀ c' ≠ c, storage t.evm c' = storage s.evm c'
  config : t.config = s.config

/-- **Coins were converted**: `n` coins of the denomination `d` were taken from `a`, and `n`
tokens of the pair were paid to `b`. -/
structure CoinsConverted (k : Keeper W) (p : TokenPair) (book : W → Ledger Address)
    (storage : W → Address → σ) (d : String) (a : AccAddress) (b : Address) (n : ℕ)
    (s t : State W) : Prop where
  coins : (s.bank.ledger d).Taken (t.bank.ledger d) a k.moduleAddress.bytes n (coinsKept p n)
  tokens : (book s.evm).Paid (book t.evm) b k.moduleAddress n (tokensKept p n)
  rest : Untouched d p.getERC20Contract storage s t

/-- **Tokens were converted**: `n` tokens of the pair were taken from `a`, and `n` coins of its
denomination were paid to `b`. -/
structure TokensConverted (k : Keeper W) (p : TokenPair) (book : W → Ledger Address)
    (storage : W → Address → σ) (a : Address) (b : AccAddress) (n : ℕ) (s t : State W) :
    Prop where
  tokens : (book s.evm).Taken (book t.evm) a k.moduleAddress n (tokensKept p n)
  coins : (s.bank.ledger p.denom).Paid (t.bank.ledger p.denom) b k.moduleAddress.bytes n
    (coinsKept p n)
  rest : Untouched p.denom p.getERC20Contract storage s t

/-! ## What the contract's calls book -/

section Calls

variable {res : EvmResult W} {sender : Address} {m : Method} {args : List AbiArg}

/-- A committed call of the OpenZeppelin token executed it. -/
private theorem exec_of_committed (hc : OzContract k c token Sound) (hs : Sound s.evm)
    (hm : sender = k.moduleAddress → m ≠ .approve)
    (h : Committed k s sender (some c) (.call m args) res t) (hf : res.failed = false) :
    ∃ r, (token s.evm).exec c sender m args = some r ∧ token t.evm = r.token := by
  obtain ⟨_, -, happ, rfl⟩ := h
  obtain ⟨-, r, hr, htok, -⟩ := hc.executed hs hm happ hf
  exact ⟨r, hr, htok⟩

/-- A committed `mint` pays new tokens. -/
private theorem paid_of_mint (hc : OzContract k c token Sound) (hs : Sound s.evm)
    (h : Committed k s k.moduleAddress (some c)
      (.call .mint [.address address, .uint256 n]) res t) (hf : res.failed = false) :
    (token s.evm).ledger.Paid (token t.evm).ledger address k.moduleAddress n 0 := by
  obtain ⟨r, hr, htok⟩ := exec_of_committed hc hs (fun _ => by decide) h hf
  obtain ⟨-, t', ht, rfl⟩ := OzToken.exec_mint_iff.mp hr
  rw [htok, (OzToken.minted_some ht).1]
  exact Ledger.paid_mint

/-- A committed `burnCoins` takes tokens and destroys them. -/
private theorem taken_of_burnCoins (hc : OzContract k c token Sound) (hs : Sound s.evm)
    (h : Committed k s k.moduleAddress (some c)
      (.call .burnCoins [.address address, .uint256 n]) res t) (hf : res.failed = false) :
    (token s.evm).ledger.Taken (token t.evm).ledger address k.moduleAddress n 0 := by
  obtain ⟨r, hr, htok⟩ := exec_of_committed hc hs (fun _ => by decide) h hf
  obtain ⟨-, t', ht, rfl⟩ := OzToken.exec_burnCoins_iff.mp hr
  obtain ⟨hn, hl, -⟩ := OzToken.burned_some ht
  rw [htok, hl]
  exact Ledger.taken_burn hn (hn.trans ((token s.evm).covered.bal_le _))

/-- A committed `transfer` that returned true moved the tokens. -/
private theorem move_of_transfer (hc : Eip20 k c book Sound) (hs : Sound s.evm)
    (h : Committed k s sender (some c) (.call .transfer [.address address, .uint256 n]) res t)
    (hf : res.failed = false) (hret : unpackBool res.ret = .ok true) :
    n ≤ (book s.evm).bal sender ∧ book t.evm = (book s.evm).move sender address n := by
  obtain ⟨_, -, happ, rfl⟩ := h
  obtain ⟨-, ⟨-, hn, hbook⟩ | ⟨hword, -⟩⟩ := hc.transferred hs happ hf
  · exact ⟨hn, hbook⟩
  · rw [hword, show word 0 = word false.toNat from rfl, unpackBool_word] at hret
    cases hret

private theorem storage_of_committed (hc : Confined k c storage Sound) (hs : Sound s.evm)
    (hm : m ∈ [Method.transfer, .mint, .burnCoins])
    (h : Committed k s sender (some c) (.call m args) res t) :
    ∀ c' ≠ c, storage t.evm c' = storage s.evm c' := by
  obtain ⟨_, -, happ, rfl⟩ := h
  exact hc hs hm happ

end Calls

/-! ## The four flows -/

section Flows

variable (hconf : Confined k p.getERC20Contract storage Sound) (hs : Sound s.evm)
include hconf hs

private theorem convertCoinNativeCoin_converted (howner : p.contractOwner = .OWNER_MODULE)
    (hc : OzContract k p.getERC20Contract token Sound)
    (h : convertCoinNativeCoin k p coinMsg address account s = .ok u t) :
    CoinsConverted k p (fun w => (token w).ledger) storage coinMsg.coin.denom account address
      coinMsg.coin.nat s t := by
  obtain ⟨hspend, -, res, hcom, hf⟩ := convertCoinNativeCoin_ok_iff.mp h
  -- escrow comes first, and does not touch the world
  have hs' : Sound (escrowed k s account coinMsg.coin).evm := by
    rw [escrowed_evm]
    exact hs
  have htokens := paid_of_mint hc hs' hcom hf
  have hstorage := storage_of_committed hconf hs' (by decide) hcom
  rw [escrowed_evm] at htokens hstorage
  refine ⟨?_, ?_, fun d hd => ?_, hstorage, by rw [hcom.config_eq, escrowed_config]⟩
  · rw [coinsKept, if_pos howner, hcom.bank_eq, ledger_escrowed, if_pos rfl]
    exact Ledger.taken_move hspend.le_bal
  · rw [tokensKept, if_neg (by simp [howner])]
    exact htokens
  · rw [hcom.bank_eq, ledger_escrowed, if_neg hd]

private theorem convertCoinNativeERC20_converted (howner : p.contractOwner = .OWNER_EXTERNAL)
    (hc : Eip20 k p.getERC20Contract book Sound)
    (h : convertCoinNativeERC20 k p coinMsg address account s = .ok u t) :
    CoinsConverted k p book storage coinMsg.coin.denom account address coinMsg.coin.nat s t := by
  obtain ⟨hspend, -, res, v, hcom, hf, hret, -, hsup, rfl⟩ :=
    convertCoinNativeERC20_ok_iff.mp h
  have hs' : Sound (escrowed k s account coinMsg.coin).evm := by
    rw [escrowed_evm]
    exact hs
  -- the call returned true, so the tokens moved from the module to the receiver
  obtain ⟨hn, hmove⟩ := move_of_transfer hc hs' hcom hf hret
  have hstorage := storage_of_committed hconf hs' (by decide) hcom
  rw [escrowed_evm] at hn hmove hstorage
  -- escrow and call leave the supply as it was
  rw [hcom.bank_eq, supply_escrowed] at hsup
  refine ⟨?_, ?_, fun d hd => ?_, ?_,
    by rw [burnedCoin_config, hcom.config_eq, escrowed_config]⟩
  · -- the coins went into escrow and were burned there
    rw [coinsKept, if_neg (by simp [howner]), ledger_burnedCoin, if_pos rfl, hcom.bank_eq,
      ledger_escrowed, if_pos rfl, Ledger.burn_move]
    exact Ledger.taken_burn hspend.le_bal hsup
  · rw [tokensKept, if_pos howner, burnedCoin_evm, hmove]
    exact Ledger.paid_move hn
  · rw [ledger_burnedCoin, if_neg hd, hcom.bank_eq, ledger_escrowed, if_neg hd]
  · rw [burnedCoin_evm]
    exact hstorage

private theorem convertERC20NativeCoin_converted (howner : p.contractOwner = .OWNER_MODULE)
    (hc : OzContract k p.getERC20Contract token Sound)
    (h : convertERC20NativeCoin k p erc20Msg account address s = .ok u t) :
    TokensConverted k p (fun w => (token w).ledger) storage address account
      (payout p erc20Msg).nat s t := by
  obtain ⟨res, v, hcom, hf, hrel, rfl⟩ := convertERC20NativeCoin_ok_iff.mp h
  -- the burn comes first, and the payout afterwards
  have htokens := taken_of_burnCoins hc hs hcom hf
  have hstorage := storage_of_committed hconf hs (by decide) hcom
  have hn := hrel.2.1.le_bal
  have hdenom : (payout p erc20Msg).denom = p.denom := rfl
  rw [hcom.bank_eq, hdenom] at hn
  refine ⟨?_, ?_, fun d hd => ?_, ?_, by rw [moved_config, hcom.config_eq]⟩
  · rw [tokensKept, if_neg (by simp [howner]), moved_evm]
    exact htokens
  · rw [coinsKept, if_pos howner, ledger_moved, hdenom, if_pos rfl, hcom.bank_eq]
    exact Ledger.paid_move hn
  · rw [ledger_moved, hdenom, if_neg hd, hcom.bank_eq]
  · rw [moved_evm]
    exact hstorage

private theorem convertERC20NativeToken_converted (howner : p.contractOwner = .OWNER_EXTERNAL)
    (hc : Eip20 k p.getERC20Contract book Sound)
    (h : convertERC20NativeToken k p erc20Msg account address s = .ok u t) :
    TokensConverted k p book storage address account (payout p erc20Msg).nat s t := by
  obtain ⟨res, v, hcom, hf, hret, -, -, rfl⟩ := convertERC20NativeToken_ok_iff.mp h
  obtain ⟨hn, hmove⟩ := move_of_transfer hc hs hcom hf hret
  have hstorage := storage_of_committed hconf hs (by decide) hcom
  have hdenom : (payout p erc20Msg).denom = p.denom := rfl
  refine ⟨?_, ?_, fun d hd => ?_, ?_,
    by rw [moved_config, mintedCoin_config, hcom.config_eq]⟩
  · rw [tokensKept, if_pos howner, moved_evm, mintedCoin_evm, hmove]
    exact Ledger.taken_move hn
  · -- the coins were created in escrow and paid out of it
    rw [coinsKept, if_neg (by simp [howner]), ledger_moved, hdenom, if_pos rfl,
      ledger_mintedCoin, hdenom, if_pos rfl, Ledger.move_mint, hcom.bank_eq]
    exact Ledger.paid_mint
  · rw [ledger_moved, hdenom, if_neg hd, ledger_mintedCoin, hdenom, if_neg hd, hcom.bank_eq]
  · rw [moved_evm, mintedCoin_evm]
    exact hstorage

end Flows

/-! ## The two messages -/

private theorem decodeOrEmpty_of_ok {text : String}
    (h : k.accAddressFromBech32 text = .ok account) : decodeOrEmpty k text = account := by
  rw [decodeOrEmpty, h]

private theorem exists_of_wrapError {α : Type} {desc : String} {r : Except GoError α} {u : Unit}
    (h : wrapError desc r = .ok u) : ∃ a, r = .ok a := by
  cases r with
  | ok a => exact ⟨a, rfl⟩
  | error e => cases h

/-- Validation decodes the sender of a coin message. -/
theorem exists_decoded_of_validateBasic {decode : Bech32Decoder}
    (h : coinMsg.validateBasic decode = .ok u) : ∃ a, decode coinMsg.sender = .ok a := by
  obtain ⟨_, -, h⟩ := except_bind_ok_iff.mp h
  obtain ⟨_, -, h⟩ := except_bind_ok_iff.mp h
  obtain ⟨_, hsender, -⟩ := except_bind_ok_iff.mp h
  exact exists_of_wrapError hsender

/-- Validation decodes the receiver of a token message. -/
theorem exists_receiver_of_validateBasic {decode : Bech32Decoder}
    (h : erc20Msg.validateBasic decode = .ok u) : ∃ b, decode erc20Msg.receiver = .ok b := by
  obtain ⟨_, -, h⟩ := except_bind_ok_iff.mp h
  obtain ⟨_, -, h⟩ := except_bind_ok_iff.mp h
  obtain ⟨_, hreceiver, -⟩ := except_bind_ok_iff.mp h
  exact exists_of_wrapError hreceiver

/-- The owner of the pair decides the flow and what its contract is known to be. -/
private theorem Conforming.flow {P Q : Prop} (hc : Conforming k p book Sound)
    (hflow : (p.contractOwner = .OWNER_MODULE ∧ P) ∨ (p.contractOwner = .OWNER_EXTERNAL ∧ Q)) :
    (∃ token : W → OzToken, p.contractOwner = .OWNER_MODULE ∧ P ∧
        OzContract k p.getERC20Contract token Sound ∧ book = fun w => (token w).ledger) ∨
      (p.contractOwner = .OWNER_EXTERNAL ∧ Q ∧ Eip20 k p.getERC20Contract book Sound) := by
  cases hc with
  | ofModule howner token hoz hreads =>
    rcases hflow with ⟨-, hflow⟩ | ⟨ho, -⟩
    · exact .inl ⟨token, howner, hflow, hoz, funext hreads⟩
    · simp [howner] at ho
  | ofOthers howner heip =>
    rcases hflow with ⟨ho, -⟩ | ⟨-, hflow⟩
    · simp [howner] at ho
    · exact .inr ⟨howner, hflow, heip⟩

section Messages

variable (hc : Conforming k p book Sound)
  (hconf : Confined k p.getERC20Contract storage Sound) (hs : Sound s.evm)
include hc hconf hs

/-- A coin message that succeeds converts the coins of its sender. -/
theorem convertCoin_converted (hn : Names s.registry coinMsg.coin.denom p)
    (h : convertCoin k coinMsg s = .ok u t) :
    CoinsConverted k p book storage coinMsg.coin.denom (decodeOrEmpty k coinMsg.sender)
      (hexToAddress coinMsg.receiver) coinMsg.coin.nat s t := by
  obtain ⟨q, hadm, hflow⟩ := convertCoin_ok_iff.mp h
  obtain rfl := hn.eq_of_admits hadm
  rcases hc.flow hflow with ⟨token, howner, hflow, hoz, rfl⟩ | ⟨howner, hflow, heip⟩
  · exact convertCoinNativeCoin_converted hconf hs howner hoz hflow
  · exact convertCoinNativeERC20_converted hconf hs howner heip hflow

/-- A token message that succeeds converts the tokens of its sender. -/
theorem convertERC20_converted (hn : Names s.registry erc20Msg.contractAddress p)
    (h : convertERC20 k erc20Msg s = .ok u t) :
    TokensConverted k p book storage (hexToAddress erc20Msg.sender)
      (decodeOrEmpty k erc20Msg.receiver) (payout p erc20Msg).nat s t := by
  obtain ⟨q, hadm, hflow⟩ := convertERC20_ok_iff.mp h
  obtain rfl := hn.eq_of_admits hadm
  rcases hc.flow hflow with ⟨token, howner, hflow, hoz, rfl⟩ | ⟨howner, hflow, heip⟩
  · exact convertERC20NativeCoin_converted hconf hs howner hoz hflow
  · exact convertERC20NativeToken_converted hconf hs howner heip hflow

/-- **The exact effect of a conversion.** A message that passes validation and succeeds with
the amount `n` takes `n` units from the account that signed it and pays as many of the other
representation to the receiver, and nothing else changes. In a consistent registry the coins a
message names are those of the pair, unless they are spelled as an address. -/
theorem conversion_effect :
    (∀ (msg : MsgConvertCoin) u t (n : ℕ), Names s.registry msg.coin.denom p →
      msg.validateBasic k.accAddressFromBech32 = .ok () → msg.coin.amount.val = n →
      convertCoin k msg s = .ok u t →
      (RegistryConsistent k s.registry → isHexAddress msg.coin.denom = false →
        p.denom = msg.coin.denom) ∧
      ∃ a, msg.getSigners k.accAddressFromBech32 = [a] ∧
        CoinsConverted k p book storage msg.coin.denom a (hexToAddress msg.receiver) n s t) ∧
    (∀ (msg : MsgConvertERC20) u t (n : ℕ), Names s.registry msg.contractAddress p →
      msg.validateBasic k.accAddressFromBech32 = .ok () → msg.amount.val = n →
      convertERC20 k msg s = .ok u t →
      ∃ a b, msg.getSigners = [a.bytes] ∧ k.accAddressFromBech32 msg.receiver = .ok b ∧
        TokensConverted k p book storage a b n s t) := by
  constructor
  · intro msg u t n hn hvalid hamount h
    -- the texts of the message decode, since it passed `ValidateBasic`
    have hconv := convertCoin_converted hc hconf hs hn h
    obtain ⟨a, ha⟩ := exists_decoded_of_validateBasic hvalid
    have hnat : msg.coin.nat = n := by rw [Coin.nat, hamount, Int.toNat_natCast]
    rw [decodeOrEmpty_of_ok ha, hnat] at hconv
    refine ⟨fun hcons hhex => ?_, a, ?_, hconv⟩
    · obtain ⟨id, hid, hp⟩ := hn
      exact (hcons.stored_of_found hid hp).2.2 hhex
    · rw [MsgConvertCoin.getSigners, ha]
  · intro msg u t n hn hvalid hamount h
    have hconv := convertERC20_converted hc hconf hs hn h
    obtain ⟨b, hb⟩ := exists_receiver_of_validateBasic hvalid
    have hnat : (payout p msg).nat = n := by rw [Coin.nat, payout, hamount, Int.toNat_natCast]
    rw [decodeOrEmpty_of_ok hb, hnat] at hconv
    exact ⟨_, b, rfl, hb, hconv⟩

end Messages

/-! ## On the reference machine -/

/-- The storage of the reference machine: what is at an address. -/
def tokenStorage (w : TokenWorld) (a : Address) : Option OzToken := w a

/-- A call on the reference machine writes at most the token it calls. -/
theorem confined_plainKeeper (c : Address) (Sound : TokenWorld → Prop) :
    Confined plainKeeper c tokenStorage Sound := by
  intro w accounts sender nonce m args res _ _ happ c' hc'
  simp only [plainKeeper, keeperOver, plainEvm, referenceEvm] at happ
  cases hcall : w.call ⟨sender, c, m, args⟩ with
  | none =>
    simp only [hcall] at happ
    obtain rfl := Except.ok.inj happ
    rfl
  | some out =>
    obtain ⟨w', ret, logs⟩ := out
    simp only [hcall] at happ
    obtain rfl := Except.ok.inj happ
    exact (TokenWorld.call_other (Ne.symm hc') hcall).1

/-- Alice converts some of her own coins for bob, and some of her tokens for herself. -/
def aliceToBob : MsgConvertCoin :=
  ⟨⟨"acoin", newIntFromUint64 5⟩, "0x4444444444444444444444444444444444444444", aliceBech32⟩

def aliceToHerself : MsgConvertERC20 :=
  ⟨"0x5555555555555555555555555555555555555555", newIntFromUint64 7, aliceBech32,
    "0x3333333333333333333333333333333333333333"⟩

theorem conversion_effect_alice :
    (∃ t, convertCoin plainKeeper aliceToBob (deployed plainEvm referenceWorld) = .ok () t ∧
      CoinsConverted plainKeeper pairE (fun w => (tokenAt tokenE w).ledger) tokenStorage
        "acoin" alice.bytes bob 5 (deployed plainEvm referenceWorld) t) ∧
    ∃ t, convertERC20 plainKeeper aliceToHerself (deployed plainEvm referenceWorld) = .ok () t ∧
      TokensConverted plainKeeper pairE (fun w => (tokenAt tokenE w).ledger) tokenStorage
        alice alice.bytes 7 (deployed plainEvm referenceWorld) t := by
  have hcontract : pairE.getERC20Contract = tokenE := by decide
  have hconforms : Conforming plainKeeper pairE (fun w => (tokenAt tokenE w).ledger)
      (fun w => (w tokenE).isSome = true) :=
    .ofModule rfl (tokenAt tokenE) (hcontract ▸ ozContract_plainKeeper tokenE) fun _ => rfl
  have hconfined : Confined plainKeeper pairE.getERC20Contract tokenStorage
      (fun w => (w tokenE).isSome = true) :=
    confined_plainKeeper pairE.getERC20Contract fun w => (w tokenE).isSome = true
  have heffect := conversion_effect (s := deployed plainEvm referenceWorld) hconforms hconfined
    (by decide)
  have hid : getTokenPair (deployed plainEvm referenceWorld).registry
      (pairE.getID plainKeeper.tmhashSum) = some pairE := by decide +kernel
  obtain ⟨t, ht⟩ := Exec.exists_ok (x := convertCoin plainKeeper aliceToBob)
    (s := deployed plainEvm referenceWorld) (by decide +kernel)
  obtain ⟨v, hv⟩ := Exec.exists_ok (x := convertERC20 plainKeeper aliceToHerself)
    (s := deployed plainEvm referenceWorld) (by decide +kernel)
  refine ⟨⟨t, ht, ?_⟩, v, hv, ?_⟩
  · obtain ⟨-, a, ha, hconv⟩ := heffect.1 aliceToBob () t 5 ⟨_, by decide +kernel, hid⟩
      (by decide +kernel) rfl ht
    obtain rfl := (List.singleton_inj.mp ha : alice.bytes = a)
    exact hconv
  · obtain ⟨a, b, ha, hb, hconv⟩ := heffect.2 aliceToHerself () v 7 ⟨_, by decide +kernel, hid⟩
      (by decide +kernel) rfl hv
    obtain rfl := Address.ext (List.singleton_inj.mp ha : alice.bytes = a.bytes)
    obtain rfl := (Except.ok.inj hb : alice.bytes = b)
    exact hconv

end GenesisEthermint.Conversion
