import GenesisEthermint.Registry.Bijection

/-!
# Token Routing

Messages, proposals and queries name a token by a text, and `GetTokenPairID` takes the text for
an address whenever it can be read as one. Forty hexadecimal characters that begin with a letter
are a denomination as well, and `RegisterCoin` registers them. Such a denomination leads to
whatever pair has the contract it spells.
-/

namespace GenesisEthermint.Registry

open GenesisEthermint.Foundation GenesisEthermint.Types GenesisEthermint.Chain
open GenesisEthermint.Intrarelayer GenesisEthermint.Tokens

variable {W : Type} {k : Keeper W} {r : Registry} {s t : State W} {p q : TokenPair} {d : String}

/-- The denomination is not mistaken for the contract of another pair: it cannot be read as an
address, or the pair at that address is its own. -/
def DenomRouted (r : Registry) (d : String) : Prop :=
  isHexAddress d = true → ∃ p, Stored r p ∧ p.denom = d ∧ p.getERC20Contract = hexToAddress d

/-! ## What a text leads to -/

/-- Whatever a text leads to has it for its denomination exactly when the text is routed. -/
theorem denom_eq_iff_denomRouted (h : RegistryConsistent k r)
    (hq : ∃ id, getTokenPairID r d = some id ∧ getTokenPair r id = some q) :
    q.denom = d ↔ DenomRouted r d := by
  obtain ⟨id, hid, hq⟩ := hq
  obtain ⟨hstored, hcontract, hdenom⟩ := h.stored_of_found hid hq
  constructor
  · exact fun hd hhex => ⟨q, hstored, hd, hcontract hhex⟩
  · intro hrouted
    cases hhex : isHexAddress d with
    | false => exact hdenom hhex
    | true =>
      obtain ⟨p, hp, rfl, hpc⟩ := hrouted hhex
      -- both pairs have the contract that the text spells
      rcases h.apart hp hstored with rfl | ⟨-, hne⟩
      · rfl
      · exact absurd ((hcontract hhex).trans hpc.symm) hne

/-- A stored pair is found under its denomination exactly when the denomination is routed. -/
theorem getTokenPairID_denom_iff (h : RegistryConsistent k r) (hp : Stored r p) :
    getTokenPairID r p.denom = some (p.getID k.tmhashSum) ↔ DenomRouted r p.denom := by
  constructor
  · exact fun hid =>
      (denom_eq_iff_denomRouted h ⟨_, hid, h.getTokenPair_getID hp⟩).mp rfl
  · intro hrouted
    cases hhex : isHexAddress p.denom with
    | false => exact h.getTokenPairID_denom hp hhex
    | true =>
      obtain ⟨q, hq, hqd, hqc⟩ := hrouted hhex
      rcases h.apart hp hq with rfl | ⟨hne, -⟩
      · exact h.getTokenPairID_of_hexSpelling hp (hexSpelling_iff.mpr ⟨hhex, hqc.symm⟩)
      · exact absurd hqd hne

/-- The denominations that `RegisterERC20` makes are always routed. -/
theorem denomRouted_createDenom (contract : Address) (keccak256 : List Char → Hash) :
    DenomRouted r (createDenom (contract.hex keccak256)) := by
  intro hhex
  have hlen := (isHexAddress_iff.mp hhex).1
  have hlist : (createDenom (contract.hex keccak256)).toList =
      "intrarelayer/".toList ++ (contract.hex keccak256).toList := by
    simp [createDenom, ModuleName, String.toList_append]
  have hnot : has0xPrefix ("intrarelayer/".toList ++ (contract.hex keccak256).toList) = false :=
    rfl
  obtain ⟨-, hall⟩ := isHexAddress_iff.mp hhex
  rw [hlist, strip0x, hnot, if_neg Bool.false_ne_true] at hall
  -- the first letter of the module's name is no hexadecimal digit
  have hfirst : isHexCharacter 'i' = true := List.all_eq_true.mp hall 'i' (by simp)
  exact absurd hfirst (by decide)

/-- **Token routing.** In a consistent registry every spelling of a pair's contract leads to the
pair, and its denomination does exactly when it is routed, as those that `RegisterERC20` makes
always are. A coin message, a toggle and a query act on the pair of the denomination they are
given exactly when that denomination is routed. -/
theorem token_routing_iff (h : RegistryConsistent k s.registry) :
    (∀ p, Stored s.registry p →
      (∀ token, HexSpelling token p.getERC20Contract →
        getTokenPairID s.registry token = some (p.getID k.tmhashSum)) ∧
      (getTokenPairID s.registry p.denom = some (p.getID k.tmhashSum) ↔
        DenomRouted s.registry p.denom)) ∧
    (∀ contract : Address, DenomRouted s.registry (createDenom (contract.hex k.keccak256))) ∧
    (∀ (msg : MsgConvertCoin) sender receiver q,
      mintingEnabled k s sender receiver msg.coin.denom = .ok q →
      (q.denom = msg.coin.denom ↔ DenomRouted s.registry msg.coin.denom)) ∧
    (∀ d q t, toggleRelay k d s = .ok q t → (q.denom = d ↔ DenomRouted s.registry d)) ∧
    (∀ d q, tokenPair s.registry d = .ok q → (q.denom = d ↔ DenomRouted s.registry d)) := by
  refine ⟨fun p hp => ⟨fun token hx => h.getTokenPairID_of_hexSpelling hp hx,
    getTokenPairID_denom_iff h hp⟩, fun contract => denomRouted_createDenom contract _, ?_, ?_,
    ?_⟩
  · intro msg sender receiver q hq
    exact denom_eq_iff_denomRouted h (mintingEnabled_ok_iff.mp hq).found
  · intro d q t hq
    obtain ⟨id, q', hid, hq', rfl, -⟩ := toggleRelay_ok hq
    exact denom_eq_iff_denomRouted (q := q') h ⟨id, hid, hq'⟩
  · intro d q hq
    exact denom_eq_iff_denomRouted h (tokenPair_ok hq)

/-! ## On the reference deployment -/

theorem token_routing_iff_deployed :
    getTokenPairID (deployed plainEvm referenceWorld).registry "acoin" =
      some (pairE.getID plainKeeper.tmhashSum) := by
  have hstored := (stored_deployed plainEvm referenceWorld).mpr (.inr rfl : pairE = pairA ∨ _)
  refine (((token_routing_iff (consistent_deployed plainEvm referenceWorld)).1 pairE hstored).2).mpr
    fun hhex => ?_
  exact absurd hhex (by decide)

/-! ## A coin spelled like a contract -/

/-- The digits of a contract's address, which are also a valid denomination. -/
def letters : String := "aaaaaaaaaaaaaaaaaaaaaaaaaaaaaaaaaaaaaaaa"

def letterToken : Address := addressOf 0xaaaaaaaaaaaaaaaaaaaaaaaaaaaaaaaaaaaaaaaa

/-- A keeper that also knows the digests for this contract and this denomination. -/
def letterKeeper : Keeper TokenWorld :=
  { plainKeeper with
    tmhashSum := fun text =>
      if text = "0xaAaAaAaaAaAaAaaAaAAAAAAAAaaaAaAaAaaAaaAa|" ++
          "intrarelayer/0xaAaAaAaaAaAaAaaAaAAAAAAAAaaaAaAaAaaAaaAa" then
        hashOf 0x15051a7667357c8b886957c1683fe502529acdfdb1b6e009547d340c2d6d3114
      else if text = "0x00819E780C6e96c50Ed70eFFf5B73569c15d0bd7|" ++
          "aaaaaaaaaaaaaaaaaaaaaaaaaaaaaaaaaaaaaaaa" then
        hashOf 0x930ba4e62fd3dd372a07ef90c0835e0c03eda19efc4b54caee761a80d266394d
      else plainKeeper.tmhashSum text
    keccak256 := fun digits =>
      if digits = letters.toList then
        hashOf 0x4e584950e784a75c4fafe98dd342c0a0b32d62c38a3847809076284a371f9991
      else hashOf 0xc52c5be138d096185b7406a93ae821e029243364d4b7dfdd49845342174624e6 }

/-- Bob has tokens of the contract, and alice has coins of the denomination. -/
def letterState : State TokenWorld :=
  (referenceState fun a =>
    if a = letterToken then some (thirdPartyToken [(bob, 50)] (by decide)) else none).setLedger
      letters (ledgerOf [(alice.bytes, 10)])

def letterMetadata : Metadata :=
  ⟨"a coin", [⟨letters, 0, []⟩], letters, letters, "letters", "LETTERS"⟩

/-- The coin and the contract are registered, and bob converts 20 tokens. -/
def registerBoth : List Op := [
  .registerCoin letterMetadata, .registerERC20 letterToken,
  .convertERC20 ⟨letters, newIntFromUint64 20, bobBech32,
    "0x4444444444444444444444444444444444444444"⟩]

def lettersRegistered : State TokenWorld :=
  run (step letterKeeper) (initGenesis letterKeeper noPairs letterState) registerBoth

/-- The pair of the coin, and the pair of the contract. -/
def coinOfLetters : TokenPair :=
  ⟨"0x00819E780C6e96c50Ed70eFFf5B73569c15d0bd7", letters, true, .OWNER_MODULE⟩

def tokenOfLetters : TokenPair :=
  ⟨"0xaAaAaAaaAaAaAaaAaAAAAAAAAaaaAaAaAaaAaaAa",
    "intrarelayer/0xaAaAaAaaAaAaAaaAaAAAAAAAAaaaAaAaAaaAaaAa", true, .OWNER_EXTERNAL⟩

/-- Alice converts 5 of her coins. -/
def aliceConvertsLetters : MsgConvertCoin :=
  ⟨⟨letters, newIntFromUint64 5⟩, "0x3333333333333333333333333333333333333333", aliceBech32⟩

/-- **Coins of one pair are burned for the tokens of another.** The proposals and the message are
valid and the registry is consistent, but the denomination leads to the pair of the contract, and
so alice gets bob's tokens for her coins. -/
theorem not_routed_lettersRegistered :
    (RegisterCoinProposal.mk "Register" "a coin" letterMetadata).validateBasic = .ok () ∧
    RegistryConsistent letterKeeper lettersRegistered.registry ∧
    Stored lettersRegistered.registry coinOfLetters ∧
    getTokenPairID lettersRegistered.registry coinOfLetters.denom ≠
      some (coinOfLetters.getID letterKeeper.tmhashSum) ∧
    aliceConvertsLetters.validateBasic letterKeeper.accAddressFromBech32 = .ok () ∧
    mintingEnabled letterKeeper lettersRegistered alice.bytes alice.bytes
      aliceConvertsLetters.coin.denom = .ok tokenOfLetters ∧
    ((step letterKeeper lettersRegistered (.convertCoin aliceConvertsLetters)).bank.ledger
      letters).supply = 5 ∧
    (tokenAt letterToken (step letterKeeper lettersRegistered
      (.convertCoin aliceConvertsLetters)).evm).ledger.bal alice = 5 := by
  obtain ⟨hstored, hid, hpair, hsupply, hbal⟩ :
      lettersRegistered.registry.tokenPairs.lookup
          (coinOfLetters.getID letterKeeper.tmhashSum).bytes = some coinOfLetters ∧
        getTokenPairID lettersRegistered.registry coinOfLetters.denom ≠
          some (coinOfLetters.getID letterKeeper.tmhashSum) ∧
        mintingEnabled letterKeeper lettersRegistered alice.bytes alice.bytes
          aliceConvertsLetters.coin.denom = .ok tokenOfLetters ∧
        ((step letterKeeper lettersRegistered (.convertCoin aliceConvertsLetters)).bank.ledger
          letters).supply = 5 ∧
        (tokenAt letterToken (step letterKeeper lettersRegistered
          (.convertCoin aliceConvertsLetters)).evm).ledger.bal alice = 5 := by
    decide +kernel
  refine ⟨by decide +kernel, ?_, ⟨_, hstored⟩, hid, by decide +kernel, hpair, hsupply, hbal⟩
  -- before the registrations no contract is registered
  have hfree : ∀ a, getERC20Map (initGenesis letterKeeper noPairs letterState).registry a = none :=
    fun a => (KVStore.lookup_empty : emptyRegistry.erc20Map.lookup a.bytes = none)
  refine consistent_run (consistent_initGenesis rfl (by constructor <;> simp [noPairs]))
    ⟨⟨by decide +kernel, fun _ _ => hfree _⟩, trivial, trivial, trivial⟩
    ⟨hashesApart_of_entries _ (by decide +kernel), hashesApart_of_entries _ (by decide +kernel),
      hashesApart_of_entries _ (by decide +kernel), trivial⟩

end GenesisEthermint.Registry
