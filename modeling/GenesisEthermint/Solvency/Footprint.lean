import GenesisEthermint.Registry.Consistency
import GenesisEthermint.Tokens.Conformance

/-!
# Footprints

A step is about one pair, and an invariant is about one pair, and mostly they are different
pairs. This file settles that case once: a conversion of another pair touches neither the
denomination nor, on the module's behalf, the contract of this one. What remains for an
invariant to look at is the conversion of its own pair.
-/

namespace GenesisEthermint.Solvency

open GenesisEthermint.Foundation GenesisEthermint.Types GenesisEthermint.Chain
open GenesisEthermint.Intrarelayer GenesisEthermint.Registry GenesisEthermint.Tokens

variable {W : Type}

/-- Between `s` and `t` the pair was left alone: its denomination's ledger is the same, and
the world changed by one message at most, not a call of its contract by the module. -/
structure LeftAlone (k : Keeper W) (p : TokenPair) (s t : State W) : Prop where
  config : t.config = s.config
  ledger : t.bank.ledger p.denom = s.bank.ledger p.denom
  world : t.evm = s.evm ∨ ∃ accounts msg res,
    k.evm.applyMessage s.evm accounts msg = .ok res ∧
      ¬ FromModuleTo k p.getERC20Contract msg ∧ t.evm = res.world

variable {k : Keeper W} {s t v : State W} {u : Unit} {p q : TokenPair} {log : Log}
  {sender : Address} {contract : Address} {data : Payload} {res : EvmResult W}

namespace LeftAlone

theorem refl (k : Keeper W) (p : TokenPair) (s : State W) : LeftAlone k p s s :=
  ⟨rfl, rfl, .inl rfl⟩

/-- Bank movements of another denomination before and after one message to another contract. -/
theorem of_committed {s₁ : State W} (hcom : Committed k s₁ sender (some contract) data res v)
    (hne : contract ≠ p.getERC20Contract)
    (hpre : s₁.config = s.config ∧ s₁.evm = s.evm ∧
      s₁.bank.ledger p.denom = s.bank.ledger p.denom)
    (hpost : t.config = v.config ∧ t.evm = v.evm ∧
      t.bank.ledger p.denom = v.bank.ledger p.denom) : LeftAlone k p s t where
  config := hpost.1.trans (hcom.config_eq.trans hpre.1)
  ledger := by rw [hpost.2.2, hcom.bank_eq, hpre.2.2]
  world := by
    have hevm := hcom.evm_eq
    obtain ⟨nonce, -, happ, -⟩ := hcom
    rw [hpre.2.1] at happ
    refine .inr ⟨_, _, res, happ, fun hm => hne (Option.some.inj hm.2), ?_⟩
    rw [hpost.2.1, hevm]

end LeftAlone

/-! ## Messages -/

section Messages

variable {coinMsg : MsgConvertCoin} {erc20Msg : MsgConvertERC20}

/-- A coin message converts this pair or leaves it alone, unless its denomination is spelled
as an address. -/
theorem convertCoin_cases (hcons : RegistryConsistent k s.registry) (hp : Stored s.registry p)
    (hhex : isHexAddress coinMsg.coin.denom = false)
    (h : convertCoin k coinMsg s = .ok u t) :
    LeftAlone k p s t ∨ (coinMsg.coin.denom = p.denom ∧
      ((p.contractOwner = .OWNER_MODULE ∧ convertCoinNativeCoin k p coinMsg
          (hexToAddress coinMsg.receiver) (decodeOrEmpty k coinMsg.sender) s = .ok u t) ∨
        (p.contractOwner = .OWNER_EXTERNAL ∧ convertCoinNativeERC20 k p coinMsg
          (hexToAddress coinMsg.receiver) (decodeOrEmpty k coinMsg.sender) s = .ok u t))) := by
  obtain ⟨q, hadm, hflow⟩ := convertCoin_ok_iff.mp h
  obtain ⟨id, hid, hfound⟩ := hadm.found
  obtain ⟨hq, -, hdenom⟩ := hcons.stored_of_found hid hfound
  have hdenom := hdenom hhex
  rcases hcons.apart hp hq with rfl | ⟨hd, hc⟩
  · exact .inr ⟨hdenom.symm, hflow⟩
  · left
    have hne : p.denom ≠ coinMsg.coin.denom := fun e => hd (hdenom.trans e.symm)
    have hpre : ∀ a, (escrowed k s a coinMsg.coin).bank.ledger p.denom =
        s.bank.ledger p.denom := fun a => by rw [ledger_escrowed, if_neg hne]
    rcases hflow with ⟨-, hflow⟩ | ⟨-, hflow⟩
    · obtain ⟨-, -, res, hcom, -⟩ := convertCoinNativeCoin_ok_iff.mp hflow
      exact .of_committed hcom hc ⟨escrowed_config, escrowed_evm, hpre _⟩ ⟨rfl, rfl, rfl⟩
    · obtain ⟨-, -, res, v, hcom, -, -, -, -, rfl⟩ := convertCoinNativeERC20_ok_iff.mp hflow
      refine .of_committed hcom hc ⟨escrowed_config, escrowed_evm, hpre _⟩
        ⟨burnedCoin_config, burnedCoin_evm, ?_⟩
      rw [ledger_burnedCoin, if_neg hne]

/-- A token message converts this pair or leaves it alone. -/
theorem convertERC20_cases (hcons : RegistryConsistent k s.registry)
    (hp : Stored s.registry p) (h : convertERC20 k erc20Msg s = .ok u t) :
    LeftAlone k p s t ∨
      (p.contractOwner = .OWNER_MODULE ∧ convertERC20NativeCoin k p erc20Msg
          (decodeOrEmpty k erc20Msg.receiver) (hexToAddress erc20Msg.sender) s = .ok u t) ∨
      (p.contractOwner = .OWNER_EXTERNAL ∧ convertERC20NativeToken k p erc20Msg
          (decodeOrEmpty k erc20Msg.receiver) (hexToAddress erc20Msg.sender) s = .ok u t) := by
  obtain ⟨q, hadm, hflow⟩ := convertERC20_ok_iff.mp h
  obtain ⟨id, hid, hfound⟩ := hadm.found
  obtain ⟨hq, -, -⟩ := hcons.stored_of_found hid hfound
  rcases hcons.apart hp hq with rfl | ⟨hd, hc⟩
  · exact .inr hflow
  · left
    have hne : p.denom ≠ (payout q erc20Msg).denom := Ne.symm hd
    rcases hflow with ⟨-, hflow⟩ | ⟨-, hflow⟩
    · obtain ⟨res, v, hcom, -, -, rfl⟩ := convertERC20NativeCoin_ok_iff.mp hflow
      refine .of_committed hcom hc ⟨rfl, rfl, rfl⟩ ⟨moved_config, moved_evm, ?_⟩
      rw [ledger_moved, if_neg hne]
    · obtain ⟨res, v, hcom, -, -, -, -, rfl⟩ := convertERC20NativeToken_ok_iff.mp hflow
      refine .of_committed hcom hc ⟨rfl, rfl, rfl⟩ ⟨?_, ?_, ?_⟩
      · rw [moved_config, mintedCoin_config]
      · rw [moved_evm, mintedCoin_evm]
      · rw [ledger_moved, if_neg hne, ledger_mintedCoin, if_neg hne]

end Messages

/-! ## The hook -/

/-- The conversion of another pair's log leaves this pair alone. -/
theorem leftAlone_of_convertLog {ev : TransferEvent} (hd : q.denom ≠ p.denom)
    (hc : contract ≠ p.getERC20Contract) (h : convertLog k q contract ev s = .ok u t) :
    LeftAlone k p s t := by
  -- the log belongs to `q`: its coins are not of the denomination of `p`
  have hne : p.denom ≠ (logPayout q ev).denom := Ne.symm hd
  have hmoved : ∀ v : State W, ((moved v k.moduleAddress.bytes ev.sender.bytes
      (logPayout q ev)).bank.ledger p.denom) = v.bank.ledger p.denom := fun v => by
    rw [ledger_moved, if_neg hne]
  -- and its call does not go to the contract of `p`
  rcases convertLog_ok h with hkept | ⟨v, htaken, hend⟩
  · cases hkept with
    | nothing _ left => exact left ▸ .refl k p s
    | reverted res _ hcom _ => exact .of_committed hcom hc ⟨rfl, rfl, rfl⟩ ⟨rfl, rfl, rfl⟩
    | invalid _ _ left =>
      rw [left]
      exact ⟨s.ensureAccount_config _, by rw [State.ensureAccount_bank],
        .inl (s.ensureAccount_evm _)⟩
  · cases htaken with
    | burned res _ hcom _ =>
      rcases hend with ⟨-, rfl⟩ | ⟨-, rfl⟩
      · exact .of_committed hcom hc ⟨rfl, rfl, rfl⟩ ⟨moved_config, moved_evm, hmoved _⟩
      · exact .of_committed hcom hc ⟨rfl, rfl, rfl⟩ ⟨rfl, rfl, rfl⟩
    | minted _ _ left =>
      have hminted : v.bank.ledger p.denom = s.bank.ledger p.denom := by
        rw [left, ledger_mintedCoin, if_neg hne]
      have hcfg : v.config = s.config := by rw [left, mintedCoin_config]
      have hevm : v.evm = s.evm := by rw [left, mintedCoin_evm]
      rcases hend with ⟨-, rfl⟩ | ⟨-, rfl⟩
      · exact ⟨moved_config.trans hcfg, (hmoved _).trans hminted, .inl (moved_evm.trans hevm)⟩
      · exact ⟨hcfg, hminted, .inl hevm⟩

/-- One round of the log loop converts a transfer of this pair's tokens to the module, or
leaves the pair alone. -/
theorem processLog_cases (hcons : RegistryConsistent k s.registry) (hp : Stored s.registry p)
    (h : processLog k log s = .ok u t) :
    LeftAlone k p s t ∨ ∃ ev, transferOf log = some ev ∧ ev.recipient = k.moduleAddress ∧
      log.address = p.getERC20Contract ∧ convertLog k p log.address ev s = .ok u t := by
  rcases processLog_ok h with rfl | ⟨ev, q, htr, hrec, hq, -, hconv⟩
  · exact .inl (.refl k p t)
  · obtain ⟨hq, haddr⟩ := hcons.pairOfContract_eq_some_iff.mp hq
    rcases hcons.apart hp hq with rfl | ⟨hd, hc⟩
    · exact .inr ⟨ev, htr, hrec, haddr.symm, hconv⟩
    · exact .inl (leftAlone_of_convertLog hd (haddr ▸ hc) hconv)

end GenesisEthermint.Solvency
