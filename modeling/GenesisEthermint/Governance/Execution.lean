import GenesisEthermint.Intrarelayer.ProposalHandler
import GenesisEthermint.Intrarelayer.Registration
import GenesisEthermint.Registry.Bijection

/-!
# The Execution of Proposals

Governance runs the handler of a passed proposal at the end of a block, where a panic stops the
chain. The handler calls a method of the keeper and builds an event from the pair the method
returns. `RegisterERC20` returns no pair when it succeeds, so the event follows a nil pointer
exactly when the registration went through. The other three report the pair they wrote.
-/

namespace GenesisEthermint.Governance

open GenesisEthermint.Foundation GenesisEthermint.Types GenesisEthermint.Chain
open GenesisEthermint.Intrarelayer GenesisEthermint.Registry GenesisEthermint.Tokens

variable {W : Type}

/-! ## Events -/

def EventTypeRegisterCoin : String := "register_coin"
def EventTypeRegisterERC20 : String := "register_erc20"
def EventTypeToggleTokenRelay : String := "toggle_token_relay"
def EventTypeUpdateTokenPairERC20 : String := "update_token_pair_erc20"

def AttributeKeyCosmosCoin : String := "cosmos_coin"
def AttributeKeyERC20Token : String := "erc20_token"

/-- `sdk.Event`. -/
structure SdkEvent where
  type : String
  attributes : List (String × String)

/-- The event of a handler: the two sides of the pair. -/
def pairEvent (type : String) (pair : TokenPair) : SdkEvent where
  type := type
  attributes := [(AttributeKeyCosmosCoin, pair.denom), (AttributeKeyERC20Token, pair.erc20Address)]

/-- Follow the pointer to a pair. -/
def deref : Option TokenPair → Exec GoError (State W) TokenPair
  | some pair => pure pair
  | none => Exec.panicWith nilDereference

variable (v : KeeperValue W)

/-- The handlers with the event that each of them emits. `RegisterERC20` ends in
`return nil, nil`. -/
def proposalEvent : Content → Exec GoError (State W) SdkEvent
  | .registerCoin p => do
    let pair ← v.registerCoin p.metadata
    return pairEvent EventTypeRegisterCoin pair
  | .registerERC20 p => do
    v.registerERC20 (hexToAddress p.erc20Address)
    let pair ← deref none
    return pairEvent EventTypeRegisterERC20 pair
  | .toggleTokenRelay p => do
    let pair ← v.toggleRelay p.token
    return pairEvent EventTypeToggleTokenRelay pair
  | .updateTokenPairERC20 p => do
    let pair ← v.updateTokenPairERC20 (hexToAddress p.erc20Address)
      (hexToAddress p.newErc20Address)
    return pairEvent EventTypeUpdateTokenPairERC20 pair
  | .other _ type => Exec.fail (.wrap ErrUnknownRequest
      ("unrecognized " ++ ModuleName ++ " proposal content type: " ++ type))

/-- The handler is this with the event forgotten. -/
theorem handler_eq_discard (c : Content) :
    newIntrarelayerProposalHandler v c = Functor.discard (proposalEvent v c) := by
  have hdiscard (x : Exec GoError (State W) SdkEvent) :
      (Functor.discard x : Exec GoError (State W) Unit) = x >>= fun _ => pure () := rfl
  -- handler and event take the same steps; they differ in the result that is returned
  rw [hdiscard]
  cases c with
  | registerCoin p =>
    simp only [newIntrarelayerProposalHandler, handleRegisterCoinProposal, proposalEvent,
      bind_assoc, pure_bind]
  | registerERC20 p =>
    simp only [newIntrarelayerProposalHandler, handleRegisterERC20Proposal, proposalEvent,
      bind_assoc]
    rfl
  | toggleTokenRelay p =>
    simp only [newIntrarelayerProposalHandler, handleToggleRelayProposal, proposalEvent,
      bind_assoc, pure_bind]
  | updateTokenPairERC20 p =>
    simp only [newIntrarelayerProposalHandler, handleUpdateTokenPairERC20Proposal, proposalEvent,
      bind_assoc, pure_bind]
  | other route type => rfl

/-! ## What a proposal reports -/

section Reports

variable {k : Keeper W} {s t : State W} {ev : SdkEvent} {p q : TokenPair} {id : Hash}

/-- The event reports this pair. -/
def SdkEvent.Reports (ev : SdkEvent) (p : TokenPair) : Prop := ∃ type, ev = pairEvent type p

theorem pairEvent_inj {type type' : String} (h : pairEvent type p = pairEvent type' q) :
    p.denom = q.denom ∧ p.erc20Address = q.erc20Address := by
  have hattr := congrArg SdkEvent.attributes h
  simp only [pairEvent, List.cons.injEq, Prod.mk.injEq, true_and, and_true] at hattr
  exact hattr

/-- **The promise**: the handler does not panic, and the pair it reports is in the registry. -/
def ExecutesWell (k : Keeper W) (s : State W) (c : Content) : Prop :=
  (∀ m t, newIntrarelayerProposalHandler (.built k) c s ≠ .error (.panic m) t) ∧
  ∀ ev t, proposalEvent (.built k) c s = .ok ev t →
    ∃ p, ev.Reports p ∧ Resolvable k t.registry p

/-! ## Which proposals execute well -/

/-- The condition: a proposal to register a contract is not one that goes through, and a proposal
to toggle names a pair that both indexes lead to. -/
def RunsWell (k : Keeper W) (s : State W) : Content → Prop
  | .registerERC20 p => ¬ ∃ data v, Registrable k s (hexToAddress p.erc20Address) data v
  | .toggleTokenRelay p => ∀ id q, getTokenPairID s.registry p.token = some id →
      getTokenPair s.registry id = some q →
        getDenomMap s.registry q.denom = some (q.getID k.tmhashSum) ∧
        getERC20Map s.registry q.getERC20Contract = some (q.getID k.tmhashSum) ∧
        { q with enabled := !q.enabled } ≠ zeroPair
  | _ => True

/-- Where the method of a content neither panics nor returns nil, the handler does not panic. -/
theorem handler_ne_panic {c : Content} (h : ∀ p, c ≠ .registerERC20 p) (m : String)
    (t : State W) : newIntrarelayerProposalHandler (.built k) c s ≠ .error (.panic m) t := by
  cases c with
  | registerCoin p =>
    exact Exec.avoids_bind (avoids_registerCoin _) (fun _ _ _ => Exec.avoids_pure _) t
  | registerERC20 p => exact absurd rfl (h p)
  | toggleTokenRelay p =>
    exact Exec.avoids_bind (avoids_toggleRelay _) (fun _ _ _ => Exec.avoids_pure _) t
  | updateTokenPairERC20 p =>
    exact Exec.avoids_bind (avoids_updateTokenPairERC20 _ _) (fun _ _ _ => Exec.avoids_pure _) t
  | other route type => exact Exec.avoids_fail _ t

/-- A registration of a contract panics when it goes through, and fails otherwise. -/
private theorem executesWell_registerERC20_iff (p : RegisterERC20Proposal) :
    ExecutesWell k s (.registerERC20 p) ↔
      ¬ ∃ data v, Registrable k s (hexToAddress p.erc20Address) data v := by
  constructor
  -- the handler reads the pair that the keeper does not return
  · rintro ⟨hpanic, -⟩ ⟨data, v, hreg⟩
    have hok := (registerERC20_ok_iff (u := ())).mpr ⟨data, v, hreg, rfl⟩
    exact hpanic nilDereference _ (Exec.bind_of_ok hok)
  · intro hno
    have hfail (t : State W) : registerERC20 k (hexToAddress p.erc20Address) s ≠ .ok () t := by
      intro hok
      obtain ⟨data, v, hreg, -⟩ := registerERC20_ok_iff.mp hok
      exact hno ⟨data, v, hreg⟩
    -- a registration that fails is an error of its own and no panic
    refine ⟨fun m t h => ?_, fun ev t h => ?_⟩
    · rcases Exec.bind_error_iff.mp h with h | ⟨_, v, hok, -⟩
      · exact avoids_registerERC20 _ t h
      · exact hfail v hok
    · obtain ⟨_, v, hok, -⟩ := Exec.bind_ok_iff.mp h
      exact absurd hok (hfail v)

private theorem executesWell_toggleRelay_iff (p : ToggleTokenRelayProposal) :
    ExecutesWell k s (.toggleTokenRelay p) ↔ RunsWell k s (.toggleTokenRelay p) := by
  constructor
  · rintro ⟨-, hreport⟩ id q hid hq
    have hok : toggleRelay k p.token s = .ok { q with enabled := !q.enabled }
        { s with registry := setTokenPair k { q with enabled := !q.enabled } s.registry } := by
      simp only [toggleRelay, Exec.get_bind, hid, hq, updateRegistry, Exec.modify_bind]
      rfl
    obtain ⟨p', ⟨type, hev⟩, hres⟩ := hreport _ _ (Exec.bind_of_ok hok)
    obtain ⟨hdenom, haddress⟩ := pairEvent_inj hev
    refine (resolvable_setTokenPair s.registry q).mp ?_
    -- what is found under the ID of the reported pair is the pair that was written
    have hid' : p'.getID k.tmhashSum = q.getID k.tmhashSum := by
      rw [TokenPair.getID, TokenPair.idText, ← haddress, ← hdenom]
      rfl
    have hfound := (getTokenPair_eq_some_iff.mp hres.stored).1
    rw [hid'] at hfound
    obtain rfl := Option.some.inj (KVStore.lookup_set_self.symm.trans hfound)
    exact hres
  · intro hwell
    refine ⟨handler_ne_panic (fun _ => by simp), fun ev t h => ?_⟩
    obtain ⟨p', v, hok, hev⟩ := Exec.bind_ok_iff.mp h
    obtain ⟨rfl, rfl⟩ := Exec.pure_ok_iff.mp hev
    obtain ⟨id, q, hid, hq, rfl, rfl⟩ := toggleRelay_ok hok
    exact ⟨_, ⟨_, rfl⟩, (resolvable_setTokenPair _ q).mpr (hwell id q hid hq)⟩

/-- A pair of a consistent registry is led to by both its indexes. -/
theorem runsWell_iff_of_consistent (h : RegistryConsistent k s.registry) {c : Content} :
    RunsWell k s c ↔ ∀ p, c = .registerERC20 p →
      ¬ ∃ data v, Registrable k s (hexToAddress p.erc20Address) data v := by
  cases c with
  | registerERC20 p => simp [RunsWell]
  | toggleTokenRelay p =>
    refine iff_of_true (fun id q hid hq => ?_) (fun _ h => by cases h)
    obtain ⟨⟨key, hstored⟩, -, -⟩ := h.stored_of_found hid hq
    exact ⟨h.denom_of_stored hstored, h.erc20_of_stored hstored,
      ne_zeroPair_of_isHexAddress (p := { q with enabled := !q.enabled })
        (h.stored_hex hstored :)⟩
  | _ => exact iff_of_true trivial fun _ h => by cases h

/-- **Which proposals execute well**: all but the registrations of contracts that go through, in a
registry whose indexes lead to the pairs it stores. -/
theorem executesWell_iff (k : Keeper W) (s : State W) (c : Content) :
    (ExecutesWell k s c ↔ RunsWell k s c) ∧
    (RegistryConsistent k s.registry → (RunsWell k s c ↔ ∀ p, c = .registerERC20 p →
      ¬ ∃ data v, Registrable k s (hexToAddress p.erc20Address) data v)) := by
  refine ⟨?_, fun h => runsWell_iff_of_consistent h⟩
  cases c with
  | registerCoin p =>
    -- this handler never panics, and a pair that was registered is found under its identifier
    refine iff_of_true ⟨handler_ne_panic fun _ => by simp, fun ev t h => ?_⟩ trivial
    obtain ⟨q, v, hok, hev⟩ := Exec.bind_ok_iff.mp h
    obtain ⟨rfl, rfl⟩ := Exec.pure_ok_iff.mp hev
    obtain ⟨-, -, ⟨nonce, -, rfl⟩, hr, -⟩ := registerCoin_ok hok
    refine ⟨_, ⟨_, rfl⟩, ?_⟩
    rw [hr]
    exact resolvable_registerPair ..
  | registerERC20 p => exact executesWell_registerERC20_iff p
  | toggleTokenRelay p => exact executesWell_toggleRelay_iff p
  | updateTokenPairERC20 p =>
    refine iff_of_true ⟨handler_ne_panic fun _ => by simp, fun ev t h => ?_⟩ trivial
    obtain ⟨q', v, hok, hev⟩ := Exec.bind_ok_iff.mp h
    obtain ⟨rfl, rfl⟩ := Exec.pure_ok_iff.mp hev
    obtain ⟨id, q, -, -, -, -, -, rfl, hr, -⟩ := updateTokenPairERC20_ok hok
    refine ⟨_, ⟨_, rfl⟩, ?_⟩
    rw [hr]
    exact resolvable_movePair ..
  | other route type =>
    exact iff_of_true ⟨handler_ne_panic fun _ => by simp, fun ev t h => by cases h⟩ trivial

/-- A proposal to register a token, in a deployment where it is not registered yet. -/
def tokenProposal : RegisterERC20Proposal :=
  ⟨"Register", "a token", "0x1111111111111111111111111111111111111111"⟩

/-- **A registration halts the chain.** The proposal is valid, and its execution panics. -/
theorem not_executesWell_tokenProposal : tokenProposal.validateBasic = .ok () ∧
    ¬ ExecutesWell plainKeeper afterGenesis (.registerERC20 tokenProposal) := by
  refine ⟨by decide, fun h => ?_⟩
  have hreg : (registerERC20 plainKeeper tokenA).succeeds afterGenesis = true := by
    decide +kernel
  obtain ⟨t, hok⟩ := Exec.exists_ok hreg
  exact h.1 nilDereference t (Exec.bind_of_ok hok)

end Reports

end GenesisEthermint.Governance
