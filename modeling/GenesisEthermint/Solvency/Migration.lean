import GenesisEthermint.Registry.Bijection
import GenesisEthermint.Solvency.External

/-!
# Migration to a New Contract

`UpdateTokenPairERC20` sends all outstanding claims of a pair to another contract. It compares
names, symbols and decimals, and never asks what the module holds there. So the coins are backed
after an update exactly when the module holds enough tokens of the new contract already, and
runs of conversions and updates keep an external pair backed as long as every update of it does.
-/

namespace GenesisEthermint.Solvency

open GenesisEthermint.Foundation GenesisEthermint.Types GenesisEthermint.Chain
open GenesisEthermint.Intrarelayer GenesisEthermint.Registry GenesisEthermint.Tokens

variable {W : Type} {k : Keeper W} {s t v : State W} {u : Unit} {p q : TokenPair}
  {old new c : Address} {book : W → Ledger Address} {Sound : W → Prop} {d : String}

/-- The coins of the denomination do not outgrow the module's tokens of the contract. -/
def CoinsBacked (k : Keeper W) (book : W → Ledger Address) (d : String) (s : State W) (w : W) :
    Prop :=
  (s.bank.ledger d).supply ≤ (book w).bal k.moduleAddress

instance {d : String} {s : State W} {w : W} : Decidable (CoinsBacked k book d s w) :=
  inferInstanceAs (Decidable (_ ≤ _))

/-- The contract's views read: they leave its balances as they are. -/
def ViewsRead (k : Keeper W) (c : Address) (book : W → Ledger Address) (Sound : W → Prop) :
    Prop :=
  ∀ {w accounts sender nonce m res}, Sound w → m ∈ [Method.name, .symbol, .decimals] →
    k.evm.applyMessage w accounts ⟨sender, some c, nonce, .call m []⟩ = .ok res →
    Sound res.world ∧ book res.world = book w

/-- The world in which an update leaves the contracts: the three queries of the new one are
committed calls. -/
def afterViews (k : Keeper W) (c : Address) (s : State W) : W :=
  match queryERC20 k c s with
  | .ok _ v | .error _ v => v.evm

/-! ## One update -/

/-- The queries of a contract whose views only read. -/
private theorem book_of_queryERC20 {data : ERC20Data} (hv : ViewsRead k c book Sound)
    (hs : Sound s.evm) (h : queryERC20 k c s = .ok data t) :
    Sound t.evm ∧ book t.evm = book s.evm := by
  have hcall : ∀ {s t : State W} {m : Method} {res : EvmResult W}, Sound s.evm →
      m ∈ [Method.name, .symbol, .decimals] →
      Committed k s k.moduleAddress (some c) (.call m []) res t →
      Sound t.evm ∧ book t.evm = book s.evm := by
    rintro s t m res hs hm ⟨_, -, happ, rfl⟩
    exact hv hs hm happ
  obtain ⟨_, v₁, _, v₂, _, h₁, h₂, h₃⟩ := queryERC20_ok h
  obtain ⟨hs₁, hb₁⟩ := hcall hs (by decide) h₁
  obtain ⟨hs₂, hb₂⟩ := hcall hs₁ (by decide) h₂
  obtain ⟨hs₃, hb₃⟩ := hcall hs₂ (by decide) h₃
  exact ⟨hs₃, hb₃.trans (hb₂.trans hb₁)⟩

/-- The queries of another contract do not lower the module's balance. -/
private theorem bal_le_of_queryERC20 {data : ERC20Data} (htoken : Eip20 k c book Sound)
    (hne : new ≠ c) (hs : Sound s.evm) (h : queryERC20 k new s = .ok data t) :
    Sound t.evm ∧ (book s.evm).bal k.moduleAddress ≤ (book t.evm).bal k.moduleAddress := by
  have hcall : ∀ {s t : State W} {m : Method} {res : EvmResult W}, Sound s.evm →
      Committed k s k.moduleAddress (some new) (.call m []) res t →
      Sound t.evm ∧ (book s.evm).bal k.moduleAddress ≤ (book t.evm).bal k.moduleAddress := by
    rintro s t m res hs ⟨_, -, happ, rfl⟩
    exact htoken.bal_le hs happ fun hm => hne (Option.some.inj hm.2)
  obtain ⟨_, v₁, _, v₂, _, h₁, h₂, h₃⟩ := queryERC20_ok h
  obtain ⟨hs₁, hb₁⟩ := hcall hs h₁
  obtain ⟨hs₂, hb₂⟩ := hcall hs₁ h₂
  obtain ⟨hs₃, hb₃⟩ := hcall hs₂ h₃
  exact ⟨hs₃, hb₁.trans (hb₂.trans hb₃)⟩

private theorem evm_eq_afterViews (h : updateTokenPairERC20 k old new s = .ok q t) :
    t.evm = afterViews k new s := by
  obtain ⟨_, _, _, v, -, -, hquery, -, -, hevm, -⟩ := updateTokenPairERC20_ok h
  rw [afterViews, hquery, hevm]

/-- **An update keeps the coins backed exactly when the new contract backs them.** -/
theorem coinsBacked_update_iff (h : updateTokenPairERC20 k old new s = .ok q t) :
    CoinsBacked k book d t t.evm ↔ CoinsBacked k book d s (afterViews k new s) := by
  obtain ⟨_, _, _, _, -, -, -, -, -, -, hsame⟩ := updateTokenPairERC20_ok h
  rw [CoinsBacked, CoinsBacked, hsame.ledger, evm_eq_afterViews h]

/-- For a contract whose views only read, the balance before the update decides. -/
theorem coinsBacked_afterViews_iff (hv : ViewsRead k new book Sound)
    (hs : Sound s.evm) (h : updateTokenPairERC20 k old new s = .ok q t) :
    CoinsBacked k book d s (afterViews k new s) ↔ CoinsBacked k book d s s.evm := by
  obtain ⟨_, _, data, v, -, -, hquery, -⟩ := updateTokenPairERC20_ok h
  rw [CoinsBacked, CoinsBacked, afterViews, hquery, (book_of_queryERC20 hv hs hquery).2]

/-- What vesting locks is none of a proposal's business. -/
private theorem locked_of_update (h : updateTokenPairERC20 k old new s = .ok q t) :
    t.bank.locked = s.bank.locked :=
  (relates_updateTokenPairERC20 (R := Exec.SameOn fun s : State W => s.bank.locked)
    ⟨fun _ _ => rfl, fun _ _ => rfl⟩ ⟨fun h => congrArg BankState.locked h.bank_eq⟩
    old new).of_ok h

/-- An update moves no coins, so nobody gets hold of coins spelled as addresses. -/
private theorem NoHexCoins.step_update (h : NoHexCoins s) :
    NoHexCoins (step k s (.updateTokenPairERC20 old new)) := by
  rcases Exec.deliver_cases (Op.exec k (.updateTokenPairERC20 old new)) s with ⟨u, hok⟩ | hfail
  · obtain ⟨q, hok⟩ := Exec.discard_ok hok
    obtain ⟨_, _, _, _, -, -, -, -, -, -, hsame⟩ := updateTokenPairERC20_ok hok
    intro d hd a
    rw [step, hsame.ledger]
    exact h d hd a
  · rwa [step, hfail]

/-- And the pairs keep their denominations and owners. -/
private theorem NoHexMints.step_update (h : NoHexMints s.registry) :
    NoHexMints (step k s (.updateTokenPairERC20 old new)).registry := by
  rcases Exec.deliver_cases (Op.exec k (.updateTokenPairERC20 old new)) s with ⟨u, hok⟩ | hfail
  · obtain ⟨q, hok⟩ := Exec.discard_ok hok
    obtain ⟨id, moved, _, _, -, hmoved, -, -, hreg, -⟩ := updateTokenPairERC20_ok hok
    rintro p ⟨key, hp⟩ ho
    rw [step, hreg] at hp
    rcases lookup_movePair hp with rfl | ⟨-, hp⟩
    · exact h moved ⟨_, (Option.filter_eq_some_iff.mp hmoved).1⟩ ho
    · exact h p ⟨key, hp⟩ ho
  · rwa [step, hfail]

/-! ### What is stored after it -/

/-- The moved pair is stored. -/
private theorem stored_movePair (r : Registry) : Stored (movePair k p old new r)
    { p with erc20Address := new.hex k.keccak256 } := by
  refine ⟨(TokenPair.getID k.tmhashSum { p with erc20Address := new.hex k.keccak256 }).bytes, ?_⟩
  simp only [movePair, setERC20Map, deleteERC20Map, setDenomMap, setTokenPair,
    KVStore.lookup_set, if_true]

/-- The other pairs stay. -/
private theorem stored_movePair_of_ne {r : Registry} (h : RegistryConsistent k r)
    (h' : RegistryConsistent k (movePair k q old new r)) (hp : Stored r p)
    (hne : p.denom ≠ q.denom) : Stored (movePair k q old new r) p := by
  obtain ⟨key, hp⟩ := hp
  have hd : getDenomMap (movePair k q old new r) p.denom = some (p.getID k.tmhashSum) := by
    rw [← h.denom_of_stored hp]
    simp only [movePair, setERC20Map, deleteERC20Map, setDenomMap, setTokenPair,
      deleteTokenPair, getDenomMap]
    exact KVStore.lookup_set_of_ne hne
  obtain ⟨p', hp', hpd⟩ := h'.stored_of_denom hd
  -- the index of the denomination did not move, so the same pair is still behind it
  have hstored : Stored (movePair k q old new r) p' := ⟨_, hp'⟩
  rw [← h.stored_key hp] at hp'
  rcases lookup_movePair hp' with rfl | ⟨-, hp'⟩
  · exact absurd hpd (Ne.symm hne)
  · rw [hp] at hp'
    obtain rfl := Option.some.inj hp'
    exact hstored

/-! ## Runs of conversions and updates -/

section Runs

variable {books : Address → W → Ledger Address} {Sounds : Address → W → Prop}

/-- An update that the runs below may take: it moves a pair to a contract that is free, and if
the pair is the one with the denomination `d`, the module holds enough tokens there. -/
structure CoveredUpdate (k : Keeper W) (books : Address → W → Ledger Address)
    (Sounds : Address → W → Prop) (d : String) (s : State W) (old new : Address) : Prop where
  free : KeepsBijection k s (.updateTokenPairERC20 old new)
  hash : HashesApart k s (.updateTokenPairERC20 old new)
  covers : ∀ p, pairOfContract s.registry old = some p → p.denom = d →
    Sounds new s.evm ∧ CoinsBacked k (books new) d s s.evm

/-- A step of the runs below. -/
inductive MigrationStep (k : Keeper W) (books : Address → W → Ledger Address)
    (Sounds : Address → W → Prop) (d : String) (s : State W) : Op → Prop where
  | conversion {op : Op} (h : ConversionStep k s op) : MigrationStep k books Sounds d s op
  | update (old new : Address) (h : CoveredUpdate k books Sounds d s old new) :
    MigrationStep k books Sounds d s (.updateTokenPairERC20 old new)

/-- **The invariant of a migrating pair**: whatever its contract is by now, its coins are
backed there. -/
structure PairBacked (k : Keeper W) (books : Address → W → Ledger Address)
    (Sounds : Address → W → Prop) (d : String) (s : State W) : Prop where
  consistent : RegistryConsistent k s.registry
  unlocked : s.bank.locked k.moduleAddress.bytes d = 0
  backed : ∃ p, Stored s.registry p ∧ p.denom = d ∧ p.contractOwner = .OWNER_EXTERNAL ∧
    Backed k p (books p.getERC20Contract) (Sounds p.getERC20Contract) s

variable (htoken : ∀ c, Eip20 k c (books c) (Sounds c))
  (hviews : ∀ c, ViewsRead k c (books c) (Sounds c))
include htoken

private theorem pairBacked_conversion {op : Op} (hzero : k.moduleAddress ≠ zeroAddress)
    (h : PairBacked k books Sounds d s) (hop : ConversionStep k s op) :
    PairBacked k books Sounds d (step k s op) := by
  have hcfg := config_step_of_isUserOp k hop.user s
  have hreg : (step k s op).registry = s.registry := congrArg Config.registry hcfg
  have hlock : (step k s op).bank.locked = s.bank.locked := congrArg Config.locked hcfg
  obtain ⟨p, hp, hd, howner, hb⟩ := h.backed
  exact ⟨hreg ▸ h.consistent, hlock ▸ h.unlocked, p, hreg ▸ hp, hd, howner,
    hb.keeps (keepsBacking_step (htoken _) hzero h.consistent hp howner hb.sound hb.covered hop)⟩

include hviews

private theorem pairBacked_update (h : PairBacked k books Sounds d s)
    (hop : CoveredUpdate k books Sounds d s old new) :
    PairBacked k books Sounds d (step k s (.updateTokenPairERC20 old new)) := by
  have hcons := consistent_step h.consistent hop.free hop.hash
  rcases Exec.deliver_cases (Op.exec k (.updateTokenPairERC20 old new)) s with ⟨u, hok⟩ | hfail
  swap
  · rwa [step, hfail]
  obtain ⟨q, hok⟩ := Exec.discard_ok hok
  obtain ⟨id, moved, data, v, hid, hmoved, hquery, -, hreg, hevm, hsame⟩ :=
    updateTokenPairERC20_ok hok
  obtain ⟨p, hp, hd, howner, hb⟩ := h.backed
  have hlock : (step k s (.updateTokenPairERC20 old new)).bank.locked = s.bank.locked :=
    locked_of_update hok
  have hledger : (step k s (.updateTokenPairERC20 old new)).bank.ledger = s.bank.ledger :=
    hsame.ledger
  have hworld : (step k s (.updateTokenPairERC20 old new)).evm = v.evm := hevm
  have hat : pairOfContract s.registry old = some moved := by
    rw [pairOfContract, hid, Option.bind_some, hmoved]
  have hreg' : (step k s (.updateTokenPairERC20 old new)).registry =
      movePair k moved old new s.registry := hreg
  -- the hook's lookup of the old contract found the pair that moved
  obtain ⟨hstored, hcontract⟩ := h.consistent.pairOfContract_eq_some_iff.mp hat
  refine ⟨hcons, hlock ▸ h.unlocked, ?_⟩
  rw [hreg'] at hcons ⊢
  rcases h.consistent.apart hstored hp with rfl | ⟨hne, hnc⟩
  · -- our pair moved: the new contract covers it
    obtain ⟨hs, hcovers⟩ := hop.covers p hat hd
    obtain ⟨hs', hbook⟩ := book_of_queryERC20 (hviews new) hs hquery
    have hc : TokenPair.getERC20Contract { p with erc20Address := new.hex k.keccak256 } = new := by
      simp only [TokenPair.getERC20Contract, hexToAddress_hex]
    refine ⟨_, stored_movePair s.registry, hd, howner, ?_⟩
    rw [hc]
    refine ⟨hworld ▸ hs', ?_, ?_⟩
    · rw [hledger]
      exact hb.covered
    · rw [hledger, hworld, hbook]
      exact hd ▸ hcovers
  · -- another pair moved, and to a contract that is not ours
    have hpc : new ≠ p.getERC20Contract := by
      rintro rfl
      rcases hop.free with hsame | hfree
      · exact hnc (hsame.trans hcontract.symm)
      · obtain ⟨key, hkey⟩ := hp
        rw [h.consistent.erc20_of_stored hkey] at hfree
        cases hfree
    obtain ⟨hs', hle⟩ := bal_le_of_queryERC20 (htoken _) hpc hb.sound hquery
    refine ⟨p, stored_movePair_of_ne h.consistent hcons hp hne, hd, howner, hworld ▸ hs', ?_, ?_⟩
    · rw [hledger]
      exact hb.covered
    · have hback := hb.backed
      rw [hledger, hworld]
      omega

theorem pairBacked_step {op : Op} (hzero : k.moduleAddress ≠ zeroAddress)
    (h : PairBacked k books Sounds d s) (hop : MigrationStep k books Sounds d s op) :
    PairBacked k books Sounds d (step k s op) := by
  cases hop with
  | conversion hop => exact pairBacked_conversion htoken hzero h hop
  | update old new hop => exact pairBacked_update htoken hviews h hop

omit htoken hviews in
/-- **Migrations keep a pair backed as long as the new contract covers each of them.** Over any
run of conversions and covered updates, the coins of the pair are backed on whatever contract
the pair has, and every holder can take them back there. A single update, from any state and to
any contract, keeps the coins backed exactly when the new contract backs them already. -/
theorem migration_backed_of_run :
    (∀ (s₀ : State W) ops, (∀ c, Eip20 k c (books c) (Sounds c)) →
      (∀ c, ViewsRead k c (books c) (Sounds c)) → k.moduleAddress ≠ zeroAddress →
      PairBacked k books Sounds d s₀ → Along (step k) (MigrationStep k books Sounds d) s₀ ops →
      ∃ p, Stored (run (step k) s₀ ops).registry p ∧ p.denom = d ∧
        CoinsBacked k (books p.getERC20Contract) d (run (step k) s₀ ops)
          (run (step k) s₀ ops).evm ∧
        ∀ a msg, OwnConversion k p (run (step k) s₀ ops) a msg →
          Redeems k p (books p.getERC20Contract) (Sounds p.getERC20Contract)
            (run (step k) s₀ ops) a msg) ∧
    ∀ (s t : State W) old new q d', updateTokenPairERC20 k old new s = .ok q t →
      (CoinsBacked k (books new) d' t t.evm ↔
        CoinsBacked k (books new) d' s (afterViews k new s)) ∧
      (ViewsRead k new (books new) (Sounds new) → Sounds new s.evm →
        (CoinsBacked k (books new) d' t t.evm ↔ CoinsBacked k (books new) d' s s.evm)) := by
  constructor
  -- on the run; an update moves the pair to a contract whose tokens cover the coins
  · intro s₀ ops htoken hviews hzero hb hops
    have hinv : PairBacked k books Sounds d (run (step k) s₀ ops) :=
      run_preserves (fun s op hs hop => pairBacked_step htoken hviews hzero hs hop) hb hops
    obtain ⟨p, hp, hd, howner, hback⟩ := hinv.backed
    subst hd
    exact ⟨p, hp, rfl, hback.backed, fun a msg hown => redeems_of_backed (htoken _) hinv.consistent
      hp howner hback hinv.unlocked hown⟩
  · intro s t old new q d' h
    have hiff : CoinsBacked k (books new) d' t t.evm ↔ _ := coinsBacked_update_iff h
    exact ⟨hiff, fun hv hs => hiff.trans (coinsBacked_afterViews_iff hv hs h)⟩

end Runs

/-! ## A covered migration -/

/-- The views of the OpenZeppelin token only read. -/
private theorem viewsRead_ozContract {token : W → OzToken} (h : OzContract k c token Sound) :
    ViewsRead k c (fun w => (token w).ledger)
      (fun w => Sound w ∧ (token w).Guarded k.moduleAddress) := by
  intro w accounts sender nonce m res hs hm happ
  -- the three views return the token as it was
  have hview : m ≠ .approve ∧ ∃ ret, (token w).exec c sender m [] = some ⟨token w, ret, []⟩ := by
    simp only [List.mem_cons, List.not_mem_nil, or_false] at hm
    rcases hm with rfl | rfl | rfl
    · exact ⟨by decide, _, rfl⟩
    · exact ⟨by decide, _, rfl⟩
    · exact ⟨by decide, _, rfl⟩
  obtain ⟨hne, ret, hret⟩ := hview
  obtain ⟨hs', ⟨-, hnone⟩ | ⟨r, hr, -, htok, -⟩⟩ := h.called hs.1 (fun _ => hne) happ
  · rw [hret] at hnone
    cases hnone
  · rw [hret] at hr
    obtain rfl := Option.some.inj hr
    exact ⟨⟨hs', htok ▸ hs.2⟩, congrArg OzToken.ledger htok⟩

/-- Two contracts of a third party, with tokens of the module in both. -/
def migrationWorld : TokenWorld := fun a =>
  if a = tokenA then some (thirdPartyToken [(alice, 70), (moduleAccount, 30)] (by decide))
  else if a = tokenB then some (thirdPartyToken [(alice, 60), (moduleAccount, 40)] (by decide))
  else none

/-- The deployment on that world. Alice holds 30 coins of the pair. -/
def beforeMigration : State TokenWorld :=
  ((deployed plainEvm migrationWorld).setLedger pairA.denom
    (ledgerOf [(alice.bytes, 30)])).setMetadata
      (erc20Metadata pairA.erc20Address ⟨"coin", "symbol", 18⟩)

/-- The pair moves to the other contract, and alice takes 12 coins to tokens there. -/
def migrateAndRedeem : List Op := [
  .updateTokenPairERC20 tokenA tokenB,
  .convertCoin ⟨⟨pairA.denom, newIntFromUint64 12⟩, "0x3333333333333333333333333333333333333333",
    aliceBech32⟩]

/-- The books of the reference machine. -/
def tokenBook (c : Address) (w : TokenWorld) : Ledger Address := (tokenAt c w).ledger

/-- The contracts that nobody but the module can take the module's tokens from. -/
def GuardedToken (c : Address) (w : TokenWorld) : Prop :=
  (w c).isSome = true ∧ (tokenAt c w).Guarded plainKeeper.moduleAddress

private theorem noHexCoins_beforeMigration : NoHexCoins beforeMigration := by
  intro d hd a
  have hne : d ≠ pairA.denom := by
    rintro rfl
    exact absurd hd (by decide)
  have h := noHexCoins_deployed plainEvm migrationWorld d hd a
  rwa [beforeMigration, State.setMetadata, State.setLedger_of_ne _ _ _ hne]

private theorem pairBacked_beforeMigration :
    PairBacked plainKeeper tokenBook GuardedToken pairA.denom beforeMigration := by
  have hcontract : pairA.getERC20Contract = tokenA := by decide
  have hguarded : (tokenAt tokenA migrationWorld).Guarded plainKeeper.moduleAddress :=
    ⟨fun _ h => absurd h Bool.false_ne_true, fun _ => rfl⟩
  refine ⟨consistent_deployed plainEvm migrationWorld, rfl, pairA,
    (stored_deployed plainEvm migrationWorld).mpr (.inl rfl), rfl, rfl, ?_⟩
  rw [hcontract]
  refine ⟨⟨by decide, hguarded⟩, ?_, by decide +kernel⟩
  rw [beforeMigration, State.setMetadata, State.setLedger_self]
  exact covered_ledgerOf _

private theorem coveredUpdate_beforeMigration :
    CoveredUpdate plainKeeper tokenBook GuardedToken pairA.denom beforeMigration tokenA tokenB where
  free := .inr (by decide +kernel)
  hash := hashesApart_of_entries _ (by decide +kernel)
  covers := by
    have hguarded : (tokenAt tokenB migrationWorld).Guarded plainKeeper.moduleAddress :=
      ⟨fun _ h => absurd h Bool.false_ne_true, fun _ => rfl⟩
    intro p _ _
    exact ⟨⟨by decide, hguarded⟩, by decide +kernel⟩

/-- Alice takes the coins she has left to tokens of the new contract. -/
def aliceTakesRest : MsgConvertCoin :=
  ⟨⟨pairA.denom, newIntFromUint64 18⟩, "0x3333333333333333333333333333333333333333", aliceBech32⟩

theorem migration_backed_of_run_migrateAndRedeem :
    ∃ p t, Stored (run (step plainKeeper) beforeMigration migrateAndRedeem).registry p ∧
      p.denom = pairA.denom ∧ p.getERC20Contract = tokenB ∧
      CoinsBacked plainKeeper (tokenBook tokenB) pairA.denom
        (run (step plainKeeper) beforeMigration migrateAndRedeem)
        (run (step plainKeeper) beforeMigration migrateAndRedeem).evm ∧
      convertCoin plainKeeper aliceTakesRest
        (run (step plainKeeper) beforeMigration migrateAndRedeem) = .ok () t ∧
      TakenBack plainKeeper p (tokenBook tokenB) alice 18
        (run (step plainKeeper) beforeMigration migrateAndRedeem) t := by
  have hzero : plainKeeper.moduleAddress ≠ zeroAddress := by
    rw [plainKeeper, moduleAddress_keeperOver]
    decide
  have htoken : ∀ c, Eip20 plainKeeper c (tokenBook c) (GuardedToken c) :=
    fun c => (ozContract_plainKeeper c).eip20
  have hviews : ∀ c, ViewsRead plainKeeper c (tokenBook c) (GuardedToken c) :=
    fun c => viewsRead_ozContract (ozContract_plainKeeper c)
  have hcov := coveredUpdate_beforeMigration
  -- the update moves no coins, and alice's message comes after it
  have hcons : RegistryConsistent plainKeeper beforeMigration.registry :=
    consistent_deployed plainEvm migrationWorld
  have hmints : NoHexMints beforeMigration.registry := noHexMints_deployed plainEvm migrationWorld
  have husers : ∀ op ∈ migrateAndRedeem.tail, op.IsUserOp ∧
      op.signer plainKeeper ≠ some plainKeeper.moduleAddress.bytes := by
    simp only [migrateAndRedeem, List.tail_cons, List.forall_mem_cons]
    exact ⟨⟨trivial, by decide⟩, by simp⟩
  obtain ⟨⟨hsecond, -⟩, hhex⟩ := along_userStep (consistent_step hcons hcov.free hcov.hash)
    hmints.step_update noHexCoins_beforeMigration.step_update husers
  have hops : Along (step plainKeeper)
      (MigrationStep plainKeeper tokenBook GuardedToken pairA.denom) beforeMigration
      migrateAndRedeem :=
    ⟨.update tokenA tokenB hcov, .conversion ⟨hsecond, trivial⟩, trivial⟩
  have hend : NoHexCoins (run (step plainKeeper) beforeMigration migrateAndRedeem) := by
    rw [migrateAndRedeem, run_cons]
    exact hhex
  obtain ⟨p, hp, hd, hback, hredeem⟩ := migration_backed_of_run.1 beforeMigration migrateAndRedeem
    htoken hviews hzero pairBacked_beforeMigration hops
  have hinv : PairBacked plainKeeper tokenBook GuardedToken pairA.denom
      (run (step plainKeeper) beforeMigration migrateAndRedeem) :=
    run_preserves (fun _ _ hs hop => pairBacked_step htoken hviews hzero hs hop)
      pairBacked_beforeMigration hops
  -- the pair that is stored by now has the new contract
  have hmoved : Stored (run (step plainKeeper) beforeMigration migrateAndRedeem).registry
      { pairA with erc20Address := tokenB.hex plainKeeper.keccak256 } :=
    ⟨(TokenPair.getID plainKeeper.tmhashSum
      { pairA with erc20Address := tokenB.hex plainKeeper.keccak256 }).bytes, by decide +kernel⟩
  rcases hinv.consistent.apart hmoved hp with rfl | ⟨hne, -⟩
  swap
  · exact absurd hd hne
  have hc : TokenPair.getERC20Contract
      { pairA with erc20Address := tokenB.hex plainKeeper.keccak256 } = tokenB := by
    simp only [TokenPair.getERC20Contract, hexToAddress_hex]
  rw [hc] at hback hredeem
  obtain ⟨hlock, hspend, hon⟩ :
      let s := run (step plainKeeper) beforeMigration migrateAndRedeem
      s.bank.locked alice.bytes aliceTakesRest.coin.denom ≤
          (s.bank.ledger aliceTakesRest.coin.denom).bal alice.bytes ∧
        aliceTakesRest.coin.nat ≤ spendable s alice.bytes aliceTakesRest.coin.denom ∧
        s.params.enableIntrarelayer = true := by
    decide +kernel
  obtain ⟨t, ht, htaken⟩ := (hredeem alice aliceTakesRest
    ⟨rfl, by decide, by decide, by decide, by decide, hlock, hspend⟩).succeeds
    (hc ▸ (ozContract_plainKeeper _).honours (answers_plainKeeper _) hzero) hend hon rfl
    (by decide)
  exact ⟨_, t, hp, rfl, hc, hback, ht, htaken⟩

/-! ## A migration to an empty contract -/

/-- A registration, and alice's conversion of 30 tokens. -/
def registerAndConvert : List Op := [
  .registerERC20 tokenA,
  .convertERC20 ⟨"0x1111111111111111111111111111111111111111", newIntFromUint64 30, aliceBech32,
    "0x3333333333333333333333333333333333333333"⟩]

/-- The state in which the update is proposed. -/
def withOutstandingCoins : State TokenWorld :=
  run (step plainKeeper) afterGenesis registerAndConvert

/-- Alice takes her coins back to tokens. -/
def aliceTakesBack : MsgConvertCoin :=
  ⟨⟨"intrarelayer/0x1111111111111111111111111111111111111111", newIntFromUint64 30⟩,
    "0x3333333333333333333333333333333333333333", aliceBech32⟩

/-- **An update strands the outstanding coins.** They are backed, and alice can take hers back,
until a valid proposal moves the pair to a contract on which the module holds nothing. -/
theorem not_backed_withOutstandingCoins :
    (UpdateTokenPairERC20Proposal.mk "Update" "a contract"
      "0x1111111111111111111111111111111111111111"
      "0x2222222222222222222222222222222222222222").validateBasic = .ok () ∧
    CoinsBacked plainKeeper (tokenBook tokenA) aliceTakesBack.coin.denom withOutstandingCoins
      withOutstandingCoins.evm ∧
    (∃ t, convertCoin plainKeeper aliceTakesBack withOutstandingCoins = .ok () t) ∧
    ∃ q t, updateTokenPairERC20 plainKeeper tokenA tokenB withOutstandingCoins = .ok q t ∧
      ¬ CoinsBacked plainKeeper (tokenBook tokenB) aliceTakesBack.coin.denom t t.evm ∧
      ∀ u v, convertCoin plainKeeper aliceTakesBack t ≠ .ok u v := by
  obtain ⟨hbacked, hredeems, hupdates, hunbacked, hfails⟩ :
      CoinsBacked plainKeeper (tokenBook tokenA) aliceTakesBack.coin.denom withOutstandingCoins
          withOutstandingCoins.evm ∧
        (convertCoin plainKeeper aliceTakesBack).succeeds withOutstandingCoins = true ∧
        (Op.exec plainKeeper (.updateTokenPairERC20 tokenA tokenB)).succeeds
          withOutstandingCoins = true ∧
        ¬ CoinsBacked plainKeeper (tokenBook tokenB) aliceTakesBack.coin.denom
          (step plainKeeper withOutstandingCoins (.updateTokenPairERC20 tokenA tokenB))
          (step plainKeeper withOutstandingCoins (.updateTokenPairERC20 tokenA tokenB)).evm ∧
        (convertCoin plainKeeper aliceTakesBack).succeeds (step plainKeeper
          withOutstandingCoins (.updateTokenPairERC20 tokenA tokenB)) = false := by
    decide +kernel
  obtain ⟨t, ht⟩ := Exec.exists_ok hupdates
  obtain ⟨q, hq⟩ := Exec.discard_ok ht
  have hstep : step plainKeeper withOutstandingCoins (.updateTokenPairERC20 tokenA tokenB) = t :=
    Exec.deliver_of_ok ht
  rw [hstep] at hunbacked hfails
  exact ⟨by decide, hbacked, Exec.exists_ok hredeems, q, t, hq, hunbacked,
    Exec.ne_ok_of_succeeds hfails⟩

end GenesisEthermint.Solvency
