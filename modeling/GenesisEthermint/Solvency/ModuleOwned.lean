import GenesisEthermint.Foundation.Reserve
import GenesisEthermint.Solvency.HexCoins

/-!
# Solvency of Module-owned Pairs

The tokens of a module-owned pair are claims on the coins in escrow. Every step of a run, by
whoever and on whatever path, lets the claims grow by no more than the escrow, so what is
solvent stays solvent and a holder's tokens can always be turned back into coins.
-/

namespace GenesisEthermint.Solvency

open GenesisEthermint.Foundation GenesisEthermint.Types GenesisEthermint.Chain
open GenesisEthermint.Intrarelayer GenesisEthermint.Registry GenesisEthermint.Tokens
open GenesisEthermint.Tokens.OzContract (Held)

variable {W : Type}

/-- The reserve of a module-owned pair: coins in escrow against tokens in existence. -/
def escrowReserve (k : Keeper W) (p : TokenPair) (token : W → OzToken) (s : State W) : Reserve where
  backing := (s.bank.ledger p.denom).bal k.moduleAddress.bytes
  outstanding := (token s.evm).ledger.supply

/-- What a step does to a module-owned pair. -/
structure KeepsReserve (k : Keeper W) (p : TokenPair) (token : W → OzToken) (Sound : W → Prop)
    (s t : State W) : Prop where
  held : Held k token Sound t.evm
  covers : (escrowReserve k p token s).Covers (escrowReserve k p token t)
  supply : (t.bank.ledger p.denom).supply = (s.bank.ledger p.denom).supply

variable {k : Keeper W} {p : TokenPair} {token : W → OzToken} {Sound : W → Prop}
  {s t v : State W} {u : Unit}

theorem KeepsReserve.trans (h : KeepsReserve k p token Sound s v)
    (h' : KeepsReserve k p token Sound v t) : KeepsReserve k p token Sound s t :=
  ⟨h'.held, Trans.trans h.covers h'.covers, h'.supply.trans h.supply⟩

/-- With the escrow as it was, it is enough that no tokens were created. -/
private theorem covers_of_supply_le (hbank : t.bank.ledger p.denom = s.bank.ledger p.denom)
    (hle : (token t.evm).ledger.supply ≤ (token s.evm).ledger.supply) :
    (escrowReserve k p token s).Covers (escrowReserve k p token t) := by
  have hbacking : (escrowReserve k p token s).backing = (escrowReserve k p token t).backing :=
    congrArg (fun L : Ledger AccAddress => L.bal k.moduleAddress.bytes) hbank.symm
  exact Reserve.covers_of_le (le_of_eq hbacking) hle

/-- The tokens are gone and the coin went out, or stayed. -/
private theorem keepsReserve_of_burned {n : ℕ} {c : Coin} {b : AccAddress}
    (hd : c.denom = p.denom) (hn : c.nat = n) (hbank : v.bank = s.bank)
    (hheld : Held k token Sound v.evm)
    (hsupply : (token v.evm).ledger.supply + n = (token s.evm).ledger.supply)
    (hend : (CanRelease k v b c ∧ t = moved v k.moduleAddress.bytes b c) ∨ t = v) :
    KeepsReserve k p token Sound s t := by
  rcases hend with ⟨hrel, rfl⟩ | rfl
  · have hbal := hrel.bal_moved
    rw [hd, hbank] at hbal
    refine ⟨by rwa [moved_evm], ?_, by rw [supply_moved, hbank]⟩
    simp only [escrowReserve, moved_evm, ← hbal, ← hsupply, hn]
    exact Reserve.covers_redeem
  · have hledger : t.bank.ledger p.denom = s.bank.ledger p.denom := by rw [hbank]
    exact ⟨hheld, covers_of_supply_le hledger (Nat.le.intro hsupply), by rw [hledger]⟩

section Steps

variable (htoken : OzContract k p.getERC20Contract token Sound)
include htoken

/-! ## Single steps -/

/-- A step about another pair. -/
theorem LeftAlone.keepsReserve (hheld : Held k token Sound s.evm) (h : LeftAlone k p s t) :
    KeepsReserve k p token Sound s t := by
  have hbank := h.ledger
  rcases h.world with hevm | ⟨accounts, msg, res, happ, hm, hevm⟩
  · have hsupply : (token t.evm).ledger.supply ≤ (token s.evm).ledger.supply := by rw [hevm]
    exact ⟨hevm ▸ hheld, covers_of_supply_le hbank hsupply, by rw [hbank]⟩
  · obtain ⟨hheld', hle⟩ := htoken.others_supply_le hheld happ hm
    rw [← hevm] at hheld' hle
    exact ⟨hheld', covers_of_supply_le hbank hle, by rw [hbank]⟩

/-- Coins to tokens: the escrow and the supply grow by the same amount. -/
theorem keepsReserve_convertCoinNativeCoin {msg : MsgConvertCoin} {receiver : Address}
    {sender : AccAddress} (hheld : Held k token Sound s.evm) (hd : msg.coin.denom = p.denom)
    (hs : sender ≠ k.moduleAddress.bytes)
    (h : convertCoinNativeCoin k p msg receiver sender s = .ok u t) :
    KeepsReserve k p token Sound s t := by
  obtain ⟨-, -, res, hcom, hf⟩ := convertCoinNativeCoin_ok_iff.mp h
  have hbank := hcom.bank_eq
  have hevm := hcom.evm_eq
  obtain ⟨nonce, -, happ, -⟩ := hcom
  rw [escrowed_evm] at happ
  obtain ⟨hheld', hsupply⟩ := htoken.mint_supply hheld happ hf
  have hbal := bal_escrowed (k := k) (s := s) (c := msg.coin) hs
  rw [hd] at hbal
  refine ⟨hevm ▸ hheld', ?_, by rw [hbank, supply_escrowed]⟩
  simp only [escrowReserve, hbank, hbal, hevm, hsupply]
  exact Reserve.covers_issue

/-- Tokens to coins: the supply and the escrow shrink by the same amount. -/
theorem keepsReserve_convertERC20NativeCoin {msg : MsgConvertERC20} {receiver : AccAddress}
    {sender : Address} (hheld : Held k token Sound s.evm)
    (h : convertERC20NativeCoin k p msg receiver sender s = .ok u t) :
    KeepsReserve k p token Sound s t := by
  obtain ⟨res, v, hcom, hf, hrel, rfl⟩ := convertERC20NativeCoin_ok_iff.mp h
  have hbank := hcom.bank_eq
  have hevm := hcom.evm_eq
  obtain ⟨nonce, -, happ, -⟩ := hcom
  obtain ⟨hheld', hsupply⟩ := htoken.burnCoins_supply hheld happ hf
  rw [← hevm] at hheld' hsupply
  exact keepsReserve_of_burned rfl rfl hbank hheld' hsupply (.inl ⟨hrel, rfl⟩)

/-- The hook burns the tokens a user sent to the module, and then releases as many coins, or
keeps them when the sender cannot receive them. -/
theorem keepsReserve_convertLog {ev : TransferEvent} (howner : p.contractOwner = .OWNER_MODULE)
    (hheld : Held k token Sound s.evm)
    (h : convertLog k p p.getERC20Contract ev s = .ok u t) :
    KeepsReserve k p token Sound s t := by
  -- seven outcomes of one log; a pair that the module owns has no minting and no refusal of a mint
  rcases convertLog_ok h with hkept | ⟨v, htaken, hend⟩
  · cases hkept with
    | nothing _ left =>
      subst left
      exact (LeftAlone.refl k p t).keepsReserve htoken hheld
    | reverted res _ hcom hf =>
      -- the burn was tried and reverted: the world is as it was, and the bank too
      have hbank := hcom.bank_eq
      have hevm := hcom.evm_eq
      obtain ⟨nonce, -, happ, -⟩ := hcom
      obtain ⟨hs, htok⟩ := htoken.reverted hheld.sound happ hf
      have hsupply : (token t.evm).ledger.supply ≤ (token s.evm).ledger.supply := by
        rw [hevm, htok]
      exact ⟨hevm ▸ ⟨hs, htok ▸ hheld.minter⟩, covers_of_supply_le (by rw [hbank]) hsupply,
        by rw [hbank]⟩
    | invalid howner' =>
      rw [howner] at howner'
      cases howner'
  · cases htaken with
    | minted howner' =>
      rw [howner] at howner'
      cases howner'
    | burned res _ hcom hf =>
      -- the burn went through: the supply fell by what the payout takes from the escrow
      have hbank := hcom.bank_eq
      have hevm := hcom.evm_eq
      obtain ⟨nonce, -, happ, -⟩ := hcom
      obtain ⟨hheld', hsupply⟩ := htoken.burn_supply hheld happ hf
      rw [← hevm] at hheld' hsupply
      exact keepsReserve_of_burned rfl nat_logPayout hbank hheld' hsupply
        (hend.imp_right And.right)

/-- The log loop of the hook, by induction on the logs. -/
theorem keepsReserve_postTxProcessing {logs : List Log}
    (hcons : RegistryConsistent k s.registry) (hp : Stored s.registry p)
    (howner : p.contractOwner = .OWNER_MODULE) (hheld : Held k token Sound s.evm)
    (h : postTxProcessing k logs s = .ok u t) : KeepsReserve k p token Sound s t := by
  rw [postTxProcessing_ok_iff] at h
  replace h := h.2
  induction logs generalizing s with
  | nil =>
    obtain rfl := Exec.forM_nil_ok_iff.mp h
    exact (LeftAlone.refl k p t).keepsReserve htoken hheld
  | cons log rest ih =>
    obtain ⟨v, hlog, hrest⟩ := Exec.forM_cons_ok_iff.mp h
    have hreg := registry_processLog hlog
    have hkeeps : KeepsReserve k p token Sound s v := by
      rcases processLog_cases hcons hp hlog with hleft | ⟨ev, -, -, haddr, hconv⟩
      · exact hleft.keepsReserve htoken hheld
      · exact keepsReserve_convertLog htoken howner hheld (haddr ▸ hconv)
    exact hkeeps.trans (ih (hreg ▸ hcons) (hreg ▸ hp) hkeeps.held hrest)

/-- **No step of a user weakens the reserve.** -/
theorem keepsReserve_step {op : Op} (hcons : RegistryConsistent k s.registry)
    (hp : Stored s.registry p) (howner : p.contractOwner = .OWNER_MODULE)
    (hheld : Held k token Sound s.evm) (huser : op.IsUserOp)
    (hsigner : op.signer k ≠ some k.moduleAddress.bytes) (hhex : NoHexCoins s) :
    KeepsReserve k p token Sound s (step k s op) := by
  rcases Exec.deliver_cases (op.exec k) s with ⟨u, hok⟩ | hfail
  swap
  · rw [step, hfail]
    exact (LeftAlone.refl k p s).keepsReserve htoken hheld
  -- the flows of a pair with another owner are ruled out below
  have hother : p.contractOwner ≠ .OWNER_EXTERNAL := by simp [howner]
  cases op with
  | convertCoin msg =>
    have hdenom := hhex.of_canSpend (canSpend_of_convertCoin hok)
    rcases convertCoin_cases hcons hp hdenom hok with hleft | ⟨hd, ⟨-, hflow⟩ | ⟨ho, -⟩⟩
    · exact hleft.keepsReserve htoken hheld
    · exact keepsReserve_convertCoinNativeCoin htoken hheld hd
        (fun hs => hsigner (congrArg some hs)) hflow
    · exact absurd ho hother
  | convertERC20 msg =>
    rcases convertERC20_cases hcons hp hok with hleft | ⟨-, hflow⟩ | ⟨ho, -⟩
    · exact hleft.keepsReserve htoken hheld
    · exact keepsReserve_convertERC20NativeCoin htoken hheld hflow
    · exact absurd ho hother
  | ethereumTx msg =>
    obtain ⟨res, happ, -, hhook⟩ := applyTransaction_ok_iff.mp hok
    -- a transaction of a user is no message of the module, so the contract keeps its minter
    have hm : ¬ FromModuleTo k p.getERC20Contract msg :=
      fun hm => hsigner (congrArg (fun a : Address => some a.bytes) hm.1)
    have hleft : LeftAlone k p s (afterTx s res) :=
      ⟨rfl, rfl, .inr ⟨_, _, res, happ, hm, rfl⟩⟩
    have hkeeps := hleft.keepsReserve htoken hheld
    exact hkeeps.trans (keepsReserve_postTxProcessing htoken hcons hp howner hkeeps.held hhook)
  | bankSend msg =>
    obtain ⟨a, b, ha, hsend⟩ := send_ok hok
    have hpaid := (onlyPaidBy_sendCoins a b msg.amount).of_ok hsend
    have hevm := (relates_sendCoins bankBlind_evm a b msg.amount).of_ok hsend
    -- the module sends no coins of its own, and whoever receives has at least as much as before
    have hne : k.moduleAddress.bytes ≠ a := by
      rintro rfl
      exact hsigner (by simp [Op.signer, decodeOrEmpty, ha])
    refine ⟨by rwa [step, hevm], ?_, hpaid.supply _⟩
    have hbal := hpaid.bal p.denom _ hne
    apply Reserve.covers_of_le
    · exact hbal
    · simp only [step, escrowReserve, hevm]
      exact le_rfl
  | _ => exact huser.elim

/-! ## Whole runs -/

/-- The failure of a conversion is that the module's account does not hold the coins. -/
def LacksEscrow (f : Failure GoError) : Prop :=
  (∃ e, f = .error e ∧ e.is ErrInsufficientFunds = true) ∨ f = .panic "negative coin amount"

omit htoken in
private theorem not_lacksEscrow_error {e : GoError} (h : e.is ErrInsufficientFunds = false) :
    ¬ LacksEscrow (.error e) := by
  rintro (⟨e', he, his⟩ | hpanic)
  · obtain rfl := Failure.error.inj he
    rw [h] at his
    cases his
  · cases hpanic

omit htoken in
/-- A release of coins that are there fails for other reasons. -/
private theorem not_lacksEscrow_of_release {b : AccAddress} {c : Coin} {f : Failure GoError}
    (hlocked : s.bank.locked k.moduleAddress.bytes c.denom = 0)
    (hthere : coinsIsValid [c] = true →
      c.nat ≤ (s.bank.ledger c.denom).bal k.moduleAddress.bytes)
    (h : sendCoinsFromModuleToAccount k ModuleName b [c] s = .error f t) : ¬ LacksEscrow f := by
  rw [sendCoinsFromModuleToAccount_run] at h
  split at h
  · -- the receiver is blocked
    obtain rfl := (EStateM.Result.error.inj h).1
    exact not_lacksEscrow_error rfl
  by_cases hspend : CanSpend s k.moduleAddress.bytes c
  · -- the coins can be spent, so it is the receiver's balance that overflows
    rw [sendCoins_of_canSpend hspend] at h
    split at h
    · obtain rfl := (EStateM.Result.error.inj h).1
      rintro (⟨e, he, -⟩ | hpanic)
      · cases he
      · simp at hpanic
    · cases h
  -- not spendable: refused or panicking, either way with less than the coin at the module
  · obtain ⟨f', hf', hfunds, hpanic⟩ := sendCoins_of_not_canSpend (b := b) hspend
    rw [hf'] at h
    obtain rfl := (EStateM.Result.error.inj h).1
    rintro (⟨e, he, his⟩ | hpan)
    · obtain ⟨hv, hlt⟩ := hfunds e he his
      have hle := hthere hv
      rw [spendable, hlocked] at hlt
      omega
    · have hlt := (hpanic _ hpan).2
      omega

/-- In a solvent state the coins for a token conversion are there, whatever else may make it
fail. -/
theorem not_lacksEscrow_of_solvent {msg : MsgConvertERC20} {f : Failure GoError}
    (hcons : RegistryConsistent k s.registry) (hp : Stored s.registry p)
    (howner : p.contractOwner = .OWNER_MODULE) (hheld : Held k token Sound s.evm)
    (hlocked : s.bank.locked k.moduleAddress.bytes p.denom = 0)
    (hsolvent : (escrowReserve k p token s).Solvent)
    (hmsg : HexSpelling msg.contractAddress p.getERC20Contract)
    (h : convertERC20 k msg s = .error f t) : ¬ LacksEscrow f := by
  simp only [convertERC20, Exec.get_bind, Exec.ofExcept_bind] at h
  split at h
  swap
  · -- refused at admission
    rename_i e hadm
    obtain rfl := (EStateM.Result.error.inj h).1
    exact not_lacksEscrow_error (mintingEnabled_error hadm)
  rename_i q hadm
  obtain rfl := hcons.eq_of_found hp (hcons.getTokenPairID_of_hexSpelling hp hmsg)
    (mintingEnabled_ok_iff.mp hadm).found
  rw [if_pos (by simp [TokenPair.isNativeCoin, howner])] at h
  rcases Exec.bind_error_iff.mp h with h | ⟨ret, v, hcall, h⟩
  · -- the burn was refused
    obtain ⟨⟨m, rfl⟩, -⟩ := callEVM_error rfl h
    exact not_lacksEscrow_error rfl
  · -- the burn went through, so the escrow covers what was burned
    obtain ⟨res, hcom, hf, -⟩ := (callEVM_ok_iff rfl).mp hcall
    have hbank := hcom.bank_eq
    obtain ⟨nonce, -, happ, -⟩ := hcom
    refine not_lacksEscrow_of_release (by rw [hbank, hlocked]) (fun hv => ?_) h
    rw [packInt_of_valid hv] at happ
    obtain ⟨-, hsupply⟩ := htoken.burnCoins_supply hheld happ hf
    simp only [Reserve.Solvent, escrowReserve] at hsolvent
    simp only [hbank]
    omega

/-- **Module-owned pairs stay solvent.** Over any run of user operations, as long as nobody
holds coins spelled as addresses, the escrow covers the token's total supply, the coin's supply
does not change, and no token conversion is ever refused for lack of escrow. -/
theorem moduleOwned_solvent_of_run (s₀ : State W) (ops : List Op)
    (hcons : RegistryConsistent k s₀.registry) (hp : Stored s₀.registry p)
    (howner : p.contractOwner = .OWNER_MODULE) (hsound : Sound s₀.evm)
    (hminter : (token s₀.evm).OnlyMinter k.moduleAddress)
    (hescrow : (token s₀.evm).ledger.supply ≤
      (s₀.bank.ledger p.denom).bal k.moduleAddress.bytes)
    (hlocked : s₀.bank.locked k.moduleAddress.bytes p.denom = 0)
    (hops : Along (step k) (UserStep k) s₀ ops) :
    (token (run (step k) s₀ ops).evm).ledger.supply ≤
        ((run (step k) s₀ ops).bank.ledger p.denom).bal k.moduleAddress.bytes ∧
      ((run (step k) s₀ ops).bank.ledger p.denom).supply = (s₀.bank.ledger p.denom).supply ∧
      ∀ msg f t, HexSpelling msg.contractAddress p.getERC20Contract →
        convertERC20 k msg (run (step k) s₀ ops) = .error f t → ¬ LacksEscrow f := by
  -- the pair stays stored because user operations keep the configuration
  have hinv : (run (step k) s₀ ops).config = s₀.config ∧
      KeepsReserve k p token Sound s₀ (run (step k) s₀ ops) := by
    refine run_preserves (C := UserStep k)
      (P := fun s => s.config = s₀.config ∧ KeepsReserve k p token Sound s₀ s)
      (fun s op hs hop => ?_) ⟨rfl, (LeftAlone.refl k p s₀).keepsReserve htoken
        ⟨hsound, hminter⟩⟩ hops
    have hreg : s.registry = s₀.registry := congrArg Config.registry hs.1
    exact ⟨(config_step_of_isUserOp k hop.user s).trans hs.1,
      hs.2.trans (keepsReserve_step htoken (hreg ▸ hcons) (hreg ▸ hp) howner hs.2.held hop.user
        hop.signer hop.hex)⟩
  obtain ⟨hcfg, hkeeps⟩ := hinv
  have hreg : (run (step k) s₀ ops).registry = s₀.registry := congrArg Config.registry hcfg
  have hlock : (run (step k) s₀ ops).bank.locked = s₀.bank.locked := congrArg Config.locked hcfg
  -- what was covered at the start is covered in the end, by the same margin at least
  have hsolvent := hkeeps.covers.solvent hescrow
  exact ⟨hsolvent, hkeeps.supply, fun msg f t hmsg hrun =>
    not_lacksEscrow_of_solvent htoken (hreg ▸ hcons) (hreg ▸ hp) howner hkeeps.held
      (by rw [hlock, hlocked]) hsolvent hmsg hrun⟩

end Steps

/-! ## A run of the reference deployment -/

/-- Alice turns 7 coins into tokens for bob and sends 5 tokens to the module, bob turns 3
tokens into coins for alice, and alice sends bob a coin. -/
def bothWays : List Op := [
  .convertCoin ⟨⟨"acoin", newIntFromUint64 7⟩, "0x4444444444444444444444444444444444444444",
    aliceBech32⟩,
  .ethereumTx ⟨alice, some tokenE, 0, .call .transfer [.address moduleAccount, .uint256 5]⟩,
  .convertERC20 ⟨"0x5555555555555555555555555555555555555555", newIntFromUint64 3, aliceBech32,
    "0x4444444444444444444444444444444444444444"⟩,
  .bankSend ⟨aliceBech32, bobBech32, [⟨"acoin", newIntFromUint64 1⟩]⟩]

theorem moduleOwned_solvent_of_run_bothWays :
    (tokenAt tokenE (run (step plainKeeper) (deployed plainEvm referenceWorld)
        bothWays).evm).ledger.supply ≤
      ((run (step plainKeeper) (deployed plainEvm referenceWorld) bothWays).bank.ledger
        "acoin").bal moduleAccount.bytes ∧
    ((run (step plainKeeper) (deployed plainEvm referenceWorld) bothWays).bank.ledger
      "acoin").supply = 150 := by
  have hcontract : pairE.getERC20Contract = tokenE := by decide
  have htoken : OzContract plainKeeper pairE.getERC20Contract (tokenAt tokenE)
      (fun w => (w tokenE).isSome = true) :=
    hcontract ▸ ozContract_plainKeeper tokenE
  have h := moduleOwned_solvent_of_run htoken (deployed plainEvm referenceWorld) bothWays
    (consistent_deployed plainEvm referenceWorld)
    ((stored_deployed plainEvm referenceWorld).mpr (.inr rfl)) rfl (by decide) ?_ (by decide)
    rfl (along_userStep (consistent_deployed plainEvm referenceWorld)
      (noHexMints_deployed plainEvm referenceWorld) (noHexCoins_deployed plainEvm referenceWorld)
      ?_).1
  · have hmodule : plainKeeper.moduleAddress = moduleAccount := moduleAddress_keeperOver plainEvm
    have hdenom : pairE.denom = "acoin" := rfl
    rw [hmodule, hdenom] at h
    exact ⟨h.1, h.2.1.trans (by decide +kernel)⟩
  · intro a ha
    exact beq_iff_eq.mp ha
  · simp only [bothWays, List.forall_mem_cons]
    refine ⟨⟨trivial, by decide⟩, ⟨trivial, by decide⟩, ⟨trivial, by decide⟩,
      ⟨trivial, by decide⟩, by simp⟩

end GenesisEthermint.Solvency
