import GenesisEthermint.Foundation.Exchange
import GenesisEthermint.Foundation.Reserve
import GenesisEthermint.Solvency.HexCoins
import GenesisEthermint.Solvency.Overflow

/-!
# Solvency of External Pairs

The coins of an external pair are claims on tokens the module holds on the contract. Coins are
created on two paths, by message and by the hook, and both create only what arrived: a message
moves the tokens itself, and the hook counts the transfers that the contract logged in the
transaction it follows. So the coins never outgrow the module's token balance.
-/

namespace GenesisEthermint.Solvency

open GenesisEthermint.Foundation GenesisEthermint.Types GenesisEthermint.Chain
open GenesisEthermint.Intrarelayer GenesisEthermint.Registry GenesisEthermint.Tokens

variable {W : Type}

/-- What a step does to an external pair when `n` tokens have arrived that are still to be
converted: the coins grow by no more than the module's tokens, and those `n`. -/
structure KeepsBacking (k : Keeper W) (p : TokenPair) (book : W → Ledger Address)
    (Sound : W → Prop) (n : ℕ) (s t : State W) : Prop where
  sound : Sound t.evm
  covered : (t.bank.ledger p.denom).Covered
  grows : (t.bank.ledger p.denom).supply + (book s.evm).bal k.moduleAddress ≤
    (s.bank.ledger p.denom).supply + (book t.evm).bal k.moduleAddress + n

variable {k : Keeper W} {p : TokenPair} {book : W → Ledger Address} {Sound : W → Prop}
  {s t v : State W} {u : Unit} {m n : ℕ}

theorem KeepsBacking.trans (h : KeepsBacking k p book Sound m s v)
    (h' : KeepsBacking k p book Sound n v t) : KeepsBacking k p book Sound (m + n) s t where
  sound := h'.sound
  covered := h'.covered
  grows := by
    have hm := h.grows
    have hn := h'.grows
    omega

theorem KeepsBacking.mono (h : KeepsBacking k p book Sound m s t) (hmn : m ≤ n) :
    KeepsBacking k p book Sound n s t where
  sound := h.sound
  covered := h.covered
  grows := by
    have hm := h.grows
    omega

/-- Tokens that arrived before the step are no longer to be converted after it. -/
theorem KeepsBacking.of_deposit (h : KeepsBacking k p book Sound n v t)
    (hbank : v.bank = s.bank)
    (hbal : (book s.evm).bal k.moduleAddress + n ≤ (book v.evm).bal k.moduleAddress) :
    KeepsBacking k p book Sound 0 s t where
  sound := h.sound
  covered := h.covered
  grows := by
    have hn := h.grows
    rw [hbank] at hn
    omega

/-- Minted coins, paid out or not. -/
private theorem keepsBacking_of_minted {c : Coin} {b : AccAddress} (hd : c.denom = p.denom)
    (hs : Sound v.evm) (hcov : (v.bank.ledger p.denom).Covered)
    (hend : (CanRelease k (mintedCoin k v c) b c ∧
      t = moved (mintedCoin k v c) k.moduleAddress.bytes b c) ∨ t = mintedCoin k v c) :
    KeepsBacking k p book Sound c.nat v t := by
  have hminted : (mintedCoin k v c).bank.ledger p.denom =
      (v.bank.ledger p.denom).mint k.moduleAddress.bytes c.nat := by
    rw [ledger_mintedCoin, if_pos hd.symm, hd]
  have hcov' := Ledger.covered_mint (a := k.moduleAddress.bytes) (n := c.nat) hcov
  rw [← hminted] at hcov'
  rcases hend with ⟨hrel, rfl⟩ | rfl
  · have hpay := hrel.2.1.le_bal
    refine ⟨by rwa [moved_evm, mintedCoin_evm], ?_, ?_⟩
    · rw [ledger_moved, if_pos hd.symm]
      rw [hd] at hpay ⊢
      exact Ledger.covered_move hcov' hpay
    · rw [supply_moved, hminted, moved_evm, mintedCoin_evm, Ledger.supply_mint]
      omega
  · refine ⟨by rwa [mintedCoin_evm], hcov', ?_⟩
    rw [hminted, mintedCoin_evm, Ledger.supply_mint]
    omega

/-- The hook mints no more than the amount of the log. -/
theorem keepsBacking_convertLog {contract : Address} {ev : TransferEvent}
    (howner : p.contractOwner = .OWNER_EXTERNAL) (hs : Sound s.evm)
    (hcov : (s.bank.ledger p.denom).Covered) (h : convertLog k p contract ev s = .ok u t) :
    KeepsBacking k p book Sound ev.tokens s t := by
  have hsame : ∀ {v : State W}, v.bank = s.bank → v.evm = s.evm →
      KeepsBacking k p book Sound ev.tokens s v := fun hbank hevm =>
    ⟨hevm ▸ hs, hbank ▸ hcov, by rw [hbank, hevm]; omega⟩
  rcases convertLog_ok h with hkept | ⟨v, htaken, hend⟩
  · cases hkept with
    | nothing _ left => exact hsame (left ▸ rfl) (left ▸ rfl)
    | reverted res ho => exact absurd (ho.symm.trans howner) (by decide)
    | invalid _ _ left =>
      subst left
      exact hsame (s.ensureAccount_bank _) (s.ensureAccount_evm _)
  · cases htaken with
    | burned res ho => exact absurd (ho.symm.trans howner) (by decide)
    | minted _ _ left =>
      subst left
      exact keepsBacking_of_minted (c := logPayout p ev) rfl hs hcov (hend.imp_right And.right)

section Steps

variable (htoken : Eip20 k p.getERC20Contract book Sound)
include htoken

/-! ## Single steps -/

/-- A step about another pair. -/
theorem LeftAlone.keepsBacking (hs : Sound s.evm) (hcov : (s.bank.ledger p.denom).Covered)
    (h : LeftAlone k p s t) : KeepsBacking k p book Sound 0 s t := by
  have hbank := h.ledger
  rcases h.world with hevm | ⟨accounts, msg, res, happ, hm, hevm⟩
  · exact ⟨hevm ▸ hs, hbank ▸ hcov, by rw [hbank, hevm, Nat.add_zero]⟩
  · obtain ⟨hs', hle⟩ := htoken.bal_le hs happ hm
    refine ⟨hevm ▸ hs', hbank ▸ hcov, ?_⟩
    rw [hbank, hevm]
    omega

/-- Coins to tokens: the coins are burned for the tokens that left. -/
theorem keepsBacking_convertCoinNativeERC20 {msg : MsgConvertCoin} {receiver : Address}
    {sender : AccAddress} (hs : Sound s.evm) (hcov : (s.bank.ledger p.denom).Covered)
    (hd : msg.coin.denom = p.denom)
    (h : convertCoinNativeERC20 k p msg receiver sender s = .ok u t) :
    KeepsBacking k p book Sound 0 s t := by
  -- escrow, transfer out and burn, in the order of the source
  obtain ⟨hspend, -, res, v, hcom, hf, hret, hburn, hsup, rfl⟩ :=
    convertCoinNativeERC20_ok_iff.mp h
  have hbank := hcom.bank_eq
  have hevm := hcom.evm_eq
  obtain ⟨nonce, -, happ, -⟩ := hcom
  rw [escrowed_evm] at happ
  -- the call returned true, so the transfer was made
  obtain ⟨hs', ⟨-, hn, hbook⟩ | ⟨hword, -⟩⟩ := htoken.transferred hs happ hf
  swap
  · rw [hword, show word 0 = word false.toNat from rfl, unpackBool_word] at hret
    cases hret
  rw [hbank, ledger_escrowed, if_pos rfl] at hsup
  have hledger : (burnedCoin k v msg.coin).bank.ledger p.denom =
      ((s.bank.ledger p.denom).move sender k.moduleAddress.bytes msg.coin.nat).burn
        -- the burned coins are those the sender paid to the module
        k.moduleAddress.bytes msg.coin.nat := by
    rw [← hd, ledger_burnedCoin, if_pos rfl, hbank, ledger_escrowed, if_pos rfl]
  have hpay := hspend.le_bal
  have htake := hburn.le_bal
  rw [hbank, ledger_escrowed, if_pos rfl] at htake
  rw [hd] at hpay htake hsup
  -- the receiver may be the module itself, hence the bound and no equality
  have hbal := Ledger.bal_sub_le_bal_move (L := book s.evm) (a := k.moduleAddress)
    (b := receiver) (c := k.moduleAddress) (n := msg.coin.nat)
  refine ⟨?_, ?_, ?_⟩
  · rwa [burnedCoin_evm, hevm]
  · rw [hledger]
    exact Ledger.covered_burn (Ledger.covered_move hcov hpay) htake
  · rw [hledger, burnedCoin_evm, hevm, hbook, Ledger.supply_burn, Ledger.supply_move]
    rw [Ledger.supply_move] at hsup
    omega

/-- Tokens to coins: the coins are minted for the tokens that arrived. -/
theorem keepsBacking_convertERC20NativeToken {msg : MsgConvertERC20} {receiver : AccAddress}
    {sender : Address} (hs : Sound s.evm) (hcov : (s.bank.ledger p.denom).Covered)
    (hne : sender ≠ k.moduleAddress)
    (h : convertERC20NativeToken k p msg receiver sender s = .ok u t) :
    KeepsBacking k p book Sound 0 s t := by
  obtain ⟨res, v, hcom, hf, hret, -, hrel, rfl⟩ := convertERC20NativeToken_ok_iff.mp h
  have hbank := hcom.bank_eq
  have hevm := hcom.evm_eq
  obtain ⟨nonce, -, happ, -⟩ := hcom
  obtain ⟨hs', ⟨-, -, hbook⟩ | ⟨hword, -⟩⟩ := htoken.transferred hs happ hf
  swap
  · -- the contract said no
    rw [hword, show word 0 = word false.toNat from rfl, unpackBool_word] at hret
    cases hret
  have hmint : KeepsBacking k p book Sound (payout p msg).nat v _ :=
    keepsBacking_of_minted (c := payout p msg) rfl (hevm ▸ hs') (hbank ▸ hcov) (.inl ⟨hrel, rfl⟩)
  refine hmint.of_deposit hbank (le_of_eq ?_)
  rw [hevm, hbook, Ledger.bal_move_to hne]

/-- The log loop of the hook, by induction on the logs. -/
theorem keepsBacking_processLogs {logs : List Log} (hcons : RegistryConsistent k s.registry)
    (hp : Stored s.registry p) (howner : p.contractOwner = .OWNER_EXTERNAL) (hs : Sound s.evm)
    (hcov : (s.bank.ledger p.denom).Covered) (h : forM logs (processLog k) s = .ok u t) :
    KeepsBacking k p book Sound (logsAmount k p.getERC20Contract logs) s t := by
  induction logs generalizing s with
  | nil =>
    obtain rfl := Exec.forM_nil_ok_iff.mp h
    exact (LeftAlone.refl k p t).keepsBacking htoken hs hcov
  | cons log rest ih =>
    obtain ⟨v, hlog, hrest⟩ := Exec.forM_cons_ok_iff.mp h
    have hreg := registry_processLog hlog
    have hkeeps : KeepsBacking k p book Sound (logAmount k p.getERC20Contract log) s v := by
      rcases processLog_cases hcons hp hlog with hleft | ⟨ev, htr, hrec, haddr, hconv⟩
      · exact (hleft.keepsBacking htoken hs hcov).mono (Nat.zero_le _)
      · rw [logAmount_of_transfer htr hrec haddr]
        exact keepsBacking_convertLog howner hs hcov hconv
    rw [logsAmount_cons]
    exact hkeeps.trans (ih (hreg ▸ hcons) (hreg ▸ hp) hkeeps.sound hkeeps.covered hrest)

/-- A transaction and its hook: the tokens the logs report have arrived. -/
theorem keepsBacking_applyTransaction {msg : Message} (hzero : k.moduleAddress ≠ zeroAddress)
    (hcons : RegistryConsistent k s.registry) (hp : Stored s.registry p)
    (howner : p.contractOwner = .OWNER_EXTERNAL) (hs : Sound s.evm)
    (hcov : (s.bank.ledger p.denom).Covered) (hne : msg.sender ≠ k.moduleAddress)
    (h : applyTransaction k msg s = .ok u t) : KeepsBacking k p book Sound 0 s t := by
  obtain ⟨res, happ, hf, hhook⟩ := applyTransaction_ok_iff.mp h
  have hm : ¬ FromModuleTo k p.getERC20Contract msg := fun hm => hne hm.1
  obtain ⟨hs', -⟩ := htoken.bal_le hs happ hm
  have hhook := keepsBacking_processLogs (s := afterTx s res) htoken hcons hp howner hs' hcov
    (postTxProcessing_ok_iff.mp hhook).2
  exact hhook.of_deposit rfl (htoken.bal_add_reported_le hzero hs happ hf hm)

/-- An operation of the runs this file is about. -/
structure ConversionStep (k : Keeper W) (s : State W) (op : Op) : Prop
    extends UserStep k s op where
  conversion : op.IsConversion

/-- **No conversion creates coins without tokens behind them.** -/
theorem keepsBacking_step {op : Op} (hzero : k.moduleAddress ≠ zeroAddress)
    (hcons : RegistryConsistent k s.registry) (hp : Stored s.registry p)
    (howner : p.contractOwner = .OWNER_EXTERNAL) (hs : Sound s.evm)
    (hcov : (s.bank.ledger p.denom).Covered) (hop : ConversionStep k s op) :
    KeepsBacking k p book Sound 0 s (step k s op) := by
  have hsame : KeepsBacking k p book Sound 0 s s :=
    (LeftAlone.refl k p s).keepsBacking htoken hs hcov
  rcases Exec.deliver_cases (op.exec k) s with ⟨u, hok⟩ | hfail
  swap
  · rwa [step, hfail]
  -- the flows of a pair with another owner are ruled out below
  have hother : p.contractOwner ≠ .OWNER_MODULE := by simp [howner]
  cases op with
  | convertCoin msg =>
    have hdenom := hop.hex.of_canSpend (canSpend_of_convertCoin hok)
    rcases convertCoin_cases hcons hp hdenom hok with hleft | ⟨hd, ⟨ho, -⟩ | ⟨-, hflow⟩⟩
    · exact hleft.keepsBacking htoken hs hcov
    · exact absurd ho hother
    · exact keepsBacking_convertCoinNativeERC20 htoken hs hcov hd hflow
  | convertERC20 msg =>
    have hne : hexToAddress msg.sender ≠ k.moduleAddress := fun he =>
      hop.signer (congrArg (fun a : Address => some a.bytes) he)
    rcases convertERC20_cases hcons hp hok with hleft | ⟨ho, -⟩ | ⟨-, hflow⟩
    · exact hleft.keepsBacking htoken hs hcov
    · exact absurd ho hother
    · exact keepsBacking_convertERC20NativeToken htoken hs hcov hne hflow
  | ethereumTx msg =>
    have hne : msg.sender ≠ k.moduleAddress := fun he =>
      hop.signer (congrArg (fun a : Address => some a.bytes) he)
    exact keepsBacking_applyTransaction htoken hzero hcons hp howner hs hcov hne hok
  | _ => exact hop.conversion.elim

/-! ## What a backed state allows -/

/-- The state of an external pair that the runs below maintain. -/
structure Backed (k : Keeper W) (p : TokenPair) (book : W → Ledger Address) (Sound : W → Prop)
    (s : State W) : Prop where
  sound : Sound s.evm
  covered : (s.bank.ledger p.denom).Covered
  backed : (s.bank.ledger p.denom).supply ≤ (book s.evm).bal k.moduleAddress

omit htoken in
theorem Backed.keeps (h : Backed k p book Sound s)
    (hk : KeepsBacking k p book Sound 0 s t) : Backed k p book Sound t where
  sound := hk.sound
  covered := hk.covered
  backed := by
    have hs := h.backed
    have hg := hk.grows
    omega

theorem Backed.supply_lt (h : Backed k p book Sound s) :
    (s.bank.ledger p.denom).supply < intBound :=
  lt_of_le_of_lt h.backed (htoken.bal_lt h.sound _)

/-- **No addition overflows** when the pair is converted, on any of the three paths. -/
structure AdditionsFit (k : Keeper W) (p : TokenPair) (s : State W) : Prop where
  convertCoin : ∀ msg, msg.coin.denom = p.denom → NoOverflow (convertCoin k msg) s
  convertERC20 : ∀ msg, HexSpelling msg.contractAddress p.getERC20Contract →
    hexToAddress msg.sender ≠ k.moduleAddress → NoOverflow (convertERC20 k msg) s
  /-- Any log of the contract, after any part of the transaction's logs was processed. -/
  ethereumTx : ∀ msg res, k.evm.applyMessage s.evm s.accounts msg = .ok res →
    res.failed = false → msg.sender ≠ k.moduleAddress →
    ∀ before log rest, res.logs = before ++ log :: rest → log.address = p.getERC20Contract →
    ∀ u v, forM before (processLog k) (afterTx s res) = .ok u v →
    NoOverflow (processLog k log) v

theorem noOverflow_convertERC20 {msg : MsgConvertERC20}
    (hcons : RegistryConsistent k s.registry) (hp : Stored s.registry p)
    (howner : p.contractOwner = .OWNER_EXTERNAL) (hb : Backed k p book Sound s)
    (hmsg : HexSpelling msg.contractAddress p.getERC20Contract)
    (hne : hexToAddress msg.sender ≠ k.moduleAddress) : NoOverflow (convertERC20 k msg) s := by
  refine Exec.avoids_bind Exec.avoids_get fun s₁ t₁ hget => ?_
  obtain ⟨rfl, rfl⟩ := Exec.get_ok_iff.mp hget
  refine Exec.avoids_bind (Exec.avoids_ofExcept _) fun q t hq => ?_
  obtain ⟨hadm, rfl⟩ := Exec.ofExcept_ok_iff.mp hq
  obtain rfl := hcons.eq_of_found hp (hcons.getTokenPairID_of_hexSpelling hp hmsg)
    (mintingEnabled_ok_iff.mp hadm).found
  rw [if_neg (by simp [TokenPair.isNativeCoin, howner]),
    if_pos (by simp [TokenPair.isNativeERC20, howner])]
  refine Exec.avoids_bind (Exec.avoids_ofExcept _) fun data t hd => ?_
  obtain ⟨hdata, rfl⟩ := Exec.ofExcept_ok_iff.mp hd
  refine Exec.avoids_bind avoids_callEVMWithPayload fun ret v hcall => ?_
  obtain ⟨res, hcom, hf, rfl⟩ := callEVMWithPayload_ok_iff.mp hcall
  refine Exec.avoids_bind (Exec.avoids_ofExcept _) fun said v' hr => ?_
  obtain ⟨hsaid, rfl⟩ := Exec.ofExcept_ok_iff.mp hr
  refine Exec.avoids_bind (Exec.avoids_failIf _ _) fun _ v' ht => ?_
  obtain ⟨htrue, rfl⟩ := Exec.failIf_ok_iff.mp ht
  rw [not_not] at htrue
  subst htrue
  have hbank := hcom.bank_eq
  obtain ⟨nonce, -, happ, -⟩ := hcom
  have hcov : (v.bank.ledger p.denom).Covered := hbank ▸ hb.covered
  -- what the contract took from the sender is in the module's balance, which is a word
  have hroom : coinsIsValid [payout p msg] = true →
      (v.bank.ledger p.denom).supply + (payout p msg).nat < intBound := by
    intro hv
    have hpack : packInt msg.amount.val = .uint256 (payout p msg).nat := packInt_of_valid hv
    rw [hpack] at hdata
    obtain rfl := Except.ok.inj hdata
    obtain ⟨hs', ⟨-, -, hbook⟩ | ⟨hword, -⟩⟩ := htoken.transferred hb.sound happ hf
    · have hlt := htoken.bal_lt hs' k.moduleAddress
      have hback := hb.backed
      rw [hbook, Ledger.bal_move_to hne] at hlt
      rw [hbank]
      simp only [intBound]
      omega
    · rw [hword, show word 0 = word false.toNat from rfl, unpackBool_word] at hsaid
      cases hsaid
  refine Exec.avoids_bind (noOverflow_mintCoins (c := payout p msg) hcov hroom) fun _ w hmint => ?_
  obtain ⟨hcan, rfl⟩ := mintCoins_ok_iff.mp hmint
  exact noOverflow_release_minted (c := payout p msg) hcov hcan

theorem additionsFit_of_backed (hzero : k.moduleAddress ≠ zeroAddress)
    (hcons : RegistryConsistent k s.registry) (hp : Stored s.registry p)
    (howner : p.contractOwner = .OWNER_EXTERNAL) (hb : Backed k p book Sound s) :
    AdditionsFit k p s where
  convertCoin msg hd := by
    refine noOverflow_convertCoin ?_ ?_
    · exact hd ▸ hb.covered
    · exact hd ▸ hb.supply_lt htoken
  convertERC20 msg hmsg hne := noOverflow_convertERC20 htoken hcons hp howner hb hmsg hne
  ethereumTx msg res happ hf hne before log rest hlogs haddr u v hbefore := by
    have hm : ¬ FromModuleTo k p.getERC20Contract msg := fun hm => hne hm.1
    obtain ⟨hs', -⟩ := htoken.bal_le hb.sound happ hm
    have harrived := htoken.bal_add_reported_le hzero hb.sound happ hf hm
    have hkeeps := keepsBacking_processLogs (s := afterTx s res) htoken hcons hp howner hs'
      hb.covered hbefore
    have hreg : v.registry = s.registry :=
      Exec.forM_preserves (P := fun x => x.registry = s.registry)
        (fun _ _ _ hx hxy => (registry_processLog hxy).trans hx) rfl hbefore
    have hword := htoken.bal_lt hkeeps.sound k.moduleAddress
    refine noOverflow_processLog fun ev q htr hrec hq => ?_
    obtain ⟨hstored, hcontract⟩ := (hreg ▸ hcons).pairOfContract_eq_some_iff.mp hq
    rcases (hreg ▸ hcons).apart (hreg ▸ hp) hstored with rfl | ⟨-, hc⟩
    swap
    · exact absurd (hcontract.trans haddr) hc
    refine noOverflow_convertLog howner hkeeps.covered ?_
    -- the log is one of those whose tokens had arrived before the hook ran
    have hsum : logsAmount k q.getERC20Contract res.logs =
        logsAmount k q.getERC20Contract before + logsAmount k q.getERC20Contract (log :: rest) := by
      rw [hlogs, logsAmount, reportedBy_append, amountsTo_append, List.sum_append]
      rfl
    rw [logsAmount_cons, logAmount_of_transfer htr hrec haddr] at hsum
    have hback := hb.backed
    have hgrows := hkeeps.grows
    simp only [afterTx, logsAmount] at hgrows hsum harrived
    simp only [intBound]
    omega

omit htoken in
/-- Escrowed coins are in the module's hands, so it can burn them. -/
theorem canSpend_escrowed {a : AccAddress} {c : Coin} (ha : a ≠ k.moduleAddress.bytes)
    (hlocked : s.bank.locked k.moduleAddress.bytes c.denom = 0) (hc : CanSpend s a c)
    (hbank : v.bank = (escrowed k s a c).bank) : CanSpend v k.moduleAddress.bytes c := by
  have hlock : v.bank.locked = s.bank.locked := by
    rw [hbank]
    exact congrArg Config.locked (escrowed_config (k := k) (s := s) (a := a) (c := c))
  have hbal := bal_escrowed (k := k) (s := s) (c := c) ha
  rw [← hbank] at hbal
  refine ⟨hc.1, ?_, ?_⟩
  · rw [hlock, hlocked]
    exact Nat.zero_le _
  · rw [spendable, hlock, hlocked, hbal]
    omega

/-- **Coins were taken back to tokens**: `n` coins of `a` are gone, and the module handed out `n`
of its tokens to `a`. -/
structure TakenBack (k : Keeper W) (p : TokenPair) (book : W → Ledger Address) (a : Address)
    (n : ℕ) (s t : State W) : Prop where
  coins : (s.bank.ledger p.denom).Taken (t.bank.ledger p.denom) a.bytes k.moduleAddress.bytes n 0
  tokens : (book s.evm).Paid (book t.evm) a k.moduleAddress n n

/-- **A holder's coins can be taken back to tokens**: the module holds the tokens, and a
contract that honours its transfers hands them out. -/
structure Redeems (k : Keeper W) (p : TokenPair) (book : W → Ledger Address) (Sound : W → Prop)
    (s : State W) (a : Address) (msg : MsgConvertCoin) : Prop where
  tokens : msg.coin.nat ≤ (book s.evm).bal k.moduleAddress
  succeeds : Honours k p.getERC20Contract book Sound → NoHexCoins s →
    s.params.enableIntrarelayer = true → p.enabled = true → a ≠ zeroAddress →
    ∃ t, convertCoin k msg s = .ok () t ∧ TakenBack k p book a msg.coin.nat s t

/-- The message takes the coins of `a` to the tokens of `a`. -/
structure OwnConversion (k : Keeper W) (p : TokenPair) (s : State W) (a : Address)
    (msg : MsgConvertCoin) : Prop where
  denom : msg.coin.denom = p.denom
  sender : decodeOrEmpty k msg.sender = a.bytes
  receiver : hexToAddress msg.receiver = a
  unblocked : k.blockedAddr a.bytes = false
  holds : CanSpend s a.bytes msg.coin

section Redemption

variable {a : Address} {msg : MsgConvertCoin}

omit htoken in
theorem OwnConversion.admits (h : OwnConversion k p s a msg)
    (hcons : RegistryConsistent k s.registry) (hp : Stored s.registry p) (hhex : NoHexCoins s)
    (hon : s.params.enableIntrarelayer = true) (hen : p.enabled = true) :
    Admits k s (decodeOrEmpty k msg.sender) (hexToAddress msg.receiver).bytes
      msg.coin.denom p := by
  have hdenom : isHexAddress p.denom = false := h.denom ▸ hhex.of_canSpend h.holds
  rw [h.sender, h.receiver, h.denom]
  exact ⟨hon, ⟨_, hcons.getTokenPairID_denom hp hdenom, hcons.getTokenPair_getID hp⟩, hen,
    h.unblocked, .inl rfl⟩

/-- The coins fit into the module's balance. -/
theorem OwnConversion.fits (h : OwnConversion k p s a msg) (hb : Backed k p book Sound s) :
    Fits s a.bytes k.moduleAddress.bytes msg.coin := by
  have hne := (k.ne_module_of_unblocked h.unblocked).symm
  have hroom := hb.covered.bal_add_bal_le hne
  have hlt := hb.supply_lt htoken
  have hholds := h.holds.le_bal
  rw [h.denom] at hholds
  rw [Fits, Ledger.bal_debit, if_neg hne, h.denom]
  omega

/-- A contract that honours its transfers hands the tokens out of the module's balance. -/
theorem committed_of_honours (hhonours : Honours k p.getERC20Contract book Sound)
    (hs : Sound s.evm) (haccount : ∃ nonce, s.accounts k.moduleAddress.bytes = some nonce)
    (hzero : a ≠ zeroAddress) (htokens : n ≤ (book s.evm).bal k.moduleAddress) :
    ∃ res v, Committed k s k.moduleAddress (some p.getERC20Contract)
        (.call .transfer [.address a, .uint256 n]) res v ∧
      res.failed = false ∧ unpackBool res.ret = .ok true ∧
      book res.world = (book s.evm).move k.moduleAddress a n := by
  obtain ⟨nonce, hnonce⟩ := haccount
  obtain ⟨res, happ, hf, hret⟩ := hhonours hs hnonce hzero htokens
  refine ⟨res, _, ⟨nonce, hnonce, happ, rfl⟩, hf, hret ▸ unpackBool_word (b := true), ?_⟩
  -- it did not return false, so it moved them
  obtain ⟨-, ⟨-, -, hmoved⟩ | ⟨hfalse, -⟩⟩ := htoken.transferred hs happ hf
  · exact hmoved
  · rw [hret] at hfalse
    exact absurd hfalse (by decide)

theorem redeems_of_backed (hcons : RegistryConsistent k s.registry) (hp : Stored s.registry p)
    (howner : p.contractOwner = .OWNER_EXTERNAL) (hb : Backed k p book Sound s)
    (hlocked : s.bank.locked k.moduleAddress.bytes p.denom = 0)
    (h : OwnConversion k p s a msg) : Redeems k p book Sound s a msg := by
  have hholds := h.holds.le_bal
  rw [h.denom] at hholds
  have hsupply := hholds.trans (hb.covered.bal_le a.bytes)
  have htokens := hsupply.trans hb.backed
  refine ⟨htokens, fun hhonours hhex hon hen hzero => ?_⟩
  -- escrowing the coins is nothing the contract could notice
  have hworld : (escrowed k s a.bytes msg.coin).evm = s.evm := escrowed_evm
  obtain ⟨res, v, hcom, hf, htrue, hmoved⟩ := committed_of_honours htoken hhonours
    (s := escrowed k s a.bytes msg.coin) (hworld ▸ hb.sound)
    (State.exists_accounts_ensureAccount _ _) hzero (hworld ▸ htokens)
  have hburn := canSpend_escrowed (k.ne_module_of_unblocked h.unblocked) (h.denom ▸ hlocked)
    h.holds hcom.bank_eq
  have hflow : convertCoinNativeERC20 k p msg (hexToAddress msg.receiver)
      (decodeOrEmpty k msg.sender) s = .ok () (burnedCoin k v msg.coin) := by
    rw [h.sender, h.receiver]
    exact convertCoinNativeERC20_ok_iff.mpr ⟨h.holds, h.fits htoken hb, res, _, hcom, hf, htrue,
      hburn, by rwa [hcom.bank_eq, supply_escrowed, h.denom], rfl⟩
  refine ⟨_, convertCoin_ok_iff.mpr ⟨p, h.admits hcons hp hhex hon hen, .inr ⟨howner, hflow⟩⟩,
    ?_, ?_⟩
  · -- the coins went into escrow and were burned there
    rw [ledger_burnedCoin, if_pos h.denom.symm, hcom.bank_eq, ledger_escrowed, if_pos rfl,
      Ledger.burn_move, h.denom]
    exact Ledger.taken_burn hholds hsupply
  · rw [burnedCoin_evm, hcom.evm_eq, hmoved, hworld]
    exact Ledger.paid_move htokens

end Redemption

/-! ## Whole runs -/

/-- **External pairs stay solvent.** Over any run of conversions the coins never outgrow the
module's tokens, so no addition overflows and every holder's coins can be taken back. -/
theorem external_solvent_of_run (s₀ : State W) (ops : List Op)
    (hzero : k.moduleAddress ≠ zeroAddress) (hcons : RegistryConsistent k s₀.registry)
    (hp : Stored s₀.registry p) (howner : p.contractOwner = .OWNER_EXTERNAL)
    (hb : Backed k p book Sound s₀)
    (hlocked : s₀.bank.locked k.moduleAddress.bytes p.denom = 0)
    (hops : Along (step k) (ConversionStep k) s₀ ops) :
    ((run (step k) s₀ ops).bank.ledger p.denom).supply ≤
        (book (run (step k) s₀ ops).evm).bal k.moduleAddress ∧
      AdditionsFit k p (run (step k) s₀ ops) ∧
      ∀ a msg, OwnConversion k p (run (step k) s₀ ops) a msg →
        Redeems k p book Sound (run (step k) s₀ ops) a msg := by
  have hinv : (run (step k) s₀ ops).config = s₀.config ∧
      Backed k p book Sound (run (step k) s₀ ops) := by
    refine run_preserves (C := ConversionStep k)
      (P := fun s => s.config = s₀.config ∧ Backed k p book Sound s)
      (fun s op hs hop => ?_) ⟨rfl, hb⟩ hops
    have hreg : s.registry = s₀.registry := congrArg Config.registry hs.1
    exact ⟨(config_step_of_isUserOp k hop.user s).trans hs.1,
      hs.2.keeps (keepsBacking_step htoken hzero (hreg ▸ hcons) (hreg ▸ hp) howner hs.2.sound
        hs.2.covered hop)⟩
  obtain ⟨hcfg, hback⟩ := hinv
  have hreg : (run (step k) s₀ ops).registry = s₀.registry := congrArg Config.registry hcfg
  have hlock : (run (step k) s₀ ops).bank.locked = s₀.bank.locked := congrArg Config.locked hcfg
  exact ⟨hback.backed,
    additionsFit_of_backed htoken hzero (hreg ▸ hcons) (hreg ▸ hp) howner hback,
    fun a msg hown => redeems_of_backed htoken (hreg ▸ hcons) (hreg ▸ hp) howner hback
      (by rw [hlock, hlocked]) hown⟩

end Steps

/-! ## A run of the reference deployment -/

/-- Alice converts 30 tokens for bob, bob sends 5 tokens to the module, and bob converts 12
coins to tokens for alice. -/
def convertAndReturn : List Op := [
  .convertERC20 ⟨"0x1111111111111111111111111111111111111111", newIntFromUint64 30, bobBech32,
    "0x3333333333333333333333333333333333333333"⟩,
  .ethereumTx ⟨bob, some tokenA, 0, .call .transfer [.address moduleAccount, .uint256 5]⟩,
  .convertCoin ⟨⟨pairA.denom, newIntFromUint64 12⟩, "0x3333333333333333333333333333333333333333",
    bobBech32⟩]

/-- Bob takes all the coins he has left to his own tokens. -/
def bobRedeems : MsgConvertCoin :=
  ⟨⟨pairA.denom, newIntFromUint64 23⟩, "0x4444444444444444444444444444444444444444", bobBech32⟩

theorem external_solvent_of_run_convertAndReturn :
    ((run (step plainKeeper) (deployed plainEvm referenceWorld) convertAndReturn).bank.ledger
      pairA.denom).supply ≤
      (tokenAt tokenA (run (step plainKeeper) (deployed plainEvm referenceWorld)
        convertAndReturn).evm).ledger.bal moduleAccount ∧
    ∃ t, convertCoin plainKeeper bobRedeems
        (run (step plainKeeper) (deployed plainEvm referenceWorld) convertAndReturn) = .ok () t ∧
      TakenBack plainKeeper pairA (fun w => (tokenAt tokenA w).ledger) bob 23
        (run (step plainKeeper) (deployed plainEvm referenceWorld) convertAndReturn) t := by
  -- the token of the pair is the reference contract, which keeps EIP-20 for the module
  have hcontract : pairA.getERC20Contract = tokenA := by decide
  have hmodule : plainKeeper.moduleAddress = moduleAccount := moduleAddress_keeperOver plainEvm
  have hzero : plainKeeper.moduleAddress ≠ zeroAddress := by
    rw [hmodule]
    decide
  have hoz := ozContract_plainKeeper tokenA
  have hguarded : (tokenAt tokenA referenceWorld).Guarded plainKeeper.moduleAddress :=
    ⟨fun _ h => absurd h Bool.false_ne_true, fun _ => rfl⟩
  -- nothing is outstanding at the start, so the pair is backed
  have hback : Backed plainKeeper pairA (fun w => (tokenAt tokenA w).ledger)
      (fun w => (w tokenA).isSome = true ∧ (tokenAt tokenA w).Guarded plainKeeper.moduleAddress)
      (deployed plainEvm referenceWorld) :=
    ⟨⟨by decide, hguarded⟩, covered_ledgerOf [], by decide⟩
  -- three messages of users, each a conversion
  have hkinds : ∀ op ∈ convertAndReturn, (op.IsUserOp ∧
      op.signer plainKeeper ≠ some plainKeeper.moduleAddress.bytes) ∧ op.IsConversion := by
    simp only [convertAndReturn, List.forall_mem_cons]
    exact ⟨⟨⟨trivial, by decide⟩, trivial⟩, ⟨⟨trivial, by decide⟩, trivial⟩,
      ⟨⟨trivial, by decide⟩, trivial⟩, by simp⟩
  obtain ⟨huser, hhex⟩ := along_userStep (consistent_deployed plainEvm referenceWorld)
    (noHexMints_deployed plainEvm referenceWorld) (noHexCoins_deployed plainEvm referenceWorld)
    fun op hop => (hkinds op hop).1
  have hops := (huser.and (along_of_mem fun op hop => (hkinds op hop).2)).mono
    (D := ConversionStep plainKeeper) fun _ _ h => ⟨h.1, h.2⟩
  obtain ⟨hle, -, hredeem⟩ := external_solvent_of_run (hcontract ▸ hoz.eip20)
    (deployed plainEvm referenceWorld) convertAndReturn hzero
    (consistent_deployed plainEvm referenceWorld)
    ((stored_deployed plainEvm referenceWorld).mpr (.inl rfl)) rfl hback rfl hops
  -- after the run Bob holds the coins, unlocked, and the module is on
  obtain ⟨hlock, hspend, hon⟩ :
      let s := run (step plainKeeper) (deployed plainEvm referenceWorld) convertAndReturn
      s.bank.locked bob.bytes bobRedeems.coin.denom ≤
          (s.bank.ledger bobRedeems.coin.denom).bal bob.bytes ∧
        bobRedeems.coin.nat ≤ spendable s bob.bytes bobRedeems.coin.denom ∧
        s.params.enableIntrarelayer = true := by
    decide +kernel
  have hown : OwnConversion plainKeeper pairA
      (run (step plainKeeper) (deployed plainEvm referenceWorld) convertAndReturn) bob bobRedeems :=
    ⟨rfl, by decide, by decide, by decide, by decide, hlock, hspend⟩
  exact ⟨hmodule ▸ hle, (hredeem bob bobRedeems hown).succeeds
    (hcontract ▸ hoz.honours (answers_plainKeeper tokenA) hzero) hhex hon rfl (by decide)⟩

end GenesisEthermint.Solvency
