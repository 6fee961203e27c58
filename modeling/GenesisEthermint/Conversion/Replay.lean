import GenesisEthermint.Conversion.RoundTrip
import GenesisEthermint.Foundation.Interleave
import GenesisEthermint.Hook.Frame
import GenesisEthermint.Tokens.Service

/-!
# Replaying a Transaction

A user converts tokens by sending them to the module in an Ethereum transaction, or by a message.
The transaction's movements can be replayed one by one, with each transfer to the module as a
message of the same user at its position. This file says what such a replay is, and what one
conversion does on either path.
-/

namespace GenesisEthermint.Conversion

open GenesisEthermint.Foundation GenesisEthermint.Types GenesisEthermint.Chain
open GenesisEthermint.Intrarelayer GenesisEthermint.Registry GenesisEthermint.Tokens
open GenesisEthermint.Hook

variable {W : Type} {k : Keeper W} {s t u v h : State W} {p q : TokenPair} {a c : Address} {n : ℕ}
  {book : Address → W → Ledger Address} {Sound : Address → W → Prop} {S : Finset Address}
  {m : Movement} {log : Log} {logs : List Log} {ev : TransferEvent} {msg : MsgConvertERC20}
  {res : EvmResult W}

/-! ## What happened in a transaction -/

/-- A log of no contract in scope, or a movement with the log that reports it. -/
abbrev TokenHappening := Happening Address Movement Log

/-- Which contract a positive transfer was logged by, and what the log says. -/
def readLog (log : Log) : Option (Address × (Address × Address × ℕ)) :=
  (transferOf log).map fun ev => (log.address, parts ev)

/-- **A trace of a transaction**: its logs in order, with the movements of the contracts in scope
between them. Nobody moves the module's tokens. -/
structure Trace (k : Keeper W) (book : Address → W → Ledger Address) (S : Finset Address) (w : W)
    (res : EvmResult W) (hs : List TokenHappening) : Prop where
  logs : hs.filterMap Happening.entry = res.logs
  fits : ∀ x ∈ hs, x.Fits S Movement.reported readLog
  posts : ∀ c ∈ S, (book c w).Posts ((Happening.stepsOf c hs).map Movement.entry)
    (book c res.world)
  spares : ∀ c ∈ S, ∀ m ∈ Happening.stepsOf c hs, m.entry.Spares k.moduleAddress

theorem reportedBy_eq_reportsOf : reportedBy c logs = Happening.reportsOf readLog c logs := by
  induction logs with
  | nil => rfl
  | cons log rest ih =>
    rw [Happening.reportsOf, List.filterMap_cons]
    by_cases haddr : log.address = c
    · rw [reportedBy_cons haddr, ih, readLog]
      cases transferOf log with
      | none => rfl
      | some ev => simp [haddr, Happening.reportsOf]
    · rw [reportedBy_cons_of_ne haddr, ih, readLog]
      cases transferOf log with
      | none => rfl
      | some ev => simp [haddr, Happening.reportsOf]

/-- **Every transaction of conforming contracts has a trace.** -/
theorem exists_trace {w : W} {accounts : Accounts} {tx : Message}
    (heip20 : ∀ c ∈ S, Eip20 k c (book c) (Sound c)) (hs : ∀ c ∈ S, Sound c w)
    (happ : k.evm.applyMessage w accounts tx = .ok res) (hf : res.failed = false)
    (hsigner : tx.sender ≠ k.moduleAddress) : ∃ hs, Trace k book S w res hs := by
  -- outside the scope a contract has no movements to show
  have hmoved : ∀ c, ∃ ms : List Movement, c ∈ S →
      (book c w).Posts (ms.map Movement.entry) (book c res.world) ∧
        (∀ m ∈ ms, m.entry.Spares k.moduleAddress) ∧
        reportedBy c res.logs = ms.filterMap Movement.reported := by
    intro c
    by_cases hc : c ∈ S
    · obtain ⟨-, ms, hms⟩ := (heip20 c hc).moved (hs c hc) happ hf fun hm => hsigner hm.1
      exact ⟨ms, fun _ => hms⟩
    · exact ⟨[], fun hc' => absurd hc' hc⟩
  choose steps hsteps using hmoved
  -- the movements report what the logs say, contract by contract, so they interleave with them
  obtain ⟨hs, hlogs, hof, hfits⟩ := Happening.exists_interleaving Movement.reported readLog
    res.logs steps fun c (hc : c ∈ S) => by rw [← (hsteps c hc).2.2, reportedBy_eq_reportsOf]
  refine ⟨hs, hlogs, hfits, fun c hc => ?_, fun c hc => ?_⟩
  · rw [hof c hc]
    exact (hsteps c hc).1
  · rw [hof c hc]
    exact (hsteps c hc).2.1

/-! ## The replay -/

/-- A transfer to the module: who sent how much. -/
def conversionOf (module : Address) : Movement → Option (Address × ℕ)
  | .transfer a b n => if b = module ∧ 0 < n then some (a, n) else none
  | _ => none

/-- A movement was carried out as it was, by whatever message did it. -/
structure Kept (book : Address → W → Ledger Address) (Sound : Address → W → Prop)
    (S : Finset Address) (c : Address) (m : Movement) (s v : State W) : Prop where
  bank : v.bank = s.bank
  config : v.config = s.config
  accounts : ∀ x, (s.accounts x).isSome = true → (v.accounts x).isSome = true
  moved : book c v.evm = (book c s.evm).post m.entry
  others : ∀ c' ∈ S, c' ≠ c → book c' v.evm = book c' s.evm
  sound : ∀ c' ∈ S, Sound c' v.evm

/-- The message of the user `a` that converts `n` tokens of the contract `c` for herself. -/
structure OwnConversion (k : Keeper W) (c a : Address) (n : ℕ) (msg : MsgConvertERC20) :
    Prop where
  contract : HexSpelling msg.contractAddress c
  amount : msg.amount.val = n
  sender : HexSpelling msg.sender a
  receiver : k.accAddressFromBech32 msg.receiver = .ok a.bytes

/-- One step of the replay: a foreign log is passed over, a transfer to the module is the message
of its sender, and every other movement is kept. -/
inductive ReplayStep (k : Keeper W) (book : Address → W → Ledger Address)
    (Sound : Address → W → Prop) (S : Finset Address) : TokenHappening → State W → State W → Prop
  | outside (log : Log) (s : State W) : ReplayStep k book Sound S (.outside log) s s
  | kept {c m e s v} : conversionOf k.moduleAddress m = none → Kept book Sound S c m s v →
      ReplayStep k book Sound S (.step c m e) s v
  | converted {c m e s v a n msg} : conversionOf k.moduleAddress m = some (a, n) →
      OwnConversion k c a n msg → submitConvertERC20 k msg s = .ok () v →
      ReplayStep k book Sound S (.step c m e) s v

/-- The replay of a trace. -/
inductive Replay (k : Keeper W) (book : Address → W → Ledger Address)
    (Sound : Address → W → Prop) (S : Finset Address) :
    List TokenHappening → State W → State W → Prop
  | nil (s : State W) : Replay k book Sound S [] s s
  | cons {x hs s v t} : ReplayStep k book Sound S x s v → Replay k book Sound S hs v t →
      Replay k book Sound S (x :: hs) s t

/-- The replay does not get stuck at `x`: a kept movement is covered, and a message succeeds,
however it is spelled. -/
def CanReplay (k : Keeper W) (book : Address → W → Ledger Address) (s : State W) :
    TokenHappening → Prop
  | .outside _ => True
  | .step c m _ => (conversionOf k.moduleAddress m = none → (book c s.evm).Allows m.entry) ∧
      ∀ a n msg, conversionOf k.moduleAddress m = some (a, n) → OwnConversion k c a n msg →
        ∃ v, submitConvertERC20 k msg s = .ok () v

/-- What the replay of a history takes from outside: worlds in which the kept movements are made,
and texts of the addresses that convert. -/
structure Replayable (k : Keeper W) (book : Address → W → Ledger Address)
    (Sound : Address → W → Prop) (S : Finset Address) (hs : List TokenHappening) : Prop where
  keeps : ∀ c m e, .step c m e ∈ hs → conversionOf k.moduleAddress m = none → ∀ s : State W,
    (∀ c' ∈ S, Sound c' s.evm) → (book c s.evm).Allows m.entry →
    ∃ v, Kept book Sound S c m s v
  texts : ∀ c m e, .step c m e ∈ hs → ∀ a n, conversionOf k.moduleAddress m = some (a, n) →
    ∃ msg, OwnConversion k c a n msg

theorem Replayable.tail {x : TokenHappening} {hs : List TokenHappening}
    (h : Replayable k book Sound S (x :: hs)) : Replayable k book Sound S hs where
  keeps c m e hx := h.keeps c m e (List.mem_cons_of_mem _ hx)
  texts c m e hx := h.texts c m e (List.mem_cons_of_mem _ hx)

/-! ## What the contracts and the machine are asked for -/

/-- What the pair's contract does, by its owner. -/
inductive Service (k : Keeper W) (p : TokenPair) (book : W → Ledger Address)
    (Sound : W → Prop) : Prop where
  | ofModule (owner : p.contractOwner = .OWNER_MODULE)
      (serves : Serves k p.getERC20Contract book Sound)
  | ofOthers (owner : p.contractOwner = .OWNER_EXTERNAL)
      (honours : HonoursAll k p.getERC20Contract book Sound)

/-- A registered pair with a conforming contract, enabled or not. -/
structure Tracked (k : Keeper W) (r : Registry) (p : TokenPair) (book : W → Ledger Address)
    (Sound : W → Prop) : Prop where
  stored : Stored r p
  denom : reDnm p.denom.toList = true
  eip20 : Eip20 k p.getERC20Contract book Sound
  service : Service k p book Sound

/-- **A solvent pair**: the escrow covers the tokens of a module-owned one, and the module's
tokens cover the coins of an external one. -/
structure PairSolvent (k : Keeper W) (p : TokenPair) (L : Ledger Address) (s : State W) :
    Prop where
  covered : (s.bank.ledger p.denom).Covered
  bounded : (s.bank.ledger p.denom).supply < intBound
  escrow : p.contractOwner = .OWNER_MODULE →
    L.supply ≤ (s.bank.ledger p.denom).bal k.moduleAddress.bytes
  backing : p.contractOwner = .OWNER_EXTERNAL →
    (s.bank.ledger p.denom).supply ≤ L.bal k.moduleAddress

/-- A call of one contract in scope leaves the others as they are. -/
def Separate (k : Keeper W) (book : Address → W → Ledger Address) (Sound : Address → W → Prop)
    (S : Finset Address) : Prop :=
  ∀ {w accounts sender nonce c m args res}, c ∈ S →
    m ∈ [Method.transfer, .burn, .burnCoins] → Sound c w →
    k.evm.applyMessage w accounts ⟨sender, some c, nonce, .call m args⟩ = .ok res →
    ∀ c' ∈ S, c' ≠ c → Sound c' w → book c' res.world = book c' w ∧ Sound c' res.world

/-- No message removes an account. -/
def KeepsAccounts (k : Keeper W) : Prop :=
  ∀ {w accounts tx res}, k.evm.applyMessage w accounts tx = .ok res →
    ∀ x, (accounts x).isSome = true → (res.accounts x).isSome = true

/-- An ordinary user: not the zero address, not blocked, and with an account to sign with. -/
structure Ordinary (k : Keeper W) (s : State W) (a : Address) : Prop where
  nonzero : a ≠ zeroAddress
  unblocked : k.blockedAddr a.bytes = false
  account : (s.accounts a.bytes).isSome = true

/-! ## Only the bank decides -/

/-- The same coins, and the same of them locked. -/
def SameBank (s t : State W) : Prop :=
  t.bank.ledger = s.bank.ledger ∧ t.bank.locked = s.bank.locked

namespace SameBank

variable {b : AccAddress} {coin : Coin}

theorem canRelease (hb : SameBank s t) : CanRelease k t b coin ↔ CanRelease k s b coin := by
  simp only [CanRelease, CanSpend, Fits, spendable, hb.1, hb.2]

theorem canMint (hb : SameBank s t) : CanMint k t coin ↔ CanMint k s coin := by
  simp only [CanMint, hb.1]

theorem of_minted (hb : SameBank s t) :
    SameBank (mintedCoin k s coin) (mintedCoin k t coin) := by
  refine ⟨?_, ?_⟩
  · funext d
    simp only [ledger_mintedCoin, hb.1]
  · have hs := congrArg Config.locked (mintedCoin_config (k := k) (s := s) (c := coin))
    have ht := congrArg Config.locked (mintedCoin_config (k := k) (s := t) (c := coin))
    exact (ht.trans hb.2).trans hs.symm

theorem ledger_moved_eq {x : AccAddress} (hb : SameBank s t) :
    (moved t x b coin).bank.ledger = (moved s x b coin).bank.ledger := by
  funext d
  simp only [ledger_moved, hb.1]

end SameBank

/-- The state after the pair's coin was paid out to `b`: from the escrow, or newly minted. -/
def paidOut (k : Keeper W) (p : TokenPair) (s : State W) (b : AccAddress) (coin : Coin) :
    State W :=
  if p.contractOwner = .OWNER_MODULE then moved s k.moduleAddress.bytes b coin
  else moved (mintedCoin k s coin) k.moduleAddress.bytes b coin

/-- A conversion of the contract `c` ended with the balances `L` and touched no other contract
in scope. -/
structure Booked (book : Address → W → Ledger Address) (Sound : Address → W → Prop)
    (S : Finset Address) (c : Address) (L : Ledger Address) (s v : State W) : Prop where
  config : v.config = s.config
  booked : book c v.evm = L
  others : ∀ c' ∈ S, c' ≠ c → book c' v.evm = book c' s.evm
  sound : ∀ c' ∈ S, Sound c' v.evm

theorem isSome_ensureAccount {x y : AccAddress} (hx : (s.accounts x).isSome = true) :
    ((s.ensureAccount y).accounts x).isSome = true := by
  rw [State.accounts_ensureAccount]
  split
  · rfl
  · exact hx

theorem isSome_afterMessage {sender : Address} {nonce : ℕ} {x : AccAddress}
    (hx : (res.accounts x).isSome = true) :
    ((afterMessage s sender nonce res).accounts x).isSome = true := by
  simp only [afterMessage, Function.update_apply]
  split
  · rfl
  · exact hx

/-! ## One conversion by the hook -/

section OneConversion

variable (hsep : Separate k book Sound S) (hpS : p.getERC20Contract ∈ S)
  (hsound : ∀ c ∈ S, Sound c h.evm)
include hsep hpS hsound

/-- What a committed call of one contract books. -/
theorem booked_of_committed {sender : Address} {args : List AbiArg} {method : Method}
    {L : Ledger Address} (hm : method ∈ [Method.transfer, .burn, .burnCoins])
    (hcom : Committed k h sender (some p.getERC20Contract) (.call method args) res v)
    (hs : Sound p.getERC20Contract res.world) (hL : book p.getERC20Contract res.world = L) :
    Booked book Sound S p.getERC20Contract L h v := by
  have hcfg := hcom.config_eq
  have hevm := hcom.evm_eq
  obtain ⟨nonce, -, happ, -⟩ := hcom
  refine ⟨hcfg, by rw [hevm, hL], fun c' hc' hne => ?_, fun c' hc' => ?_⟩
  · rw [hevm]
    exact (hsep hpS hm (hsound _ hpS) happ c' hc' hne (hsound c' hc')).1
  · rw [hevm]
    by_cases hne : c' = p.getERC20Contract
    · rw [hne]
      exact hs
    · exact (hsep hpS hm (hsound _ hpS) happ c' hc' hne (hsound c' hc')).2

omit hsep hpS in
/-- Nothing but the bank changed. -/
theorem booked_of_evm_eq (hcfg : v.config = h.config) (hevm : v.evm = h.evm) :
    Booked book Sound S c (book c h.evm) h v :=
  ⟨hcfg, by rw [hevm], fun _ _ _ => by rw [hevm], by rw [hevm]; exact hsound⟩

omit hsep hpS hsound in
theorem Booked.bank_change {L : Ledger Address} (hb : Booked book Sound S c L h v)
    (hcfg : t.config = v.config) (hevm : t.evm = v.evm) : Booked book Sound S c L h t :=
  ⟨hcfg.trans hb.config, hevm ▸ hb.booked, hevm ▸ hb.others, hevm ▸ hb.sound⟩

/-- The hook converts a transfer of module-owned tokens: it burns them and pays from the
escrow. -/
theorem convertLog_ofModule_ok (howner : p.contractOwner = .OWNER_MODULE)
    (hserves : Serves k p.getERC20Contract (book p.getERC20Contract) (Sound p.getERC20Contract))
    (hacc : (h.accounts k.moduleAddress.bytes).isSome = true)
    (hn : ev.tokens ≤ (book p.getERC20Contract h.evm).bal k.moduleAddress)
    (hrel : CanRelease k h ev.sender.bytes (logPayout p ev)) :
    ∃ h', convertLog k p p.getERC20Contract ev h = .ok () h' ∧
      h'.bank.ledger = (paidOut k p h ev.sender.bytes (logPayout p ev)).bank.ledger ∧
      (h'.accounts k.moduleAddress.bytes).isSome = true ∧
      Booked book Sound S p.getERC20Contract
        ((book p.getERC20Contract h.evm).burn k.moduleAddress ev.tokens) h h' := by
  obtain ⟨nonce, hnonce⟩ := Option.isSome_iff_exists.mp hacc
  obtain ⟨res, happ, hf, hs, hbook⟩ := hserves.burn (hsound _ hpS) hnonce hn
  have hcom : Committed k h k.moduleAddress (some p.getERC20Contract)
      (.call .burn [.uint256 ev.tokens]) res (afterMessage h k.moduleAddress nonce res) :=
    ⟨nonce, hnonce, happ, rfl⟩
  have hsame : SameBank h (afterMessage h k.moduleAddress nonce res) := ⟨rfl, rfl⟩
  refine ⟨_, convertLog_of_paid (.burned res howner hcom hf) (hsame.canRelease.mpr hrel), ?_, ?_,
    (booked_of_committed hsep hpS hsound (by decide) hcom hs hbook).bank_change moved_config
      moved_evm⟩
  · rw [paidOut, if_pos howner]
    exact hsame.ledger_moved_eq
  · exact isSome_ensureAccount (by simp [afterMessage])

omit hsep hpS in
/-- The hook converts a transfer of external tokens: it mints the coins and pays them out. -/
theorem convertLog_ofOthers_ok (howner : p.contractOwner = .OWNER_EXTERNAL)
    (hmint : CanMint k h (logPayout p ev))
    (hrel : CanRelease k (mintedCoin k h (logPayout p ev)) ev.sender.bytes (logPayout p ev)) :
    ∃ h', convertLog k p p.getERC20Contract ev h = .ok () h' ∧
      h'.bank.ledger = (paidOut k p h ev.sender.bytes (logPayout p ev)).bank.ledger ∧
      (h'.accounts k.moduleAddress.bytes).isSome = true ∧
      Booked book Sound S p.getERC20Contract (book p.getERC20Contract h.evm) h h' := by
  refine ⟨_, convertLog_of_paid (.minted howner hmint rfl) hrel, ?_, ?_,
    booked_of_evm_eq hsound (by rw [moved_config, mintedCoin_config])
      (by rw [moved_evm, mintedCoin_evm])⟩
  · rw [paidOut, if_neg (by simp [howner])]
  · obtain ⟨nonce, hnonce⟩ := h.exists_accounts_ensureAccount k.moduleAddress.bytes
    exact isSome_ensureAccount (Option.isSome_iff_exists.mpr ⟨nonce, hnonce⟩)

end OneConversion

/-! ## One conversion by message -/

namespace OwnConversion

variable (hmsg : OwnConversion k p.getERC20Contract a ev.tokens msg)
include hmsg

theorem sender_eq : hexToAddress msg.sender = a := (hexSpelling_iff.mp hmsg.sender).2

theorem receiver_eq : decodeOrEmpty k msg.receiver = a.bytes := by
  rw [decodeOrEmpty, hmsg.receiver]

/-- The message and the log pay out the same coin. -/
theorem payout_eq : payout p msg = logPayout p ev := by
  have hamount : msg.amount = ev.amount := SdkInt.ext hmsg.amount
  rw [payout, hamount]
  rfl

theorem submit_eq (hn : 0 < ev.tokens) :
    submitConvertERC20 k msg u = convertERC20 k msg u := by
  refine submitConvertERC20_of_valid
    (validateBasic_convertERC20 hmsg.contract ?_ hmsg.receiver hmsg.sender)
  rw [hmsg.amount]
  exact Int.natCast_pos.mpr hn

/-- The user's message is admitted while the module is on. -/
theorem admits (hcons : RegistryConsistent k u.registry) (hp : Stored u.registry p)
    (hon : u.params.enableIntrarelayer = true) (hen : p.enabled = true)
    (hunblocked : k.blockedAddr a.bytes = false) :
    Admits k u (hexToAddress msg.sender).bytes (decodeOrEmpty k msg.receiver)
      msg.contractAddress p := by
  rw [hmsg.sender_eq, hmsg.receiver_eq]
  exact ⟨hon, ⟨_, hcons.getTokenPairID_of_hexSpelling hp hmsg.contract,
    hcons.getTokenPair_getID hp⟩, hen, hunblocked, .inl rfl⟩

end OwnConversion

section OneMessage

variable (hsep : Separate k book Sound S) (hpS : p.getERC20Contract ∈ S)
  (hsound : ∀ c ∈ S, Sound c u.evm) (hmsg : OwnConversion k p.getERC20Contract a ev.tokens msg)
  (hadm : Admits k u (hexToAddress msg.sender).bytes (decodeOrEmpty k msg.receiver)
    msg.contractAddress p) (hkeeps : KeepsAccounts k) (hzero : a ≠ zeroAddress)
include hsep hpS hsound hmsg hadm hkeeps hzero

/-- The message converts module-owned tokens: they are burned, and the escrow pays. -/
theorem convertERC20_ofModule_ok (howner : p.contractOwner = .OWNER_MODULE)
    (hserves : Serves k p.getERC20Contract (book p.getERC20Contract) (Sound p.getERC20Contract))
    (hacc : (u.accounts k.moduleAddress.bytes).isSome = true)
    (hn : ev.tokens ≤ (book p.getERC20Contract u.evm).bal a)
    (hrel : CanRelease k u a.bytes (logPayout p ev)) :
    ∃ v, convertERC20 k msg u = .ok () v ∧
      v.bank.ledger = (paidOut k p u a.bytes (logPayout p ev)).bank.ledger ∧
      (∀ x, (u.accounts x).isSome = true → (v.accounts x).isSome = true) ∧
      Booked book Sound S p.getERC20Contract
        ((book p.getERC20Contract u.evm).burn a ev.tokens) u v := by
  obtain ⟨nonce, hnonce⟩ := Option.isSome_iff_exists.mp hacc
  -- the message burns at the contract exactly what the log reported
  obtain ⟨res, happ, hf, hs, hbook⟩ := hserves.burnCoins (hsound _ hpS) hnonce hzero hn
  have hcom : Committed k u k.moduleAddress (some p.getERC20Contract)
      (.call .burnCoins [.address a, .uint256 ev.tokens]) res
      (afterMessage u k.moduleAddress nonce res) := ⟨nonce, hnonce, happ, rfl⟩
  -- the call touches no coins, so the escrow can still release them
  have hsame : SameBank u (afterMessage u k.moduleAddress nonce res) := ⟨rfl, rfl⟩
  have hflow : convertERC20NativeCoin k p msg (decodeOrEmpty k msg.receiver)
      (hexToAddress msg.sender) u = .ok () (moved (afterMessage u k.moduleAddress nonce res)
        k.moduleAddress.bytes a.bytes (logPayout p ev)) := by
    rw [hmsg.sender_eq, hmsg.receiver_eq]
    refine convertERC20NativeCoin_ok_iff.mpr
      ⟨res, afterMessage u k.moduleAddress nonce res, ?_, hf, ?_, ?_⟩
    · exact hmsg.payout_eq ▸ hcom
    · rw [hmsg.payout_eq]
      exact hsame.canRelease.mpr hrel
    · rw [hmsg.payout_eq]
  -- both sides move the same coin between the same accounts
  refine ⟨_, convertERC20_ok_iff.mpr ⟨p, hadm, .inl ⟨howner, hflow⟩⟩, ?_, fun x hx => ?_,
    (booked_of_committed hsep hpS hsound (by decide) hcom hs hbook).bank_change moved_config
      moved_evm⟩
  · rw [paidOut, if_pos howner]
    exact hsame.ledger_moved_eq
  · exact isSome_ensureAccount (isSome_afterMessage (s := u) (hkeeps happ x hx))

/-- The message converts external tokens: the user sends them to the module, and the coins are
minted and paid out. -/
theorem convertERC20_ofOthers_ok (howner : p.contractOwner = .OWNER_EXTERNAL)
    (heip20 : Eip20 k p.getERC20Contract (book p.getERC20Contract) (Sound p.getERC20Contract))
    (hhonours : HonoursAll k p.getERC20Contract (book p.getERC20Contract)
      (Sound p.getERC20Contract))
    (hacc : (u.accounts a.bytes).isSome = true) (hmodule : k.moduleAddress ≠ zeroAddress)
    (hn : ev.tokens ≤ (book p.getERC20Contract u.evm).bal a)
    (hmint : CanMint k u (logPayout p ev))
    (hrel : CanRelease k (mintedCoin k u (logPayout p ev)) a.bytes (logPayout p ev)) :
    ∃ v, convertERC20 k msg u = .ok () v ∧
      v.bank.ledger = (paidOut k p u a.bytes (logPayout p ev)).bank.ledger ∧
      (∀ x, (u.accounts x).isSome = true → (v.accounts x).isSome = true) ∧
      Booked book Sound S p.getERC20Contract
        ((book p.getERC20Contract u.evm).move a k.moduleAddress ev.tokens) u v := by
  obtain ⟨nonce, hnonce⟩ := Option.isSome_iff_exists.mp hacc
  -- the message transfers the reported tokens to the module, and the contract honours it
  obtain ⟨res, happ, hf, hret⟩ := hhonours (hsound _ hpS) hnonce hzero hmodule hn
  obtain ⟨hs, ⟨-, -, hbook⟩ | ⟨hfalse, -⟩⟩ := heip20.transferred (hsound _ hpS) happ hf
  swap
  · -- it did not return false
    rw [hret] at hfalse
    exact absurd hfalse (by decide)
  have hcom : Committed k u a (some p.getERC20Contract)
      (.call .transfer [.address k.moduleAddress, .uint256 ev.tokens]) res
      (afterMessage u a nonce res) := ⟨nonce, hnonce, happ, rfl⟩
  have hsame : SameBank u (afterMessage u a nonce res) := ⟨rfl, rfl⟩
  have hflow : convertERC20NativeToken k p msg (decodeOrEmpty k msg.receiver)
      (hexToAddress msg.sender) u = .ok () (moved (mintedCoin k (afterMessage u a nonce res)
        (logPayout p ev)) k.moduleAddress.bytes a.bytes (logPayout p ev)) := by
    rw [hmsg.sender_eq, hmsg.receiver_eq]
    refine convertERC20NativeToken_ok_iff.mpr
      ⟨res, afterMessage u a nonce res, ?_, hf, ?_, ?_, ?_, ?_⟩
    -- the call touches no coins, so the mint and the payout are those of the hook
    · exact hmsg.payout_eq ▸ hcom
    · rw [hret]
      exact unpackBool_word (b := true)
    · rw [hmsg.payout_eq]
      exact hsame.canMint.mpr hmint
    · rw [hmsg.payout_eq]
      exact hsame.of_minted.canRelease.mpr hrel
    · rw [hmsg.payout_eq]
  refine ⟨_, convertERC20_ok_iff.mpr ⟨p, hadm, .inr ⟨howner, hflow⟩⟩, ?_, fun x hx => ?_,
    (booked_of_committed hsep hpS hsound (by decide) hcom hs hbook).bank_change
      (by rw [moved_config, mintedCoin_config]) (by rw [moved_evm, mintedCoin_evm])⟩
  · rw [paidOut, if_neg (by simp [howner])]
    exact hsame.of_minted.ledger_moved_eq
  · exact isSome_ensureAccount
      (isSome_ensureAccount (isSome_afterMessage (s := u) (hkeeps happ x hx)))

end OneMessage

end GenesisEthermint.Conversion
