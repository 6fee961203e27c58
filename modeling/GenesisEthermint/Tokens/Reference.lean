import GenesisEthermint.Tokens.Conformance

/-!
# A Reference Machine

An executable virtual machine whose only contracts are OpenZeppelin tokens. It answers calls,
deploys the token, and runs a transaction's other payloads as a script of token calls that is
reverted as a whole when one of them reverts.

It is one machine among those the development quantifies over. It shows that the assumptions
made about contracts can be met, and it runs the concrete histories.
-/

namespace GenesisEthermint.Tokens

open GenesisEthermint.Foundation GenesisEthermint.Types GenesisEthermint.Chain
open GenesisEthermint.Intrarelayer

/-- The contracts in existence. -/
abbrev TokenWorld := Address → Option OzToken

/-- One token call: caller, contract, method and arguments. -/
structure TokenCall where
  caller : Address
  contract : Address
  method : Method
  args : List AbiArg

/-- Run one call. A call to an address without code succeeds and returns nothing. -/
def TokenWorld.call (w : TokenWorld) (c : TokenCall) :
    Option (TokenWorld × List UInt8 × List Log) :=
  match w c.contract with
  | none => some (w, [], [])
  | some t =>
    (t.exec c.contract c.caller c.method c.args).map fun r =>
      (Function.update w c.contract (some r.token), r.ret, r.logs)

/-- Run calls in order, collecting their logs. -/
def TokenWorld.script (w : TokenWorld) : List TokenCall → Option (TokenWorld × List Log)
  | [] => some (w, [])
  | c :: rest => do
    let (w, _, logs) ← w.call c
    let (w, logs') ← w.script rest
    return (w, logs ++ logs')

/-- A freshly deployed token: the deployer holds both roles. -/
def deployedToken (deployer : Address) (name symbol : String) : OzToken where
  name := name
  symbol := symbol
  decimals := 18
  ledger := ⟨fun _ => 0, 0⟩
  allowance := fun _ _ => 0
  minter := fun a => a == deployer
  burner := fun a => a == deployer
  covered := fun S => by simp
  bounded := by decide

/-- The result of a message whose execution reverted. -/
def reverted (w : TokenWorld) (accounts : Accounts) : EvmResult TokenWorld where
  world := w
  accounts := accounts
  vmError := "execution reverted"
  ret := []
  logs := []

/-- The reference machine. `decode` is the code behind payloads that are not method calls. -/
def referenceEvm (createAddress : Address → ℕ → Address)
    (decode : Address → List UInt8 → List TokenCall) : Evm TokenWorld where
  applyMessage w accounts msg :=
    match msg.toAddr, msg.data with
    | some contract, .call method args =>
      match w.call ⟨msg.sender, contract, method, args⟩ with
      | none => .ok (reverted w accounts)
      | some (w, ret, logs) => .ok ⟨w, accounts, "", ret, logs⟩
    | some _, .raw data =>
      match w.script (decode msg.sender data) with
      | none => .ok (reverted w accounts)
      | some (w, logs) => .ok ⟨w, accounts, "", [], logs⟩
    | none, .create name symbol =>
      let contract := createAddress msg.sender msg.nonce
      -- an address that has code already is a collision
      if (w contract).isSome then .ok (reverted w accounts)
      else .ok {
        world := Function.update w contract (some (deployedToken msg.sender name symbol))
        accounts := Function.update accounts msg.sender.bytes (some (msg.nonce + 1))
        vmError := ""
        ret := []
        logs := [] }
    | _, _ => .ok ⟨w, accounts, "", [], []⟩

/-! ## Its contracts are OpenZeppelin tokens -/

/-- The token at an address that has one. -/
def tokenAt (c : Address) (w : TokenWorld) : OzToken := (w c).getD (deployedToken c "" "")

section Conforms

variable {c : Address} {w w' : TokenWorld} {call : TokenCall} {calls : List TokenCall}
  {ret : List UInt8} {logs : List Log}

/-- A call of the contract executes its token. -/
theorem TokenWorld.call_self (hc : (w c).isSome = true) (haddr : call.contract = c) :
    w.call call = ((tokenAt c w).exec c call.caller call.method call.args).map fun r =>
      (Function.update w c (some r.token), r.ret, r.logs) := by
  obtain ⟨t, ht⟩ := Option.isSome_iff_exists.mp hc
  simp only [TokenWorld.call, haddr, ht, tokenAt, Option.getD_some]

/-- A call of another contract leaves this one alone and logs nothing for it. -/
theorem TokenWorld.call_other (haddr : call.contract ≠ c)
    (h : w.call call = some (w', ret, logs)) :
    w' c = w c ∧ logs.filter (·.address = c) = [] := by
  unfold TokenWorld.call at h
  cases ht : w call.contract with
  | none =>
    simp only [ht, Option.some.injEq, Prod.mk.injEq] at h
    obtain ⟨rfl, -, rfl⟩ := h
    exact ⟨rfl, rfl⟩
  | some t =>
    simp only [ht, Option.map_eq_some_iff, Prod.mk.injEq] at h
    obtain ⟨r, hr, rfl, -, rfl⟩ := h
    refine ⟨Function.update_of_ne (Ne.symm haddr) _ _, List.filter_eq_nil_iff.mpr ?_⟩
    intro log hlog
    have hself := (OzToken.exec_spec hr).effect.address_logs log hlog
    simp [hself, haddr]

/-- The part of a script that concerns one contract. -/
def invocationsOf (c : Address) (calls : List TokenCall) : List OzToken.Invocation :=
  (calls.filter (·.contract = c)).map fun call => ⟨call.caller, call.method, call.args⟩

theorem TokenWorld.script_execAll (hc : (w c).isSome = true)
    (h : w.script calls = some (w', logs)) :
    (w' c).isSome = true ∧ OzToken.execAll c (tokenAt c w) (invocationsOf c calls) =
      some (tokenAt c w', logs.filter (·.address = c)) := by
  induction calls generalizing w logs with
  | nil =>
    simp only [script, Option.some.injEq, Prod.mk.injEq] at h
    obtain ⟨rfl, rfl⟩ := h
    exact ⟨hc, rfl⟩
  | cons call rest ih =>
    simp only [script, Option.bind_eq_bind, Option.bind_eq_some_iff, Option.pure_def,
      Option.some.injEq, Prod.mk.injEq] at h
    obtain ⟨⟨w₁, ret, logs₁⟩, hcall, ⟨w₂, logs₂⟩, hrest, rfl, rfl⟩ := h
    -- the trace of `c` is the trace of the calls that reach `c`, in their order
    simp only [List.filter_append]
    by_cases haddr : call.contract = c
    -- this call reaches `c`: its logs stay in the filtered trace
    · rw [TokenWorld.call_self hc haddr] at hcall
      obtain ⟨r, hr, heq⟩ := Option.map_eq_some_iff.mp hcall
      obtain ⟨rfl, rfl, rfl⟩ := by simpa only [Prod.mk.injEq] using heq
      have htok : tokenAt c (Function.update w c (some r.token)) = r.token := by
        simp [tokenAt]
      obtain ⟨hc₂, hexec⟩ := ih (by simp) hrest
      have hself : r.logs.filter (·.address = c) = r.logs :=
        List.filter_eq_self.mpr fun log hlog => by
          simpa using (OzToken.exec_spec hr).effect.address_logs log hlog
      rw [htok] at hexec
      refine ⟨hc₂, ?_⟩
      simp [invocationsOf, haddr, OzToken.execAll, hr, hself] at hexec ⊢
      simp [hexec]
    -- this call reaches another contract: `c` is as it was, and no log is kept
    · obtain ⟨hw, hlogs⟩ := TokenWorld.call_other haddr hcall
      have hc₁ : (w₁ c).isSome = true := by
        rw [hw]
        exact hc
      obtain ⟨hc₂, hexec⟩ := ih hc₁ hrest
      refine ⟨hc₂, ?_⟩
      have htok : tokenAt c w₁ = tokenAt c w := by rw [tokenAt, tokenAt, hw]
      rw [htok] at hexec
      simpa [invocationsOf, haddr, hlogs] using hexec

/-- A message whose execution failed leaves the world as it was. -/
theorem world_of_failed {createAddress : Address → ℕ → Address}
    {decode : Address → List UInt8 → List TokenCall} {accounts : Accounts} {msg : Message}
    {res : EvmResult TokenWorld}
    (h : (referenceEvm createAddress decode).applyMessage w accounts msg = .ok res)
    (hf : res.failed = true) : res.world = w := by
  simp only [referenceEvm] at h
  split at h
  · split at h
    · obtain rfl := Except.ok.inj h
      rfl
    · obtain rfl := Except.ok.inj h
      simp [EvmResult.failed] at hf
  · split at h
    · obtain rfl := Except.ok.inj h
      rfl
    · obtain rfl := Except.ok.inj h
      simp [EvmResult.failed] at hf
  · split at h
    · obtain rfl := Except.ok.inj h
      rfl
    · obtain rfl := Except.ok.inj h
      simp [EvmResult.failed] at hf
  · obtain rfl := Except.ok.inj h
    simp [EvmResult.failed] at hf

/-- **The contracts of the reference machine are OpenZeppelin tokens**, provided that no script
calls in the module's name. -/
theorem ozContract_of_referenceEvm {k : Keeper TokenWorld}
    {createAddress : Address → ℕ → Address} {decode : Address → List UInt8 → List TokenCall}
    (hevm : k.evm = referenceEvm createAddress decode)
    (hdecode : ∀ a data, ∀ call ∈ decode a data, call.caller ≠ k.moduleAddress) (c : Address) :
    OzContract k c (tokenAt c) (fun w => (w c).isSome = true) where
  reverted := by
    -- a failed transaction leaves the world as it was
    intro w accounts msg res hs happ hf
    rw [hevm] at happ
    rw [world_of_failed happ hf]
    exact ⟨hs, rfl⟩
  called := by
    intro w accounts sender nonce m args res hs _ happ
    rw [hevm] at happ
    simp only [referenceEvm] at happ
    have hcall : TokenWorld.call w ⟨sender, c, m, args⟩ = _ := TokenWorld.call_self hs rfl
    -- the method itself decides: it refuses, and the call is reverted, or it returns
    cases hexec : (tokenAt c w).exec c sender m args with
    | none =>
      simp only [hcall, hexec, Option.map_none] at happ
      obtain rfl := Except.ok.inj happ
      exact ⟨hs, .inl ⟨rfl, rfl⟩⟩
    | some r =>
      simp only [hcall, hexec, Option.map_some] at happ
      obtain rfl := Except.ok.inj happ
      -- a contract logs at its own address only
      have hself : r.logs.filter (·.address = c) = r.logs :=
        List.filter_eq_self.mpr fun log hlog => by
          simpa using (OzToken.exec_spec hexec).effect.address_logs log hlog
      exact ⟨by simp, .inr ⟨r, rfl, rfl, by simp [tokenAt], rfl, hself⟩⟩
  others := by
    intro w accounts msg res hs happ hf hm
    rw [hevm] at happ
    simp only [referenceEvm] at happ
    -- `to` and the data of the message say which of the four shapes it has
    split at happ
    · -- a plain call, of this contract or of another one
      rename_i contract method args hto hdata
      cases hcall : w.call ⟨msg.sender, contract, method, args⟩ with
      | none =>
        simp only [hcall] at happ
        obtain rfl := Except.ok.inj happ
        simp [EvmResult.failed, reverted] at hf
      | some out =>
        obtain ⟨w', ret, logs⟩ := out
        simp only [hcall] at happ
        obtain rfl := Except.ok.inj happ
        -- one call is a script of one call
        have hscript : w.script [⟨msg.sender, contract, method, args⟩] = some (w', logs) := by
          simp [TokenWorld.script, hcall]
        obtain ⟨hs', hexec⟩ := TokenWorld.script_execAll hs hscript
        refine ⟨hs', _, ?_, hexec⟩
        -- the module calls the contract through `called`, never here
        intro i hi
        simp only [invocationsOf, List.mem_map, List.mem_filter, List.mem_singleton,
          decide_eq_true_eq] at hi
        obtain ⟨call, ⟨rfl, hcontract⟩, rfl⟩ := hi
        exact fun hsender => hm ⟨hsender, hto.trans (congrArg some hcontract)⟩
    · -- a script
      rename_i contract data hto hdata
      cases hscript : w.script (decode msg.sender data) with
      | none =>
        simp only [hscript] at happ
        obtain rfl := Except.ok.inj happ
        simp [EvmResult.failed, reverted] at hf
      | some out =>
        obtain ⟨w', logs⟩ := out
        simp only [hscript] at happ
        obtain rfl := Except.ok.inj happ
        obtain ⟨hs', hexec⟩ := TokenWorld.script_execAll hs hscript
        refine ⟨hs', _, ?_, hexec⟩
        intro i hi
        simp only [invocationsOf, List.mem_map, List.mem_filter] at hi
        obtain ⟨call, ⟨hcall, -⟩, rfl⟩ := hi
        exact hdecode _ _ call hcall
    · -- a deployment, never at an address with code
      split at happ
      · obtain rfl := Except.ok.inj happ
        simp [EvmResult.failed, reverted] at hf
      · rename_i hfree
        obtain rfl := Except.ok.inj happ
        have hne : c ≠ createAddress msg.sender msg.nonce := by
          rintro rfl
          exact hfree hs
        refine ⟨by simpa [Function.update_of_ne hne] using hs, [], by simp, ?_⟩
        simp [OzToken.execAll, tokenAt, Function.update_of_ne hne]
    -- anything else is accepted and does nothing
    · obtain rfl := Except.ok.inj happ
      exact ⟨hs, [], by simp, rfl⟩

end Conforms

/-! ## A deployment

The addresses below are spelled with decimal digits only, which no checksum touches. Digests,
derived addresses and Bech32 texts are the real ones for the values that occur. -/

/-- A digest from its value. -/
def hashOf (n : ℕ) : Hash := ⟨beBytes 32 n, length_beBytes 32 n⟩

/-- An address from its value. -/
def addressOf (n : ℕ) : Address := ⟨beBytes 20 n, length_beBytes 20 n⟩

/-- SHA-256 of the pair texts that occur. Any other text is mapped to its last bytes. -/
def tmhashTable : List (String × ℕ) := [
    ("0x1111111111111111111111111111111111111111|" ++
        "intrarelayer/0x1111111111111111111111111111111111111111",
      0xe67fbf30d7c0cc855ac689f8ed8f57050f2da9d8f9d7c0c5038f7fd1d9782bd7),
    ("0x2222222222222222222222222222222222222222|" ++
        "intrarelayer/0x2222222222222222222222222222222222222222",
      0x1508a2485012e2a084c734738b71b86133a0e88cca8729520faa30733c34d700),
    ("0x2222222222222222222222222222222222222222|" ++
        "intrarelayer/0x1111111111111111111111111111111111111111",
      0x881de3cc1aed1bc37a6bd3161b963b54cf8e30efb19abea7bb351d814e8fb204),
    ("0x5555555555555555555555555555555555555555|acoin",
      0xeaebc26723d6b3225c8d79a5a1a1ada50cbd60ddd8dfd9d4be1daf5d09db8b81)]

/-- The addresses of the application's module accounts. -/
def moduleAddressTable : List (String × ℕ) := [
    ("fee_collector", 0xf1829676db577682e944fc3493d451b67ff3e29f),
    ("distribution", 0x93354845030274cd4bf1686abd60ab28ec52e1a7),
    ("mint", 0xdc6f17bbec824fff8f86587966b2047db6ab7367),
    ("bonded_tokens_pool", 0x4fea76427b8345861e80a3540a8a9d936fd39391),
    ("not_bonded_tokens_pool", 0x5911b844d7bc224654fe0dcd16babd2d253f2fdf),
    ("gov", 0x7b5fe22b5446f7c62ea27b8bd71cef94e03f3df2),
    ("transfer", 0x27f576cafbb263ed44be8bd094f66114da268777),
    ("evm", 0x603871c2ddd41c26ee77495e2e31e6de7f9957e0),
    ("intrarelayer", 0xa64ca24e8d45ca9e1d4ec5e0fd4b5c5bbb37989e)]

/-- The Bech32 texts of the two users. -/
def bech32Table : List (String × ℕ) := [
    ("genesis1xvenxvenxvenxvenxvenxvenxvenxvenzh30tl", 0x3333333333333333333333333333333333333333),
    ("genesis1g3zyg3zyg3zyg3zyg3zyg3zyg3zyg3zyacesd3", 0x4444444444444444444444444444444444444444)]

/-- The addresses of the first contracts the module account creates. -/
def moduleContractTable : List (ℕ × ℕ) := [
    (0, 0x00819e780c6e96c50ed70efff5b73569c15d0bd7),
    (1, 0x921c0f285b0ed25757cddc97b8227ae165c3fae6),
    (2, 0x44ebb717e945b3df118f24592fab6160dfa63a62)]

/-- The module's own Ethereum address in this deployment. -/
def moduleAccount : Address := addressOf 0xa64ca24e8d45ca9e1d4ec5e0fd4b5c5bbb37989e

/-- The address of a created contract. Creators other than the module get a made-up one. -/
def referenceCreateAddress (a : Address) (nonce : ℕ) : Address :=
  match moduleContractTable.lookup nonce with
  | some n => if a = moduleAccount then addressOf n else bytesToAddress (a.bytes ++ [0])
  | none => bytesToAddress (a.bytes ++ beBytes 8 nonce)

/-- The keeper of the deployment over a given machine. -/
def keeperOver {W : Type} (evm : Evm W) : Keeper W where
  tmhashSum text := hashOf ((tmhashTable.lookup text).getD
    (beNat (text.toList.map fun c => UInt8.ofNat c.toNat)))
  keccak256 _ := hashOf 0
  createAddress := referenceCreateAddress
  newModuleAddress name := addressOf ((moduleAddressTable.lookup name).getD 0)
  accAddressFromBech32 s :=
    match bech32Table.lookup s with
    | some n => .ok (addressOf n).bytes
    | none => .error (.errorf "decoding bech32 failed")
  accAddressString a :=
    ((bech32Table.find? fun e => (addressOf e.2).bytes = a).map Prod.fst).getD ""
  evm := evm

/-- The machine on which every transaction is one plain token call. -/
def plainEvm : Evm TokenWorld := referenceEvm referenceCreateAddress fun _ _ => []

/-- The keeper over that machine. -/
def plainKeeper : Keeper TokenWorld := keeperOver plainEvm

theorem moduleAddress_keeperOver {W : Type} (evm : Evm W) :
    (keeperOver evm).moduleAddress = moduleAccount :=
  (by decide : addressOf ((moduleAddressTable.lookup ModuleName).getD 0) = moduleAccount)

theorem ozContract_plainKeeper (c : Address) :
    OzContract plainKeeper c (tokenAt c) (fun w => (w c).isSome = true) := by
  have hevm : plainKeeper.evm = referenceEvm referenceCreateAddress fun _ _ => [] := rfl
  exact ozContract_of_referenceEvm hevm (fun _ _ _ h => (List.not_mem_nil h).elim) c

theorem answers_plainKeeper (c : Address) :
    Answers plainKeeper c (fun w => (w c).isSome = true) := by
  intro w accounts sender nonce m args _ _
  simp only [plainKeeper, keeperOver, plainEvm, referenceEvm]
  split
  · exact ⟨_, rfl⟩
  · exact ⟨_, rfl⟩

/-- A ledger on which these amounts were booked in. -/
def ledgerOf {α : Type} [DecidableEq α] (holders : List (α × ℕ)) : Ledger α :=
  holders.foldl (fun L h => L.mint h.1 h.2) ⟨fun _ => 0, 0⟩

theorem covered_ledgerOf {α : Type} [DecidableEq α] (holders : List (α × ℕ)) :
    (ledgerOf holders).Covered := by
  suffices h : ∀ L : Ledger α, L.Covered →
      (holders.foldl (fun L h => L.mint h.1 h.2) L).Covered from
    h _ fun S => by simp
  induction holders with
  | nil => exact fun _ h => h
  | cons x rest ih => exact fun L h => ih _ (Ledger.covered_mint h)

def alice : Address := addressOf 0x3333333333333333333333333333333333333333

def bob : Address := addressOf 0x4444444444444444444444444444444444444444

def aliceBech32 : String := "genesis1xvenxvenxvenxvenxvenxvenxvenxvenzh30tl"

def bobBech32 : String := "genesis1g3zyg3zyg3zyg3zyg3zyg3zyg3zyg3zyacesd3"

/-- Two contracts of third parties, and the token the module deployed for `acoin`. -/
def tokenA : Address := addressOf 0x1111111111111111111111111111111111111111

def tokenB : Address := addressOf 0x2222222222222222222222222222222222222222

def tokenE : Address := addressOf 0x5555555555555555555555555555555555555555

/-- A third party's token: bob is the owner who may mint. -/
def thirdPartyToken (holders : List (Address × ℕ))
    (bounded : (ledgerOf holders).supply < 2 ^ 256) : OzToken where
  name := "coin"
  symbol := "symbol"
  decimals := 18
  ledger := ledgerOf holders
  allowance := fun _ _ => 0
  minter := fun a => a == bob
  burner := fun _ => false
  covered := covered_ledgerOf holders
  bounded := bounded

/-- The contracts of the deployment. -/
def referenceWorld : TokenWorld := fun a =>
  if a = tokenA then some (thirdPartyToken [(alice, 100), (bob, 50)] (by decide))
  else if a = tokenB then some (thirdPartyToken [(alice, 100)] (by decide))
  else if a = tokenE then
    some { deployedToken moduleAccount "acoin" "ACOIN" with
      ledger := ledgerOf [(alice, 40), (bob, 10)]
      covered := covered_ledgerOf _
      bounded := by decide }
  else none

/-- The chain before the module's genesis: 50 of the 150 `acoin` are in escrow. -/
def referenceState {W : Type} (world : W) : State W where
  params := ⟨true, 172800000000000, true⟩
  registry := emptyRegistry
  bank := {
    ledger := fun d =>
      if d = "acoin" then ledgerOf [(alice.bytes, 60), (bob.bytes, 40), (moduleAccount.bytes, 50)]
      else ledgerOf []
    locked := fun _ _ => 0
    metadata := ∅
    sendEnabled := []
    defaultSendEnabled := true }
  accounts := fun a =>
    if a = alice.bytes ∨ a = bob.bytes ∨ a = moduleAccount.bytes then some 0 else none
  evm := world

/-- The pair of the third party's token. -/
def pairA : TokenPair where
  erc20Address := "0x1111111111111111111111111111111111111111"
  denom := "intrarelayer/0x1111111111111111111111111111111111111111"
  enabled := true
  contractOwner := .OWNER_EXTERNAL

/-- The pair of the coin `acoin` and the token the module deployed for it. -/
def pairE : TokenPair where
  erc20Address := "0x5555555555555555555555555555555555555555"
  denom := "acoin"
  enabled := true
  contractOwner := .OWNER_MODULE

/-- A genesis with one pair of either kind. -/
def referenceGenesis : GenesisState := ⟨⟨true, 172800000000000, true⟩, [pairA, pairE]⟩

/-- The deployment after that genesis. -/
def deployed {W : Type} (evm : Evm W) (world : W) : State W :=
  initGenesis (keeperOver evm) referenceGenesis (referenceState world)

end GenesisEthermint.Tokens
