import GenesisEthermint.Chain.Abi
import GenesisEthermint.Foundation.Exec
import GenesisEthermint.Foundation.Ledger
import GenesisEthermint.Foundation.Store
import GenesisEthermint.Types.Messages

/-!
# Chain State

The part of the application's state the module reads or writes: its own parameters and three
sub-stores, the bank's ledgers, metadata and parameters, the account sequences, and the EVM's
world. The EVM is not part of this repository's code, so its world is a type `W` that only the
EVM itself looks into.
-/

namespace GenesisEthermint.Chain

open GenesisEthermint.Foundation GenesisEthermint.Types

/-- The module's three sub-stores: pairs by ID, IDs by contract bytes, IDs by denomination. -/
structure Registry where
  tokenPairs : KVStore (List UInt8) TokenPair
  erc20Map : KVStore (List UInt8) Hash
  denomMap : KVStore String Hash

/-- The bank: one ledger for each denomination, what vesting locks of each balance, the denom
metadata store, and the send-enabled parameters. -/
structure BankState where
  ledger : String → Ledger AccAddress
  locked : AccAddress → String → ℕ
  metadata : KVStore String Metadata
  sendEnabled : List (String × Bool)
  defaultSendEnabled : Bool

/-- The sequence of every account that exists. It is a natural number: the `uint64` of the source
would begin again at zero after `2 ^ 64` messages. -/
abbrev Accounts := AccAddress → Option ℕ

/-- The chain state. -/
structure State (W : Type) where
  params : Params
  registry : Registry
  bank : BankState
  accounts : Accounts
  evm : W

/-- The part of the state that no conversion and no transfer changes. -/
@[ext]
structure Config where
  params : Params
  registry : Registry
  locked : AccAddress → String → ℕ
  metadata : KVStore String Metadata
  sendEnabled : List (String × Bool)
  defaultSendEnabled : Bool

/-- The configuration in force in a state. -/
def State.config {W : Type} (s : State W) : Config where
  params := s.params
  registry := s.registry
  locked := s.bank.locked
  metadata := s.bank.metadata
  sendEnabled := s.bank.sendEnabled
  defaultSendEnabled := s.bank.defaultSendEnabled

/-! ## The EVM -/

/-- `ethtypes.Message`: the fields that differ from call to call. The value is zero. -/
structure Message where
  sender : Address
  toAddr : Option Address
  nonce : ℕ
  data : Payload

/-- `MsgEthereumTxResponse`, with the state the message left behind. -/
structure EvmResult (W : Type) where
  world : W
  accounts : Accounts
  vmError : String
  ret : List UInt8
  logs : List Log

/-- `res.Failed()`. -/
def EvmResult.failed {W : Type} (r : EvmResult W) : Bool := r.vmError ≠ ""

/-- The virtual machine: what a committed message does to the world and the accounts. -/
structure Evm (W : Type) where
  applyMessage : W → Accounts → Message → Except GoError (EvmResult W)

/-! ## The application around the module -/

/-- The module accounts of the application with their permissions, `maccPerms`. -/
def maccPerms : List (String × List String) :=
  [("fee_collector", []), ("distribution", []), ("mint", ["minter"]),
    ("bonded_tokens_pool", ["burner", "staking"]),
    ("not_bonded_tokens_pool", ["burner", "staking"]), ("gov", ["burner"]),
    ("transfer", ["minter", "burner"]), ("evm", ["minter", "burner"]),
    (ModuleName, ["minter", "burner"])]

/-- The module accounts that may receive coins, `allowedReceivingModAcc`. -/
def allowedReceivingModAcc : List String := ["distribution"]

/-- What the module is built with and does not define itself: the hash functions, the address
codecs and derivations, and the virtual machine. -/
structure Keeper (W : Type) where
  tmhashSum : String → Hash
  keccak256 : List Char → Hash
  createAddress : Address → ℕ → Address
  newModuleAddress : String → Address
  accAddressFromBech32 : Bech32Decoder
  accAddressString : AccAddress → String
  evm : Evm W

namespace Keeper

variable {W : Type} (k : Keeper W)

/-- `types.ModuleAddress`. -/
def moduleAddress : Address := k.newModuleAddress ModuleName

/-- `BlockedAddr`: the module accounts that may not receive coins, `app.BlockedAddrs`. -/
def blockedAddr (a : AccAddress) : Bool :=
  maccPerms.any fun acc =>
    !allowedReceivingModAcc.contains acc.1 && (k.newModuleAddress acc.1).bytes == a

/-- The module's own account may not receive coins. -/
theorem blockedAddr_moduleAddress : k.blockedAddr k.moduleAddress.bytes = true := by
  simp [blockedAddr, moduleAddress, maccPerms, allowedReceivingModAcc, ModuleName]

/-- An account that may receive coins is not the module's. -/
theorem ne_module_of_unblocked {b : AccAddress} (h : k.blockedAddr b = false) :
    b ≠ k.moduleAddress.bytes := by
  rintro rfl
  rw [k.blockedAddr_moduleAddress] at h
  cases h

/-- `hasPermission` of a module account. -/
def hasPermission (moduleName permission : String) : Bool :=
  maccPerms.any fun acc => acc.1 == moduleName && acc.2.contains permission

end Keeper

/-! ## Updates -/

namespace State

variable {W : Type}

/-- Replace the ledger of one denomination. -/
def setLedger (s : State W) (d : String) (L : Ledger AccAddress) : State W :=
  { s with bank := { s.bank with ledger := Function.update s.bank.ledger d L } }

/-- `if acc == nil { SetAccount(NewAccountWithAddress(addr)) }`. -/
def ensureAccount (s : State W) (a : AccAddress) : State W :=
  if s.accounts a = none then { s with accounts := Function.update s.accounts a (some 0) }
  else s

/-- `SetDenomMetaData`. -/
def setMetadata (s : State W) (m : Metadata) : State W :=
  { s with bank := { s.bank with metadata := s.bank.metadata.set m.base m } }

variable (s : State W) (a : AccAddress) (d : String) (L : Ledger AccAddress)

theorem ledger_setLedger (d' : String) :
    (s.setLedger d L).bank.ledger d' = if d' = d then L else s.bank.ledger d' := by
  simp only [setLedger, Function.update_apply]

@[simp] theorem setLedger_self : (s.setLedger d L).bank.ledger d = L := by
  rw [ledger_setLedger, if_pos rfl]

theorem setLedger_of_ne {d' : String} (h : d' ≠ d) :
    (s.setLedger d L).bank.ledger d' = s.bank.ledger d' := by
  rw [ledger_setLedger, if_neg h]

@[simp] theorem setLedger_setLedger (L' : Ledger AccAddress) :
    (s.setLedger d L).setLedger d L' = s.setLedger d L' := by
  simp only [setLedger, Function.update_idem]

@[simp] theorem setLedger_params : (s.setLedger d L).params = s.params := rfl

@[simp] theorem setLedger_registry : (s.setLedger d L).registry = s.registry := rfl

@[simp] theorem setLedger_accounts : (s.setLedger d L).accounts = s.accounts := rfl

@[simp] theorem setLedger_evm : (s.setLedger d L).evm = s.evm := rfl

@[simp] theorem setLedger_locked : (s.setLedger d L).bank.locked = s.bank.locked := rfl

@[simp] theorem ensureAccount_params : (s.ensureAccount a).params = s.params := by
  unfold ensureAccount; split <;> rfl

@[simp] theorem ensureAccount_registry : (s.ensureAccount a).registry = s.registry := by
  unfold ensureAccount; split <;> rfl

@[simp] theorem ensureAccount_bank : (s.ensureAccount a).bank = s.bank := by
  unfold ensureAccount; split <;> rfl

@[simp] theorem ensureAccount_evm : (s.ensureAccount a).evm = s.evm := by
  unfold ensureAccount; split <;> rfl

@[simp] theorem setLedger_config : (s.setLedger d L).config = s.config := rfl

@[simp] theorem ensureAccount_config : (s.ensureAccount a).config = s.config := by
  unfold ensureAccount; split <;> rfl

theorem accounts_ensureAccount (b : AccAddress) :
    (s.ensureAccount a).accounts b =
      if b = a ∧ s.accounts a = none then some 0 else s.accounts b := by
  unfold ensureAccount
  split
  · rename_i h
    by_cases hb : b = a <;> simp [hb, h]
  · rename_i h
    simp [h]

theorem exists_accounts_ensureAccount : ∃ n, (s.ensureAccount a).accounts a = some n := by
  rw [accounts_ensureAccount]
  cases h : s.accounts a with
  | none => exact ⟨0, if_pos ⟨rfl, rfl⟩⟩
  | some n => exact ⟨n, if_neg (by simp)⟩

end State

end GenesisEthermint.Chain
