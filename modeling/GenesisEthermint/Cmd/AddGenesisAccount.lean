import GenesisEthermint.Cmd.Coins
import GenesisEthermint.Types.Address

/-!
# Adding an Account to the Genesis File

`add-genesis-account` parses a balance and perhaps a vesting amount, builds an account, and adds
account, balance and supply to the genesis file. The file is written at the very end, so a command
that fails leaves it as it was.
-/

namespace GenesisEthermint.Cmd

open GenesisEthermint.Foundation GenesisEthermint.Types

/-! ## The genesis file -/

/-- `authtypes.BaseAccount` without a public key. -/
structure BaseAccount where
  address : AccAddress
  accountNumber : ℕ
  sequence : ℕ

/-- `authvesting.BaseVestingAccount`. -/
structure BaseVestingAccount where
  baseAccount : BaseAccount
  originalVesting : List Coin
  delegatedFree : List Coin
  delegatedVesting : List Coin
  endTime : ℤ

/-- The genesis accounts. Of an account that was there before only the base account is read. -/
inductive GenesisAccount where
  | ethAccount (baseAccount : BaseAccount) (codeHash : String)
  | continuousVesting (account : BaseVestingAccount) (startTime : ℤ)
  | delayedVesting (account : BaseVestingAccount)
  | other (baseAccount : BaseAccount)

/-- The account that is embedded in it. -/
def GenesisAccount.baseAccount : GenesisAccount → BaseAccount
  | .ethAccount baseAccount _ => baseAccount
  | .continuousVesting account _ => account.baseAccount
  | .delayedVesting account => account.baseAccount
  | .other baseAccount => baseAccount

/-- `GetAddress`. -/
def GenesisAccount.getAddress (acc : GenesisAccount) : AccAddress := acc.baseAccount.address

/-- `banktypes.Balance`. -/
structure Balance where
  address : AccAddress
  coins : List Coin

/-- What the command changes in the genesis file: the accounts of the auth module, and the balances
and the supply of the bank module. -/
structure GenesisFile where
  accounts : List GenesisAccount
  balances : List Balance
  supply : List Coin

/-! ## The account -/

/-- `evmtypes.EmptyCodeHash`, in hexadecimal. -/
def emptyCodeHash : String := "0xc5d2460186f7233c927e7db2dcc703c0e500b653ca82273b7bfad8045d85a470"

/-- `BaseVestingAccount.Validate`. Without a public key the base account has nothing to check. -/
def BaseVestingAccount.validate (acc : BaseVestingAccount) : Except GoError Unit :=
  rejectIf (¬ isAllGTE acc.originalVesting acc.delegatedVesting)
    (.errorf "delegated vesting amount cannot be greater than original vesting amount")

/-- `genAccount.Validate`. -/
def GenesisAccount.validate : GenesisAccount → Except GoError Unit
  | .continuousVesting account startTime => do
    rejectIf (account.endTime ≤ startTime)
      (.errorf "vesting start-time cannot be before end-time")
    account.validate
  | .delayedVesting account => account.validate
  | _ => .ok ()

/-- The error of an account that would vest more than it has. -/
def errVestingAmount : GoError := .errorf "vesting amount cannot be greater than total amount"

/-- The account the command builds from its parameters. -/
def newGenesisAccount (srt : Sorter) (balances : Balance) (vestingAmt : List Coin)
    (vestingStart vestingEnd : ℤ) : Except GoError GenesisAccount :=
  let baseAccount : BaseAccount := ⟨balances.address, 0, 0⟩
  if coinsIsZero vestingAmt then .ok (.ethAccount baseAccount emptyCodeHash)
  else do
    let account : BaseVestingAccount :=
      ⟨baseAccount, sortCoins srt vestingAmt, [], [], vestingEnd⟩
    -- `IsAnyGT` asks for a denomination that the balance has with an amount
    rejectIf ((coinsIsZero balances.coins ∧ ¬ coinsIsZero account.originalVesting) ∨
      isAnyGT account.originalVesting balances.coins) errVestingAmount
    -- a start without an end is refused
    if vestingStart ≠ 0 ∧ vestingEnd ≠ 0 then return .continuousVesting account vestingStart
    else if vestingEnd ≠ 0 then return .delayedVesting account
    else throw (.errorf
      "invalid vesting parameters; must supply start and end time or end time")

/-! ## The command -/

/-- What the command takes from its libraries: a sorting function, and the text of an address. -/
structure Host where
  srt : Sorter
  accAddressString : AccAddress → String

/-- The arguments and flags. The first argument is an address, or a key that leads to one. -/
structure Invocation where
  address : Except GoError AccAddress
  coins : String
  vestingStart : ℤ
  vestingEnd : ℤ
  vestingAmt : String

/-- Go on with the outcome, or stop as it did. -/
def runOutcome {α : Type} : Outcome α → Exec GoError GenesisFile α
  | .ok a => pure a
  | .error f => throw f

/-- `SanitizeGenesisBalances`: by address, compared byte by byte. -/
def sanitizeGenesisBalances (srt : Sorter) (balances : List Balance) : List Balance :=
  srt.sort (fun b => b.address.map UInt8.toNat) balances

/-- `SanitizeGenesisAccounts`: by account number. -/
def sanitizeGenesisAccounts (srt : Sorter) (accs : List GenesisAccount) : List GenesisAccount :=
  srt.sort (fun acc => acc.baseAccount.accountNumber) accs

/-- `AddGenesisAccountCmd`. -/
def addGenesisAccount (host : Host) (inv : Invocation) : Exec GoError GenesisFile Unit := do
  let addr ← Exec.ofExcept inv.address
  let coins ← Exec.mapError (fun e => .wrap e "failed to parse coins")
    (runOutcome (parseCoinsNormalized host.srt inv.coins))
  let vestingAmt ← Exec.mapError (fun e => .wrap e "failed to parse vesting amount")
    (runOutcome (parseCoinsNormalized host.srt inv.vestingAmt))
  -- sorted, and neither merged nor freed of zero amounts
  let balances : Balance := ⟨addr, sortCoins host.srt coins⟩
  let genAccount ← Exec.ofExcept
    (newGenesisAccount host.srt balances vestingAmt inv.vestingStart inv.vestingEnd)
  Exec.mapError (fun e => .wrap e "failed to validate new genesis account")
    (Exec.ofExcept genAccount.validate)
  let genesis ← get
  Exec.failIf (genesis.accounts.any fun acc => acc.getAddress == addr)
    (.errorf ("cannot add account at existing address " ++ host.accAddressString addr))
  -- the account and the balance are appended, the supply is added up
  let supply ← runOutcome (safeAdd genesis.supply balances.coins)
  modify fun genesis => {
    accounts := sanitizeGenesisAccounts host.srt (genesis.accounts ++ [genAccount])
    balances := sanitizeGenesisBalances host.srt (genesis.balances ++ [balances])
    supply := supply }

/-! ## What an accepted invocation did -/

variable {host : Host} {inv : Invocation} {g g' : GenesisFile} {u : Unit}

theorem runOutcome_ok_iff {α : Type} {x : Outcome α} {a : α} :
    runOutcome x g = .ok a g' ↔ x = .ok a ∧ g = g' := by
  cases x with
  | ok b =>
    show (pure b : Exec GoError GenesisFile α) g = .ok a g' ↔ _
    rw [Exec.pure_ok_iff, Except.ok.injEq]
  | error f => exact iff_of_false (fun h => by cases h) fun h => by cases h.1

/-- The account is built for the address of the balance. -/
theorem getAddress_newGenesisAccount {srt : Sorter} {balances : Balance} {vestingAmt : List Coin}
    {vestingStart vestingEnd : ℤ} {acc : GenesisAccount}
    (h : newGenesisAccount srt balances vestingAmt vestingStart vestingEnd = .ok acc) :
    acc.getAddress = balances.address := by
  simp only [newGenesisAccount] at h
  split at h
  · obtain rfl := Except.ok.inj h
    rfl
  · obtain ⟨_, -, h⟩ := except_bind_ok_iff.mp h
    split at h
    · obtain rfl := Except.ok.inj h
      rfl
    · split at h
      · obtain rfl := Except.ok.inj h
        rfl
      · cases h

/-- **An accepted invocation** adds an account and its balance at an address that had no account,
and adds the balance to the supply. -/
theorem addGenesisAccount_ok (h : addGenesisAccount host inv g = .ok u g') :
    ∃ addr coins acc supply, inv.address = .ok addr ∧
      parseCoinsNormalized host.srt inv.coins = .ok coins ∧
      acc.getAddress = addr ∧ (∀ a ∈ g.accounts, a.getAddress ≠ addr) ∧
      safeAdd g.supply (sortCoins host.srt coins) = .ok supply ∧
      g' = ⟨sanitizeGenesisAccounts host.srt (g.accounts ++ [acc]),
        sanitizeGenesisBalances host.srt (g.balances ++ [⟨addr, sortCoins host.srt coins⟩]),
        supply⟩ := by
  simp only [addGenesisAccount, Exec.bind_ok_iff, Exec.ofExcept_ok_iff, Exec.mapError_ok_iff,
    runOutcome_ok_iff, Exec.get_ok_iff, Exec.failIf_ok_iff] at h
  obtain ⟨addr, _, ⟨haddr, rfl⟩, coins, _, ⟨hcoins, rfl⟩, _, _, ⟨-, rfl⟩, acc, _, ⟨hacc, rfl⟩, _, _,
    ⟨-, rfl⟩, _, _, ⟨rfl, rfl⟩, _, _, ⟨hnew, rfl⟩, supply, _, ⟨hsupply, rfl⟩, hset⟩ := h
  refine ⟨addr, coins, acc, supply, haddr, hcoins, getAddress_newGenesisAccount hacc, ?_, hsupply,
    ?_⟩
  · intro a ha heq
    exact hnew (List.any_eq_true.mpr ⟨a, ha, beq_iff_eq.mpr heq⟩)
  · exact Exec.modify_ok_iff.mp hset

end GenesisEthermint.Cmd
