import Mathlib.Data.Nat.Notation
import GenesisEthermint.Foundation.Exec

/-!
# Errors

Go errors as the module builds them: a sentinel registered under a codespace and a code, the
same wrapped with a description, or a bare text. Callers only ever print an error or ask which
sentinel is at its root.
-/

namespace GenesisEthermint.Types

/-- A Go error: a registered sentinel, an error wrapped with a description, or a plain text. -/
inductive GoError where
  | registered (codespace : String) (code : ℕ) (desc : String)
  | wrap (parent : GoError) (desc : String)
  | errorf (msg : String)
  deriving DecidableEq, Repr

namespace GoError

/-- `err.Error()`. -/
def error : GoError → String
  | registered _ _ desc => desc
  | wrap parent desc => desc ++ ": " ++ parent.error
  | errorf msg => msg

/-- `errors.Is(err, target)`: the sentinel at the root of the chain of wrappings. -/
def is : GoError → GoError → Bool
  | registered c n d, target => target = .registered c n d
  | wrap parent _, target => parent.is target
  | errorf _, _ => false

end GoError

/-- `if c { return err }` in a validator. -/
def rejectIf (c : Prop) [Decidable c] (err : GoError) : Except GoError Unit :=
  if c then .error err else .ok ()

theorem rejectIf_ok_iff {c : Prop} [Decidable c] {err : GoError} {u : Unit} :
    rejectIf c err = .ok u ↔ ¬ c := by
  unfold rejectIf
  split <;> simp_all

/-! ## Sentinels -/

/-- `ModuleName`. -/
def ModuleName : String := "intrarelayer"

def ErrInvalidErc20Address : GoError := .registered ModuleName 2 "invalid erc20 address"
def ErrUnmatchingCosmosDenom : GoError := .registered ModuleName 3 "unmatching cosmos denom"
def ErrNotAllowedBridge : GoError := .registered ModuleName 4 "not allowed bridge"
def ErrInternalEthMinting : GoError := .registered ModuleName 5 "internal ethereum minting error"
def ErrWritingEthTxPayload : GoError :=
  .registered ModuleName 6 "writing ethereum tx payload error"
def ErrInternalTokenPair : GoError :=
  .registered ModuleName 7 "internal ethereum token mapping error"
def ErrUndefinedOwner : GoError := .registered ModuleName 8 "undefined owner of contract pair"

def ErrUnauthorized : GoError := .registered "sdk" 4 "unauthorized"
def ErrInsufficientFunds : GoError := .registered "sdk" 5 "insufficient funds"
def ErrUnknownRequest : GoError := .registered "sdk" 6 "unknown request"
def ErrInvalidAddress : GoError := .registered "sdk" 7 "invalid address"
def ErrUnknownAddress : GoError := .registered "sdk" 9 "unknown address"
def ErrInvalidCoins : GoError := .registered "sdk" 10 "invalid coins"
def ErrJSONUnmarshal : GoError := .registered "sdk" 17 "failed to unmarshal JSON bytes"
def ErrLogic : GoError := .registered "sdk" 35 "internal logic error"
def ErrSendDisabled : GoError := .registered "bank" 5 "send transactions are disabled"
def ErrInvalidDenomForTransfer : GoError :=
  .registered "transfer" 3 "invalid denomination for cross-chain transfer"
def ErrVMExecution : GoError := .registered "evm" 15 "evm transaction execution failed"
def ErrInvalidProposalContent : GoError := .registered "gov" 5 "invalid proposal content"

end GenesisEthermint.Types
