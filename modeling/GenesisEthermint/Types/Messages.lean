import GenesisEthermint.Types.Coins
import GenesisEthermint.Types.Metadata
import GenesisEthermint.Types.TokenPair

/-!
# Messages, Proposals and Genesis

The requests the module takes from outside, with the stateless validation each of them passes
before a handler sees it. Bech32 is an external codec: the validators that decode an account
address take the decoder as a parameter.
-/

namespace GenesisEthermint.Types

/-- `sdk.AccAddressFromBech32`. -/
abbrev Bech32Decoder := String → Except GoError AccAddress

/-- `sdkerrors.Wrap(err, desc)` on the error of a validator, if there is one. -/
def wrapError {α : Type} (desc : String) : Except GoError α → Except GoError Unit
  | .ok _ => .ok ()
  | .error e => .error (.wrap e desc)

/-! ## Messages -/

/-- `MsgConvertCoin`. -/
structure MsgConvertCoin where
  coin : Coin
  receiver : String
  sender : String

/-- `MsgConvertCoin.ValidateBasic`. -/
def MsgConvertCoin.validateBasic (accAddressFromBech32 : Bech32Decoder)
    (msg : MsgConvertCoin) : Except GoError Unit := do
  validateIBCDenom msg.coin.denom
  rejectIf (¬ 0 < msg.coin.amount.val) (.wrap ErrInvalidCoins "cannot mint a non-positive amount")
  wrapError "invalid sender address" (accAddressFromBech32 msg.sender)
  rejectIf (¬ isHexAddress msg.receiver)
    (.wrap ErrInvalidAddress ("invalid receiver hex address " ++ msg.receiver))

/-- `MsgConvertCoin.GetSigners`: nobody when the sender does not decode. -/
def MsgConvertCoin.getSigners (accAddressFromBech32 : Bech32Decoder) (msg : MsgConvertCoin) :
    List AccAddress :=
  match accAddressFromBech32 msg.sender with
  | .ok addr => [addr]
  | .error _ => []

/-- `MsgConvertERC20`. -/
structure MsgConvertERC20 where
  contractAddress : String
  amount : SdkInt
  receiver : String
  sender : String

/-- `MsgConvertERC20.ValidateBasic`. -/
def MsgConvertERC20.validateBasic (accAddressFromBech32 : Bech32Decoder)
    (msg : MsgConvertERC20) : Except GoError Unit := do
  rejectIf (¬ isHexAddress msg.contractAddress)
    (.wrap ErrInvalidAddress ("invalid contract hex address '" ++ msg.contractAddress ++ "'"))
  rejectIf (¬ 0 < msg.amount.val) (.wrap ErrInvalidCoins "cannot mint a non-positive amount")
  wrapError "invalid reciver address" (accAddressFromBech32 msg.receiver)
  rejectIf (¬ isHexAddress msg.sender)
    (.wrap ErrInvalidAddress ("invalid sender hex address " ++ msg.sender))

/-- `MsgConvertERC20.GetSigners`. -/
def MsgConvertERC20.getSigners (msg : MsgConvertERC20) : List AccAddress :=
  [(hexToAddress msg.sender).bytes]

/-- `banktypes.MsgSend`. -/
structure MsgSend where
  fromAddress : String
  toAddress : String
  amount : List Coin

/-! ## Proposals -/

/-- `CreateDenomDescription`. -/
def createDenomDescription (address : String) : String :=
  "Cosmos coin token representation of " ++ address

/-- `CreateDenom`. -/
def createDenom (address : String) : String := ModuleName ++ "/" ++ address

def MaxTitleLength : ℕ := 140

def MaxDescriptionLength : ℕ := 5000

/-- `govtypes.ValidateAbstract` on a proposal's title and description. -/
def validateAbstract (title description : String) : Except GoError Unit := do
  rejectIf (isBlank title) (.wrap ErrInvalidProposalContent "proposal title cannot be blank")
  rejectIf (MaxTitleLength < title.toList.length)
    (.wrap ErrInvalidProposalContent
      ("proposal title is longer than max length of " ++ toString MaxTitleLength))
  rejectIf (description.toList.length = 0)
    (.wrap ErrInvalidProposalContent "proposal description cannot be blank")
  rejectIf (MaxDescriptionLength < description.toList.length)
    (.wrap ErrInvalidProposalContent
      ("proposal description is longer than max length of " ++ toString MaxDescriptionLength))

/-- `validateIBC`. -/
def validateIBC (m : Metadata) : Except GoError Unit :=
  match splitSlash m.base with
  | (head, tail) =>
    -- no slash: not a voucher
    if head = m.base ∧ ¬ isBlank m.base then .ok ()
    else do
      rejectIf (tail = none ∨ head ≠ DenomPrefix)
        (.errorf ("invalid metadata. " ++ m.base
          ++ " denomination should be prefixed with the format 'ibc/"))
      rejectIf (¬ contains m.name "channel-")
        (.errorf ("invalid metadata (Name) for ibc. " ++ m.name ++ " should include channel"))
      rejectIf (¬ hasPrefix m.symbol "ibc")
        (.errorf ("invalid metadata (Symbol) for ibc. " ++ m.symbol
          ++ " should include \"ibc\" prefix"))

/-- `RegisterCoinProposal`. -/
structure RegisterCoinProposal where
  title : String
  description : String
  metadata : Metadata

/-- `RegisterCoinProposal.ValidateBasic`. -/
def RegisterCoinProposal.validateBasic (p : RegisterCoinProposal) : Except GoError Unit := do
  p.metadata.validate
  validateIBCDenom p.metadata.base
  validateIBC p.metadata
  validateAbstract p.title p.description

/-- `RegisterERC20Proposal`. -/
structure RegisterERC20Proposal where
  title : String
  description : String
  erc20Address : String

/-- `RegisterERC20Proposal.ValidateBasic`. -/
def RegisterERC20Proposal.validateBasic (p : RegisterERC20Proposal) : Except GoError Unit := do
  wrapError "ERC20 address" (TokenPair.validateAddress p.erc20Address)
  validateAbstract p.title p.description

/-- `ToggleTokenRelayProposal`. -/
structure ToggleTokenRelayProposal where
  title : String
  description : String
  token : String

/-- `ToggleTokenRelayProposal.ValidateBasic`: an address, or else a denomination. -/
def ToggleTokenRelayProposal.validateBasic (p : ToggleTokenRelayProposal) :
    Except GoError Unit := do
  match TokenPair.validateAddress p.token with
  | .ok _ => pure ()
  | .error _ => validateDenom p.token
  validateAbstract p.title p.description

/-- `UpdateTokenPairERC20Proposal`. -/
structure UpdateTokenPairERC20Proposal where
  title : String
  description : String
  erc20Address : String
  newErc20Address : String

/-- `UpdateTokenPairERC20Proposal.ValidateBasic`. -/
def UpdateTokenPairERC20Proposal.validateBasic (p : UpdateTokenPairERC20Proposal) :
    Except GoError Unit := do
  wrapError "ERC20 address" (TokenPair.validateAddress p.erc20Address)
  wrapError "new ERC20 address" (TokenPair.validateAddress p.newErc20Address)
  validateAbstract p.title p.description

/-! ## Parameters and genesis -/

/-- `types.Params`. The voting period is a duration in nanoseconds. -/
@[ext]
structure Params where
  enableIntrarelayer : Bool
  tokenPairVotingPeriod : ℤ
  enableEVMHook : Bool
  deriving DecidableEq, Repr

/-- `Params.Validate`. -/
def Params.validate (p : Params) : Except GoError Unit :=
  rejectIf (p.tokenPairVotingPeriod ≤ 0)
    (.errorf ("voting period must be positive: " ++ toString p.tokenPairVotingPeriod))

/-- `types.GenesisState`. -/
structure GenesisState where
  params : Params
  tokenPairs : List TokenPair

/-- The loop of `GenesisState.Validate`. Addresses are compared as texts. -/
def validatePairs (seenErc20 seenDenom : List String) : List TokenPair → Except GoError Unit
  | [] => .ok ()
  | b :: rest => do
    rejectIf (b.erc20Address ∈ seenErc20)
      (.errorf ("token ERC20 contract duplicated on genesis '" ++ b.erc20Address ++ "'"))
    rejectIf (b.denom ∈ seenDenom)
      (.errorf ("coin denomination duplicated on genesis: '" ++ b.denom ++ "'"))
    b.validate
    validatePairs (b.erc20Address :: seenErc20) (b.denom :: seenDenom) rest

/-- What the loop accepts: valid pairs whose address texts and denominations are all new. -/
theorem validatePairs_ok_iff {seenErc20 seenDenom : List String} {pairs : List TokenPair}
    {u : Unit} : validatePairs seenErc20 seenDenom pairs = .ok u ↔
      (∀ p ∈ pairs, p.validate = .ok () ∧ p.erc20Address ∉ seenErc20 ∧ p.denom ∉ seenDenom) ∧
      (pairs.Pairwise fun p q => p.erc20Address ≠ q.erc20Address) ∧
      pairs.Pairwise fun p q => p.denom ≠ q.denom := by
  -- on the pairs; `seen` grows by one text of each kind
  induction pairs generalizing seenErc20 seenDenom with
  | nil => simp [validatePairs]
  | cons b rest ih =>
    simp only [validatePairs, Foundation.except_bind_ok_iff, rejectIf_ok_iff, ih,
      List.mem_cons, not_or, List.pairwise_cons]
    constructor
    · rintro ⟨_, herc, _, hden, _, hv, hall, hperc, hpden⟩
      refine ⟨?_, ⟨fun q hq => (hall q hq).2.1.1 ∘ Eq.symm, hperc⟩,
        fun q hq => (hall q hq).2.2.1 ∘ Eq.symm, hpden⟩
      rintro p (rfl | hp)
      · exact ⟨hv, herc, hden⟩
      · exact ⟨(hall p hp).1, (hall p hp).2.1.2, (hall p hp).2.2.2⟩
    · rintro ⟨hall, ⟨herc, hperc⟩, hden, hpden⟩
      obtain ⟨hv, hse, hsd⟩ := hall b (.inl rfl)
      refine ⟨(), hse, (), hsd, (), hv, fun q hq => ?_, hperc, hpden⟩
      obtain ⟨hqv, hqe, hqd⟩ := hall q (.inr hq)
      exact ⟨hqv, ⟨fun h => herc q hq h.symm, hqe⟩, fun h => hden q hq h.symm, hqd⟩

/-- `GenesisState.Validate`. -/
def GenesisState.validate (gs : GenesisState) : Except GoError Unit := do
  validatePairs [] [] gs.tokenPairs
  gs.params.validate

/-- What validation accepts: every pair is valid, no address text and no denomination occurs
twice, and the parameters are valid. -/
theorem GenesisState.validate_ok_iff {gs : GenesisState} {u : Unit} : gs.validate = .ok u ↔
    (∀ p ∈ gs.tokenPairs, p.validate = .ok ()) ∧
    (gs.tokenPairs.Pairwise fun p q => p.erc20Address ≠ q.erc20Address) ∧
    (gs.tokenPairs.Pairwise fun p q => p.denom ≠ q.denom) ∧ gs.params.validate = .ok () := by
  simp [GenesisState.validate, Foundation.except_bind_ok_iff, validatePairs_ok_iff, and_assoc]

end GenesisEthermint.Types
