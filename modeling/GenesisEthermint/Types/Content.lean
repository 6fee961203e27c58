import GenesisEthermint.Types.Messages

/-!
# Proposal Contents

What a governance proposal carries: one of the module's four contents, or a content of another
module, of which only the type and the route are known here.
-/

namespace GenesisEthermint.Types

def ProposalTypeRegisterCoin : String := "RegisterCoin"
def ProposalTypeRegisterERC20 : String := "RegisterERC20"
def ProposalTypeToggleTokenRelay : String := "ToggleTokenRelay"
def ProposalTypeUpdateTokenPairERC20 : String := "UpdateTokenPairERC20"

/-- `RouterKey`. -/
def RouterKey : String := ModuleName

/-- `govtypes.Content`, with the Go types that the module tells apart. -/
inductive Content where
  | registerCoin (p : RegisterCoinProposal)
  | registerERC20 (p : RegisterERC20Proposal)
  | toggleTokenRelay (p : ToggleTokenRelayProposal)
  | updateTokenPairERC20 (p : UpdateTokenPairERC20Proposal)
  | other (proposalRoute proposalType : String)

namespace Content

/-- `ProposalRoute`. -/
def proposalRoute : Content → String
  | other route _ => route
  | _ => RouterKey

/-- `ProposalType`. -/
def proposalType : Content → String
  | registerCoin _ => ProposalTypeRegisterCoin
  | registerERC20 _ => ProposalTypeRegisterERC20
  | toggleTokenRelay _ => ProposalTypeToggleTokenRelay
  | updateTokenPairERC20 _ => ProposalTypeUpdateTokenPairERC20
  | other _ type => type

/-- `case *types.RegisterCoinProposal, *types.RegisterERC20Proposal`. -/
def isRegistration : Content → Bool
  | registerCoin _ | registerERC20 _ => true
  | _ => false

/-- A registration has one of the two registration types. -/
theorem proposalType_of_isRegistration {c : Content} (h : c.isRegistration = true) :
    c.proposalType = ProposalTypeRegisterCoin ∨ c.proposalType = ProposalTypeRegisterERC20 := by
  cases c with
  | registerCoin p => exact .inl rfl
  | registerERC20 p => exact .inr rfl
  | _ => cases h

end Content

end GenesisEthermint.Types
