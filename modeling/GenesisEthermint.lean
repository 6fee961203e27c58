import GenesisEthermint.Foundation.Exec
import GenesisEthermint.Foundation.Index
import GenesisEthermint.Foundation.Ledger
import GenesisEthermint.Foundation.Reserve
import GenesisEthermint.Foundation.Run
import GenesisEthermint.Foundation.Store
import GenesisEthermint.Types.Errors
import GenesisEthermint.Types.Text
import GenesisEthermint.Types.Address
import GenesisEthermint.Types.Coins
import GenesisEthermint.Types.Metadata
import GenesisEthermint.Types.TokenPair
import GenesisEthermint.Types.Messages
import GenesisEthermint.Chain.Abi
import GenesisEthermint.Chain.State
import GenesisEthermint.Chain.Bank
import GenesisEthermint.Intrarelayer.TokenPairs
import GenesisEthermint.Intrarelayer.Evm
import GenesisEthermint.Intrarelayer.MsgServer
import GenesisEthermint.Intrarelayer.EvmHooks
import GenesisEthermint.Intrarelayer.Proposals
import GenesisEthermint.Intrarelayer.System
import GenesisEthermint.Tokens.OpenZeppelin
import GenesisEthermint.Tokens.Reference
import GenesisEthermint.Registry.Consistency
import GenesisEthermint.Registry.Bijection
import GenesisEthermint.Intrarelayer.Outcomes
import GenesisEthermint.Tokens.Conformance
import GenesisEthermint.Tokens.Service
import GenesisEthermint.Solvency.Footprint
import GenesisEthermint.Solvency.ModuleOwned
import GenesisEthermint.Solvency.HexCoins
import GenesisEthermint.Solvency.Overflow
import GenesisEthermint.Solvency.External
import GenesisEthermint.Solvency.Untrusted
import GenesisEthermint.Registry.Genesis
import GenesisEthermint.Hook.Frame
import GenesisEthermint.Hook.KillSwitch
import GenesisEthermint.Hook.Atomicity
import GenesisEthermint.Conversion.Codeless
import GenesisEthermint.Intrarelayer.GovHooks
import GenesisEthermint.Governance.Queues
import GenesisEthermint.Governance.Window
import GenesisEthermint.Intrarelayer.ProposalHandler
import GenesisEthermint.App.NewEvmos
import GenesisEthermint.App.Wiring
import GenesisEthermint.Registry.Deployments
import GenesisEthermint.Foundation.Exchange
import GenesisEthermint.Foundation.Interleave
import GenesisEthermint.Conversion.Effect
import GenesisEthermint.Conversion.RoundTrip
import GenesisEthermint.Solvency.Migration
import GenesisEthermint.Registry.Routing
import GenesisEthermint.Conversion.Replay
import GenesisEthermint.Conversion.Refinement
import GenesisEthermint.Types.Grammar
import GenesisEthermint.Governance.Execution
import GenesisEthermint.Registry.CoinRegistration
import GenesisEthermint.Tokens.Details
import GenesisEthermint.Registry.TokenRegistration
import GenesisEthermint.Registry.Reachable
import GenesisEthermint.Registry.Updates
import GenesisEthermint.Foundation.Sorter
import GenesisEthermint.Foundation.Tally
import GenesisEthermint.Cmd.Decimal
import GenesisEthermint.Cmd.Coins
import GenesisEthermint.Cmd.AddGenesisAccount
import GenesisEthermint.Cmd.ValidGenesis
import GenesisEthermint.Cmd.Vesting
import GenesisEthermint.App.Export
import GenesisEthermint.App.TpsCounter
import GenesisEthermint.Foundation.Varint
import GenesisEthermint.Foundation.Wire
import GenesisEthermint.Foundation.Message
import GenesisEthermint.Foundation.Fields
import GenesisEthermint.Foundation.Damage
import GenesisEthermint.Foundation.PrefixStore
import GenesisEthermint.Foundation.Pages
import GenesisEthermint.Chain.Pagination
import GenesisEthermint.Wire.Messages
import GenesisEthermint.Wire.RoundTrip
import GenesisEthermint.Wire.TokenPairs
import GenesisEthermint.App.Blocks
import GenesisEthermint.Bech32.Addresses
import GenesisEthermint.Chain.Calldata
import GenesisEthermint.Wire.Query
