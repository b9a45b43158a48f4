import IntBlock.Lib.Solidity
import IntBlock.Lib.Machine
import IntBlock.Lib.Holdings
import IntBlock.NFTOwnerTracker.Contract
import IntBlock.NFTOwnerTracker.Index
import IntBlock.NFTOwnerTracker.Effects
import IntBlock.NFTOwnerTracker.Ownership
import IntBlock.NFTOwnerTracker.Audit
import IntBlock.NFTOwnerTracker.Batch
import IntBlock.NFTOwnerTracker.Access
import IntBlock.NFTOwnerTracker.Transfer
import IntBlock.NFTOwnerTracker.Commute
import IntBlock.BlockchainClient.Stream
import IntBlock.BlockchainClient.Shutdown
import IntBlock.Lib.Cpp
import IntBlock.Lib.Json
import IntBlock.NFTOwnerTracker.Counters
import IntBlock.NFTOwnerTracker.Enumeration
import IntBlock.BlockchainClient.Quantity
import IntBlock.BlockchainClient.Timestamp
import IntBlock.BlockchainClient.Balance
import IntBlock.BlockchainClient.Request
import IntBlock.BlockchainClient.Pending
import IntBlock.JsonText.Grammar
import IntBlock.JsonText.Numbers
import IntBlock.JsonText.Safety
import IntBlock.JsonText.Strings
import IntBlock.JsonText.Text
import IntBlock.JsonText.RoundTrip
import IntBlock.JsonText.Escaping
import IntBlock.JsonText.Integers
import IntBlock.JsonText.Layout
import IntBlock.JsonText.Indentation
import IntBlock.BlockchainClient.Wire
import IntBlock.Lib.Evm
import IntBlock.Lib.EvmAlike
import IntBlock.FiatTokenProxy.Contract
import IntBlock.FiatTokenProxy.Upgrade
import IntBlock.FiatTokenProxy.Transparent
import IntBlock.Lib.Endian
import IntBlock.Lib.Reader
import IntBlock.Websocketpp.Frame
import IntBlock.Websocketpp.Masking
import IntBlock.Websocketpp.Processor
import IntBlock.Websocketpp.Pieces
import IntBlock.Websocketpp.Delivery
import IntBlock.Websocketpp.Closing
