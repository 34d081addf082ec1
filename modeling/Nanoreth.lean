import Nanoreth.Lib.Partial
import Nanoreth.Lib.Transition
import Nanoreth.Lib.Overwrite
import Nanoreth.Lib.Cut
import Nanoreth.Lib.SingleFlight
import Nanoreth.Lib.Rlp
import Nanoreth.Lib.AppendTable
import Nanoreth.Lib.Buffered
import Nanoreth.Lib.Lru
import Nanoreth.Lib.Staging
import Nanoreth.Lib.Lines
import Nanoreth.Lib.Decimal
import Nanoreth.Lib.Bisect
import Nanoreth.Lib.HashChain
import Nanoreth.Lib.Paths
import Nanoreth.Primitives.Transaction
import Nanoreth.Primitives.Block
import Nanoreth.ChainSpec
import Nanoreth.SpotMeta
import Nanoreth.Types.RethCompat
import Nanoreth.Types.RoundTrip
import Nanoreth.Types.SenderEncoding
import Nanoreth.Types.SpotFetch
import Nanoreth.Storage
import Nanoreth.Node.Migrate
import Nanoreth.Node.MigrateMdbx
import Nanoreth.Node.SpotMetadata
import Nanoreth.Evm.Precompiles
import Nanoreth.Evm.Dispatch
import Nanoreth.Evm.ReadPrecompileForwarder
import Nanoreth.Evm.ForwarderAgreement
import Nanoreth.Evm.State
import Nanoreth.Evm.Executor
import Nanoreth.Evm.Accounting
import Nanoreth.Consensus.PostExecution
import Nanoreth.Evm.SystemPrefix
import Nanoreth.Evm.Assembler
import Nanoreth.Rpc.Types
import Nanoreth.Rpc.Trace
import Nanoreth.Rpc.Call
import Nanoreth.Rpc.CachePressure
import Nanoreth.Rpc.TxEnv
import Nanoreth.Rpc.Estimate
import Nanoreth.Rpc.Simulate
import Nanoreth.HlNodeCompliance.Rpc
import Nanoreth.HlNodeCompliance.Agreement
import Nanoreth.HlNodeCompliance.ByHash
import Nanoreth.HlNodeCompliance.Subscriptions
import Nanoreth.Rpc.Methods
import Nanoreth.Consensus.CanonicalHead
import Nanoreth.Consensus.ArrivalOrder
import Nanoreth.Consensus.Commitment
import Nanoreth.Network.BlockImport
import Nanoreth.Network.ImportPoll
import Nanoreth.Network.Rlp
import Nanoreth.Network.Startup
import Nanoreth.HlNodeSource.Ingest
import Nanoreth.HlNodeSource.LineStream
import Nanoreth.HlNodeSource.FileOps
import Nanoreth.HlNodeSource.LocalCache
import Nanoreth.HlNodeSource.Rotation
import Nanoreth.HlNodeSource.Fallback
import Nanoreth.HlNodeSource.HourlyFiles
import Nanoreth.HlNodeSource.Backfill
import Nanoreth.PseudoPeer.Sources
import Nanoreth.PseudoPeer.BlockStore
import Nanoreth.PseudoPeer.Transparency
import Nanoreth.PseudoPeer.HashIndex
import Nanoreth.PseudoPeer.Batches
import Nanoreth.PseudoPeer.SharedStore
import Nanoreth.PseudoPeer.Service
import Nanoreth.PseudoPeer.Bodies
import Nanoreth.PseudoPeer.Headers
import Nanoreth.PseudoPeer.LatestBlock
import Nanoreth.PseudoPeer.Poller
import Nanoreth.PseudoPeer.SyncReader
import Nanoreth.PseudoPeer.Replica
import Nanoreth.PseudoPeer.BiMap
