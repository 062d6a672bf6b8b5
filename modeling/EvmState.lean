import EvmState.Proof.Allocations
import EvmState.Proof.Attribution
import EvmState.Proof.BadLines
import EvmState.Proof.Callers
import EvmState.Proof.CodeCache
import EvmState.Proof.CodeRefs
import EvmState.Proof.Codecs
import EvmState.Proof.Contract
import EvmState.Proof.Divergence
import EvmState.Proof.Export
import EvmState.Proof.Forks
import EvmState.Proof.Frame
import EvmState.Proof.Gaps
import EvmState.Proof.HeadEnv
import EvmState.Proof.Hybrid
import EvmState.Proof.Initialize
import EvmState.Proof.Interfaces
import EvmState.Proof.Interrupted
import EvmState.Proof.Isolation
import EvmState.Proof.Ledger
import EvmState.Proof.LineOrder
import EvmState.Proof.Malformed
import EvmState.Proof.Moves
import EvmState.Proof.Order
import EvmState.Proof.Pagination
import EvmState.Proof.Progress
import EvmState.Proof.Recorded
import EvmState.Proof.Refused
import EvmState.Proof.Remote
import EvmState.Proof.Replicas
import EvmState.Proof.Requests
import EvmState.Proof.Retries
import EvmState.Proof.RpcParams
import EvmState.Proof.Schedule
import EvmState.Proof.SearchCost
import EvmState.Proof.Served
import EvmState.Proof.Shared
import EvmState.Proof.Sqd
import EvmState.Proof.Statistics
import EvmState.Proof.Streaming
import EvmState.Proof.SystemTxs
import EvmState.Proof.Traffic
import EvmState.Proof.Transport
import EvmState.Proof.TypedMaps
import EvmState.Proof.Validator
import EvmState.Proof.Verify
import EvmState.Proof.WireFormat
import EvmState.Proof.World
