import MpcNode.Library.Guarded
import MpcNode.Library.Broadcast
import MpcNode.Library.PowerSum
import MpcNode.Library.Interpolation
import MpcNode.Library.Prefixes
import MpcNode.Library.Copies
import MpcNode.Library.Runs
import MpcNode.Library.Fifo
import MpcNode.Library.Gossip
import MpcNode.Library.Simulation
import MpcNode.Library.Writes
import MpcNode.Library.Json
import MpcNode.Library.Cbor
import MpcNode.Messages
import MpcNode.Wire
import MpcNode.Decoders
import MpcNode.Rpc
import MpcNode.Channel
import MpcNode.Dkg
import MpcNode.DkgVerification
import MpcNode.DkgLocks
import MpcNode.DkgOrder
import MpcNode.DkgStatus
import MpcNode.DkgAgreement
import MpcNode.DkgGroupKey
import MpcNode.DkgQuorum
import MpcNode.DkgSecrecy
import MpcNode.DkgPeerIds
import MpcNode.DkgIndices
import MpcNode.DkgHistory
import MpcNode.DkgMonotone
import MpcNode.DkgFailures
import MpcNode.Reconstruction
import MpcNode.DealtShares
import MpcNode.Frost
import MpcNode.SigningSessions
import MpcNode.SigningQuorum
import MpcNode.SigningNonces
import MpcNode.SigningAggregate
import MpcNode.GossipFormat
import MpcNode.Impersonation
import MpcNode.Vrf
import MpcNode.Acknowledged
import MpcNode.LoopStops
import MpcNode.LoopBacklog
import MpcNode.Discovery
import MpcNode.AdkgVerification
import MpcNode.AdkgBinding
import MpcNode.AdkgHonest
import MpcNode.AdkgPanics
import MpcNode.LoopRuns
import MpcNode.LoopCompletion
import MpcNode.QueuedMessages
import MpcNode.AssemblySafety
import MpcNode.LoopNetwork
import MpcNode.LoopProgress
import MpcNode.AdkgProgress
import MpcNode.DkgConvergence
import MpcNode.LayersAgree
import MpcNode.SigningGroup
