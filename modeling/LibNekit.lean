import LibNekit.Canonical.Upgrades
import LibNekit.Guarantees.AcceptLoop
import LibNekit.Guarantees.AddressOrder
import LibNekit.Guarantees.AffixSets
import LibNekit.Guarantees.BlockedWrite
import LibNekit.Guarantees.BufferRefinement
import LibNekit.Guarantees.CallbackStates
import LibNekit.Guarantees.Cancellation
import LibNekit.Guarantees.ChunkWalk
import LibNekit.Guarantees.ConnectOutcome
import LibNekit.Guarantees.ConnectReply
import LibNekit.Guarantees.ConnectAgreement
import LibNekit.Guarantees.ConnectRequests
import LibNekit.Guarantees.EditingSessions
import LibNekit.Guarantees.ErrorCauses
import LibNekit.Guarantees.FailedRewriter
import LibNekit.Guarantees.FirstMatch
import LibNekit.Guarantees.FlowStates
import LibNekit.Guarantees.Fragmentation
import LibNekit.Guarantees.HandshakeFlush
import LibNekit.Guarantees.HeaderFilter
import LibNekit.Guarantees.IndexOperator
import LibNekit.Guarantees.KeyDerivation
import LibNekit.Guarantees.LoopTermination
import LibNekit.Guarantees.MovedBuffers
import LibNekit.Guarantees.OriginForm
import LibNekit.Guarantees.PiecewiseCipher
import LibNekit.Guarantees.ReadCompletions
import LibNekit.Guarantees.RecordDelivery
import LibNekit.Guarantees.RequestTargets
import LibNekit.Guarantees.ResolverProgress
import LibNekit.Guarantees.ResumedSearch
import LibNekit.Guarantees.SharedResolution
import LibNekit.Guarantees.SliceAccess
import LibNekit.Guarantees.Socks5Agreement
import LibNekit.Guarantees.Socks5EarlyData
import LibNekit.Guarantees.Socks5Encoding
import LibNekit.Guarantees.Socks5Greeting
import LibNekit.Guarantees.Socks5HandshakeStates
import LibNekit.Guarantees.Socks5Request
import LibNekit.Guarantees.SpeedOutcome
import LibNekit.Guarantees.StateAgreement
import LibNekit.Guarantees.StreamConservation
import LibNekit.Guarantees.SubnetContainment
import LibNekit.Guarantees.TcpSocketStates
import LibNekit.Guarantees.TlsAcknowledge
import LibNekit.Guarantees.TlsRequests
import LibNekit.Guarantees.TunnelRelay
import LibNekit.Guarantees.TunnelRelease
import LibNekit.Guarantees.UpgradedStream
import LibNekit.Guarantees.WalkSafety
import LibNekit.Guarantees.WriteReturns
