import MiniNetDist.AppProtocol.H2Flow
import MiniNetDist.AppProtocol.H2Frame
import MiniNetDist.AppProtocol.H2Priority
import MiniNetDist.AppProtocol.H2Settings
import MiniNetDist.AppProtocol.Hpack
import MiniNetDist.AppProtocol.HpackRoundTrip
import MiniNetDist.AppProtocol.Mqtt
import MiniNetDist.AppProtocol.MqttBroker
import MiniNetDist.AppProtocol.MqttQos
import MiniNetDist.AppProtocol.MqttTopic
import MiniNetDist.AppProtocol.WebSocket
import MiniNetDist.DistProtocol.Paxos
import MiniNetDist.DistProtocol.PaxosSafety
import MiniNetDist.DistProtocol.Raft
import MiniNetDist.DistProtocol.RaftRefinement
import MiniNetDist.DistProtocol.RaftReplication
import MiniNetDist.DistProtocol.RaftSafety
import MiniNetDist.Library.Ballot
import MiniNetDist.Library.Buffer
import MiniNetDist.Library.Bytes
import MiniNetDist.Library.Causality
import MiniNetDist.Library.CharArray
import MiniNetDist.Library.Closure
import MiniNetDist.Library.Crc
import MiniNetDist.Library.Decimal
import MiniNetDist.Library.DepthFirst
import MiniNetDist.Library.Forest
import MiniNetDist.Library.History
import MiniNetDist.Library.Nearest
import MiniNetDist.Library.Quorum
import MiniNetDist.Library.Recovery
import MiniNetDist.Library.Replication
import MiniNetDist.Library.ReplicationInvariant
import MiniNetDist.Library.ReplicationSafety
import MiniNetDist.Library.Ring
import MiniNetDist.Library.RootedLog
import MiniNetDist.Library.Run
import MiniNetDist.Library.Serial
import MiniNetDist.Library.Table
import MiniNetDist.Library.Varint
import MiniNetDist.Library.Voting
import MiniNetDist.Library.XorSpan
import MiniNetDist.RpcFramework.Binary
import MiniNetDist.RpcFramework.BinaryRobust
import MiniNetDist.RpcFramework.BinaryRoundTrip
import MiniNetDist.RpcFramework.Burst
import MiniNetDist.RpcFramework.Compression
import MiniNetDist.RpcFramework.Frame
import MiniNetDist.RpcFramework.Json
import MiniNetDist.RpcFramework.JsonReading
import MiniNetDist.RpcFramework.JsonRoundTrip
import MiniNetDist.RpcFramework.Message
import MiniNetDist.RpcFramework.Session
import MiniNetDist.RpcFramework.Stream
import MiniNetDist.SystemTheory.Cap
import MiniNetDist.SystemTheory.Chord
import MiniNetDist.SystemTheory.ChordPlacement
import MiniNetDist.SystemTheory.ChordRouting
import MiniNetDist.SystemTheory.ConsistentHash
import MiniNetDist.SystemTheory.HybridClock
import MiniNetDist.SystemTheory.LwwRegister
import MiniNetDist.SystemTheory.OrSet
import MiniNetDist.SystemTheory.OrSetMerge
import MiniNetDist.SystemTheory.PnCounter
import MiniNetDist.SystemTheory.Raft
import MiniNetDist.SystemTheory.RaftCommit
import MiniNetDist.SystemTheory.RaftElection
import MiniNetDist.SystemTheory.Snapshot
import MiniNetDist.SystemTheory.SnapshotCompletion
import MiniNetDist.SystemTheory.VectorClock
import MiniNetDist.Transaction.ConflictCycle
import MiniNetDist.Transaction.DistLock
import MiniNetDist.Transaction.Fencing
import MiniNetDist.Transaction.IsolationLevels
import MiniNetDist.Transaction.LockDeadlock
import MiniNetDist.Transaction.LockQueue
import MiniNetDist.Transaction.Mvcc
import MiniNetDist.Transaction.MvccCommit
import MiniNetDist.Transaction.MvccSnapshot
import MiniNetDist.Transaction.MvccStore
import MiniNetDist.Transaction.Occ
import MiniNetDist.Transaction.OccOutcome
import MiniNetDist.Transaction.OccSerial
import MiniNetDist.Transaction.OccStore
import MiniNetDist.Transaction.Redlock
import MiniNetDist.Transaction.TwoPC
import MiniNetDist.Transaction.TwoPCAtomic
import MiniNetDist.Transaction.Wal
import MiniNetDist.Transaction.WalRecovery
import MiniNetDist.Transaction.Xa
import MiniNetDist.AppProtocol.Grpc
import MiniNetDist.AppProtocol.Rest
import MiniNetDist.AppProtocol.Sse
import MiniNetDist.DistProtocol.MultiPaxos
import MiniNetDist.DistProtocol.ProposalNumbers
import MiniNetDist.DistProtocol.RaftReorder
import MiniNetDist.DistProtocol.EventualConsistency
import MiniNetDist.DistProtocol.Gossip
import MiniNetDist.DistProtocol.GossipSync
import MiniNetDist.DistProtocol.GossipVersions
import MiniNetDist.DistProtocol.QuorumReads
import MiniNetDist.DistProtocol.BullyElection
import MiniNetDist.DistProtocol.DistributedKv
import MiniNetDist.DistProtocol.LockLeases
import MiniNetDist.DistProtocol.RingElection
import MiniNetDist.DistProtocol.Swim
import MiniNetDist.Library.Draws
import MiniNetDist.SystemTheory.Byzantine
import MiniNetDist.SystemTheory.ByzantineAgreement
import MiniNetDist.SystemTheory.LeaderElection
import MiniNetDist.Transaction.Saga
import MiniNetDist.Transaction.Tcc
import MiniNetDist.GatewayProxy.BreakerRecovery
import MiniNetDist.GatewayProxy.HealthySelection
import MiniNetDist.Library.PrefixMatch
import MiniNetDist.Library.Recency
import MiniNetDist.Library.ShortestPath
import MiniNetDist.NetworkBase.BellmanFord
import MiniNetDist.NetworkBase.IpRouting
import MiniNetDist.NetworkBase.RouteAggregation
import MiniNetDist.Transaction.Idempotency
import MiniNetDist.Transaction.IdempotentReplay
import MiniNetDist.GatewayProxy.HttpChunked
import MiniNetDist.NetworkBase.DnsName
import MiniNetDist.NetworkBase.DnsQuery
import MiniNetDist.NetworkBase.HttpRequest
import MiniNetDist.GatewayProxy.RateLimiter
import MiniNetDist.GatewayProxy.ConnectionPool
import MiniNetDist.GatewayProxy.ApiGateway
import MiniNetDist.GatewayProxy.HttpParse
import MiniNetDist.NetworkBase.IpReassembly
import MiniNetDist.Library.Apportion
import MiniNetDist.Library.Base64
import MiniNetDist.Library.InPlace
import MiniNetDist.AppProtocol.H2Bandwidth
import MiniNetDist.AppProtocol.MqttLength
import MiniNetDist.AppProtocol.WsBase64
import MiniNetDist.GatewayProxy.PoolExpiry
import MiniNetDist.GatewayProxy.UriNormal
import MiniNetDist.NetworkBase.DnsResponse
import MiniNetDist.NetworkBase.TcpCongestion
import MiniNetDist.RpcFramework.JsonTermination
import MiniNetDist.SystemTheory.GCounterSizes
import MiniNetDist.Transaction.RedlockRollback
import MiniNetDist.Library.TwoPhase
import MiniNetDist.Transaction.TwoPhaseLocking
import MiniNetDist.Library.Replicated
import MiniNetDist.SystemTheory.ReplicatedSets
import MiniNetDist.Library.Latest
import MiniNetDist.DistProtocol.AdvancedSets
import MiniNetDist.Library.Depth
import MiniNetDist.SystemTheory.LamportClock
import MiniNetDist.Library.OnesComplement
import MiniNetDist.NetworkBase.Icmp
import MiniNetDist.Library.Sha1
import MiniNetDist.AppProtocol.WsSha1
import MiniNetDist.NetworkBase.TcpSocket
import MiniNetDist.DistProtocol.TwoPhaseCommit
import MiniNetDist.GatewayProxy.HttpBuild
import MiniNetDist.AppProtocol.WsHandshake
import MiniNetDist.Library.BitSubsets
import MiniNetDist.DistProtocol.Quorums
import MiniNetDist.DistProtocol.FlpAdversary
import MiniNetDist.SystemTheory.BullyMessages
import MiniNetDist.AppProtocol.MqttSubscribe
import MiniNetDist.GatewayProxy.Middleware
import MiniNetDist.Library.Rumor
import MiniNetDist.SystemTheory.Gossip
import MiniNetDist.SystemTheory.GossipLaps
