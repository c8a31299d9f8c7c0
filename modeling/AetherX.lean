import AetherX.HashTree
import AetherX.PairLevels
import AetherX.Sha256
import AetherX.Merkle
import AetherX.SplitTree
import AetherX.MerkleConsistency
import AetherX.ConsistencyTies
import AetherX.Audit
import AetherX.Fec
import AetherX.FecRecovery
import AetherX.Machine
import AetherX.QueueAccounting
import AetherX.SpoolJson
import AetherX.SpoolAgreement
import AetherX.SpoolThreads
import AetherX.Base64
import AetherX.Replay
import AetherX.Token
import AetherX.Transparency
import AetherX.SpoolRecovery
import AetherX.SpoolIds
import AetherX.Supervisor
import AetherX.ManagedProcess
import AetherX.ModelRegistry
import AetherX.RegistryThreads
import AetherX.BufferReplay
import AetherX.QuicMigration
import AetherX.CoreThreads
import AetherX.Zkp
import AetherX.CoreAgreement
import AetherX.FallbackTransport
import AetherX.ReverseRelay
import AetherX.DpiForecast
import AetherX.Seamless
import AetherX.Telemetry
import AetherX.TelemetryThreads
import AetherX.BigEndian
import AetherX.Icmp
import AetherX.MultiTunnel
import AetherX.Isolation
import AetherX.Cadence
import AetherX.Intel
import AetherX.LogClient
import AetherX.SessionStore
import AetherX.SessionManager
import AetherX.SessionCache
import AetherX.SessionCount
import AetherX.SessionThreads
import AetherX.SessionClosing
import AetherX.SessionSightings
import AetherX.AutoFailover
import AetherX.ForestBinding
import AetherX.Distribution
import AetherX.Measurement
import AetherX.DiskSpool
import AetherX.ClickHouse
import AetherX.ScoreCache
import AetherX.ByteText
import AetherX.NetAddr
import AetherX.NetworkContext
import AetherX.SubscriptionStore
import AetherX.SubscriptionCache
import AetherX.Url
import AetherX.ConfigBuilder
import AetherX.ShareLink
import AetherX.EndpointFormats
import AetherX.Framing
import AetherX.AuditBinding
import AetherX.MerkleBridge
import AetherX.TokenContext
import AetherX.CheckedInt
import AetherX.Refresh
import AetherX.SubscriptionClaims
import AetherX.AntiForgeryServer
import AetherX.Pedersen
import AetherX.Eligibility
import AetherX.DeviceRegistry
import AetherX.HostileShards
import AetherX.BitString
import AetherX.ShiftRegister
import AetherX.BurstErrors
import AetherX.CheckedWord
import AetherX.CascadeWords
import AetherX.Base32
import AetherX.DnsTunnel
import AetherX.Cursor
import AetherX.DnsAnswers
import AetherX.BackoffBounds
import AetherX.CadenceThreads
import AetherX.Multipath
import AetherX.MultipathBond
import AetherX.MpQuic
import AetherX.LoopbackBuffer
import AetherX.RelayReconnect
import AetherX.StableSort
import AetherX.IntelInfluence
import AetherX.CutPoints
import AetherX.Fragmentation
import AetherX.Routing
import AetherX.Auth
import AetherX.NorthflankHealer
import AetherX.Breadth
import AetherX.Mesh
import AetherX.Catalog
import AetherX.FecInverse
import AetherX.ClientScheme
import AetherX.CatalogReload
