import Godaemon.Lib.Dict
import Godaemon.Lib.RetryQueue
import Godaemon.Lib.Runs
import Godaemon.Lib.SlidingWindow
import Godaemon.Lib.Hub
import Godaemon.Lib.Forest
import Godaemon.Lib.Bytes
import Godaemon.Lib.BitFields
import Godaemon.Lib.Segments
import Godaemon.Lib.Blocks
import Godaemon.Lib.Cursor
import Godaemon.Util.Variant
import Godaemon.Util.PackedByteStream
import Godaemon.Util.TypedFields
import Godaemon.Util.RateLimiter
import Godaemon.Util.RateWindow
import Godaemon.Util.Bitpacker
import Godaemon.Api.Repository
import Godaemon.Api.IdSearch
import Godaemon.Api.RepositoryMaps
import Godaemon.Api.PeerAuthenticator
import Godaemon.Api.RpcPacket
import Godaemon.Replication.Config
import Godaemon.Replication.Data
import Godaemon.Replication.WireIndex
import Godaemon.Tree
import Godaemon.Replication.Harvest
import Godaemon.Replication.Scene
import Godaemon.Services.Visibility
import Godaemon.Services.VisibilityCache
import Godaemon.Services.VisibilityChange
import Godaemon.Services.Convergence
import Godaemon.Services.CacheCoherence
import Godaemon.Services.Reparenting
import Godaemon.Services.VisibilityRuns
import Godaemon.Services.VisibilityMessage
import Godaemon.Services.TruncatedPackets
import Godaemon.Services.Ownership
import Godaemon.Services.OwnershipRuns
import Godaemon.Services.ClientNodes
import Godaemon.Api.Rpc
import Godaemon.Api.IdReuse
import Godaemon.Api.RemoteSender
import Godaemon.Api.RpcAcceptance
import Godaemon.Services.RpcVisibility
import Godaemon.Services.ZoneService
import Godaemon.Services.ZoneInterest
import Godaemon.Services.ZoneNodes
import Godaemon.Nodes.NetBarrier
import Godaemon.Nodes.ServiceChannels
import Godaemon.Nodes.MultiConnect
import Godaemon.Nodes.ServiceSetup
import Godaemon.Steam.SteamConnection
import Godaemon.Steam.SteamMultiplayerPeer
import Godaemon.Steam.Connections
import Godaemon.Steam.OneToOne
import Godaemon.Steam.QueuedSenders
import Godaemon.Steam.HostConnections
import Godaemon.Steam.Lifecycle
import Godaemon.Steam.SendQueue
import Godaemon.Steam.SendOrder
import Godaemon.Steam.PacketTargets
import Godaemon.Steam.Parties
import Godaemon.Steam.Closing
import Godaemon.Steam.SteamLink
import Godaemon.Steam.Handshake
import Godaemon.Steam.Upward
import Godaemon.Services.DatabaseService
import Godaemon.Services.AutosavePass
import Godaemon.Services.TextDb
import Godaemon.Services.TrackBarrier
import Godaemon.Services.RpcIsolation
import Godaemon.Services.RpcDelivery
import Godaemon.Services.SyncService
import Godaemon.Services.SignalLoop
import Godaemon.Services.WriteAuthority
import Godaemon.Services.PropertyRecipients
import Godaemon.Services.PropertyAgreement
import Godaemon.Services.SmoothSync
import Godaemon.Services.SmoothEcho
import Godaemon.Services.Interpolation
import Godaemon.Services.Handlers
import Godaemon.Services.BatchHierarchy
import Godaemon.Services.SceneIds
import Godaemon.Services.UpdateData
import Godaemon.Services.BatchRepository
import Godaemon.Services.Replica
import Godaemon.Services.ReplicationRequests
import Godaemon.Services.Persistence
import Godaemon.Services.ReplicationLink
import Godaemon.Api.IdAwaits
import Godaemon.Services.ReplicationSearch
