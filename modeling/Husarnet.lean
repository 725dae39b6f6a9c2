import Husarnet.Config.LicenseInEffect
import Husarnet.Config.UserWhitelist
import Husarnet.Config.ConfigPush
import Husarnet.Config.AccessDecisions
import Husarnet.Config.HusarnetOnly
import Husarnet.Config.HostsFile
import Husarnet.Config.FetchGetConfig
import Husarnet.Config.StartUp
import Husarnet.Config.SignatureData
import Husarnet.PeerIdentity
import Husarnet.KeyAgreement
import Husarnet.TunPackets
import Husarnet.Preconditions
import Husarnet.Delivery
import Husarnet.PeerObjects
import Husarnet.Reassembly
import Husarnet.WebSocketStream
import Husarnet.SourceAddresses
import Husarnet.DirectPath
import Husarnet.NgSocket.TransientPorts
import Husarnet.BaseConnections
import Husarnet.Timestamps
import Husarnet.TunnelAddresses
import Husarnet.FreshSessions
import Husarnet.WebSocketClose
import Husarnet.EventBus
import Husarnet.WebSocketFrames
import Husarnet.NgSocket.RoundTrips
import Husarnet.MulticastFraming
import Husarnet.PacketSizes
import Husarnet.SelfPeer
import Husarnet.FailedExchange
import Husarnet.PacketQueues
import Husarnet.ApiServer
import Husarnet.Config.LicenseShapes
import Husarnet.NgSocket.Esp32Clock
import Husarnet.DottedAddresses
import Husarnet.ColonAddresses
import Husarnet.AddressText
import Husarnet.AddressLiterals
import Husarnet.IdentityStorage
import Husarnet.PingReplies
import Husarnet.HttpFields
import Husarnet.HttpRoundTrip
import Husarnet.HttpReuse
import Husarnet.HttpChunks
import Husarnet.Config.Base64
import Husarnet.Lib.Lines
import Husarnet.Util
import Husarnet.Ports.ManagedLines
import Husarnet.Ports.Settings
import Husarnet.Ports.Esp32Addresses
import Husarnet.Ports.LinuxAddresses
import Husarnet.Ports.FileTransform
import Husarnet.Lib.JsonText
import Husarnet.Logging
import Husarnet.Cli.IdentitySearch
import Husarnet.Capabilities
import Husarnet.NgSocket.BaseServers
import Husarnet.Lib.Potential
import Husarnet.Traffic
import Husarnet.DataIntegrity
import Husarnet.SessionLink
import Husarnet.SessionLosses
import Husarnet.SessionSetup
import Husarnet.SessionTalk
import Husarnet.HooksManager
import Husarnet.Config.ClaimHooks
import Husarnet.PathSetup
import Husarnet.Sha1Digest
import Husarnet.WebSocketHandshake
import Husarnet.Ports.SocketLoop
import Husarnet.ApiRequests
