import Pirc.Client.Agreement
import Pirc.Client.GroupDelivery
import Pirc.Client.Input
import Pirc.Client.MessageHandler
import Pirc.Client.OfflineDelivery
import Pirc.Client.Plaintext
import Pirc.Client.Queue
import Pirc.Client.Reconnect
import Pirc.Client.TypedCommands
import Pirc.Crypto.Formats
import Pirc.Crypto.KeyStore
import Pirc.Crypto.OutOfOrder
import Pirc.Crypto.PqInfluence
import Pirc.Crypto.Replays
import Pirc.Crypto.SkipArithmetic
import Pirc.P2p.Codecs
import Pirc.P2p.Connectivity
import Pirc.P2p.GroupSession
import Pirc.P2p.MeshEvents
import Pirc.P2p.Transport
import Pirc.Raft.CommitScan
import Pirc.Raft.FailedInstall
import Pirc.Raft.FileStorage
import Pirc.Raft.LogInvariant
import Pirc.Raft.Monitoring
import Pirc.Raft.Replicas
import Pirc.Raft.SnapshotTransfer
import Pirc.Raft.VerifiedPrefix
import Pirc.Raft.Wire
import Pirc.Scripting.Arithmetic
import Pirc.Scripting.Comparisons
import Pirc.Scripting.Dispatch
import Pirc.Scripting.Engine
import Pirc.Scripting.Interpolation
import Pirc.Scripting.Patterns
import Pirc.Scripting.Positions
import Pirc.Scripting.Privacy
import Pirc.Scripting.Statements
import Pirc.Scripting.Undeclared
import Pirc.Server.BanMasks
import Pirc.Server.BundleUploads
import Pirc.Server.ChannelAuthority
import Pirc.Server.ChannelRaces
import Pirc.Server.CommandReplay
import Pirc.Server.FailoverQueue
import Pirc.Server.GroupAdmins
import Pirc.Server.GroupAuthority
import Pirc.Server.HomeIndex
import Pirc.Server.HostMasks
import Pirc.Server.JoinAdmission
import Pirc.Server.JoinInvites
import Pirc.Server.ModeParams
import Pirc.Server.OfflineAccounting
import Pirc.Server.OfflineRaces
import Pirc.Server.RegistryRaces
import Pirc.Server.ReplicatedKeys
import Pirc.Server.SharedRegistry
import Pirc.Tui.InputLine
import Pirc.Tui.Screen
