import HaexVault.Crdt.Batching
import HaexVault.Lib.Runs
import HaexVault.Crdt.RowClock
import HaexVault.Crdt.Deletes
import HaexVault.Crdt.PendingColumns
import HaexVault.Lib.Chunks
import HaexVault.Sync.TableScanner
import HaexVault.Sync.Push
import HaexVault.Sync.Orchestrator
import HaexVault.Sync.DirtyTables
import HaexVault.Sync.PushPull
import HaexVault.Sync.Backends
import HaexVault.Crdt.Clock
import HaexVault.Extension.Tables
import HaexVault.Extension.Permissions
import HaexVault.Extension.Execution
import HaexVault.Schema.Migrations
import HaexVault.Schema.Tracked
import HaexVault.Space.Ucan
import HaexVault.Space.Schema
import HaexVault.Space.Vault
import HaexVault.Space.InboundSync
import HaexVault.Space.Invites
import HaexVault.Space.Leader
import HaexVault.Space.Sessions
import HaexVault.Space.Admission
import HaexVault.PeerStorage.Handlers
import HaexVault.Space.Attenuation
import HaexVault.Space.Election
import HaexVault.FileSync.Diff
import HaexVault.FileSync.Tree
import HaexVault.FileSync.Scan
import HaexVault.FileSync.Engine
import HaexVault.FileSync.Deletions
import HaexVault.FileSync.Mirror
import HaexVault.FileSync.FixedPoint
import HaexVault.Space.MlsBuffer
import HaexVault.Space.PendingCommits
import HaexVault.Space.ConcurrentClaims
import HaexVault.Space.Scanner
import HaexVault.Space.Pull
import HaexVault.Space.PushCursor
import HaexVault.Space.LeaderChange
import HaexVault.Space.StreamScope
import HaexVault.Space.StreamPull
import HaexVault.Extension.Crypto
import HaexVault.Lib.Calls
import HaexVault.ExternalBridge.ReadySignals
import HaexVault.ExternalBridge.Responses
import HaexVault.ExternalBridge.Server
import HaexVault.ExternalBridge.Authorization
import HaexVault.ExternalBridge.Clients
import HaexVault.PeerStorage.Streams
import HaexVault.Lib.Framing
import HaexVault.QuicDidAuth.Wire
import HaexVault.QuicDidAuth.Handshake
import HaexVault.QuicDidAuth.Agreement
import HaexVault.FileSync.Loops
import HaexVault.Lib.FileCalls
import HaexVault.FileSync.LocalProvider
import HaexVault.PeerStorage.Containment
import HaexVault.Extension.InstallDir
import HaexVault.Mls.Commits
import HaexVault.Mls.Joins
import HaexVault.Extension.Grants
import HaexVault.Mls.Removal
import HaexVault.Extension.PermissionPrompt
import HaexVault.Extension.PermissionManager
import HaexVault.Extension.Decisions
import HaexVault.Extension.GrantedPrompts
import HaexVault.Lib.Fallible
import HaexVault.Passwords.Commands
import HaexVault.Passwords.TagScope
import HaexVault.Lib.Disk
import HaexVault.Database.Vaults
import HaexVault.Database.OneOpener
import HaexVault.Extension.RowOrder
import HaexVault.Extension.SilentReads
import HaexVault.Extension.Constraints
import HaexVault.Extension.WebFetch
import HaexVault.Extension.UrlPatterns
import HaexVault.Lib.PathText
import HaexVault.Extension.PathPatterns
import HaexVault.Space.ScanExact
import HaexVault.Lib.Connection
import HaexVault.Crdt.AllOrNothing
import HaexVault.Crdt.UniqueConflicts
import HaexVault.Space.Devices
import HaexVault.Space.DeviceStubs
import HaexVault.Lib.Numerals
import HaexVault.Sync.HlcOrder
import HaexVault.Crdt.Cleanup
import HaexVault.Crdt.TxHlc
import HaexVault.Extension.SqlTokens
import HaexVault.Sync.SyncMutex
import HaexVault.Space.Attribution
import HaexVault.Space.KeyPackages
import HaexVault.Space.Welcomes
import HaexVault.Lib.Volume
import HaexVault.PeerStorage.Writes
import HaexVault.Lib.Words
import HaexVault.PeerStorage.Ranges
import HaexVault.PeerStorage.Multipart
import HaexVault.RemoteStorage.Downloads
import HaexVault.MediaServer.RangeResponses
import HaexVault.FileSync.Conflicts
import HaexVault.Extension.Placeholders
import HaexVault.Extension.Limits
import HaexVault.Passwords.UpdateSteps
import HaexVault.ExternalBridge.PasskeyCounters
import HaexVault.ExternalBridge.ItemHistory
import HaexVault.ExternalBridge.UrlMatching
import HaexVault.Lib.CommaText
import HaexVault.Passwords.ReadBack
import HaexVault.Space.WelcomeProcessing
import HaexVault.Passwords.Binaries
import HaexVault.Lib.Forest
import HaexVault.Passwords.Groups
import HaexVault.Passwords.FolderWalks
import HaexVault.Sync.ChunkAgreement
import HaexVault.Lib.Utf8
import HaexVault.Extension.Shell
import HaexVault.Space.InviteOutbox
import HaexVault.Space.UcanCache
import HaexVault.Extension.Broadcast
import HaexVault.Extension.AssetRequests
import HaexVault.Schema.CoreMigrations
import HaexVault.Lib.JsonBytes
import HaexVault.Mls.Storage
import HaexVault.Desktop.WindowManager
import HaexVault.Desktop.WindowInvariant
import HaexVault.Desktop.WindowCalls
import HaexVault.Desktop.ConsistentWindows
import HaexVault.Schema.RebuildMigrations
import HaexVault.Passwords.Trash
import HaexVault.Passwords.BulkDelete
import HaexVault.Passwords.Cloning
import HaexVault.Passwords.BulkClone
import HaexVault.Extension.PromptEffect
import HaexVault.Extension.ManifestPermissions
