import Polaris.Backup.Archive
import Polaris.Backup.ArchiveFormat
import Polaris.Backup.ArchiveIntegrity
import Polaris.Backup.Configuration
import Polaris.Backup.Container
import Polaris.Backup.Disk
import Polaris.Backup.FailedImport
import Polaris.Backup.Install
import Polaris.Backup.Recovery
import Polaris.Backup.Rollback
import Polaris.Backup.Steps
import Polaris.Channels.Adapters
import Polaris.Channels.Calls
import Polaris.Channels.Chunking
import Polaris.Channels.Classification
import Polaris.Channels.Delivery
import Polaris.Channels.DenyByDefault
import Polaris.Channels.Formatting
import Polaris.Channels.Handling
import Polaris.Channels.Inbox
import Polaris.Channels.Models
import Polaris.Channels.NoticeCalls
import Polaris.Channels.NoticeKeys
import Polaris.Channels.NoticePass
import Polaris.Channels.Notifications
import Polaris.Channels.NotifiedOnce
import Polaris.Channels.Outbox
import Polaris.Channels.Polling
import Polaris.Channels.Sending
import Polaris.Channels.Socket
import Polaris.Channels.Store
import Polaris.Channels.Streams
import Polaris.Channels.Updates
import Polaris.Channels.Verdicts
import Polaris.Daemon.EventStream
import Polaris.Ensemble.BudgetSplit
import Polaris.Ensemble.Creation
import Polaris.Ensemble.Execution
import Polaris.Ensemble.Group
import Polaris.Ensemble.Models
import Polaris.Ensemble.Submission
import Polaris.Journal.Addresses
import Polaris.Journal.Budget
import Polaris.Journal.Calls
import Polaris.Journal.CanonicalJson
import Polaris.Journal.Codec
import Polaris.Journal.Datetime
import Polaris.Journal.EventLog
import Polaris.Journal.Events
import Polaris.Journal.ExternalKeys
import Polaris.Journal.Families
import Polaris.Journal.Footprint
import Polaris.Journal.History
import Polaris.Journal.Later
import Polaris.Journal.LeaseSafety
import Polaris.Journal.Ledger
import Polaris.Journal.Lifecycle
import Polaris.Journal.Migration
import Polaris.Journal.Ownership
import Polaris.Journal.Reclaim
import Polaris.Journal.Records
import Polaris.Journal.Rollback
import Polaris.Journal.Runs
import Polaris.Journal.Specs
import Polaris.Journal.StepMachine
import Polaris.Journal.StepSpecs
import Polaris.Journal.Steps
import Polaris.Journal.Stored
import Polaris.Journal.TimestampOrder
import Polaris.Journal.TimestampText
import Polaris.Journal.Timestamps
import Polaris.Library.Asking
import Polaris.Library.AuthenticatedStream
import Polaris.Library.Binary64
import Polaris.Library.Cuts
import Polaris.Library.Faults
import Polaris.Library.FileTree
import Polaris.Library.FixedWidth
import Polaris.Library.Keyset
import Polaris.Library.Lease
import Polaris.Library.Like
import Polaris.Library.LinkedCalls
import Polaris.Library.LinkedTree
import Polaris.Library.LockedFile
import Polaris.Library.Moves
import Polaris.Library.OnceEach
import Polaris.Library.PosixPath
import Polaris.Library.Program
import Polaris.Library.PyJson
import Polaris.Library.PyJsonAscii
import Polaris.Library.PyJsonPlain
import Polaris.Library.PyJsonRoundTrip
import Polaris.Library.PyJsonSame
import Polaris.Library.PyText
import Polaris.Library.PyValue
import Polaris.Library.Replace
import Polaris.Library.RevisionLog
import Polaris.Library.SortedDict
import Polaris.Library.Table
import Polaris.Library.TaskTable
import Polaris.Library.Transaction
import Polaris.Memory.Audit
import Polaris.Memory.ContextBlock
import Polaris.Memory.ContextFence
import Polaris.Memory.FallbackSearch
import Polaris.Memory.Models
import Polaris.Memory.Recall
import Polaris.Memory.Redaction
import Polaris.Memory.Rendering
import Polaris.Memory.Revising
import Polaris.Memory.Revisions
import Polaris.Memory.SearchIndex
import Polaris.Memory.Security
import Polaris.Memory.Snapshot
import Polaris.Memory.Store
import Polaris.Memory.Tools
import Polaris.Memory.Writes
import Polaris.Providers.Base
import Polaris.Providers.Encodable
import Polaris.Providers.Requests
import Polaris.Runtime.Agent
import Polaris.Runtime.Answered
import Polaris.Runtime.CompletionRoundTrip
import Polaris.Runtime.Conversation
import Polaris.Runtime.Creation
import Polaris.Runtime.Effects
import Polaris.Runtime.Frozen
import Polaris.Runtime.Gate
import Polaris.Runtime.Harmless
import Polaris.Runtime.Lineage
import Polaris.Runtime.Reads
import Polaris.Runtime.Replay
import Polaris.Runtime.Resumption
import Polaris.Runtime.Serialization
import Polaris.Runtime.System
import Polaris.Runtime.Yielding
import Polaris.Scheduler.Calendar
import Polaris.Scheduler.Calls
import Polaris.Scheduler.Caps
import Polaris.Scheduler.Claims
import Polaris.Scheduler.Cron
import Polaris.Scheduler.CronGrammar
import Polaris.Scheduler.CronScan
import Polaris.Scheduler.Delivered
import Polaris.Scheduler.Delivering
import Polaris.Scheduler.DeliveryCalls
import Polaris.Scheduler.DeliveryInvariant
import Polaris.Scheduler.Executors
import Polaris.Scheduler.Lifecycle
import Polaris.Scheduler.LocalTime
import Polaris.Scheduler.Models
import Polaris.Scheduler.NextRun
import Polaris.Scheduler.Occurrences
import Polaris.Scheduler.Races
import Polaris.Scheduler.Runs
import Polaris.Scheduler.Schedule
import Polaris.Scheduler.Store
import Polaris.Service.AllOrNothing
import Polaris.Service.Cancellation
import Polaris.Service.Eligibility
import Polaris.Service.EventLoop
import Polaris.Service.Execution
import Polaris.Service.FanOut
import Polaris.Service.LeasedRecovery
import Polaris.Service.OneExecutor
import Polaris.Service.OutwardReads
import Polaris.Service.ProviderCheck
import Polaris.Service.Recovery
import Polaris.Service.ScopeIsolation
import Polaris.Service.Shutdown
import Polaris.Service.Startup
import Polaris.Service.State
import Polaris.Service.Submission
import Polaris.Storage.ArtifactSafety
import Polaris.Storage.Artifacts
import Polaris.Storage.Secrets
import Polaris.Storage.SecretsCodec
import Polaris.Storage.SecretsUpdates
import Polaris.Tools.AtomicWrite
import Polaris.Tools.Filesystem
import Polaris.Tools.HttpFetch
import Polaris.Tools.PathContainment
import Polaris.Tools.PathResolution
import Polaris.Tools.Registration
import Polaris.Tools.Registry
import Polaris.Tools.Terminal
import Polaris.Tools.WriteAgreement
