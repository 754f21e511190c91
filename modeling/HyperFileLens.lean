import HyperFileLens.Node.Sticky
import HyperFileLens.Node.DeliveryBudget
import HyperFileLens.Cleanup.S3MarkerLast
import HyperFileLens.Cleanup.RepositoryMarkerLast
import HyperFileLens.Nas.LeaseFifo
import HyperFileLens.Scheduling.WakeupFence
import HyperFileLens.Backup.BoundaryExact
import HyperFileLens.Protection.RetentionRuns
import HyperFileLens.Protection.SnapshotGone
import HyperFileLens.Protection.SnapshotInUse
import HyperFileLens.Lens.ChatSlots
import HyperFileLens.Storage.ClaimsApart
import HyperFileLens.Storage.OrphanFlight
import HyperFileLens.Agent.RunOnce
import HyperFileLens.Alert.OpenRecords
import HyperFileLens.Lens.RunBinding
import HyperFileLens.Storage.OperationsFenced
import HyperFileLens.Restore.ServersRemembered
import HyperFileLens.Lens.WorkspaceRecovery
import HyperFileLens.Ownership.OwnersExclusive
import HyperFileLens.Node.PurgeEvidence
import HyperFileLens.Protection.CronUnion
import HyperFileLens.Protection.IntervalFires
import HyperFileLens.Node.ProgressOrder
import HyperFileLens.Protection.DeletedStays
import HyperFileLens.Agent.BandwidthLimiter
import HyperFileLens.Agent.ResultsFit
import HyperFileLens.Lens.CapacityLimits
import HyperFileLens.Protection.LocatorStays
import HyperFileLens.Cleanup.S3Ownership
import HyperFileLens.Cleanup.S3Fallback
import HyperFileLens.Lens.ReconcileExact
import HyperFileLens.Lens.ScopesRebound
import HyperFileLens.Lens.ScopesApart
import HyperFileLens.Restore.PathContainment
import HyperFileLens.Protection.LaneConsistent
import HyperFileLens.Protection.TransferForward
import HyperFileLens.Storage.SlotsSpread
import HyperFileLens.Engine.WriterPreferring
import HyperFileLens.Engine.KeysExclusive
import HyperFileLens.Engine.ListingReadBack
import HyperFileLens.Engine.BrowsePages
import HyperFileLens.Engine.RestoreSelections
import HyperFileLens.Engine.Redaction
import HyperFileLens.Agent.EnvAgrees
import HyperFileLens.Agent.NeverSplices
import HyperFileLens.Nas.SharePath
import HyperFileLens.Node.DownloadSlots
import HyperFileLens.Storage.CapacityKept
import HyperFileLens.Node.AgentRoute
import HyperFileLens.Agent.ProcessOutput
import HyperFileLens.Alert.SampleWindow
import HyperFileLens.Nas.MountRelease
import HyperFileLens.Cleanup.PurgeLedger
import HyperFileLens.Node.InventoryEvidence
