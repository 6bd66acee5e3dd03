import TapeRs.Catalog.ExtentCache
import TapeRs.Catalog.Keys
import TapeRs.Core.DirLaws
import TapeRs.Core.Epochs
import TapeRs.Core.LedgerLaw
import TapeRs.Core.Lifecycle
import TapeRs.Core.Waiters
import TapeRs.Daemon.CatalogFraming
import TapeRs.Daemon.CatalogIntegrity
import TapeRs.Daemon.DirectorySync
import TapeRs.Daemon.DriveChanges
import TapeRs.Daemon.FileTasks
import TapeRs.Daemon.FrozenCatalog
import TapeRs.Daemon.GuardedTransport
import TapeRs.Daemon.OwnerReports
import TapeRs.Daemon.RaftDurability
import TapeRs.Daemon.TapeReclaims
import TapeRs.Daemon.TaskLife
import TapeRs.Daemon.VipSafety
import TapeRs.Ltfs.IncrementRoundTrip
import TapeRs.Ltfs.Renames
import TapeRs.Ltfs.StreamingScan
import TapeRs.Ltfs.WorkingUids
import TapeRs.Scsi.FenceSafety
