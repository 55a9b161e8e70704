import CephVolsync.Library.TransitionSystem
import CephVolsync.Library.IndexedFamily
import CephVolsync.Pipeline.Config
import CephVolsync.Pipeline.Semaphore
import CephVolsync.Pipeline.Delivery
import CephVolsync.Rbd.Sync
import CephVolsync.Rbd.Tiling
import CephVolsync.CephFs.FileDelivery
import CephVolsync.CephFs.CommitFailure
import CephVolsync.Pipeline.Progress
import CephVolsync.Pipeline.WindowRuns
import CephVolsync.Pipeline.Custody
import CephVolsync.Pipeline.Batching
import CephVolsync.Pipeline.MemAcquire
import CephVolsync.CephFs.CommitOrder
import CephVolsync.CephFs.BlockSplit
import CephVolsync.CephFs.IteratorOutput
import CephVolsync.CephFs.PathSafety
import CephVolsync.CephFs.HandleSafety
import CephVolsync.CephFs.Durability
import CephVolsync.Mover.Rotation
import CephVolsync.Mover.Incremental
import CephVolsync.Mover.Transition
import CephVolsync.Ceph.Volid
import CephVolsync.CephFs.Delete
import CephVolsync.CephFs.ZeroRange
import CephVolsync.CephFs.BoundaryOrder
import CephVolsync.CephFs.ReaderSafety
import CephVolsync.CephFs.FlushWakeup
import CephVolsync.Mover.Job
import CephVolsync.CephFs.DeleteScope
import CephVolsync.CephFs.SyncProgress
import CephVolsync.Ceph.PoolSafety
import CephVolsync.Rbd.DiffIterator
import CephVolsync.Worker.ServerShutdown
