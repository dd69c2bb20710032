import TieredStore.RecordCache.Updates
import TieredStore.RecordCache.Placeholders
import TieredStore.RecordCache.Tombstones
import TieredStore.RecordCache.Aborts
import TieredStore.RecordCache.PendingCount
import TieredStore.RecordCache.SieveScan
import TieredStore.RecordCache.PrefixedKey
import TieredStore.RecordCache.EpochManager
import TieredStore.ConcurrencyControl.DirtyReads
import TieredStore.ConcurrencyControl.LowWatermark
import TieredStore.ConcurrencyControl.Compaction
import TieredStore.SlabAllocator.DrainTarget
import TieredStore.VersionedIndex.Promotion
import TieredStore.VersionedIndex.Abort
import TieredStore.VersionedIndex.RefusedWrites
import TieredStore.FrameLatch.Validation
import TieredStore.BufferManager.Conservation
import TieredStore.BufferManager.LoadProtocol
import TieredStore.BufferManager.PageIds
import TieredStore.BTree.Garbage
import TieredStore.HistoryTree.VersionKeys
import TieredStore.HistoryTree.Rightmost
import TieredStore.GarbageCollection.RemoveSafety
import TieredStore.Logging.RingSafety
import TieredStore.Logging.SignalMark
import TieredStore.Logging.Recoverability
import TieredStore.Admission.CountMinSketch
import TieredStore.Admission.VisitHistogram
import TieredStore.Admission.CandidateQueue
