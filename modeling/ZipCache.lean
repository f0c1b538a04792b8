import ZipCache.Checksum
import ZipCache.SortedArray
import ZipCache.LoTier.Tree
import ZipCache.LoTier.Spec
import ZipCache.LoTier.Keys
import ZipCache.LoTier.LeftSplit
import ZipCache.LoTier.Sorted
import ZipCache.LoTier.Range
import ZipCache.LoTier.Descent
import ZipCache.LoTier.Entries
import ZipCache.SsdTier.SubPage
import ZipCache.SsdTier.Disk
import ZipCache.SsdTier.SuperLeaf
import ZipCache.SsdTier.Split
import ZipCache.SsdTier.Tree
import ZipCache.SsdTier.Counters
import ZipCache.SsdTier.AscendingInserts
import ZipCache.SsdTier.Routing
import ZipCache.SsdTier.SubPageMap
import ZipCache.SsdTier.SplitView
import ZipCache.SsdTier.FailedPut
import ZipCache.SsdTier.PageBounds
import ZipCache.SsdTier.SplitBounds
import ZipCache.SsdTier.Retry
import ZipCache.SsdTier.Allocator
import ZipCache.SsdTier.BlockOwnership
import ZipCache.SsdTier.SlotPages
import ZipCache.SsdTier.LegacyLeaf
import ZipCache.SsdTier.HashedMap
import ZipCache.SsdTier.WriteBack
import ZipCache.DramTier.BaseTree
import ZipCache.DramTier.Compressed
import ZipCache.DramTier.LeafCodec
import ZipCache.DramTier.HashedLeaf
import ZipCache.DramTier.CodecRoundTrip
import ZipCache.DramTier.WriteBuffer
import ZipCache.DramTier.HashedWrites
import ZipCache.DramTier.SlotView
import ZipCache.Router.Model
import ZipCache.Router.Spec
import ZipCache.Router.LargeObject
import ZipCache.Router.Read
import ZipCache.Router.Accounting
import ZipCache.Router.Eviction
