import AutoCache.Shard.ReadSafety
import AutoCache.Replication.Lsn
import AutoCache.Replication.Interleaving
import AutoCache.Protocol.Channels
import AutoCache.Protocol.Acknowledge
import AutoCache.Cluster.Convergence
import AutoCache.Cluster.Election
import AutoCache.Cluster.Rumours
import AutoCache.Protocol.Asking
import AutoCache.Protocol.Routing
import AutoCache.Cluster.Suspicion
import AutoCache.Replication.Chunks
import AutoCache.Protocol.LostUpdates
import AutoCache.Tiered.History
import AutoCache.Tiered.Policy
import AutoCache.Tiered.MoveSafety
import AutoCache.Tiered.Transparency
import AutoCache.Persistence.FlushFinal
import AutoCache.Persistence.Deadlines
import AutoCache.Protocol.Deadlines
import AutoCache.Store.ScanChanges
import AutoCache.Tiered.SlotCover
import AutoCache.Tiered.CollectionTransparency
import AutoCache.Persistence.Durability
import AutoCache.Protocol.Resync
import AutoCache.Cluster.Epochs
import AutoCache.Cluster.ReplicaSets
import AutoCache.Cluster.StateSaver
import AutoCache.Controllers.SlotMap
import AutoCache.Controllers.MoveSlot
import AutoCache.Store.Filled
import AutoCache.Protocol.TimeReplies
import AutoCache.Store.Renames
import AutoCache.Store.Counters
import AutoCache.Store.EntryCodec
import AutoCache.Clipboard.Pastes
import AutoCache.Cluster.Hash
import AutoCache.Cluster.Bitmap
import AutoCache.Cluster.NodeRanges
import AutoCache.Protocol.CommandTable
