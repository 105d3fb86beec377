import F2fs.Basic
import F2fs.Lib.Placement
import F2fs.Lib.RadixTree
import F2fs.Lib.JournalArray
import F2fs.Lib.Shadow
import F2fs.Lib.BitScan
import F2fs.Lib.OptionFold
import F2fs.Lib.Loop
import F2fs.Lib.Splice
import F2fs.Lib.PagedRecords
import F2fs.Lib.IntervalTree
import F2fs.Lib.TreePointers
import F2fs.Checkpoint.Ckpt
import F2fs.Checkpoint.Pack
import F2fs.Checkpoint.Layout
import F2fs.Checkpoint.CompactSum
import F2fs.Checkpoint.Orphans
import F2fs.Node.NatCache
import F2fs.Node.FreeNid
import F2fs.Node.NatFlush
import F2fs.Node.NatFlushSpec
import F2fs.Node.NodePath
import F2fs.Node.NatOps
import F2fs.Node.NatLists
import F2fs.Node.BuildFreeNids
import F2fs.Node.FreeNidBooks
import F2fs.Node.NatBits
import F2fs.Node.NatBitsMount
import F2fs.Node.FreeNidRun
import F2fs.Node.NatFlushFree
import F2fs.Lib.FoldView
import F2fs.Node.FreeNidView
import F2fs.Node.FreeNidScan
import F2fs.Node.BuildSequential
import F2fs.Node.NidOps
import F2fs.Node.NidInv
import F2fs.Node.NidMoves
import F2fs.Node.MountNids
import F2fs.Namei.Namespace
import F2fs.Namei.Operations
import F2fs.Namei.CrossRename
import F2fs.Namei.ProjInherit
import F2fs.Node.AvailableNids
import F2fs.Node.NodeOffset
import F2fs.Segment.Sit
import F2fs.Segment.FreeSegmap
import F2fs.Segment.NewSegment
import F2fs.Segment.SitFlush
import F2fs.Segment.SitFlushSpec
import F2fs.Segment.SitCounters
import F2fs.Segment.FreeCounts
import F2fs.Segment.Prefree
import F2fs.Segment.SmallDiscards
import F2fs.Segment.DiscardCmd
import F2fs.Segment.DiscardBooks
import F2fs.Segment.DiscardTree
import F2fs.Segment.DiscardRun
import F2fs.Segment.DiscardLinks
import F2fs.Segment.IssueRange
import F2fs.Segment.IssueLists
import F2fs.Recovery.NodeLog
import F2fs.Recovery.RollForward
import F2fs.Recovery.Terminates
import F2fs.Recovery.Replay
import F2fs.Mount.Superblock
import F2fs.Mount.Geometry
import F2fs.Space.ValidCounts
import F2fs.Extent.ExtentTree
import F2fs.Extent.ExtentBooks
import F2fs.Extent.ExtentUpdate
import F2fs.Extent.ExtentCache
import F2fs.Extent.Represented
import F2fs.Inode.Layout
import F2fs.Inode.LayoutStable
import F2fs.File.SyncFile
import F2fs.File.SyncDurable
import F2fs.File.FsyncMark
import F2fs.Truncate.IndexTree
import F2fs.Truncate.TruncateBlocks
import F2fs.Truncate.FreeTree
import F2fs.Truncate.Cut
import F2fs.Truncate.TruncateInode
import F2fs.Truncate.BlockPath
import F2fs.Truncate.InodeBlocks
import F2fs.Truncate.CutTree
import F2fs.Truncate.FileBlocks
import F2fs.Truncate.Truncated
import F2fs.Truncate.SizeLimit
import F2fs.Truncate.Exact
import F2fs.Xattr.Area
import F2fs.Xattr.Entries
import F2fs.Xattr.Stored
import F2fs.Xattr.XattrMap
import F2fs.File.MapBlocks
import F2fs.File.TruncateHole
import F2fs.Inode.InodeRoundTrip
import F2fs.Lib.Ledger
import F2fs.Blocks.BlockMap
import F2fs.Blocks.Exchange
import F2fs.Blocks.ReadOut
import F2fs.Blocks.CloneLoop
import F2fs.Blocks.CloneBooks
import F2fs.Blocks.Rollback
import F2fs.Blocks.Moved
import F2fs.Blocks.MoveRange
import F2fs.Blocks.AtomicCommit
import F2fs.Segment.Curseg
import F2fs.Segment.ReplaceBlock
import F2fs.Segment.SectionSearch
import F2fs.Segment.TrimFs
import F2fs.File.Precache
import F2fs.Gc.Victim
import F2fs.Gc.VictimScan
import F2fs.Gc.SsrSegment
import F2fs.Segment.SsrRoom
import F2fs.File.Fiemap
import F2fs.File.SeekBlock
import F2fs.Segment.DirtyBooks
import F2fs.Segment.MoveOut
import F2fs.Gc.Collect
import F2fs.Gc.Guarded
import F2fs.Gc.CollectPass
import F2fs.Gc.CollectSection
import F2fs.Gc.GcEnds
import F2fs.Lib.LittleEndian
import F2fs.Acl.Codec
import F2fs.Acl.RoundTrip
import F2fs.Acl.Contained
import F2fs.Dir.HashBuckets
import F2fs.Dir.Dentry
import F2fs.Dir.Contained
import F2fs.Lib.SlotRuns
import F2fs.Dir.DentryMap
import F2fs.Dir.Readdir
import F2fs.Truncate.Stopped
import F2fs.Dir.DentryHash
import F2fs.Dir.InlineConvert
import F2fs.Dir.RehashUndo
import F2fs.Xattr.WalkBounds
import F2fs.Node.GiveBack
import F2fs.Xattr.SetAtomic
import F2fs.Truncate.NewNode
import F2fs.File.DnodeAlloc
import F2fs.File.Preallocate
import F2fs.File.PreallocProgress
import F2fs.Segment.RevBits
import F2fs.Extent.RbTree
import F2fs.Inode.LayoutSane
import F2fs.Segment.SitMount
import F2fs.File.GcRange
import F2fs.Mount.ShadowAddr
import F2fs.Node.Incarnation
import F2fs.Lib.CommitStore
import F2fs.Segment.SitRecords
import F2fs.Volume.State
import F2fs.Volume.Lists
import F2fs.Volume.Turn
import F2fs.Volume.Writing
import F2fs.Volume.Summaries
import F2fs.Volume.Sound
import F2fs.Volume.Mount
import F2fs.Volume.Checkpoint
import F2fs.Volume.Runs
import F2fs.Volume.WarmChain
import F2fs.Extent.Mapping
import F2fs.Extent.Coherent
import F2fs.Lib.Handoff
import F2fs.Segment.FlushMerge
import F2fs.Segment.FlushDurable
