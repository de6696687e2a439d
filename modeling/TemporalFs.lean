import TemporalFs.Lib.Proc
import TemporalFs.Lib.AuditedTable
import TemporalFs.Lib.Rewind
import TemporalFs.Lib.LatestEntry
import TemporalFs.Lib.Determinism
import TemporalFs.Lib.Replay
import TemporalFs.Lib.SparseBlocks
import TemporalFs.Lib.NameTree
import TemporalFs.Lib.HandleTable
import TemporalFs.Db.Schema
import TemporalFs.Db.Sqlite
import TemporalFs.Db.Steps
import TemporalFs.Db.Methods
import TemporalFs.Db.Effects
import TemporalFs.Db.Init
import TemporalFs.Db.Contents
import TemporalFs.Db.Stamps
import TemporalFs.Db.Panics
import TemporalFs.Db.AuditRows
import TemporalFs.Lib.TwoRuns
import TemporalFs.Db.SameButTimes
import TemporalFs.Db.CollectOrder
import TemporalFs.Attr.LookupBlocks
import TemporalFs.Fs.Handlers
import TemporalFs.Fs.Requests
import TemporalFs.Fs.Rules
import TemporalFs.Fs.Invariants
import TemporalFs.Fs.Effects
import TemporalFs.Fs.Mounts
import TemporalFs.Fs.Times
import TemporalFs.Attr.SetAttr
import TemporalFs.Attr.Unrecorded
import TemporalFs.Fs.Handles
import TemporalFs.Fs.LookupCount
import TemporalFs.Attr.Xattrs
import TemporalFs.Fs.OpenFiles
import TemporalFs.Fs.DirectoryReads
import TemporalFs.Fs.Writing
import TemporalFs.Fs.Reading
import TemporalFs.Fs.BlockBounds
import TemporalFs.Fs.Files
import TemporalFs.Fs.Crashes
import TemporalFs.Fs.ReadOnly
import TemporalFs.Fs.CrashRuns
import TemporalFs.Fs.Sizes
import TemporalFs.History.Blocks
import TemporalFs.History.Replay
import TemporalFs.History.Views
import TemporalFs.History.CurrentLogs
import TemporalFs.History.Determinism
import TemporalFs.History.Transactions
import TemporalFs.History.AsOf
import TemporalFs.History.Directories
import TemporalFs.History.Lookups
import TemporalFs.Tree.Directories
import TemporalFs.Tree.Changes
import TemporalFs.Tree.Runs
import TemporalFs.Tree.Mounts
import TemporalFs.Tree.Paths
import TemporalFs.Tree.LinkCounts
import TemporalFs.Tree.Orphans
import TemporalFs.Tree.Stranded
import TemporalFs.Attr.Replies
import TemporalFs.Attr.Unlinked
import TemporalFs.Attr.Frames
import TemporalFs.Attr.ChangeTimes
import TemporalFs.Tree.Renames
import TemporalFs.Tree.Removals
import TemporalFs.Fs.Renames
import TemporalFs.Fs.PartialWrites
import TemporalFs.Fs.Failures
import TemporalFs.Ext.Fossildelta
import TemporalFs.Ext.DeltaFormat
import TemporalFs.Ext.DeltaCreate
import TemporalFs.Ext.DeltaSearch
import TemporalFs.Ext.DeltaApply
import TemporalFs.Ext.Compress
import TemporalFs.History.Rebuilt
import TemporalFs.Fs.Modes
import TemporalFs.Lib.Codec
import TemporalFs.Fuse.Replies
import TemporalFs.Fuse.Session
import TemporalFs.Fuse.Answers
