import Myctk.Cmod
import Myctk.Config.Integers
import Myctk.Didagle.Circles
import Myctk.Didagle.DataContext
import Myctk.Didagle.DataRun
import Myctk.Didagle.Declarations
import Myctk.Didagle.Executor
import Myctk.Didagle.ExecutorInv
import Myctk.Didagle.ExecutorRun
import Myctk.Didagle.Graph
import Myctk.Didagle.Injection
import Myctk.Didagle.Params
import Myctk.Didagle.Races
import Myctk.Ecache.Cache
import Myctk.Ecache.Content
import Myctk.Ecache.Manager
import Myctk.Ecache.SaveLoad
import Myctk.Lib.Assembly
import Myctk.Lib.Assoc
import Myctk.Lib.BitSlice
import Myctk.Lib.Bytes
import Myctk.Lib.Chain
import Myctk.Lib.Countable
import Myctk.Lib.Extents
import Myctk.Lib.Greatest
import Myctk.Lib.IndexedLog
import Myctk.Lib.IntType
import Myctk.Lib.Outcome
import Myctk.Lib.Peg
import Myctk.Lib.Pool
import Myctk.Lib.Records
import Myctk.Lib.Ring
import Myctk.Lib.Runs
import Myctk.Lib.Stdio
import Myctk.Lib.Stream
import Myctk.Lib.Threads
import Myctk.Lib.Traversal
import Myctk.Mraft.Cluster
import Myctk.Mraft.IoBufInput
import Myctk.Mraft.Node
import Myctk.Mraft.NodeRun
import Myctk.Mraft.PbFile
import Myctk.Mraft.Recovery
import Myctk.Mraft.Segment
import Myctk.Mraft.SegmentLoad
import Myctk.Mraft.SegmentRun
import Myctk.Mraft.SnapshotRead
import Myctk.Mraft.SnapshotTransfer
import Myctk.Mraft.Storage
import Myctk.Mraft.StorageAppend
import Myctk.Mraft.StorageReads
import Myctk.Mraft.StorageTruncate
import Myctk.Rdict.Dict
import Myctk.Rdict.DictRun
import Myctk.Rdict.LogWalk
import Myctk.Rdict.LongStrings
import Myctk.Rdict.Merge
import Myctk.Rdict.MergeErrors
import Myctk.Rdict.Table
import Myctk.Rdict.Words
import Myctk.Robims.BsiEviction
import Myctk.Robims.BsiExtremes
import Myctk.Robims.BsiFloat
import Myctk.Robims.BsiGenerations
import Myctk.Robims.BsiRanges
import Myctk.Robims.BsiSpec
import Myctk.Robims.BsiTopK
import Myctk.Robims.DatabaseRun
import Myctk.Robims.Field
import Myctk.Robims.File
import Myctk.Robims.FileSpec
import Myctk.Robims.HeapSpec
import Myctk.Robims.IDMappingRun
import Myctk.Robims.IntSelect
import Myctk.Robims.Query
import Myctk.Robims.QueryCache
import Myctk.Robims.QueryDivision
import Myctk.Robims.QueryExec
import Myctk.Robims.QueryGrammar
import Myctk.Robims.QueryNames
import Myctk.Robims.SaveLoad
import Myctk.Robims.TableAtomic
import Myctk.Robims.TableContent
import Myctk.Robims.TableRemove
import Myctk.Robims.TableRun
import Myctk.Robims.WeightSet
import Myctk.Ssexpr.Agreement
import Myctk.Ssexpr.Division
import Myctk.Ssexpr.Grammar
import Myctk.Ssexpr.Interpreter
import Myctk.Ssexpr.Yields
import Myctk.Ssexpr2.CodeGenSound
import Myctk.Ssexpr2.Comparison
import Myctk.Ssexpr2.Compiled
import Myctk.Ssexpr2.Division
import Myctk.Ssexpr2.Eval
import Myctk.Ssexpr2.Pieces
import Myctk.Ssexpr2.Resolve
