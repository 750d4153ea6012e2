import SqliteGcs.Lib.Bytes
import SqliteGcs.Lib.TxnLog
import SqliteGcs.Lib.PageTable
import SqliteGcs.Lib.ObjectStore
import SqliteGcs.Lib.Simulation
import SqliteGcs.Lib.Lockstep
import SqliteGcs.Lib.BlockRange
import SqliteGcs.Storage
import SqliteGcs.Metadata
import SqliteGcs.Record
import SqliteGcs.BlockMapper
import SqliteGcs.Composition
import SqliteGcs.Recovery
import SqliteGcs.Batch
import SqliteGcs.Crash
import SqliteGcs.InMemoryStorage
import SqliteGcs.Contents
import SqliteGcs.Live
import SqliteGcs.Sessions
import SqliteGcs.LogicalSize
import SqliteGcs.Vfs
import SqliteGcs.Compactor
import SqliteGcs.Frame
import SqliteGcs.Posix
import SqliteGcs.ImportExport
import SqliteGcs.LocalStorage
import SqliteGcs.GcsStorage
import SqliteGcs.SessionLog
import SqliteGcs.CompactGcs
import SqliteGcs.CompactionRace
import SqliteGcs.BlockFile
import SqliteGcs.ReadLaws
import SqliteGcs.Truncation
import SqliteGcs.Representation
import SqliteGcs.FailedWrite
import SqliteGcs.Canonical
import SqliteGcs.FailedCompaction
import SqliteGcs.CleanClose
import SqliteGcs.OpenRegistry
import SqliteGcs.Interchange
import SqliteGcs.OneLog
import SqliteGcs.FixedWidth
import SqliteGcs.FixedWidthCalls
import SqliteGcs.SizedStorage
import SqliteGcs.FixedWidthInit
import SqliteGcs.FixedWidthRuns
import SqliteGcs.Fuzzer
import SqliteGcs.Lifetime
import SqliteGcs.Lib.PlainFile
import SqliteGcs.Lib.Layer
import SqliteGcs.OrdinaryFile
import SqliteGcs.Backend
import SqliteGcs.Journals
import SqliteGcs.AtomicImport
import SqliteGcs.LogTool
import SqliteGcs.OrdinaryLifetime
import SqliteGcs.Upload
import SqliteGcs.ObjectLifetime
import SqliteGcs.BucketFile
