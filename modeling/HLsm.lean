import HLsm.Lib.Varint
import HLsm.Lib.BinarySearch
import HLsm.Lib.SortedSet
import HLsm.Lib.SortedMerge
import HLsm.Lib.Batch
import HLsm.Lib.KMerge
import HLsm.Lib.CString
import HLsm.Lib.PosixFile
import HLsm.Coding
import HLsm.Bloom
import HLsm.Format
import HLsm.Params
import HLsm.Layout
import HLsm.VersionEdit
import HLsm.EditCodec
import HLsm.Version
import HLsm.Builder
import HLsm.VersionSet
import HLsm.Atomicity
import HLsm.Replay
import HLsm.BuilderRun
import HLsm.Mirror
import HLsm.MemTable
import HLsm.Compaction
import HLsm.Storage
import HLsm.LazyLevels
import HLsm.CompactionWork
import HLsm.DB
import HLsm.KeyGen
import HLsm.FileName
import HLsm.Runs
import HLsm.Log
import HLsm.LogRoundTrip
import HLsm.WriteBatch
import HLsm.WritePath
import HLsm.Recovery
