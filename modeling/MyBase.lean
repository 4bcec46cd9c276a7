import MyBase.Lib.Bytes
import MyBase.Lib.OrdMap
import MyBase.Lib.Run
import MyBase.Lib.SegLog
import MyBase.Wal.FileInfo
import MyBase.Wal.Wal
import MyBase.Wal.Format
import MyBase.Wal.Refine
import MyBase.Wal.Read
import MyBase.Wal.Decode
import MyBase.Wal.Recovery
import MyBase.Wal.Crash
import MyBase.Wal.WriteAt
import MyBase.Storage.Commiter
import MyBase.Storage.Entry
import MyBase.Storage.Replicas
import MyBase.Storage.Agreement
import MyBase.Storage.CommitBounds
import MyBase.Storage.Catchup
import MyBase.Storage.OnWal
import MyBase.Lib.Draw
import MyBase.Meta.TableBuilder
import MyBase.Meta.Rebuild
import MyBase.Common.BufferQueue
import MyBase.Common.CBufferQueue
import MyBase.Common.CLockBufferQueue
import MyBase.Kvstore.Expiry
import MyBase.Kvstore.Isolation
import MyBase.Lib.Frames
import MyBase.Meta.FinishReports
import MyBase.Meta.Served
import MyBase.Meta.ServerCheck
import MyBase.Net.Connections
import MyBase.Net.EpollIn
import MyBase.Rpc.Client
import MyBase.Rpc.Recv
import MyBase.Storage.Responses
import MyBase.Storage.Rpc
import MyBase.Wal.Appends
import MyBase.Lib.Tally
import MyBase.Meta.BuildErrors
import MyBase.Meta.Compaction
import MyBase.Meta.FirstBuild
import MyBase.Meta.Promotions
import MyBase.Meta.ReportFrame
import MyBase.Meta.SysData
import MyBase.Storage.Heartbeats
import MyBase.Lib.Surplus
import MyBase.Meta.Balance
import MyBase.Kvstore.Format
import MyBase.Kvstore.Lifetime
import MyBase.Kvstore.SysDb
import MyBase.Lib.Walk
import MyBase.Storage.RoundTrip
import MyBase.Wal.FailedWrite
import MyBase.Common.FifoQueue
import MyBase.Common.Peek
import MyBase.Common.SessionMgn
import MyBase.Lib.CString
import MyBase.Lib.IndexedLog
import MyBase.Meta.KvLogStore
import MyBase.Meta.LogPack
import MyBase.Meta.StatInfo
import MyBase.Public.BitMap
import MyBase.Public.Config
import MyBase.Public.ConfigLines
import MyBase.Public.ReadWriteLock
import MyBase.Rpc.CThread
import MyBase.Lib.Loop
import MyBase.Meta.ExactSets
import MyBase.Public.Expand
import MyBase.Client.Routing
import MyBase.Net.SendSide
