import Lsmcd.Lib.Run
import Lsmcd.Lib.Chain
import Lsmcd.Lib.Buckets
import Lsmcd.Lib.DList
import Lsmcd.Lib.Queue
import Lsmcd.Lib.Bytes
import Lsmcd.Lib.Framing
import Lsmcd.Lib.Zlib
import Lsmcd.Shm.TidLookup
import Lsmcd.Shm.HashMap
import Lsmcd.Shm.RehashCrash
import Lsmcd.Shm.LruRun
import Lsmcd.Shm.TidHash
import Lsmcd.Shm.TidJournal
import Lsmcd.Shm.HashJournal
import Lsmcd.Shm.Accounting
import Lsmcd.Memcache.WaitQueue
import Lsmcd.Memcache.BinAnswer
import Lsmcd.Memcache.OwnBytes
import Lsmcd.Memcache.TextStore
import Lsmcd.Memcache.SizeLimit
import Lsmcd.Lib.LockTrace
import Lsmcd.Shm.Handed
import Lsmcd.Shm.Alarm
import Lsmcd.Memcache.Locks
import Lsmcd.Memcache.LockBalance
import Lsmcd.Memcache.LockSafe
import Lsmcd.Repl.Roles
import Lsmcd.Repl.PacketLoop
import Lsmcd.Repl.Accept
import Lsmcd.Repl.GzipStream
import Lsmcd.Memcache.BinLength
import Lsmcd.Memcache.CasOff
import Lsmcd.Memcache.FailedUpdate
import Lsmcd.Memcache.Concat
import Lsmcd.Lib.Packed
import Lsmcd.Lib.Merge
import Lsmcd.Repl.NodeInfo
import Lsmcd.Repl.SlotDiff
import Lsmcd.Shm.LruTime
import Lsmcd.Lib.Slots
import Lsmcd.Repl.BulkRepl
import Lsmcd.Lib.CString
import Lsmcd.Memcache.SaslAuth
import Lsmcd.Memcache.InternalFrame
import Lsmcd.Memcache.NumArgs
import Lsmcd.Lib.Cover
import Lsmcd.Shm.PoolRun
import Lsmcd.Shm.PoolFail
import Lsmcd.Memcache.CmdTable
import Lsmcd.Util.LoopFifo
import Lsmcd.Memcache.OutConn
import Lsmcd.Repl.Packer
import Lsmcd.Shm.ShmLock
import Lsmcd.Shm.Addr2Off
import Lsmcd.Shm.AddrMap
import Lsmcd.Shm.AllocPage
import Lsmcd.Util.GHash
import Lsmcd.Shm.EvictExact
import Lsmcd.Shm.SameId
import Lsmcd.Memcache.TidSet
import Lsmcd.Repl.Election
import Lsmcd.Memcache.TidEntry
import Lsmcd.Memcache.TidSend
import Lsmcd.Memcache.TidApply
import Lsmcd.Repl.TidRepl
import Lsmcd.Memcache.Arith
import Lsmcd.Shm.PageList
import Lsmcd.Shm.PageRep
import Lsmcd.Shm.PageJoin
import Lsmcd.Shm.PageRun
