import Lsmcd.Shm.Trim

/-!
The data of the memcached front end (`lsmemcache.h`, `lsmchashmulti.h`, `memcacheconn.h`).
-/

namespace Lsmcd

def ULL_MAXLEN : Nat := 24
def KEY_MAXLEN : Nat := 250
def LSMC_MAXDELTATIME : Nat := 60 * 60 * 24 * 30
def VERSION : String := "1.0.0"
def INT_MAX : Int := 2 ^ 31 - 1

def LSMC_USECAS : Nat := 0x0200
def LSMC_WITHCAS : Nat := 0x0100
def LSMC_CMDMASK : Nat := 0x00ff

def MC_BINCMD_GET : Nat := 0x00
def MC_BINCMD_SET : Nat := 0x01
def MC_BINCMD_ADD : Nat := 0x02
def MC_BINCMD_REPLACE : Nat := 0x03
def MC_BINCMD_DELETE : Nat := 0x04
def MC_BINCMD_INCREMENT : Nat := 0x05
def MC_BINCMD_DECREMENT : Nat := 0x06
def MC_BINCMD_QUIT : Nat := 0x07
def MC_BINCMD_FLUSH : Nat := 0x08
def MC_BINCMD_GETQ : Nat := 0x09
def MC_BINCMD_NOOP : Nat := 0x0a
def MC_BINCMD_VERSION : Nat := 0x0b
def MC_BINCMD_GETK : Nat := 0x0c
def MC_BINCMD_GETKQ : Nat := 0x0d
def MC_BINCMD_APPEND : Nat := 0x0e
def MC_BINCMD_PREPEND : Nat := 0x0f
def MC_BINCMD_STAT : Nat := 0x10
def MC_BINCMD_SETQ : Nat := 0x11
def MC_BINCMD_ADDQ : Nat := 0x12
def MC_BINCMD_REPLACEQ : Nat := 0x13
def MC_BINCMD_DELETEQ : Nat := 0x14
def MC_BINCMD_INCREMENTQ : Nat := 0x15
def MC_BINCMD_DECREMENTQ : Nat := 0x16
def MC_BINCMD_QUITQ : Nat := 0x17
def MC_BINCMD_FLUSHQ : Nat := 0x18
def MC_BINCMD_APPENDQ : Nat := 0x19
def MC_BINCMD_PREPENDQ : Nat := 0x1a
def MC_BINCMD_VERBOSITY : Nat := 0x1b
def MC_BINCMD_TOUCH : Nat := 0x1c
def MC_BINCMD_GAT : Nat := 0x1d
def MC_BINCMD_GATQ : Nat := 0x1e
def MC_BINCMD_SASL_LIST : Nat := 0x20
def MC_BINCMD_SASL_AUTH : Nat := 0x21
def MC_BINCMD_SASL_STEP : Nat := 0x22
def MC_BINCMD_GATK : Nat := 0x23
def MC_BINCMD_GATKQ : Nat := 0x24

/--
The values of `m_retcode` and `m_iRetcode`. `UPDRET_CASFAIL` is `UPDRET_EEXISTS`; `other` is any
value that the source does not name.
-/
inductive UpdRet
  | DONE
  | NOTFOUND
  | NONNUMERIC
  | EEXISTS
  | APPEND
  | PREPEND
  | NONE
  | INTERNAL_ERROR
  | other
  deriving DecidableEq

inductive McBinStat
  | SUCCESS
  | KEYENOENT
  | KEYEEXISTS
  | E2BIG
  | EINVAL
  | NOTSTORED
  | DELTABADVAL
  | AUTHERROR
  | AUTHCONTINUE
  | REMOTEERROR
  | UNKNOWNCMD
  | ENOMEM
  | INTERNAL_ERROR
  deriving DecidableEq

def McBinStat.code : McBinStat → Nat
  | SUCCESS => 0x00
  | KEYENOENT => 0x01
  | KEYEEXISTS => 0x02
  | E2BIG => 0x03
  | EINVAL => 0x04
  | NOTSTORED => 0x05
  | DELTABADVAL => 0x06
  | AUTHERROR => 0x20
  | AUTHCONTINUE => 0x21
  | REMOTEERROR => 0x30
  | UNKNOWNCMD => 0x81
  | ENOMEM => 0x82
  | INTERNAL_ERROR => 0x84

def bytes (s : String) : List UInt8 :=
  s.toList.map fun c => UInt8.ofNat c.toNat

/--
`%u` and `%llu`. A 64 bit number has at most 20 digits.
-/
def decimal (n : Nat) : List UInt8 :=
  go 20 n []
where
  go : Nat → Nat → List UInt8 → List UInt8
  | 0, _, acc => acc
  | fuel + 1, n, acc =>
    let acc := UInt8.ofNat (48 + n % 10) :: acc
    if n < 10 then acc else go fuel (n / 10) acc

def decimalInt : Int → List UInt8
  | .ofNat n => decimal n
  | .negSucc n => UInt8.ofNat 45 :: decimal (n + 1)

def toInt32 (n : Nat) : Int :=
  if n % 2 ^ 32 < 2 ^ 31 then n % 2 ^ 32 else (n % 2 ^ 32 : Int) - 2 ^ 32

def readLe (data : Nat → UInt8) (off : Nat) : Nat → Nat
  | 0 => 0
  | n + 1 => (data off).toNat + 256 * readLe data (off + 1) n

def writeLe (data : Nat → UInt8) (off n v : Nat) : Nat → UInt8 :=
  fun i => if off ≤ i ∧ i < off + n then UInt8.ofNat (v / 256 ^ (i - off)) else data i

structure LsMcStats where
  set_cmds : UInt64 := 0
  flush_cmds : UInt64 := 0
  get_hits : UInt64 := 0
  get_misses : UInt64 := 0
  touch_hits : UInt64 := 0
  touch_misses : UInt64 := 0
  delete_hits : UInt64 := 0
  delete_misses : UInt64 := 0
  incr_hits : UInt64 := 0
  incr_misses : UInt64 := 0
  decr_hits : UInt64 := 0
  decr_misses : UInt64 := 0
  cas_hits : UInt64 := 0
  cas_misses : UInt64 := 0
  cas_badval : UInt64 := 0
  auth_cmds : UInt64 := 0
  auth_errors : UInt64 := 0
  deriving DecidableEq

structure LsMcHdr where
  x_verbose : UInt8
  x_withcas : Bool
  x_withsasl : Bool
  x_dstaddr : List UInt8
  x_stats : LsMcStats
  cas : UInt64

/--
`sizeof(LsMcDataItem)`: the value of an element starts with the expiry time in 8 bytes, the flags in
4 and 4 bytes of padding. With `m_usecas` the unique follows in 8 bytes.
-/
def sizeofDataItem : Nat := 16

def sizeofCas : Nat := 8

structure LsMcDataItem where
  x_exptime : Int
  x_flags : Nat

def toTime (n : Nat) : Int :=
  if n < 2 ^ 63 then n else (n : Int) - 2 ^ 64

namespace LsShmHElem

def exptime (e : LsShmHElem) : Int :=
  toTime (readLe e.data 0 8)

def flags (e : LsShmHElem) : Nat :=
  readLe e.data 8 4

def cas (e : LsShmHElem) : Nat :=
  readLe e.data sizeofDataItem 8

def dataItem (e : LsShmHElem) : LsMcDataItem where
  x_exptime := e.exptime
  x_flags := e.flags

def setExptime (e : LsShmHElem) (exptime : Int) : LsShmHElem :=
  { e with data := writeLe e.data 0 8 (exptime % 2 ^ 64).toNat }

/--
`memcpy` of a whole `LsMcDataItem`. The padding of `m_item` is 0: the object is static and only its
fields are written.
-/
def setItem (e : LsShmHElem) (item : LsMcDataItem) : LsShmHElem :=
  let e := e.setExptime item.x_exptime
  { e with data := writeLe (writeLe e.data 8 4 item.x_flags) 12 4 0 }

def setCas (e : LsShmHElem) (cas : Nat) : LsShmHElem :=
  { e with data := writeLe e.data sizeofDataItem 8 cas }

def putBytes (e : LsShmHElem) (off n : Nat) (buf : List UInt8) : LsShmHElem :=
  { e with data := fun i => if off ≤ i ∧ i < off + n then buf.getD (i - off) 0 else e.data i }

end LsShmHElem

structure LsMcParms where
  m_usecas : Bool
  m_usesasl : Bool
  m_anonymous : Bool
  m_nomemfail : Bool
  m_iValMaxSz : Nat
  m_iMemMaxSz : Nat

inductive McProtocol
  | MC_UNKNOWN
  | MC_ASCII
  | MC_BINARY
  | MC_INTERNAL
  deriving DecidableEq

/--
The connection from a slave to the master of a slice, `m_pConnSlaveToMaster`: whether it is in the
state `CS_CONNECTED`, its flag `CS_REMBUSY`, the client that waits for an answer and what was sent.
`hasHash` is whether its `m_pHash` is set: closing the connection clears it.
-/
structure LsMcRemote where
  connected : Bool
  m_protocol : McProtocol
  internal : Bool
  remBusy : Bool
  hasHash : Bool
  link : Option Nat
  m_bufIncoming : List UInt8
  sent : List UInt8

/--
A slice with the hashes of its users; the default hash is that of no user. `x_iOff` and `x_iSize`
are the fields of `LsMcTidInfoHelper`, which the reserved word of the default hash holds, and `hdr`
is what `x_iOff` refers to.
-/
structure LsMcHashSlice where
  m_hashByUser : Option (List UInt8) → LsShmHash
  x_iOff : Nat
  x_iSize : Nat
  hdr : LsMcHdr
  remote : LsMcRemote

/--
`notified` is the slices for which `cachedNotifyData` was called.
-/
structure LsMcHashMulti where
  m_iCnt : Nat
  m_fnHashKey : List UInt8 → Nat
  m_pSlices : Nat → LsMcHashSlice
  notified : List Nat

def LENNBUF_MAXLEN : Nat := 1024

/--
A client connection with its `LsMcSasl`: whether a SASL exchange has succeeded and the user that it
has recorded. `m_pSlice`, `m_pHash` and `m_iHdrOff` are what `setSlice` has set last, the hash being
given by its user. `out` is the bytes sent to the client so far.
-/
structure MemcacheConn where
  id : Nat
  connected : Bool
  m_protocol : McProtocol
  internal : Bool
  remBusy : Bool
  respWait : Bool
  cmdWait : Bool
  m_pUser : Option (List UInt8)
  authenticated : Bool
  saslUser : Option (List UInt8)
  m_pSlice : Nat
  m_pHash : Option (List UInt8)
  m_iHdrOff : Nat
  m_bufIncoming : List UInt8
  out : List UInt8

/--
The members of `LsMemcache` that belong to the command in progress. `m_pStrt` is the buffer that it
points to.
-/
structure LsMcCmdInProgress where
  m_pStrt : List UInt8
  m_parms : StrPair
  m_hkey : Nat
  m_item : LsMcDataItem
  m_iterOff : Nat
  m_rescas : Nat
  m_needed : Int
  m_retcode : UpdRet

structure LsMcUpdOpt where
  m_iFlags : Nat
  m_iRetcode : UpdRet
  m_pMisc : List UInt8
  m_value : Nat
  m_cas : Nat

/--
What `chkAuth` returns: 0 with the user that it has recorded, 1 with the text to send back, or -1.
-/
inductive SaslRet
  | ok (user : List UInt8)
  | cont (result : List UInt8)
  | fail

/--
What the operating system answers: `pid` and `rusage` for the statistics, and for an address given to
`setSliceDst` its text and whether `connectTo` succeeds, `none` when it is no address. `saslConn` and
`chkAuth` are the answers of the SASL library, to a mechanism and the data sent with it. The last
three are what locals hold that the source does not initialize.
-/
structure McEnv where
  procId : UInt8
  pid : Nat
  utime : Nat × Nat
  stime : Nat × Nat
  connect : List UInt8 → Option (List UInt8 × Bool)
  saslConn : Bool
  chkAuth : List UInt8 → List UInt8 → SaslRet
  updOpt : LsMcUpdOpt
  expired : Bool
  stack : Nat → UInt8

/--
The singleton. `link` is the field `_pLink` of the client connections. `undef` is set when the source leaves what the language defines, by reading or writing
outside its buffers or through `NULL`; nothing is said about what follows.
-/
structure LsMemcache extends LsMcCmdInProgress where
  m_pHashMulti : LsMcHashMulti
  m_mcparms : LsMcParms
  m_bConfigMultiUser : Bool
  m_bConfigReplication : Bool
  m_pWaitQ : Option Nat
  m_pWaitTail : Option Nat
  link : Nat → Option Nat
  m_noreply : Bool
  env : McEnv
  undef : Bool

end Lsmcd
