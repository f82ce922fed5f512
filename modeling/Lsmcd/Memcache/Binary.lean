import Lsmcd.Memcache.Admin

/-!
The binary protocol: `processBinCmd` and its handlers.
-/

namespace Lsmcd

def MC_BINARY_REQ : UInt8 := 0x80
def MC_BINARY_RES : UInt8 := 0x81
def MC_INTERNAL_REQ : UInt8 := 0x8f

def sizeofBinHdr : Nat := 24
def SASLMECH_MAXLEN : Nat := 32

def readBe (buf : List UInt8) (p : Nat) : Nat → Nat
  | 0 => 0
  | n + 1 => (byteAt buf p).toNat * 256 ^ n + readBe buf (p + 1) n

def beBytes : Nat → Nat → List UInt8
  | 0, _ => []
  | n + 1, v => UInt8.ofNat (v / 256 ^ n) :: beBytes n v

theorem readBe_beBytes (n v : Nat) (a b : List UInt8)
    : readBe (a ++ beBytes n v ++ b) a.length n = v % 256 ^ n := by
  induction n generalizing a with
  | zero => simp [readBe, Nat.mod_one]
  | succ n ih =>
    have hbyte : byteAt (a ++ beBytes (n + 1) v ++ b) a.length = UInt8.ofNat (v / 256 ^ n) := by
      rw [List.append_assoc]
      exact byteAt_length _ _ _
    have hrest : readBe (a ++ beBytes (n + 1) v ++ b) (a.length + 1) n = v % 256 ^ n := by
      have h := ih (a ++ [UInt8.ofNat (v / 256 ^ n)])
      simpa [beBytes] using h
    rw [readBe, hbyte, hrest, Nat.pow_succ, Nat.mod_mul, UInt8.toNat_ofNat']
    have hcomm := Nat.mul_comm (v / 256 ^ n % 2 ^ 8) (256 ^ n)
    have h256 : (2 : Nat) ^ 8 = 256 := rfl
    rw [h256] at hcomm ⊢
    omega

structure McBinCmdHdr where
  opcode : Nat
  keylen : Nat
  extralen : Nat
  totbody : Nat
  opaqueWord : List UInt8
  cas : Nat

def McBinCmdHdr.ofBuf (buf : List UInt8) : McBinCmdHdr where
  opcode := readBe buf 1 1
  keylen := readBe buf 2 2
  extralen := readBe buf 4 1
  totbody := readBe buf 8 4
  opaqueWord := (buf.drop 12).take 4
  cas := readBe buf 16 8

def bufBytes (buf : List UInt8) (p n : Nat) : List UInt8 :=
  (buf.drop p).take n

def setupNoreplyCmd (cmd : Nat) : Nat × Bool :=
  if cmd = MC_BINCMD_SETQ then (MC_BINCMD_SET, true)
  else if cmd = MC_BINCMD_ADDQ then (MC_BINCMD_ADD, true)
  else if cmd = MC_BINCMD_REPLACEQ then (MC_BINCMD_REPLACE, true)
  else if cmd = MC_BINCMD_DELETEQ then (MC_BINCMD_DELETE, true)
  else if cmd = MC_BINCMD_INCREMENTQ then (MC_BINCMD_INCREMENT, true)
  else if cmd = MC_BINCMD_DECREMENTQ then (MC_BINCMD_DECREMENT, true)
  else if cmd = MC_BINCMD_QUITQ then (MC_BINCMD_QUIT, true)
  else if cmd = MC_BINCMD_FLUSHQ then (MC_BINCMD_FLUSH, true)
  else if cmd = MC_BINCMD_APPENDQ then (MC_BINCMD_APPEND, true)
  else if cmd = MC_BINCMD_PREPENDQ then (MC_BINCMD_PREPEND, true)
  else if cmd = MC_BINCMD_GETQ then (MC_BINCMD_GET, false)
  else if cmd = MC_BINCMD_GETKQ then (MC_BINCMD_GETK, false)
  else if cmd = MC_BINCMD_GATQ then (MC_BINCMD_GAT, true)
  else if cmd = MC_BINCMD_GATKQ then (MC_BINCMD_GATK, true)
  else (cmd, false)

def isRemoteEligible (cmd : Nat) : Bool :=
  cmd = MC_BINCMD_TOUCH || cmd = MC_BINCMD_GAT || cmd = MC_BINCMD_GATK || cmd = MC_BINCMD_SET ||
    cmd = MC_BINCMD_ADD || cmd = MC_BINCMD_REPLACE || cmd = MC_BINCMD_DELETE ||
    cmd = MC_BINCMD_INCREMENT || cmd = MC_BINCMD_DECREMENT || cmd = MC_BINCMD_APPEND ||
    cmd = MC_BINCMD_PREPEND

def errText : McBinStat → String
  | .KEYENOENT => "Not found"
  | .KEYEEXISTS => "Data exists for key."
  | .E2BIG => "Too large."
  | .EINVAL => "Invalid arguments"
  | .NOTSTORED => "Not stored."
  | .DELTABADVAL => "Non-numeric server-side value for incr or decr"
  | .AUTHERROR => "Auth failure."
  | .REMOTEERROR => "Remote error."
  | .UNKNOWNCMD => "Unknown command"
  | .ENOMEM => "Out of memory allocating item"
  | .INTERNAL_ERROR => "Internal error"
  | .SUCCESS => "UNHANDLED ERROR"
  | .AUTHCONTINUE => "UNHANDLED ERROR"

namespace McCall

def binResHdr (s : McCall) (hdr : McBinCmdHdr) (extralen keylen totbody : Nat) (status : McBinStat)
    : List UInt8 :=
  [MC_BINARY_RES, UInt8.ofNat hdr.opcode] ++ beBytes 2 keylen ++ [UInt8.ofNat extralen, 0] ++
    beBytes 2 status.code ++ beBytes 4 totbody ++ hdr.opaqueWord ++ beBytes 8 s.mc.m_rescas

def setRescas (s : McCall) (cas : Nat) : McCall :=
  { s with mc := { s.mc with m_rescas := cas } }

def binOkRespond (s : McCall) (hdr : McBinCmdHdr) : McCall :=
  s.binRespond (s.binResHdr hdr 0 0 0 .SUCCESS)

def binErrRespond (s : McCall) (hdr : McBinCmdHdr) (err : McBinStat) : McCall :=
  let text := bytes (errText err)
  let s := ((s.setIterOff 0).setRescas 0).setNoreply false
  (s.binRespond (s.binResHdr hdr 0 0 text.length err)).binRespond text

def binTextRespond (s : McCall) (hdr : McBinCmdHdr) (keylen : Nat) (status : McBinStat)
    (text : List UInt8) : McCall :=
  (s.binRespond (s.binResHdr hdr 0 keylen text.length status)).binRespond text

/--
`fwdBinToRemote`. Without replication nothing is sent, and a length that is negative as an `int` is
not sent either.
-/
def fwdBinToRemote (s : McCall) (i : Nat) (hdr : McBinCmdHdr) : McCall × Bool :=
  if !s.getHash.isTidMaster then
    if (s.sliceAt i).remote.connected then
      let len := toInt32 (sizeofBinHdr + hdr.totbody)
      if len < 0 then (s, true)
      else (s.fwdCommand i (s.conn.m_bufIncoming.take len.toNat), true)
    else (s.binErrRespond hdr .REMOTEERROR, true)
  else (s, false)

/--
What `setupBinCmd` returns: `NULL`, -1 for a request that waits, -2 for one that was forwarded, an
error of `chkMemSz`, or the position of the value.
-/
inductive BinSetup
  | invalid
  | queued
  | forwarded
  | err (stat : McBinStat)
  | body (pVal : Nat) (opt : LsMcUpdOpt)

/--
Choose the slice of the key. A request that the master has to execute is queued or forwarded.
-/
def binSlice (s : McCall) (remote : Bool) (hdr : McBinCmdHdr) (key : List UInt8)
    : McCall × Option BinSetup :=
  if remote then
    let r := s.canProcessNow key
    if !r.2 then (r.1, some .queued)
    else
      let q := r.1.fwdBinToRemote r.1.conn.m_pSlice hdr
      if q.2 then (q.1, some .forwarded) else (q.1, none)
  else (s.setSlice key, none)

def swapCas (s : McCall) : McCall :=
  let buf := s.conn.m_bufIncoming
  { s with conn := { s.conn with
    m_bufIncoming := buf.take 16 ++ (bufBytes buf 16 8).reverse ++ buf.drop 24 } }

def casOpt (s : McCall) (cmd cas : Nat) : LsMcUpdOpt :=
  { s.mc.env.updOpt with
    m_iFlags := if s.mc.m_mcparms.m_usecas then cmd ||| LSMC_USECAS else cmd
    m_cas := cas }

def setupExtras (s : McCall) (hdr : McBinCmdHdr) (cmd pReqX pVal : Nat) : McCall × BinSetup :=
  let buf := s.conn.m_bufIncoming
  let opt := s.mc.env.updOpt
  if cmd = MC_BINCMD_REPLACE ∨ cmd = MC_BINCMD_ADD ∨ cmd = MC_BINCMD_SET then
    if hdr.extralen ≠ 8 then (s, .invalid)
    else
      let r := s.chkMemSz cmd
      if r.2 ≠ .SUCCESS then (r.1, .err r.2)
      else
        let s := r.1.setItem { x_exptime := readBe buf (pReqX + 4) 4, x_flags := readBe buf pReqX 4 }
        let s := s.setVal (s.parmAdjLen s.mc.m_parms.val.len)
        let opt := if cmd = MC_BINCMD_REPLACE then { opt with m_iFlags := cmd, m_cas := hdr.cas } else opt
        (s, .body pVal { opt with m_iRetcode := .DONE })
  else if cmd = MC_BINCMD_TOUCH ∨ cmd = MC_BINCMD_GAT ∨ cmd = MC_BINCMD_GATK ∨
      cmd = MC_BINCMD_FLUSH then
    if hdr.extralen ≠ 4 then (s, .invalid)
    else (s.setItem { s.mc.m_item with x_exptime := readBe buf pReqX 4 }, .body pVal opt)
  else if cmd = MC_BINCMD_INCREMENT ∨ cmd = MC_BINCMD_DECREMENT then
    if hdr.extralen ≠ 20 then (s, .invalid)
    else (s.setVal (s.parmAdjLen 0),
      .body pVal { s.casOpt cmd hdr.cas with m_value := readBe buf pReqX 8 })
  else if cmd = MC_BINCMD_APPEND ∨ cmd = MC_BINCMD_PREPEND then
    let r := s.chkMemSz cmd
    if r.2 ≠ .SUCCESS then (r.1, .err r.2)
    else
      let ret := if cmd = MC_BINCMD_APPEND then UpdRet.APPEND else UpdRet.PREPEND
      (r.1, .body pVal { r.1.casOpt cmd hdr.cas with m_iRetcode := ret })
  else if cmd = MC_BINCMD_VERBOSITY then
    if hdr.extralen ≠ 4 then (s, .invalid) else (s, .body pVal opt)
  else (s, .body pVal opt)

/--
The key, which may reach past the request and past the buffer.
-/
def binKey (s : McCall) (p keyLen : Nat) : McCall :=
  let buf := s.conn.m_bufIncoming
  let s := s.setKey (bufBytes buf p keyLen)
  if buf.length < p + keyLen then s.setUndef else s

/--
When the body is as long as the key, nothing but the key is set up.
-/
def setupBinCmd (s : McCall) (hdr : McBinCmdHdr) (cmd : Nat) : McCall × BinSetup :=
  let keyLen := hdr.keylen
  if KEY_MAXLEN < keyLen then (s, .invalid)
  else if hdr.totbody = keyLen then
    let s := s.binKey sizeofBinHdr keyLen
    let r := s.binSlice (cmd = MC_BINCMD_DELETE) hdr s.mc.m_parms.key
    match r.2 with
    | some ret => (r.1, ret)
    | none => (r.1.swapCas, .body sizeofBinHdr s.mc.env.updOpt)
  else
    let pKey := sizeofBinHdr + hdr.extralen
    let s := s.binKey pKey keyLen
    let r := s.binSlice (isRemoteEligible cmd) hdr s.mc.m_parms.key
    match r.2 with
    | some ret => (r.1, ret)
    | none =>
      -- the length is a 32 bit number
      let len := (hdr.totbody + 2 ^ 33 - keyLen - hdr.extralen) % 2 ^ 32
      (r.1.setVal len).swapCas.setupExtras hdr cmd sizeofBinHdr (pKey + keyLen)

def saveCas (s : McCall) (e : LsShmHElem) : McCall :=
  s.setRescas (if s.mc.m_mcparms.m_usecas then e.cas else 0)

def binGetMiss (s : McCall) (hdr : McBinCmdHdr) (keyLen : Nat) : McCall :=
  if s.mc.m_noreply then s
  else if keyLen ≠ 0 then s.binTextRespond hdr keyLen .KEYENOENT s.mc.m_parms.key
  else s.binErrRespond hdr .KEYENOENT

def binGetStat (s : McCall) (doTouch hit : Bool) : McCall :=
  s.stat fun st =>
    match doTouch, hit with
    | true, true => { st with touch_hits := st.touch_hits + 1 }
    | true, false => { st with touch_misses := st.touch_misses + 1 }
    | false, true => { st with get_hits := st.get_hits + 1 }
    | false, false => { st with get_misses := st.get_misses + 1 }

def binGetHit (s : McCall) (hdr : McBinCmdHdr) (cmd keyLen : Nat) (e : LsShmHElem) : McCall :=
  let data := mcIter2data e s.mc.m_mcparms.m_usecas
  let s := s.saveCas e
  let val := if cmd = MC_BINCMD_TOUCH then [] else getMem e.data data.1 data.2.toNat
  let s := s.binRespond (s.binResHdr hdr 4 keyLen (4 + keyLen + val.length) .SUCCESS ++ beBytes 4 e.flags)
  let s := if keyLen ≠ 0 then s.binRespond s.mc.m_parms.key else s
  if val ≠ [] then s.binRespond val else s

def doBinGet (s : McCall) (hdr : McBinCmdHdr) (cmd : Nat) (doTouch : Bool) : McCall :=
  let keyLen := if cmd = MC_BINCMD_GATK ∨ cmd = MC_BINCMD_GETK then s.mc.m_parms.key.length else 0
  let hash := s.getHash
  let iterOff := hash.find2 s.mc.m_hkey s.mc.m_parms.key
  let s := s.setIterOff iterOff
  if iterOff = 0 then (s.binGetStat doTouch false).binGetMiss hdr keyLen
  else match hash.offset2iterator iterOff with
    | none => s.binErrRespond hdr .INTERNAL_ERROR
    | some e =>
      if isExpired hash e then
        let s := (s.setHash (hash.eraseIteratorHelper iterOff)).notifyChange
        (s.binGetStat doTouch false).binGetMiss hdr keyLen
      else if doTouch then
        let e := e.setExptime (touchExptime (s.mc.m_item.x_exptime % 2 ^ 32).toNat hash.now)
        let hash := (hash.setTable (·.setElem iterOff (some e))).tidReplaceTid iterOff 0
        ((s.setHash hash).notifyChange.binGetStat true true).binGetHit hdr cmd keyLen e
      else (s.binGetStat false true).binGetHit hdr cmd keyLen e

def doBinDataUpdate (s : McCall) (pBuf : List UInt8) (hdr : McBinCmdHdr) : McCall :=
  let s := s.setKey []
  if s.mc.m_iterOff ≠ 0 then
    (((s.dataItemUpdate pBuf).notifyChange).binOkRespond hdr).setIterOff 0
  else if s.mc.m_retcode = .INTERNAL_ERROR then s.binErrRespond hdr .INTERNAL_ERROR
  else if s.mc.m_retcode = .NOTFOUND then s.binErrRespond hdr .KEYENOENT
  else if s.mc.m_retcode = .EEXISTS then s.binErrRespond hdr .KEYEEXISTS
  else s.binErrRespond hdr .NOTSTORED

def binDeleteStat (s : McCall) (hit : Bool) : McCall :=
  s.stat fun st =>
    if hit then { st with delete_hits := st.delete_hits + 1 }
    else { st with delete_misses := st.delete_misses + 1 }

def doBinDelete (s : McCall) (hdr : McBinCmdHdr) : McCall :=
  let hash := s.getHash
  let iterOff := hash.find2 s.mc.m_hkey s.mc.m_parms.key
  let s := s.setIterOff iterOff
  if iterOff = 0 then (s.binDeleteStat false).binErrRespond hdr .KEYENOENT
  else match hash.offset2iterator iterOff with
    | none => (s.binDeleteStat false).binErrRespond hdr .INTERNAL_ERROR
    | some e =>
      if isExpired hash e then
        let s := (s.setHash (hash.eraseIteratorHelper iterOff)).binDeleteStat false
        s.notifyChange.binErrRespond hdr .KEYENOENT
      else if s.mc.m_mcparms.m_usecas ∧ hdr.cas ≠ 0 ∧ hdr.cas ≠ e.cas then
        s.binErrRespond hdr .KEYEEXISTS
      else
        let s := (s.setHash (hash.eraseIteratorHelper iterOff)).binDeleteStat true
        s.notifyChange.binOkRespond hdr

/--
`doBinDataUpdate` sends a response of its own before the number is sent.
-/
def binNumRespond (s : McCall) (hdr : McBinCmdHdr) (text newval : List UInt8) : McCall :=
  let s := ((s.setRetcode .NONE).doBinDataUpdate text hdr)
  s.binRespond (s.binResHdr hdr 0 0 8 .SUCCESS ++ newval)

def binArithStat (s : McCall) (cmd : Nat) (hit : Bool) : McCall :=
  s.stat fun st =>
    if cmd = MC_BINCMD_INCREMENT then
      if hit then { st with incr_hits := st.incr_hits + 1 }
      else { st with incr_misses := st.incr_misses + 1 }
    else
      if hit then { st with decr_hits := st.decr_hits + 1 }
      else { st with decr_misses := st.decr_misses + 1 }

/--
A number that is not there is created with its initial value, unless the expiry time is all ones.
The extras are read behind the header.
-/
def binArithInit (s : McCall) (hdr : McBinCmdHdr) (cmd : Nat) : McCall :=
  let buf := s.conn.m_bufIncoming
  let exptime := readBe buf (sizeofBinHdr + 16) 4
  if exptime = 0xffffffff then (s.binArithStat cmd false).binErrRespond hdr .KEYENOENT
  else
    let text := decimal (readBe buf (sizeofBinHdr + 8) 8)
    let s := (s.setItem { x_exptime := exptime, x_flags := 0 }).setVal (s.parmAdjLen text.length)
    let hash := s.getHash
    let iterOff := hash.find2 s.mc.m_hkey s.mc.m_parms.key
    let r := s.ofHash (hash.doInsert iterOff s.mc.m_hkey s.mc.m_parms)
    let s := r.1.setIterOff r.2
    if r.2 ≠ 0 then s.binNumRespond hdr text (bufBytes buf (sizeofBinHdr + 8) 8)
    else s.binErrRespond hdr .NOTSTORED

def doBinArithmetic (s : McCall) (hdr : McBinCmdHdr) (cmd : Nat) (opt : LsMcUpdOpt) : McCall :=
  let r := s.doHashUpdate opt
  let s := r.1.setIterOff r.2.2
  let opt := r.2.1
  if r.2.2 ≠ 0 then
    let num := (myStrtoull opt.m_pMisc).getD 0
    (s.binArithStat cmd true).binNumRespond hdr opt.m_pMisc (beBytes 8 num)
  else if opt.m_iRetcode = .NOTFOUND then s.binArithInit hdr cmd
  else if opt.m_iRetcode = .NONNUMERIC then s.binErrRespond hdr .DELTABADVAL
  else if opt.m_iRetcode = .EEXISTS then s.binErrRespond hdr .KEYEEXISTS
  else s.binErrRespond hdr .NOTSTORED

def doBinFlush (s : McCall) (hdr : McBinCmdHdr) : McCall :=
  if 0 < hdr.extralen ∧ s.mc.m_item.x_exptime ≠ 0 then s.binErrRespond hdr .EINVAL
  else if s.statsAggregate then
    let r := foreachSlice (multiFlushFunc true) s
    if r.2 then r.1.binOkRespond hdr else r.1.binErrRespond hdr .REMOTEERROR
  else
    let sl := if s.mc.m_bConfigMultiUser then s.conn.m_pSlice else 0
    if !s.useMulti ∧ !s.getHash.isTidMaster ∧ (s.sliceAt sl).remote.remBusy then s.putWaitQ
    else
      let q := if !s.useMulti then s.fwdBinToRemote sl hdr else (s, false)
      if q.2 then q.1 else q.1.flushOne.binOkRespond hdr

def doBinVersion (s : McCall) (hdr : McBinCmdHdr) : McCall :=
  s.binTextRespond hdr 0 .SUCCESS (bytes VERSION)

def doBinStat1Send (hdr : McBinCmdHdr) (s : McCall) (item : String × List UInt8) : McCall :=
  let body := bytes item.1 ++ item.2
  s.binRespond (((s.setRescas 0).binResHdr hdr 0 item.1.length body.length .SUCCESS) ++ body)

def binStatItems (env : McEnv) (st : LsMcStats) : List (String × List UInt8) :=
  let num := fun (n : UInt64) => decimal n.toNat
  [ ("pid", decimal env.pid)
  , ("version", bytes VERSION)
  , ("pointer_size", decimal 64)
  , ("rusage_user", timeval env.utime)
  , ("rusage_system", timeval env.stime)
  , ("cmd_get", num (st.get_hits + st.get_misses))
  , ("cmd_set", num st.set_cmds)
  , ("cmd_flush", num st.flush_cmds)
  , ("cmd_touch", num (st.touch_hits + st.touch_misses))
  , ("get_hits", num st.get_hits)
  , ("get_misses", num st.get_misses)
  , ("delete_misses", num st.delete_misses)
  , ("delete_hits", num st.delete_hits)
  , ("incr_misses", num st.incr_misses)
  , ("incr_hits", num st.incr_hits)
  , ("decr_misses", num st.decr_misses)
  , ("decr_hits", num st.decr_hits)
  , ("cas_misses", num st.cas_misses)
  , ("cas_hits", num st.cas_hits)
  , ("cas_badval", num st.cas_badval)
  , ("touch_hits", num st.touch_hits)
  , ("touch_misses", num st.touch_misses)
  , ("auth_cmds", num st.auth_cmds)
  , ("auth_errors", num st.auth_errors) ]

def doBinStats (s : McCall) (hdr : McBinCmdHdr) : McCall :=
  if s.conn.m_iHdrOff = 0 then s.binErrRespond hdr .EINVAL
  else if hdr.keylen = 5 ∧ bufBytes s.conn.m_bufIncoming sizeofBinHdr 5 = bytes "reset" then
    s.resetStats.binOkRespond hdr
  else ((binStatItems s.mc.env s.curStats).foldl (doBinStat1Send hdr) s).binOkRespond hdr

/--
The opaque word that makes `doBinSaslList` rebuild the shared memory.
-/
def REBUILD_OPAQUE : List UInt8 := [1, 2, 3, 4]

def doBinSaslList (s : McCall) (hdr : McBinCmdHdr) : McCall :=
  if !s.mc.m_mcparms.m_usesasl then s.binErrRespond hdr .UNKNOWNCMD
  else
    let s := if hdr.opaqueWord = REBUILD_OPAQUE then s.setHash s.getHash.rebuild else s
    if !s.mc.env.saslConn then s.binErrRespond hdr .AUTHERROR
    else
      let mech := bytes "PLAIN"
      let s := s.binRespond (s.binResHdr hdr 0 0 (mech.length + 2) .SUCCESS)
      (s.binRespond mech).binRespond [32, 0]

def authStat (s : McCall) (err : Bool) : McCall :=
  let s := s.stat fun st => { st with auth_cmds := st.auth_cmds + 1 }
  if err then s.stat fun st => { st with auth_errors := st.auth_errors + 1 } else s

/--
The mechanism and the data stand behind the header. A length that wraps around is that of a local
array.
-/
def doBinSaslAuth (s : McCall) (hdr : McBinCmdHdr) : McCall :=
  if !s.mc.m_mcparms.m_usesasl then
    let s := s.binErrRespond hdr .UNKNOWNCMD
    { s with conn := { s.conn with m_pUser := none } }
  else if SASLMECH_MAXLEN < hdr.keylen then s.binErrRespond hdr .EINVAL
  else
    let buf := s.conn.m_bufIncoming
    let s := if hdr.totbody < hdr.keylen then s.setUndef else s
    let valLen := hdr.totbody - hdr.keylen
    let ret := if !s.mc.env.saslConn ∨ valLen = 0 then SaslRet.fail
      else s.mc.env.chkAuth (bufBytes buf sizeofBinHdr hdr.keylen)
        (bufBytes buf (sizeofBinHdr + hdr.keylen) valLen)
    match ret with
    | .ok user =>
      let s := { s with conn := { s.conn with
        authenticated := true
        saslUser := some user
        m_pUser := if s.mc.m_bConfigMultiUser then some user else s.conn.m_pUser } }
      (s.binTextRespond hdr 0 .SUCCESS (bytes "Authenticated")).authStat false
    | .cont result =>
      let s := s.binRespond (s.binResHdr hdr 0 0 result.length .AUTHCONTINUE)
      if result ≠ [] then s.binRespond result else s
    | .fail => (s.binErrRespond hdr .AUTHERROR).authStat true

def binCasStat (s : McCall) (ret : UpdRet) : McCall :=
  s.stat fun st =>
    if ret = .NOTFOUND then { st with cas_misses := st.cas_misses + 1 }
    else if ret = .EEXISTS then { st with cas_badval := st.cas_badval + 1 }
    else { st with cas_hits := st.cas_hits + 1 }

def binStore (s : McCall) (hdr : McBinCmdHdr) (cmd pVal : Nat) (opt : LsMcUpdOpt) : McCall :=
  let val := s.conn.m_bufIncoming.drop pVal
  let s := s.stat fun st => { st with set_cmds := st.set_cmds + 1 }
  if cmd = MC_BINCMD_SET then
    let hash := s.getHash
    let iterOff := hash.find2 s.mc.m_hkey s.mc.m_parms.key
    let r := s.ofHash (hash.doSet iterOff s.mc.m_hkey s.mc.m_parms)
    (r.1.setIterOff r.2).doBinDataUpdate val hdr
  else if cmd = MC_BINCMD_ADD then
    let r := s.doHashInsert opt
    ((r.1.setIterOff r.2.2).setRetcode r.2.1.m_iRetcode).doBinDataUpdate val hdr
  else if cmd = MC_BINCMD_REPLACE then
    let r := s.doHashUpdate opt
    let s := (r.1.setIterOff r.2.2).setRetcode r.2.1.m_iRetcode
    let s := if hdr.cas ≠ 0 then s.binCasStat r.2.1.m_iRetcode else s
    s.doBinDataUpdate val hdr
  else
    let r := s.doHashUpdate opt
    let ret := if r.2.1.m_iRetcode = .NOTFOUND then UpdRet.DONE else r.2.1.m_iRetcode
    ((r.1.setIterOff r.2.2).setRetcode ret).doBinDataUpdate val hdr

def runBinCmd (s : McCall) (hdr : McBinCmdHdr) (cmd pVal : Nat) (opt : LsMcUpdOpt) : McCall × Bool :=
  let s := (s.setRetcode .DONE).setRescas 0
  if cmd = MC_BINCMD_TOUCH ∨ cmd = MC_BINCMD_GAT ∨ cmd = MC_BINCMD_GATK then
    (s.doBinGet hdr cmd true, true)
  else if cmd = MC_BINCMD_GET ∨ cmd = MC_BINCMD_GETK ∨ cmd = MC_BINCMD_GETKQ then
    (s.doBinGet hdr cmd false, true)
  else if cmd = MC_BINCMD_SET ∨ cmd = MC_BINCMD_ADD ∨ cmd = MC_BINCMD_REPLACE ∨
      cmd = MC_BINCMD_APPEND ∨ cmd = MC_BINCMD_PREPEND then
    (s.binStore hdr cmd pVal opt, true)
  else if cmd = MC_BINCMD_DELETE then (s.doBinDelete hdr, true)
  else if cmd = MC_BINCMD_INCREMENT ∨ cmd = MC_BINCMD_DECREMENT then
    (s.doBinArithmetic hdr cmd opt, true)
  else if cmd = MC_BINCMD_QUIT then (s.binOkRespond hdr, false)
  else if cmd = MC_BINCMD_FLUSH then (s.doBinFlush hdr, true)
  else if cmd = MC_BINCMD_NOOP then (s.binOkRespond hdr, true)
  else if cmd = MC_BINCMD_VERSION then (s.doBinVersion hdr, true)
  else if cmd = MC_BINCMD_STAT then (s.doBinStats hdr, true)
  else if cmd = MC_BINCMD_VERBOSITY then
    ((s.setVerbose (readBe s.conn.m_bufIncoming sizeofBinHdr 4)).binOkRespond hdr, true)
  else if cmd = MC_BINCMD_SASL_LIST then
    if !s.mc.m_mcparms.m_usesasl then (s.binOkRespond hdr, true) else (s.doBinSaslList hdr, true)
  else if cmd = MC_BINCMD_SASL_AUTH ∨ cmd = MC_BINCMD_SASL_STEP then (s.doBinSaslAuth hdr, true)
  else (s.binErrRespond hdr .UNKNOWNCMD, true)

def isAuthenticated (s : McCall) (opcode : Nat) : Bool :=
  opcode = MC_BINCMD_SASL_LIST || opcode = MC_BINCMD_SASL_AUTH || opcode = MC_BINCMD_SASL_STEP ||
    opcode = MC_BINCMD_VERSION || s.conn.authenticated

def saslRefuses (s : McCall) (opcode : Nat) : Bool :=
  s.mc.m_mcparms.m_usesasl && !s.isAuthenticated opcode && !s.mc.m_mcparms.m_anonymous &&
    s.conn.saslUser.isNone

def binCmd (hdr : McBinCmdHdr) : Nat :=
  let cmd := (setupNoreplyCmd hdr.opcode).1
  if cmd = MC_BINCMD_SET ∧ hdr.cas ≠ 0 then MC_BINCMD_REPLACE else cmd

/--
A request that is complete. The return value is 0 to close the connection and -1 for a request that
waits.
-/
def processBinReq (s : McCall) (hdr : McBinCmdHdr) (consumed : Int) : McCall × Int :=
  if s.saslRefuses hdr.opcode then (s.binErrRespond hdr .AUTHERROR, 0)
  else
    let s := s.setNoreply (setupNoreplyCmd hdr.opcode).2
    let cmd := binCmd hdr
    let r := s.setupBinCmd hdr cmd
    match r.2 with
    | .invalid => (r.1.binErrRespond hdr .EINVAL, consumed)
    | .queued => (r.1, -1)
    | .forwarded => (r.1, consumed)
    | .err stat => (r.1.binErrRespond hdr stat, consumed)
    | .body pVal opt =>
      let q := r.1.runBinCmd hdr cmd pVal opt
      if !q.2 then (q.1, 0)
      else (q.1, if q.1.conn.cmdWait then -1 else consumed)

/--
The length of the request is compared as an `int`.
-/
def processBinCmd (s : McCall) : McCall × Int :=
  let buf := s.conn.m_bufIncoming
  if buf.length < sizeofBinHdr then (s, -1)
  else
    let hdr := McBinCmdHdr.ofBuf buf
    let consumed := toInt32 (sizeofBinHdr + hdr.totbody)
    if (buf.length : Int) < consumed then (s, -1) else s.processBinReq hdr consumed

end McCall

end Lsmcd
