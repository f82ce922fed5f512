import Lsmcd.Memcache.Ascii

/-!
The handlers of the commands that are not about one key, and `processCmd`.
-/

namespace Lsmcd

namespace McCall

def foreachSlice (f : McCall → Nat → McCall × Bool) (s : McCall) : McCall × Bool :=
  go s.mc.m_pHashMulti.m_iCnt 0 s
where
  go : Nat → Nat → McCall → McCall × Bool
  | 0, _, s => (s, true)
  | n + 1, i, s =>
    let r := f s i
    if r.2 then go n (i + 1) r.1 else r

/--
The sum that `multiStatFunc` makes. `flush_cmds` is assigned, not added.
-/
def addStats (t st : LsMcStats) : LsMcStats where
  set_cmds := t.set_cmds + st.set_cmds
  flush_cmds := st.flush_cmds
  get_hits := t.get_hits + st.get_hits
  get_misses := t.get_misses + st.get_misses
  touch_hits := t.touch_hits + st.touch_hits
  touch_misses := t.touch_misses + st.touch_misses
  delete_hits := t.delete_hits + st.delete_hits
  delete_misses := t.delete_misses + st.delete_misses
  incr_hits := t.incr_hits + st.incr_hits
  incr_misses := t.incr_misses + st.incr_misses
  decr_hits := t.decr_hits + st.decr_hits
  decr_misses := t.decr_misses + st.decr_misses
  cas_hits := t.cas_hits + st.cas_hits
  cas_misses := t.cas_misses + st.cas_misses
  cas_badval := t.cas_badval + st.cas_badval
  auth_cmds := t.auth_cmds + st.auth_cmds
  auth_errors := t.auth_errors + st.auth_errors

def multiStat (s : McCall) : Nat → Nat → LsMcStats → LsMcStats
  | 0, _, total => total
  | n + 1, i, total =>
    if (s.sliceAt i).x_iOff = 0 then total
    else s.multiStat n (i + 1) (addStats total (s.sliceAt i).hdr.x_stats)

def curStats (s : McCall) : LsMcStats :=
  if s.statsAggregate then s.multiStat s.mc.m_pHashMulti.m_iCnt 0 {}
  else (s.sliceAt s.conn.m_pSlice).hdr.x_stats

def statLine (name : String) (val : List UInt8) : List UInt8 :=
  bytes ("STAT " ++ name ++ " ") ++ val ++ bytes "\r\n"

def timeval (t : Nat × Nat) : List UInt8 :=
  let usec := decimal t.2
  decimal t.1 ++ bytes "." ++ List.replicate (6 - usec.length) 48 ++ usec

def statLines (env : McEnv) (st : LsMcStats) : List (List UInt8) :=
  let num := fun (n : UInt64) => decimal n.toNat
  [ statLine "pid" (decimal env.pid)
  , statLine "version" (bytes VERSION)
  , statLine "pointer_size" (decimal 64)
  , statLine "rusage_user" (timeval env.utime)
  , statLine "rusage_system" (timeval env.stime)
  , statLine "cmd_get" (num (st.get_hits + st.get_misses))
  , statLine "cmd_set" (num st.set_cmds)
  , statLine "cmd_flush" (num st.flush_cmds)
  , statLine "cmd_touch" (num (st.touch_hits + st.touch_misses))
  , statLine "get_hits" (num st.get_hits)
  , statLine "get_misses" (num st.get_misses)
  , statLine "delete_misses" (num st.delete_misses)
  , statLine "delete_hits" (num st.delete_hits)
  , statLine "incr_misses" (num st.incr_misses)
  , statLine "incr_hits" (num st.incr_hits)
  , statLine "decr_misses" (num st.decr_misses)
  , statLine "decr_hits" (num st.decr_hits)
  , statLine "cas_misses" (num st.cas_misses)
  , statLine "cas_hits" (num st.cas_hits)
  , statLine "cas_badval" (num st.cas_badval)
  , statLine "touch_hits" (num st.touch_hits)
  , statLine "touch_misses" (num st.touch_misses)
  , statLine "auth_cmds" (num st.auth_cmds)
  , statLine "auth_errors" (num st.auth_errors)
  , bytes "END\r\n" ]

def resetStatAt (s : McCall) (i : Nat) : McCall × Bool :=
  if (s.sliceAt i).x_iOff = 0 then (s, false)
  else (s.setHdrAt i fun h => { h with x_stats := {} }, true)

def resetStats (s : McCall) : McCall :=
  if s.statsAggregate then (foreachSlice resetStatAt s).1
  else (resetStatAt s s.conn.m_pSlice).1

def statsArg (i : McInput) (name : String) : Bool :=
  cString i.buf (i.adv i.pStr).2.ptr = bytes name

def doCmdStats (s : McCall) (i : McInput) : McCall × Int :=
  if s.conn.m_iHdrOff = 0 then (s.respond (bytes "SERVER_ERROR no statistics\r\n"), 0)
  else if 0 < (i.adv i.pStr).2.len ∧ !(statsArg i "detail" || statsArg i "settings" ||
      statsArg i "cachedump" || statsArg i "conns") then
    if statsArg i "reset" then (s.resetStats.respond (bytes "RESET\r\n"), 0)
    else (s.respond badCmdLineFmt, 0)
  else ((statLines s.mc.env s.curStats).foldl sendResult s, 0)

/--
`multiFlushFunc`, with `pThis` set or `NULL`. A slave sends the command on.
-/
def multiFlushFunc (pThis : Bool) (s : McCall) (i : Nat) : McCall × Bool :=
  let slice := s.sliceAt i
  let hash := slice.m_hashByUser none
  if hash.isTidMaster then
    let s := s.setHashAt i none hash.clear
    let s := if slice.x_iOff ≠ 0 then
      s.setHdrAt i fun h => { h with x_stats.flush_cmds := h.x_stats.flush_cmds + 1 } else s
    (if s.mc.m_bConfigReplication then s.notify i else s, true)
  else if !pThis then (s.setUndef, true)
  else if !slice.remote.connected then (s, false)
  else
    let buf := bytes "clear " ++ decimal i ++ bytes "\r\n"
    let remote := { slice.remote with sent := slice.remote.sent ++ buf }
    (s.setSliceAt i { slice with remote := remote }, true)

def flushOne (s : McCall) : McCall :=
  let s := s.setHash s.getHash.clear
  (s.stat fun st => { st with flush_cmds := st.flush_cmds + 1 }).notifyChange

/--
`doCmdFlush` after its arguments. A slave on which the client is marked busy waits.
-/
def flushCmd (s : McCall) (i : McInput) : McCall × Int :=
  if s.statsAggregate then
    let r := foreachSlice (multiFlushFunc true) s
    if r.2 then (r.1.respond (bytes "OK\r\n"), 0) else (r.1.respond noForward, 0)
  else
    let sl := if s.mc.m_bConfigMultiUser then s.conn.m_pSlice else 0
    if !s.useMulti ∧ !((s.sliceAt sl).m_hashByUser s.conn.m_pUser).isTidMaster ∧ s.conn.remBusy then
      (s.putWaitQ, -1)
    else
      let q := if !s.useMulti then s.fwdToRemote sl i.pNxt else (s, false)
      if q.2 then (q.1, 0) else (q.1.flushOne.respond (bytes "OK\r\n"), 0)

/--
The arguments of `flush_all`: `m_noreply` when it is set, and where the line has to end. An argument
that is neither `noreply` nor `0` is an error.
-/
def flushArgs (i : McInput) : Option (Option Bool × Nat) :=
  let t := i.adv i.pStr
  if t.2.len ≤ 0 then some (none, t.1)
  else if i.isNoreply t.2 then some (some true, t.1)
  else if t.2.len ≠ 1 ∨ byteAt i.buf t.2.ptr ≠ 48 then none
  else
    let t := i.adv t.1
    some (some (i.isNoreply t.2), t.1)

/--
Without an argument `m_noreply` keeps its value.
-/
def doCmdFlush (s : McCall) (i : McInput) : McCall × Int :=
  match flushArgs i with
  | none => ((s.setNoreply false).respond badCmdLineFmt, 0)
  | some (noreply, pStr) =>
    let s := match noreply with
      | none => s
      | some n => s.setNoreply n
    if !i.chkEnd pStr then (s.respond badCmdLineFmt, 0) else s.flushCmd i

def doCmdVersion (s : McCall) (i : McInput) : McCall × Int :=
  if !i.chkEnd i.pStr then (s.respond badCmdLineFmt, 0)
  else (s.respond (bytes ("VERSION " ++ VERSION ++ "\r\n")), 0)

def doCmdQuit (s : McCall) (i : McInput) : McCall × Int :=
  if !i.chkEnd i.pStr then (s.respond badCmdLineFmt, 0) else (s, -2)

def notImplemented (s : McCall) : McCall × Int :=
  (s.respond (bytes "NOT_IMPLEMENTED\r\n"), 0)

def setVerbose (s : McCall) (level : Nat) : McCall :=
  if s.conn.m_iHdrOff ≠ 0 then
    s.setHdrAt s.conn.m_pSlice fun h => { h with x_verbose := UInt8.ofNat level }
  else s

def doCmdVerbosity (s : McCall) (i : McInput) : McCall × Int :=
  let pVerbose := i.adv i.pStr
  if pVerbose.2.len ≤ 0 then (s.respond badCmdLineFmt, 0)
  else match myStrtoul (i.str pVerbose.2) with
    | none => (s.respond (bytes "CLIENT_ERROR invalid verbosity argument\r\n"), 0)
    | some verbose =>
      let t := i.adv pVerbose.1
      let s := s.setNoreply (i.isNoreply t.2)
      if !i.chkEnd t.1 then (s.respond badCmdLineFmt, 0)
      else ((s.setVerbose verbose).respond (bytes "OK\r\n"), 0)

/--
A slice number is compared as an `int`, a negative one is out of bounds.
-/
def clearSlice (s : McCall) (which : Int) : McCall :=
  if (s.mc.m_pHashMulti.m_iCnt : Int) ≤ which then s
  else if which < 0 then s.setUndef
  else (s.multiFlushFunc false which.toNat).1

def doCmdClear (s : McCall) (i : McInput) : McCall × Int :=
  let pWhich := i.adv i.pStr
  if pWhich.2.len ≤ 0 then (s, 0)
  else match myStrtoul (i.str pWhich.2) with
    | none => (s, 0)
    | some which => (s.clearSlice (toInt32 which), 0)

def closeRemote (r : LsMcRemote) : LsMcRemote :=
  if r.connected then
    { r with
      connected := false, internal := false, remBusy := false, hasHash := false, m_bufIncoming := [] }
  else r

/--
Connect the slice `which` to its master. The first bytes sent tell the listener the slice.
-/
def connectSlice (s : McCall) (which : Nat) (addr : List UInt8) : McCall × Bool :=
  match s.mc.env.connect addr with
  | none => (s, false)
  | some (text, ok) =>
    let s := s.setHdrAt which fun h => { h with x_dstaddr := text }
    let slice := s.sliceAt which
    let remote := if ok then
        { slice.remote with
          connected := true
          m_protocol := .MC_INTERNAL
          sent := slice.remote.sent ++ [s.mc.env.procId, UInt8.ofNat which, 0x8f] }
      else slice.remote
    let hash := slice.m_hashByUser s.conn.m_pUser
    let s := s.setSliceAt which { slice with remote := remote }
    (s.setHashAt which s.conn.m_pUser { hash with slave := true }, true)

def setSliceDst (s : McCall) (which : Int) (pAddr : Option (List UInt8)) : McCall × Bool :=
  if (s.mc.m_pHashMulti.m_iCnt : Int) ≤ which then (s, false)
  else if which < 0 then (s.setUndef, true)
  else
    let which := which.toNat
    let slice := s.sliceAt which
    if s.conn.m_iHdrOff = 0 ∨ s.conn.m_iHdrOff ≠ slice.x_iOff then (s.setUndef, true)
    else
      let s := if slice.hdr.x_dstaddr ≠ [] then
          s.setSliceAt which
            { slice with remote := closeRemote slice.remote, hdr := { slice.hdr with x_dstaddr := [] } }
        else s
      let hash := slice.m_hashByUser s.conn.m_pUser
      let s := s.setHashAt which s.conn.m_pUser { hash with slave := false }
      match pAddr with
      | none => (s, true)
      | some addr => s.connectSlice which addr

def doCmdTest2 (s : McCall) (i : McInput) : McCall × Int :=
  let pVal := i.adv i.pStr
  let usage := bytes "usage: test2 which [addr]\r\n"
  if pVal.2.len ≤ 0 then (s.respond usage, 0)
  else match myStrtoul (i.str pVal.2) with
    | none => (s.respond usage, 0)
    | some which =>
      let t := (i.adv pVal.1).2
      let r := s.setSliceDst (toInt32 which) (if t.len ≤ 0 then none else some (i.str t))
      if r.2 then (r.1.respond (bytes "TEST2 O.K.\r\n"), 0)
      else (r.1.respond (bytes "TEST2 FAILED!\r\n"), 0)

def tidSlice (i : McInput) : Nat :=
  let t := (i.adv i.pStr).2
  if t.len ≤ 0 then 0 else (myStrtoul (i.str t)).getD 0

def TIDBUF_SIZE : Nat := 2048

def tidBatches : Nat → LsShmHash → Nat → Mem → LsShmHash × List (Mem × Nat)
  | 0, hash, _, _ => (hash, [])
  | fuel + 1, hash, tid, mem =>
    let r := tidGetNxtItems hash tid mem TIDBUF_SIZE
    if r.2 ≤ 0 then (r.1.hash, [])
    else
      let q := tidBatches fuel r.1.hash r.1.tidLast r.1.mem
      (q.1, (r.1.mem, r.2.toNat) :: q.2)

def replBatches (s : McCall) (indx : Nat) : Option (McCall × List (Mem × Nat)) :=
  if s.mc.m_pHashMulti.m_iCnt ≤ indx then none
  else
    let hash := (s.sliceAt indx).m_hashByUser none
    let r := tidBatches (tidFuel hash + 1) hash 0 s.mc.env.stack
    some (s.setHashAt indx none r.1, r.2)

/--
What is printed goes to the standard output of the server.
-/
def doCmdTest1 (s : McCall) (i : McInput) : McCall × Int :=
  let s := s.respond (bytes "TEST1\r\n")
  match s.replBatches (tidSlice i) with
  | none => (s.setUndef, 0)
  | some r => (r.1, 0)

/--
`%.*s`. A negative precision prints up to the next 0, which has to be in the buffer.
-/
def precStr (mem : Mem) (p : Nat) (prec : Int) : Option (List UInt8) :=
  if 0 ≤ prec then some ((getMem mem p prec.toNat).takeWhile (· ≠ 0))
  else
    let bs := getMem mem p (TIDBUF_SIZE - p)
    if 0 ∈ bs then some (bs.takeWhile (· ≠ 0)) else none

def pktText (mem : Mem) (p : Nat) : Option (List UInt8) :=
  let tid := bytes "(" ++ decimal (pktTid mem p) ++ bytes ")"
  if pktType mem p = LSSHM_PKTADD then
    let keySz := pktKeySz mem p
    match precStr mem (addData p) keySz,
      precStr mem (addData p + keySz + sizeofDataItem + sizeofCas)
        ((addValSz mem p : Int) - sizeofDataItem - sizeofCas) with
    | some key, some val => some (tid ++ bytes "ADD[" ++ key ++ bytes "]/[" ++ val ++ bytes "]\n")
    | _, _ => none
  else some (tid ++ bytes "DEL[" ++ decimal (delTid mem p) ++ bytes "]\n")

def MAXOUTBUF : Nat := 1024

/--
One buffer of packets: the text so far, `none` once `curOutLen` is -1. The outer `none` is undefined
behaviour.
-/
def printBatch (mem : Mem) : Nat → Nat → Nat → List UInt8 → Option (Option (List UInt8))
  | 0, _, _, out => some (some out)
  | fuel + 1, p, left, out =>
    match pktText mem p with
    | none => none
    | some text =>
      let out := out ++ text
      if MAXOUTBUF ≤ out.length then some none
      else if left ≤ pktSize mem p then some (some out)
      else printBatch mem fuel (p + pktSize mem p) (left - pktSize mem p) out

/--
A buffer after the one in which the output has become too long is written in front of `outBuf`.
-/
def printBatches : List (Mem × Nat) → Option (List UInt8) → Option (Option (List UInt8))
  | [], out => some out
  | _ :: _, none => none
  | (mem, n) :: bs, some out =>
    match printBatch mem n 0 n out with
    | none => none
    | some out => printBatches bs out

def doCmdPrintTids (s : McCall) (i : McInput) : McCall × Int :=
  match s.replBatches (tidSlice i) with
  | none => (s.setUndef, 0)
  | some r =>
    match printBatches r.2 (some []) with
    | none => (r.1.setUndef, 0)
    | some none => (r.1.respond (bytes "TOO MUCH DATA TO RESPOND\r\n"), 0)
    | some (some out) =>
      if out = [] then (r.1.respond (bytes "NO TIDS\r\n"), 0) else (r.1.respond out, 0)

def runCmd (s : McCall) (i : McInput) (p : LsMcCmdFunc) : McCall × Int :=
  match p.func with
  | .doCmdTest1 => s.doCmdTest1 i
  | .doCmdTest2 => s.doCmdTest2 i
  | .doCmdPrintTids => s.doCmdPrintTids i
  | .doCmdGet => s.doCmdGet i p.arg
  | .doCmdUpdate => s.doCmdUpdate i p.arg
  | .doCmdArithmetic => s.doCmdArithmetic i p.arg
  | .doCmdDelete => s.doCmdDelete i
  | .doCmdTouch => s.doCmdTouch i
  | .doCmdStats => s.doCmdStats i
  | .doCmdFlush => s.doCmdFlush i
  | .doCmdVersion => s.doCmdVersion i
  | .doCmdQuit => s.doCmdQuit i
  | .notImplemented => s.notImplemented
  | .doCmdVerbosity => s.doCmdVerbosity i
  | .doCmdClear => s.doCmdClear i

def cutLine (buf : List UInt8) (endp : Nat) : List UInt8 :=
  let buf := buf.set endp 0
  if 0 < endp ∧ byteAt buf (endp - 1) = CR then buf.set (endp - 1) 0 else buf

def setBuf (s : McCall) (buf : List UInt8) : McCall :=
  { s with conn := { s.conn with m_bufIncoming := buf } }

def setStrt (s : McCall) (buf : List UInt8) : McCall :=
  { s with mc := { s.mc with m_pStrt := buf } }

/--
The return value of the handler: how much of the buffer is used up, -1 for more data, 0 to close.
-/
def finish (endp : Nat) (r : McCall × Int) : McCall × Int :=
  if 0 ≤ r.2 then (r.1, (endp + 1 : Nat) + r.2)
  else if r.2 = -1 then (r.1.setBuf (r.1.conn.m_bufIncoming.set endp LF), -1)
  else (r.1, 0)

/--
The line up to `endp` with the bytes overwritten. The arguments end before the last byte of the line;
when the command ends there with a space, they have the length -1, which the hash function reads as
an unsigned number.
-/
def processLine (s : McCall) (endp : Nat) : McCall × Int :=
  let buf := s.conn.m_bufIncoming
  let s := s.setStrt buf
  let t := advToken buf 0 (endp - 1)
  if t.2.len = 0 then (s, (endp + 1 : Nat))
  else match getCmdFunction (tokBytes buf t.2) with
    | none => (s.respond errorStr, (endp + 1 : Nat))
    | some p =>
      let i : McInput := { buf := buf, pStr := t.1, pStrEnd := endp - 1, pNxt := endp + 1 }
      if endp - 1 < t.1 then (s.setUndef, 0)
      else finish endp ((s.setSlice i.args).runCmd i p)

def saslMessage : List UInt8 :=
  bytes "ASCII messages will not be processed with SASL enabled\n"

def processCmd (s : McCall) : McCall × Int :=
  if s.mc.m_mcparms.m_usesasl && !s.mc.m_mcparms.m_anonymous then (s.respond saslMessage, 0)
  else
    let buf := s.conn.m_bufIncoming
    match memchr buf LF 0 buf.length with
    | none => (s, -1)
    | some endp => (s.setBuf (cutLine buf endp)).processLine endp

end McCall

end Lsmcd
