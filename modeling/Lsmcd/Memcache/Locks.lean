import Lsmcd.Lib.LockTrace
import Lsmcd.Memcache.SizeLimit
import Lsmcd.Shm.Handed
import Lsmcd.Shm.LruRun

/-!
What each command does with the locks of the hashes: `lock` and `unlock`, the automatic locking of the
operations of a hash, and the assertions that the lock is held.

Each handler has a trace next to it. What happens between two operations on a lock is left to the
handler.
-/

namespace Lsmcd

open LockTrace

abbrev HashId := Nat × Option (List UInt8)

abbrev LockOps := List (HashId × LockOp)

namespace LsShmHash

/--
How often `eraseIteratorHelper` asserts that the lock is held; the second time is in `unlinkHElem`.
-/
def eraseAsserts (s : LsShmHash) (iterOff : Nat) : Nat :=
  if s.flagLru && (s.offset2iterator iterOff).isSome then 2 else 1

/--
`insertCopy2`, with `linkHElem` for the element that it has made.
-/
def insertAsserts (s : LsShmHash) (hkey : Nat) (parms : StrPair) : Nat :=
  if s.flagLru && (s.insertCopy2 hkey parms).2 ≠ 0 then 2 else 1

def doInsertAsserts (s : LsShmHash) (iterOff hkey : Nat) (parms : StrPair) : Nat :=
  if iterOff ≠ 0 then 0
  else if !checkSize parms.val.len then 0
  else s.insertAsserts hkey parms

def doSetAsserts (s : LsShmHash) (iterOff hkey : Nat) (parms : StrPair) : Nat :=
  if !checkSize parms.val.len then 0
  else if iterOff = 0 then s.insertAsserts hkey parms
  else match s.offset2iterator iterOff with
    | none => s.rebuild.insertAsserts hkey parms
    | some iter =>
      if parms.val.len ≤ iter.realValLen then if s.flagLru then 1 else 0
      else s.eraseAsserts iterOff + (s.eraseIteratorHelper iterOff).insertAsserts hkey parms

def doUpdateAsserts (s : LsShmHash) (iterOff hkey : Nat) (parms : StrPair) : Nat :=
  if iterOff = 0 then 0 else s.doSetAsserts iterOff hkey parms

/--
`iterGrowValue` erases the old element and links the new one unless it has no block for it.
-/
def growAsserts (s : LsShmHash) (iterOff size_to_grow : Nat) : Nat :=
  match s.table.elem iterOff with
  | none => 1
  | some pOld =>
    let r := s.shm.alloc2 (pOld.x_iLen + round4 size_to_grow)
    if !s.shm.offset2ptr iterOff || r.2 = 0 then 1
    else if !(r.1.offset2ptr r.2 && LsShmHElem.iterOk r.1 r.2 (r.1.junk r.2).x_iLen (r.1.junk r.2).x_iValOff) then 1
    else 1 + s.eraseAsserts iterOff + (if s.flagLru then 1 else 0)

def trimAsserts (s : LsShmHash) (need : Int) : Nat :=
  2 * (s.trimsize need none s.fuel).2.toNat

def releaseAsserts : Nat → LsShmHash → Nat → Nat
  | 0, _, _ => 0
  | fuel + 1, s, off =>
    if off = 0 then 0
    else
      let r := s.next off
      1 + match r.1.offset2iterator off with
        | none => releaseAsserts fuel r.1.rebuild r.2
        | some iter => releaseAsserts fuel (r.1.releaseElem off iter.x_iLen) r.2

def clearAsserts (s : LsShmHash) : Nat :=
  2 + releaseAsserts s.fuel s s.begin

end LsShmHash

def asserts (k : HashId) (n : Nat) : LockOps :=
  List.replicate n (k, .isLocked)

def autoLocks (k : HashId) (n : Nat) : LockOps :=
  LockTrace.auto k (asserts k n)

def getNxtTidItemLocks (k : HashId) : Nat → TidGet → Nat → LockOps
  | 0, _, _ => []
  | fuel + 1, g, tid =>
    match g.hash.nxtTidTblVal tid g.pBlk with
    | none => []
    | some (tid, blk) =>
      let val := (g.hash.blk blk).x_iTidVals (tid % TIDTBLBLK_MAXSZ)
      if isTidValIterOff val then
        match g.hash.offset2iterator (tidVal2iterOff val) with
        | none => []
        | some e =>
          if isExpired g.hash e then
            let hash := g.hash.eraseIteratorHelper (tidVal2iterOff val)
            autoLocks k (g.hash.eraseAsserts (tidVal2iterOff val)) ++
              getNxtTidItemLocks k fuel { g with hash := hash, pBlk := 0 } tid
          else []
      else []

def tidGetNxtItemsLoopLocks (k : HashId) : Nat → TidGet → Nat → LockOps
  | 0, _, _ => []
  | fuel + 1, g, iBufSz =>
    let r := getNxtTidItem g iBufSz
    getNxtTidItemLocks k (tidFuel g.hash) g g.tidLast ++
      if r.2 ≤ 0 then []
      else
        let g := { r.1 with pos := r.1.pos + r.2.toNat }
        tidGetNxtItemsLoopLocks k fuel g (iBufSz - r.2.toNat)

def tidGetNxtItemsLocks (k : HashId) (s : LsShmHash) (tidLast : Nat) (pBuf : Mem) (iBufSz : Nat) : LockOps :=
  lock k ++ (tidGetNxtItemsLoopLocks k (iBufSz + 1) ⟨s, tidLast, 0, pBuf, 0⟩ iBufSz ++ unlock k)

namespace McCall

def hashId (s : McCall) : HashId := (s.conn.m_pSlice, s.conn.m_pHash)

def locked (s : McCall) (t : LockOps) : LockOps :=
  lock s.hashId ++ (t ++ unlock s.hashId)

def chkMemSzLocks (s : McCall) (arg : Nat) : LockOps :=
  let hash := s.getHash
  if !s.chkItemSize s.mc.m_parms.val.len then
    if arg = MC_BINCMD_SET then
      let iterOff := hash.find2 s.mc.m_hkey s.mc.m_parms.key
      autoLocks s.hashId 1 ++
        (if iterOff ≠ 0 then autoLocks s.hashId (hash.eraseAsserts iterOff) else [])
    else []
  else
    let total := (hash.shm.m_iHashInUse + s.moreSize arg + (2 ^ 32 - s.helperSize)) % 2 ^ 32
    let maxSz := s.mc.m_mcparms.m_iMemMaxSz
    -- a hash without an LRU list is not trimmed
    if total ≤ maxSz ∨ s.mc.m_mcparms.m_nomemfail ∨ !hash.flagLru then []
    else autoLocks s.hashId (hash.trimAsserts (toInt32 ((total - maxSz) * 8)))

def doHashInsertAsserts (s : McCall) : Nat :=
  let hash := s.getHash
  let iterOff := hash.find2 s.mc.m_hkey s.mc.m_parms.key
  if iterOff ≠ 0 then
    match hash.offset2iterator iterOff with
    | none => 0
    | some e => if isExpired hash e then hash.doSetAsserts iterOff s.mc.m_hkey s.mc.m_parms else 0
  else hash.doInsertAsserts iterOff s.mc.m_hkey s.mc.m_parms

def doHashInsertLocks (s : McCall) : LockOps :=
  autoLocks s.hashId 1 ++ asserts s.hashId s.doHashInsertAsserts

def updateElemAsserts (s : McCall) (opt : LsMcUpdOpt) (iterOff : Nat) (e : LsShmHElem) : Nat :=
  let hash := s.getHash
  let cmd := opt.m_iFlags &&& LSMC_CMDMASK
  if (opt.m_iFlags &&& LSMC_WITHCAS ≠ 0 ∨ opt.m_cas ≠ 0) ∧ e.cas ≠ opt.m_cas then 0
  else if cmd = MC_BINCMD_INCREMENT ∨ cmd = MC_BINCMD_DECREMENT then
    match mcIter2num e (opt.m_iFlags &&& LSMC_USECAS ≠ 0) with
    | none => 0
    | some num =>
      let text := decimal (arithmetic cmd num opt.m_value)
      hash.doUpdateAsserts iterOff s.mc.m_hkey (s.setVal (s.mc.m_parms.val.len + text.length)).mc.m_parms
  else if cmd = MC_BINCMD_APPEND ∨ cmd = MC_BINCMD_PREPEND then
    hash.growAsserts iterOff s.mc.m_parms.val.len
  else hash.doUpdateAsserts iterOff s.mc.m_hkey s.mc.m_parms

def doHashUpdateAsserts (s : McCall) (opt : LsMcUpdOpt) : Nat :=
  let hash := s.getHash
  let iterOff := hash.find2 s.mc.m_hkey s.mc.m_parms.key
  match hash.offset2iterator iterOff with
  | none => 0
  | some e => if isExpired hash e then 0 else s.updateElemAsserts opt iterOff e

/--
`rehash(false)` takes no lock.
-/
def doHashUpdateLocks (s : McCall) (opt : LsMcUpdOpt) : LockOps :=
  let hash := s.getHash
  let iterOff := hash.find2 s.mc.m_hkey s.mc.m_parms.key
  autoLocks s.hashId 1 ++
    match hash.offset2iterator iterOff with
    | none => []
    | some e =>
      if isExpired hash e then autoLocks s.hashId (hash.eraseAsserts iterOff)
      else asserts s.hashId (s.updateElemAsserts opt iterOff e)

def dataItemUpdateLocks (s : McCall) : LockOps :=
  if (s.getHash.offset2iterator s.mc.m_iterOff).isSome then [] else [(s.hashId, .lock)]

def doDataUpdateLocks (s : McCall) : LockOps :=
  if s.mc.m_parms.key.length ≤ 0 then unlock s.hashId
  else if s.mc.m_iterOff ≠ 0 then s.dataItemUpdateLocks ++ unlock s.hashId
  else unlock s.hashId

def getKeyLocks (s : McCall) (key : List UInt8) : LockOps :=
  let s := (s.setKey key).setSlice key
  let hash := s.getHash
  let iterOff := hash.find2 s.mc.m_hkey s.mc.m_parms.key
  s.locked (autoLocks s.hashId 1 ++
    match hash.offset2iterator iterOff with
    | none => []
    | some e => if isExpired hash e then autoLocks s.hashId (hash.eraseAsserts iterOff) else [])

def getKeysLocks (arg : Nat) : McCall → List (List UInt8) → LockOps
  | _, [] => []
  | s, key :: keys => s.getKeyLocks key ++ getKeysLocks arg (getKey arg s key) keys

def doCmdGetLocks (s : McCall) (i : McInput) (arg : Nat) : LockOps :=
  let keys := getKeys i (i.buf.length + 1) i.pStr
  if keys.2 then [] else getKeysLocks arg (s.setNoreply false) keys.1

def updateCall (s : McCall) (i : McInput) (arg : Nat) : Option McCall :=
  let a := updateArgs i arg
  let key := i.tok a.key
  let r := (s.setKey key).canProcessNow key
  if !r.2 then none
  else
    let s := r.1.setNoreply a.noreply
    let length := a.length.toNat
    if a.badcmdline ∨ a.length < 0 ∨ INT_MAX - 2 < a.length then none
    else if length ≠ 0 ∧ i.iLen < length + 2 then none
    else if length ≠ 0 ∧ (byteAt i.buf (i.pNxt + length) ≠ CR ∨
        byteAt i.buf (i.pNxt + length + 1) ≠ LF) then none
    else if !s.getHash.isTidMaster then none
    else some s

/--
`storeOp`. `setIteratorWithKey` is automatic, the other two are not.
-/
def storeOpLocks (s : McCall) (arg cas : Nat) : LockOps :=
  let hash := s.getHash
  if arg = MC_BINCMD_ADD then s.doHashInsertLocks
  else if arg = MC_BINCMD_SET then
    let iterOff := hash.find2 s.mc.m_hkey s.mc.m_parms.key
    autoLocks s.hashId (1 + hash.doSetAsserts iterOff s.mc.m_hkey s.mc.m_parms)
  else
    s.doHashUpdateLocks
      { s.mc.env.updOpt with
        m_iFlags := if (arg = MC_BINCMD_APPEND ∨ arg = MC_BINCMD_PREPEND) ∧ s.mc.m_mcparms.m_usecas
          then arg ||| LSMC_USECAS else arg
        m_cas := cas }

def storeCmdLocks (s : McCall) (arg flags exptime length cas : Nat) : LockOps :=
  let s := s.setItem { x_exptime := exptime, x_flags := flags }
  let s := s.setVal (if arg = MC_BINCMD_APPEND ∨ arg = MC_BINCMD_PREPEND then length
    else s.parmAdjLen length)
  let r := s.chkMemSz arg
  lock s.hashId ++ (s.chkMemSzLocks arg ++
    if r.2 ≠ .SUCCESS then unlock s.hashId
    else
      let s := r.1.stat fun st => { st with set_cmds := st.set_cmds + 1 }
      s.storeOpLocks arg cas ++ ((s.storeOp arg cas).setNeeded length).doDataUpdateLocks)

def doCmdUpdateLocks (s : McCall) (i : McInput) (arg : Nat) : LockOps :=
  let a := updateArgs i arg
  match s.updateCall i arg with
  | none => []
  | some s => s.storeCmdLocks arg a.flags a.exptime a.length.toNat a.cas

def arithmeticCall (s : McCall) (i : McInput) : Option (McCall × Nat) :=
  let pKey := i.adv i.pStr
  let key := i.tok pKey.2
  let r := (s.setKey key).canProcessNow key
  if !r.2 then none
  else
    let pDelta := i.adv pKey.1
    if pDelta.2.len ≤ 0 ∨ KEY_MAXLEN < pKey.2.len then none
    else match myStrtoull (i.str pDelta.2) with
      | none => none
      | some delta =>
        let q := r.1.fwdToRemote r.1.conn.m_pSlice i.pNxt
        if q.2 then none else some (q.1.setNoreply (i.isNoreply (i.adv pDelta.1).2), delta)

def arithmeticCmdLocks (s : McCall) (arg delta : Nat) : LockOps :=
  let s := s.setVal (s.parmAdjLen 0)
  let opt := s.arithOpt arg delta
  let r := s.doHashUpdate opt
  lock s.hashId ++ (s.doHashUpdateLocks opt ++
    if r.2.2 ≠ 0 then
      let s := (r.1.setIterOff r.2.2).stat fun st =>
        if arg = MC_BINCMD_INCREMENT then { st with incr_hits := st.incr_hits + 1 }
        else { st with decr_hits := st.decr_hits + 1 }
      (s.setRetcode .NONE).doDataUpdateLocks
    else unlock s.hashId)

def doCmdArithmeticLocks (s : McCall) (i : McInput) (arg : Nat) : LockOps :=
  match s.arithmeticCall i with
  | none => []
  | some (s, delta) => s.arithmeticCmdLocks arg delta

def deleteCall (s : McCall) (i : McInput) : Option McCall :=
  let pKey := i.adv i.pStr
  let key := i.tok pKey.2
  let s := s.setKey key
  if pKey.2.len ≤ 0 ∨ KEY_MAXLEN < pKey.2.len then none
  else
    let r := s.canProcessNow key
    let here := fun (s : McCall) =>
      let q := s.fwdToRemote s.conn.m_pSlice i.pNxt
      if q.2 then none else some q.1
    if !r.2 then none
    else match deleteOpt i pKey.1 with
      | none => here r.1
      | some (noreply, err) => if err then none else here (r.1.setNoreply noreply)

def deleteElemLocks (s : McCall) : LockOps :=
  let hash := s.getHash
  let iterOff := hash.find2 s.mc.m_hkey s.mc.m_parms.key
  s.locked (autoLocks s.hashId 1 ++
    if (hash.offset2iterator iterOff).isSome then autoLocks s.hashId (hash.eraseAsserts iterOff) else [])

def doCmdDeleteLocks (s : McCall) (i : McInput) : LockOps :=
  match s.deleteCall i with
  | none => []
  | some s => s.deleteElemLocks

def touchCall (s : McCall) (i : McInput) : Option (McCall × Nat) :=
  let pKey := i.adv i.pStr
  let key := i.tok pKey.2
  let s := s.setKey key
  let pExptime := i.adv pKey.1
  if pExptime.2.len ≤ 0 ∨ KEY_MAXLEN < pKey.2.len then none
  else
    let r := s.canProcessNow key
    if !r.2 then none
    else match myStrtoul (i.str pExptime.2) with
      | none => none
      | some exptime =>
        let s := r.1.setNoreply (i.isNoreply (i.adv pExptime.1).2)
        let q := s.fwdToRemote s.conn.m_pSlice i.pNxt
        if q.2 then none else some (q.1, exptime)

def touchElemLocks (s : McCall) : LockOps :=
  let hash := s.getHash
  let iterOff := hash.find2 s.mc.m_hkey s.mc.m_parms.key
  s.locked (autoLocks s.hashId 1 ++
    match hash.offset2iterator iterOff with
    | none => []
    | some e => if isExpired hash e then autoLocks s.hashId (hash.eraseAsserts iterOff) else [])

def doCmdTouchLocks (s : McCall) (i : McInput) : LockOps :=
  match s.touchCall i with
  | none => []
  | some (s, _) => s.touchElemLocks

def multiStatLocks (s : McCall) : Nat → Nat → LockOps
  | 0, _ => []
  | n + 1, i =>
    if (s.sliceAt i).x_iOff = 0 then []
    else lock (i, none) ++ (unlock (i, none) ++ s.multiStatLocks n (i + 1))

def curStatsLocks (s : McCall) : LockOps :=
  if s.statsAggregate then s.multiStatLocks s.mc.m_pHashMulti.m_iCnt 0 else s.locked []

def foreachLocks (f : McCall → Nat → McCall × Bool) (l : McCall → Nat → LockOps) : Nat → Nat → McCall → LockOps
  | 0, _, _ => []
  | n + 1, i, s =>
    l s i ++
      let r := f s i
      if r.2 then foreachLocks f l n (i + 1) r.1 else []

def resetStatAtLocks (s : McCall) (i : Nat) : LockOps :=
  if (s.sliceAt i).x_iOff = 0 then [] else lock (i, none) ++ ([] ++ unlock (i, none))

def resetStatsLocks (s : McCall) : LockOps :=
  if s.statsAggregate then foreachLocks resetStatAt resetStatAtLocks s.mc.m_pHashMulti.m_iCnt 0 s
  else s.locked []

def doCmdStatsLocks (s : McCall) (i : McInput) : LockOps :=
  if s.conn.m_iHdrOff = 0 then []
  else if 0 < (i.adv i.pStr).2.len ∧ !(statsArg i "detail" || statsArg i "settings" ||
      statsArg i "cachedump" || statsArg i "conns") then
    if statsArg i "reset" then s.resetStatsLocks else []
  else s.curStatsLocks

def multiFlushLocks (s : McCall) (i : Nat) : LockOps :=
  let hash := (s.sliceAt i).m_hashByUser none
  if hash.isTidMaster then lock (i, none) ++ (asserts (i, none) hash.clearAsserts ++ unlock (i, none)) else []

def flushOneLocks (s : McCall) : LockOps :=
  s.locked (asserts s.hashId s.getHash.clearAsserts)

def flushCmdLocks (s : McCall) (i : McInput) : LockOps :=
  if s.statsAggregate then
    foreachLocks (multiFlushFunc true) multiFlushLocks s.mc.m_pHashMulti.m_iCnt 0 s
  else
    let sl := if s.mc.m_bConfigMultiUser then s.conn.m_pSlice else 0
    if !s.useMulti ∧ !((s.sliceAt sl).m_hashByUser s.conn.m_pUser).isTidMaster ∧ s.conn.remBusy then []
    else
      let q := if !s.useMulti then s.fwdToRemote sl i.pNxt else (s, false)
      if q.2 then [] else q.1.flushOneLocks

def doCmdFlushLocks (s : McCall) (i : McInput) : LockOps :=
  match flushArgs i with
  | none => []
  | some (noreply, pStr) =>
    let s := match noreply with
      | none => s
      | some n => s.setNoreply n
    if !i.chkEnd pStr then [] else s.flushCmdLocks i

def clearSliceLocks (s : McCall) (which : Int) : LockOps :=
  if (s.mc.m_pHashMulti.m_iCnt : Int) ≤ which then []
  else if which < 0 then []
  else s.multiFlushLocks which.toNat

def doCmdClearLocks (s : McCall) (i : McInput) : LockOps :=
  let pWhich := i.adv i.pStr
  if pWhich.2.len ≤ 0 then []
  else match myStrtoul (i.str pWhich.2) with
    | none => []
    | some which => s.clearSliceLocks (toInt32 which)

def tidBatchesLocks (k : HashId) : Nat → LsShmHash → Nat → Mem → LockOps
  | 0, _, _, _ => []
  | fuel + 1, hash, tid, mem =>
    let r := tidGetNxtItems hash tid mem TIDBUF_SIZE
    tidGetNxtItemsLocks k hash tid mem TIDBUF_SIZE ++
      if r.2 ≤ 0 then [] else tidBatchesLocks k fuel r.1.hash r.1.tidLast r.1.mem

def replBatchesLocks (s : McCall) (indx : Nat) : LockOps :=
  if s.mc.m_pHashMulti.m_iCnt ≤ indx then []
  else
    let hash := (s.sliceAt indx).m_hashByUser none
    tidBatchesLocks (indx, none) (tidFuel hash + 1) hash 0 s.mc.env.stack

def runCmdLocks (s : McCall) (i : McInput) (p : LsMcCmdFunc) : LockOps :=
  match p.func with
  | .doCmdTest1 => (s.respond (bytes "TEST1\r\n")).replBatchesLocks (tidSlice i)
  | .doCmdPrintTids => s.replBatchesLocks (tidSlice i)
  | .doCmdGet => s.doCmdGetLocks i p.arg
  | .doCmdUpdate => s.doCmdUpdateLocks i p.arg
  | .doCmdArithmetic => s.doCmdArithmeticLocks i p.arg
  | .doCmdDelete => s.doCmdDeleteLocks i
  | .doCmdTouch => s.doCmdTouchLocks i
  | .doCmdStats => s.doCmdStatsLocks i
  | .doCmdFlush => s.doCmdFlushLocks i
  | .doCmdClear => s.doCmdClearLocks i
  | _ => []

def lineCall (s : McCall) (i : McInput) : McCall :=
  ((s.setBuf i.buf).setStrt i.buf).setSlice i.args

def processCmdLocks (s : McCall) : LockOps :=
  match s.textLine with
  | none => []
  | some (p, i) => if i.pStrEnd < i.pStr then [] else (s.lineCall i).runCmdLocks i p

def setupExtrasLocks (s : McCall) (hdr : McBinCmdHdr) (cmd : Nat) : LockOps :=
  if cmd = MC_BINCMD_REPLACE ∨ cmd = MC_BINCMD_ADD ∨ cmd = MC_BINCMD_SET then
    if hdr.extralen ≠ 8 then [] else lock s.hashId ++ s.chkMemSzLocks cmd
  else if cmd = MC_BINCMD_APPEND ∨ cmd = MC_BINCMD_PREPEND then lock s.hashId ++ s.chkMemSzLocks cmd
  else []

/--
A body that is all key is set up without the lock.
-/
def setupBinLocks (s : McCall) (hdr : McBinCmdHdr) (cmd : Nat) : LockOps :=
  let keyLen := hdr.keylen
  if KEY_MAXLEN < keyLen then []
  else if hdr.totbody = keyLen then []
  else
    let s := s.binKey (sizeofBinHdr + hdr.extralen) keyLen
    let r := s.binSlice (isRemoteEligible cmd) hdr s.mc.m_parms.key
    match r.2 with
    | some _ => []
    | none =>
      let len := (hdr.totbody + 2 ^ 33 - keyLen - hdr.extralen) % 2 ^ 32
      (r.1.setVal len).swapCas.setupExtrasLocks hdr cmd

def doBinGetLocks (s : McCall) : LockOps :=
  let hash := s.getHash
  let iterOff := hash.find2 s.mc.m_hkey s.mc.m_parms.key
  s.locked (autoLocks s.hashId 1 ++
    if iterOff = 0 then []
    else match hash.offset2iterator iterOff with
      | none => [(s.hashId, .lock)]
      | some e => if isExpired hash e then autoLocks s.hashId (hash.eraseAsserts iterOff) else [])

/--
The unlock of `doBinDataUpdate` is also that of a request that has not taken the lock.
-/
def doBinDataUpdateLocks (s : McCall) : LockOps :=
  (if s.mc.m_iterOff ≠ 0 then s.dataItemUpdateLocks else []) ++ unlock s.hashId

def doBinDeleteLocks (s : McCall) (hdr : McBinCmdHdr) : LockOps :=
  let hash := s.getHash
  let iterOff := hash.find2 s.mc.m_hkey s.mc.m_parms.key
  s.locked (autoLocks s.hashId 1 ++
    if iterOff = 0 then []
    else match hash.offset2iterator iterOff with
      | none => [(s.hashId, .lock)]
      | some e =>
        if isExpired hash e then autoLocks s.hashId (hash.eraseAsserts iterOff)
        else if s.mc.m_mcparms.m_usecas ∧ hdr.cas ≠ 0 ∧ hdr.cas ≠ e.cas then []
        else autoLocks s.hashId (hash.eraseAsserts iterOff))

def binArithInitLocks (s : McCall) (cmd : Nat) : LockOps :=
  let buf := s.conn.m_bufIncoming
  let exptime := readBe buf (sizeofBinHdr + 16) 4
  if exptime = 0xffffffff then unlock (s.binArithStat cmd false).hashId
  else
    let text := decimal (readBe buf (sizeofBinHdr + 8) 8)
    let s := (s.setItem { x_exptime := exptime, x_flags := 0 }).setVal (s.parmAdjLen text.length)
    let hash := s.getHash
    let iterOff := hash.find2 s.mc.m_hkey s.mc.m_parms.key
    let r := s.ofHash (hash.doInsert iterOff s.mc.m_hkey s.mc.m_parms)
    let u := r.1.setIterOff r.2
    autoLocks s.hashId (1 + hash.doInsertAsserts iterOff s.mc.m_hkey s.mc.m_parms) ++
      (u.setRetcode .NONE).doBinDataUpdateLocks

def doBinArithmeticLocks (s : McCall) (cmd : Nat) (opt : LsMcUpdOpt) : LockOps :=
  let r := s.doHashUpdate opt
  let u := r.1.setIterOff r.2.2
  lock s.hashId ++ (s.doHashUpdateLocks opt ++
    if r.2.2 ≠ 0 then ((u.binArithStat cmd true).setRetcode .NONE).doBinDataUpdateLocks
    else if r.2.1.m_iRetcode = .NOTFOUND then u.binArithInitLocks cmd
    else unlock s.hashId)

def doBinFlushLocks (s : McCall) (hdr : McBinCmdHdr) : LockOps :=
  if 0 < hdr.extralen ∧ s.mc.m_item.x_exptime ≠ 0 then []
  else if s.statsAggregate then
    foreachLocks (multiFlushFunc true) multiFlushLocks s.mc.m_pHashMulti.m_iCnt 0 s
  else
    let sl := if s.mc.m_bConfigMultiUser then s.conn.m_pSlice else 0
    if !s.useMulti ∧ !s.getHash.isTidMaster ∧ (s.sliceAt sl).remote.remBusy then []
    else
      let q := if !s.useMulti then s.fwdBinToRemote sl hdr else (s, false)
      if q.2 then [] else q.1.flushOneLocks

def doBinStatsLocks (s : McCall) (hdr : McBinCmdHdr) : LockOps :=
  if s.conn.m_iHdrOff = 0 then []
  else if hdr.keylen = 5 ∧ bufBytes s.conn.m_bufIncoming sizeofBinHdr 5 = bytes "reset" then
    s.resetStatsLocks
  else s.curStatsLocks

def doBinSaslListLocks (s : McCall) (hdr : McBinCmdHdr) : LockOps :=
  if !s.mc.m_mcparms.m_usesasl then []
  else if hdr.opaqueWord = REBUILD_OPAQUE then s.locked [] else []

def doBinSaslAuthLocks (s : McCall) (hdr : McBinCmdHdr) : LockOps :=
  if !s.mc.m_mcparms.m_usesasl then []
  else if SASLMECH_MAXLEN < hdr.keylen then []
  else
    let buf := s.conn.m_bufIncoming
    let valLen := hdr.totbody - hdr.keylen
    let ret := if !s.mc.env.saslConn ∨ valLen = 0 then SaslRet.fail
      else s.mc.env.chkAuth (bufBytes buf sizeofBinHdr hdr.keylen)
        (bufBytes buf (sizeofBinHdr + hdr.keylen) valLen)
    match ret with
    | .cont _ => []
    | _ => s.locked []

def binStored (s : McCall) (hdr : McBinCmdHdr) (cmd : Nat) (opt : LsMcUpdOpt) : McCall :=
  if cmd = MC_BINCMD_SET then
    let hash := s.getHash
    let iterOff := hash.find2 s.mc.m_hkey s.mc.m_parms.key
    let r := s.ofHash (hash.doSet iterOff s.mc.m_hkey s.mc.m_parms)
    r.1.setIterOff r.2
  else if cmd = MC_BINCMD_ADD then
    let r := s.doHashInsert opt
    (r.1.setIterOff r.2.2).setRetcode r.2.1.m_iRetcode
  else if cmd = MC_BINCMD_REPLACE then
    let r := s.doHashUpdate opt
    let s := (r.1.setIterOff r.2.2).setRetcode r.2.1.m_iRetcode
    if hdr.cas ≠ 0 then s.binCasStat r.2.1.m_iRetcode else s
  else
    let r := s.doHashUpdate opt
    let ret := if r.2.1.m_iRetcode = .NOTFOUND then UpdRet.DONE else r.2.1.m_iRetcode
    (r.1.setIterOff r.2.2).setRetcode ret

/--
`setIteratorWithKey` is automatic, the other updates need the lock that `setupBinCmd` has taken.
-/
def binStoreLocks (s : McCall) (hdr : McBinCmdHdr) (cmd : Nat) (opt : LsMcUpdOpt) : LockOps :=
  let s := s.stat fun st => { st with set_cmds := st.set_cmds + 1 }
  let hash := s.getHash
  let iterOff := hash.find2 s.mc.m_hkey s.mc.m_parms.key
  (if cmd = MC_BINCMD_SET then
    autoLocks s.hashId (1 + hash.doSetAsserts iterOff s.mc.m_hkey s.mc.m_parms)
  else if cmd = MC_BINCMD_ADD then s.doHashInsertLocks
  else s.doHashUpdateLocks opt) ++ (s.binStored hdr cmd opt).doBinDataUpdateLocks

def runBinLocks (s : McCall) (hdr : McBinCmdHdr) (cmd : Nat) (opt : LsMcUpdOpt) : LockOps :=
  let s := s.binStart
  if cmd = MC_BINCMD_TOUCH ∨ cmd = MC_BINCMD_GAT ∨ cmd = MC_BINCMD_GATK ∨ cmd = MC_BINCMD_GET ∨
      cmd = MC_BINCMD_GETK ∨ cmd = MC_BINCMD_GETKQ then s.doBinGetLocks
  else if cmd = MC_BINCMD_SET ∨ cmd = MC_BINCMD_ADD ∨ cmd = MC_BINCMD_REPLACE ∨
      cmd = MC_BINCMD_APPEND ∨ cmd = MC_BINCMD_PREPEND then s.binStoreLocks hdr cmd opt
  else if cmd = MC_BINCMD_DELETE then s.doBinDeleteLocks hdr
  else if cmd = MC_BINCMD_INCREMENT ∨ cmd = MC_BINCMD_DECREMENT then s.doBinArithmeticLocks cmd opt
  else if cmd = MC_BINCMD_FLUSH then s.doBinFlushLocks hdr
  else if cmd = MC_BINCMD_STAT then s.doBinStatsLocks hdr
  else if cmd = MC_BINCMD_SASL_LIST then s.doBinSaslListLocks hdr
  else if cmd = MC_BINCMD_SASL_AUTH ∨ cmd = MC_BINCMD_SASL_STEP then s.doBinSaslAuthLocks hdr
  else []

/--
The error of the size check gives the lock back.
-/
def processBinReqLocks (s : McCall) (hdr : McBinCmdHdr) : LockOps :=
  if s.saslRefuses hdr.opcode then []
  else
    let s := s.setNoreply (setupNoreplyCmd hdr.opcode).2
    let cmd := binCmd hdr
    let r := s.setupBinCmd hdr cmd
    s.setupBinLocks hdr cmd ++
      match r.2 with
      | .err _ => unlock r.1.hashId
      | .body _ opt => r.1.runBinLocks hdr cmd opt
      | _ => []

def processBinCmdLocks (s : McCall) : LockOps :=
  let buf := s.conn.m_bufIncoming
  if buf.length < sizeofBinHdr then []
  else
    let hdr := McBinCmdHdr.ofBuf buf
    if (buf.length : Int) < toInt32 (sizeofBinHdr + hdr.totbody) then [] else s.processBinReqLocks hdr

end McCall

end Lsmcd
