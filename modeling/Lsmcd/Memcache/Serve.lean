import Lsmcd.Memcache.Token
import Lsmcd.Memcache.TidPkt

/-!
What the handlers of commands are made of: answering, choosing the slice of a key, forwarding to the
master, and the updates of the hash.

A handler runs on the object and the connection that it serves. The lock of the hash has no state of
its own here: there is one process, and a lock that is free is taken.
-/

namespace Lsmcd

structure McCall where
  mc : LsMemcache
  conn : MemcacheConn

namespace McCall

def send (s : McCall) (bs : List UInt8) : McCall :=
  { s with conn := { s.conn with out := s.conn.out ++ bs } }

def setUndef (s : McCall) : McCall :=
  { s with mc := { s.mc with undef := true } }

def htons (n : Nat) : List UInt8 :=
  [UInt8.ofNat (n / 256 % 256), UInt8.ofNat (n % 256)]

def ackNoreply (s : McCall) : McCall :=
  s.send (htons 2)

def lenNbuf (str : List UInt8) : List UInt8 :=
  let str := if LENNBUF_MAXLEN < str.length then bytes "SERVER_ERROR Response too large\r\n" else str
  htons (str.length + 2) ++ str

def setNoreply (s : McCall) (noreply : Bool) : McCall :=
  { s with mc := { s.mc with m_noreply := noreply } }

def respond (s : McCall) (str : List UInt8) : McCall :=
  if s.mc.m_noreply then
    (if s.conn.internal then s.ackNoreply else s).setNoreply false
  else s.send (if s.conn.internal then lenNbuf str else str)

def sendResult (s : McCall) (str : List UInt8) : McCall :=
  if s.conn.internal then s else s.send str

def binRespond (s : McCall) (buf : List UInt8) : McCall :=
  if s.mc.m_noreply then
    (if s.conn.internal then s.ackNoreply else s).setNoreply false
  else s.send ((if s.conn.internal then htons (buf.length + 2) else []) ++ buf)

def setMulti (s : McCall) (m : LsMcHashMulti) : McCall :=
  { s with mc := { s.mc with m_pHashMulti := m } }

def sliceAt (s : McCall) (i : Nat) : LsMcHashSlice :=
  s.mc.m_pHashMulti.m_pSlices i

def setSliceAt (s : McCall) (i : Nat) (slice : LsMcHashSlice) : McCall :=
  let m := s.mc.m_pHashMulti
  s.setMulti { m with m_pSlices := Function.update m.m_pSlices i slice }

def setHashAt (s : McCall) (i : Nat) (user : Option (List UInt8)) (hash : LsShmHash) : McCall :=
  let slice := s.sliceAt i
  s.setSliceAt i { slice with m_hashByUser := Function.update slice.m_hashByUser user hash }

def getHash (s : McCall) : LsShmHash :=
  (s.sliceAt s.conn.m_pSlice).m_hashByUser s.conn.m_pHash

def setHash (s : McCall) (hash : LsShmHash) : McCall :=
  s.setHashAt s.conn.m_pSlice s.conn.m_pHash hash

/--
The header of the statistics is that of the slice, whoever the user is.
-/
def setHdrAt (s : McCall) (i : Nat) (f : LsMcHdr → LsMcHdr) : McCall :=
  let slice := s.sliceAt i
  s.setSliceAt i { slice with hdr := f slice.hdr }

def stat (s : McCall) (f : LsMcStats → LsMcStats) : McCall :=
  if s.conn.m_iHdrOff ≠ 0 then
    s.setHdrAt s.conn.m_pSlice fun h => { h with x_stats := f h.x_stats }
  else s

def notify (s : McCall) (i : Nat) : McCall :=
  let m := s.mc.m_pHashMulti
  s.setMulti { m with notified := m.notified ++ [i] }

def notifyChange (s : McCall) : McCall :=
  if s.mc.m_bConfigReplication && s.getHash.isTidMaster then s.notify s.conn.m_pSlice else s

/--
`getCas` increments the counter of the slice.
-/
def getCas (s : McCall) : McCall × Nat :=
  if s.conn.m_iHdrOff ≠ 0 then
    let s := s.setHdrAt s.conn.m_pSlice fun h => { h with cas := h.cas + 1 }
    (s, (s.sliceAt s.conn.m_pSlice).hdr.cas.toNat)
  else (s, 0)

def key2hashNum (s : McCall) (hkey : Nat) : Nat :=
  let m := s.mc.m_pHashMulti
  if m.m_iCnt ≤ 1 then 0
  else match s.conn.m_pUser with
    | none => hkey % m.m_iCnt
    | some user => if s.mc.m_bConfigMultiUser then m.m_fnHashKey user % m.m_iCnt else hkey % m.m_iCnt

def hashUser (s : McCall) : Option (List UInt8) :=
  if s.mc.m_mcparms.m_usesasl && s.conn.authenticated then s.conn.m_pUser else none

/--
The reserved word is read through the hash of the connection to the master.
-/
def setSlice (s : McCall) (key : List UInt8) : McCall :=
  let hkey := s.mc.m_pHashMulti.m_fnHashKey key
  let i := s.key2hashNum hkey
  let off := (s.sliceAt i).x_iOff
  { mc := { s.mc with
      m_hkey := hkey
      undef := s.mc.undef || !(s.sliceAt i).remote.hasHash }
    conn := { s.conn with
      m_pSlice := i
      m_pHash := s.hashUser
      m_iHdrOff := if off ≠ 0 then off else s.conn.m_iHdrOff } }

def putWaitQ (s : McCall) : McCall :=
  if s.conn.cmdWait then s
  else
    let id := s.conn.id
    let link := Function.update s.mc.link id none
    { mc := match s.mc.m_pWaitQ, s.mc.m_pWaitTail with
        | none, _ => { s.mc with link := link, m_pWaitQ := some id, m_pWaitTail := some id }
        | some _, none => { s.mc with link := link, m_pWaitTail := some id, undef := true }
        | some _, some tail =>
          { s.mc with link := Function.update link tail (some id), m_pWaitTail := some id }
      conn := { s.conn with cmdWait := true } }

/--
`false` is the result `NULL`: the connection waits until the master has answered.
-/
def canProcessNow (s : McCall) (key : List UInt8) : McCall × Bool :=
  let s := s.setSlice key
  let slice := s.sliceAt s.conn.m_pSlice
  if s.mc.m_bConfigReplication && !(slice.m_hashByUser none).isTidMaster && slice.remote.remBusy then
    (s.putWaitQ, false)
  else (s, true)

def fwdCommand (s : McCall) (i : Nat) (buf : List UInt8) : McCall :=
  if s.mc.m_bConfigReplication then
    let slice := s.sliceAt i
    let remote := { slice.remote with
      sent := slice.remote.sent ++ buf, link := some s.conn.id, remBusy := true }
    let s := s.setSliceAt i { slice with remote := remote }
    { s with conn := { s.conn with respWait := true } }
  else s

def noForward : List UInt8 :=
  bytes "SERVER_ERROR unable to forward\r\n"

def cmdBytes (s : McCall) (pNxt len : Nat) : List UInt8 :=
  (s.mc.m_pStrt.set (pNxt - 1) LF).take len

def fwdToRemote (s : McCall) (i pNxt : Nat) : McCall × Bool :=
  if s.mc.m_bConfigReplication && !s.getHash.isTidMaster then
    if (s.sliceAt i).remote.connected then (s.fwdCommand i (s.cmdBytes pNxt pNxt), true)
    else (s.respond noForward, true)
  else (s, false)

def useMulti (s : McCall) : Bool :=
  1 < s.mc.m_pHashMulti.m_iCnt

def statsAggregate (s : McCall) : Bool :=
  s.useMulti && (!s.mc.m_bConfigMultiUser || !s.conn.authenticated)

def setKey (s : McCall) (key : List UInt8) : McCall :=
  { s with mc := { s.mc with m_parms := { s.mc.m_parms with key := key } } }

def setVal (s : McCall) (len : Nat) : McCall :=
  { s with mc := { s.mc with m_parms := { s.mc.m_parms with val := ⟨len, none⟩ } } }

def setRetcode (s : McCall) (ret : UpdRet) : McCall :=
  { s with mc := { s.mc with m_retcode := ret } }

def setIterOff (s : McCall) (off : Nat) : McCall :=
  { s with mc := { s.mc with m_iterOff := off } }

def setItem (s : McCall) (item : LsMcDataItem) : McCall :=
  { s with mc := { s.mc with m_item := item } }

def setNeeded (s : McCall) (needed : Int) : McCall :=
  { s with mc := { s.mc with m_needed := needed } }

def sizeofItem (s : McCall) : Nat :=
  if s.mc.m_mcparms.m_usecas then sizeofDataItem + sizeofCas else sizeofDataItem

def parmAdjLen (s : McCall) (valLen : Nat) : Nat :=
  valLen + s.sizeofItem

end McCall

def mcIter2data (e : LsShmHElem) (useCas : Bool) : Nat × Int :=
  let off := if useCas then sizeofDataItem + sizeofCas else sizeofDataItem
  (off, (e.valLen : Int) - off)

def mcIter2num (e : LsShmHElem) (useCas : Bool) : Option Nat :=
  let r := mcIter2data e useCas
  if r.2 ≤ 0 ∨ (ULL_MAXLEN : Int) < r.2 then none
  else myStrtoull ((getMem e.data r.1 r.2.toNat).takeWhile (· ≠ 0))

namespace McCall

def ofHash (s : McCall) (r : LsShmHash × Nat) : McCall × Nat :=
  (s.setHash r.1, r.2)

def doHashInsert (s : McCall) (opt : LsMcUpdOpt) : McCall × LsMcUpdOpt × Nat :=
  let hash := s.getHash
  let iterOff := hash.find2 s.mc.m_hkey s.mc.m_parms.key
  if iterOff ≠ 0 then
    match hash.offset2iterator iterOff with
    | none => (s.setRetcode .INTERNAL_ERROR, { opt with m_iRetcode := .INTERNAL_ERROR }, iterOff)
    | some e =>
      if isExpired hash e then
        let r := s.ofHash (hash.doSet iterOff s.mc.m_hkey s.mc.m_parms)
        (r.1, { opt with m_iRetcode := .DONE }, r.2)
      else (s, { opt with m_iRetcode := .EEXISTS }, 0)
  else
    let r := s.ofHash (hash.doInsert iterOff s.mc.m_hkey s.mc.m_parms)
    (r.1, opt, r.2)

/--
The new value of a counter. An increment wraps around at 64 bit.
-/
def arithmetic (cmd num value : Nat) : Nat :=
  if cmd = MC_BINCMD_INCREMENT then (num + value) % 2 ^ 64
  else if num < value then 0 else num - value

def shiftData (e : LsShmHElem) (useCas : Bool) (lenExp : Nat) : LsShmHElem :=
  let r := mcIter2data e useCas
  e.putBytes (r.1 + lenExp) (r.2 - lenExp).toNat (getMem e.data r.1 (r.2 - lenExp).toNat)

def updateElem (s : McCall) (opt : LsMcUpdOpt) (iterOff : Nat) (e : LsShmHElem)
    : McCall × LsMcUpdOpt × Nat :=
  let hash := s.getHash
  let cmd := opt.m_iFlags &&& LSMC_CMDMASK
  let useCas : Bool := opt.m_iFlags &&& LSMC_USECAS ≠ 0
  if (opt.m_iFlags &&& LSMC_WITHCAS ≠ 0 ∨ opt.m_cas ≠ 0) ∧ e.cas ≠ opt.m_cas then
    (s, { opt with m_iRetcode := .EEXISTS }, 0)
  else if cmd = MC_BINCMD_INCREMENT ∨ cmd = MC_BINCMD_DECREMENT then
    match mcIter2num e useCas with
    | none => (s, { opt with m_iRetcode := .NONNUMERIC }, 0)
    | some num =>
      let text := decimal (arithmetic cmd num opt.m_value)
      let s := (s.setVal (s.mc.m_parms.val.len + text.length)).setItem e.dataItem
      let r := s.ofHash (hash.doUpdate iterOff s.mc.m_hkey s.mc.m_parms)
      (r.1, { opt with m_pMisc := text }, r.2)
  else if cmd = MC_BINCMD_APPEND ∨ cmd = MC_BINCMD_PREPEND then
    let lenExp := s.mc.m_parms.val.len
    let r := hash.iterGrowValue iterOff lenExp false
    let s := s.setHash r.1
    if r.2 = 0 ∨ cmd = MC_BINCMD_APPEND then (s, opt, r.2)
    else match r.1.offset2iterator r.2 with
      | none => (s, { opt with m_iRetcode := .INTERNAL_ERROR }, 0)
      | some e =>
        (s.setHash (r.1.setTable (·.setElem r.2 (some (shiftData e useCas lenExp)))), opt, r.2)
  else
    let opt := if cmd = MC_BINCMD_REPLACE then { opt with m_iRetcode := .DONE } else opt
    let r := s.ofHash (hash.doUpdate iterOff s.mc.m_hkey s.mc.m_parms)
    (r.1, opt, r.2)

/--
`rehash(false)` does nothing.
-/
def doHashUpdate (s : McCall) (opt : LsMcUpdOpt) : McCall × LsMcUpdOpt × Nat :=
  let hash := s.getHash
  let iterOff := hash.find2 s.mc.m_hkey s.mc.m_parms.key
  if iterOff = 0 then (s, { opt with m_iRetcode := .NOTFOUND }, 0)
  else match hash.offset2iterator iterOff with
    | none => (s.setRetcode .INTERNAL_ERROR, opt, 0)
    | some e =>
      if isExpired hash e then
        (s.setHash (hash.eraseIteratorHelper iterOff), { opt with m_iRetcode := .NOTFOUND }, 0)
      else s.updateElem opt iterOff e

/--
The expiry time that is stored: a short one counts from the time of the element.
-/
def absExptime (item : LsMcDataItem) (lasttime : Nat) : LsMcDataItem :=
  if item.x_exptime ≠ 0 ∧ item.x_exptime ≤ LSMC_MAXDELTATIME then
    { item with x_exptime := item.x_exptime + lasttime }
  else item

/--
The unique is written behind the item. `m_rescas` keeps it.
-/
def putCas (s : McCall) (e : LsShmHElem) : McCall × LsShmHElem :=
  if s.mc.m_mcparms.m_usecas then
    let r := s.getCas
    ({ r.1 with mc := { r.1.mc with m_rescas := r.2 } }, e.setCas r.2)
  else (s, e)

def dataItemUpdate (s : McCall) (pBuf : List UInt8) : McCall :=
  let hash := s.getHash
  match hash.offset2iterator s.mc.m_iterOff with
  | none => s.setRetcode .INTERNAL_ERROR
  | some e =>
    let data := mcIter2data e s.mc.m_mcparms.m_usecas
    let valLen : Int :=
      if s.mc.m_retcode = .APPEND ∨ s.mc.m_retcode = .PREPEND then s.mc.m_parms.val.len else data.2
    let valPtr := if s.mc.m_retcode = .APPEND then e.valLen - s.mc.m_parms.val.len else data.1
    let item := absExptime s.mc.m_item (hash.getLruLasttime s.mc.m_iterOff)
    let q := if s.mc.m_retcode = .APPEND ∨ s.mc.m_retcode = .PREPEND then (s, e)
      else (s.setItem item, e.setItem item)
    let r := q.1.putCas q.2
    let e := if 0 < valLen then r.2.putBytes valPtr valLen.toNat pBuf else r.2
    (r.1.setHash (hash.setTable (·.setElem s.mc.m_iterOff (some e)))).setNeeded 0

def doDataUpdate (s : McCall) (pBuf : List UInt8) : McCall :=
  if s.mc.m_parms.key.length ≤ 0 then s.respond (bytes "CLIENT_ERROR invalid data update\r\n")
  else
    let s := s.setKey []
    if s.mc.m_iterOff ≠ 0 then
      let s := (s.dataItemUpdate pBuf).notifyChange
      let s := if s.mc.m_retcode ≠ .NONE then s.respond (bytes "STORED\r\n") else s
      s.setIterOff 0
    else if s.mc.m_retcode = .NOTFOUND then s.respond (bytes "NOT_FOUND\r\n")
    else if s.mc.m_retcode = .EEXISTS then s.respond (bytes "EXISTS\r\n")
    else s.respond (bytes "NOT_STORED\r\n")

def chkItemSize (s : McCall) (size : Nat) : Bool :=
  s.mc.m_mcparms.m_iValMaxSz = 0 || size ≤ s.mc.m_mcparms.m_iValMaxSz

/--
The size that a command may add, computed before the element that it replaces is known.
-/
def moreSize (s : McCall) (arg : Nat) : Nat :=
  let parms := s.mc.m_parms
  if arg = MC_BINCMD_ADD ∨ arg = MC_BINCMD_SET then
    size2roundSize (round4 parms.key.length + sizeofVardata + round4 parms.val.len + sizeofVardata +
      sizeofHElem + s.getHash.iterExtraSpace)
  else size2roundSize parms.val.len

/--
`x_iSize` of the hash in use. Only the default hash of a slice is given a header.
-/
def helperSize (s : McCall) : Nat :=
  match s.conn.m_pHash with
  | none => (s.sliceAt s.conn.m_pSlice).x_iSize
  | some _ => 0

/--
The sizes are 32 bit numbers, and the excess is shifted as an `int`.
-/
def chkMemSz (s : McCall) (arg : Nat) : McCall × McBinStat :=
  let hash := s.getHash
  if !s.chkItemSize s.mc.m_parms.val.len then
    let iterOff := hash.find2 s.mc.m_hkey s.mc.m_parms.key
    if arg = MC_BINCMD_SET ∧ iterOff ≠ 0 then (s.setHash (hash.eraseIteratorHelper iterOff), .E2BIG)
    else (s, .E2BIG)
  else
    let total := (hash.shm.m_iHashInUse + s.moreSize arg + (2 ^ 32 - s.helperSize)) % 2 ^ 32
    let maxSz := s.mc.m_mcparms.m_iMemMaxSz
    if total ≤ maxSz then (s, .SUCCESS)
    else if s.mc.m_mcparms.m_nomemfail then (s, .ENOMEM)
    else
      let need := toInt32 ((total - maxSz) * 8)
      let hash := (hash.trimsize need none hash.fuel).1
      if maxSz < hash.shm.m_iHashInUse then (s.setHash hash.rebuild, .ENOMEM)
      else (s.setHash hash, .SUCCESS)

end McCall

end Lsmcd
