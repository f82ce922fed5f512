import Lsmcd.Memcache.Types

/-!
The replication stream: `tidGetNxtItems` packs the transactions after a given id into a buffer,
`tidSetItems` applies a buffer to the hash of a slave.

A buffer is the memory from its start on. `LsShmPktHdr` is the size of the packet in 4 bytes, the
flags and the type in one byte each, the size of the key in 2 bytes and the id in 8. `LsShmTidAdd`
has the size of the value, the hash key and a time stamp in 4 bytes each and is followed by the key
and the value; `LsShmTidDel` is an id in 8 bytes.
-/

namespace Lsmcd

def sizeofPktHdr : Nat := 16
def sizeofTidAdd : Nat := 12
def sizeofTidDel : Nat := 8
def LSSHM_PKTADD : Nat := 0x00
def LSSHM_PKTDEL : Nat := 0x01

abbrev Mem := Nat → UInt8

def putMem (mem : Mem) (p : Nat) (bs : List UInt8) : Mem :=
  fun i => if p ≤ i ∧ i < p + bs.length then bs.getD (i - p) 0 else mem i

def getMem (mem : Mem) (p n : Nat) : List UInt8 :=
  (List.range n).map fun i => mem (p + i)

def pktSize (mem : Mem) (p : Nat) : Nat := readLe mem p 4
def pktType (mem : Mem) (p : Nat) : Nat := readLe mem (p + 5) 1
def pktKeySz (mem : Mem) (p : Nat) : Nat := readLe mem (p + 6) 2
def pktTid (mem : Mem) (p : Nat) : Nat := readLe mem (p + 8) 8
def addValSz (mem : Mem) (p : Nat) : Nat := readLe mem (p + sizeofPktHdr) 4
def delTid (mem : Mem) (p : Nat) : Nat := readLe mem (p + sizeofPktHdr) 8

def addData (p : Nat) : Nat := p + sizeofPktHdr + sizeofTidAdd

def putPktHdr (mem : Mem) (p totSz type keySz tid : Nat) : Mem :=
  let mem := writeLe mem p 4 totSz
  let mem := writeLe mem (p + 4) 1 0
  let mem := writeLe mem (p + 5) 1 type
  let mem := writeLe mem (p + 6) 2 keySz
  writeLe mem (p + 8) 8 tid

def iter2tidPack (mem : Mem) (p : Nat) (e : LsShmHElem) (tid totSz : Nat) : Mem :=
  let mem := putPktHdr mem p totSz LSSHM_PKTADD e.key.length tid
  let mem := writeLe mem (p + sizeofPktHdr) 4 e.valLen
  let mem := writeLe mem (p + sizeofPktHdr + 4) 4 e.x_hkey
  let mem := writeLe mem (p + sizeofPktHdr + 8) 4 0
  let keySz := pktKeySz mem p
  let mem := putMem mem (addData p) (e.key.take keySz)
  putMem mem (addData p + keySz) e.getVal

def del2tidPack (mem : Mem) (p val tid totSz : Nat) : Mem :=
  let mem := putPktHdr mem p totSz LSSHM_PKTDEL 0 tid
  writeLe mem (p + sizeofPktHdr) 8 val

def tidAddPktSize (e : LsShmHElem) : Nat :=
  round4 (sizeofPktHdr + sizeofTidAdd + e.key.length + e.valLen)

def tidDelPktSize : Nat :=
  round4 (sizeofPktHdr + sizeofTidDel)

def isExpired (s : LsShmHash) (e : LsShmHElem) : Bool :=
  e.exptime ≠ 0 && e.exptime ≤ s.now

/--
The progress of `tidGetNxtItems`: the hash, `*pTidLast`, the block of the table, the buffer and how
much of it is filled.
-/
structure TidGet where
  hash : LsShmHash
  tidLast : Nat
  pBlk : Nat
  mem : Mem
  pos : Nat

def getNxtTidItemLoop (iBufSz : Nat) : Nat → TidGet → Nat → TidGet × Int
  | 0, g, _ => (g, 0)
  | fuel + 1, g, tid =>
    match g.hash.nxtTidTblVal tid g.pBlk with
    | none => (g, 0)
    | some (tid, blk) =>
      let g := { g with pBlk := blk }
      let val := (g.hash.blk blk).x_iTidVals (tid % TIDTBLBLK_MAXSZ)
      if isTidValIterOff val then
        match g.hash.offset2iterator (tidVal2iterOff val) with
        | none => (g, -1)
        | some e =>
          if isExpired g.hash e then
            -- the table may have been moved by the deletion
            let hash := g.hash.eraseIteratorHelper (tidVal2iterOff val)
            getNxtTidItemLoop iBufSz fuel { g with hash := hash, pBlk := 0 } tid
          else
            let totSz := tidAddPktSize e
            if iBufSz < totSz then (g, -totSz)
            else
              ({ g with mem := iter2tidPack g.mem g.pos e tid totSz, tidLast := tid }, totSz)
      else
        let totSz := tidDelPktSize
        if iBufSz < totSz then (g, -totSz)
        else ({ g with mem := del2tidPack g.mem g.pos val tid totSz, tidLast := tid }, totSz)

def tidFuel (s : LsShmHash) : Nat :=
  s.x_tid + s.shm.live.length + 1

def getNxtTidItem (g : TidGet) (iBufSz : Nat) : TidGet × Int :=
  getNxtTidItemLoop iBufSz (tidFuel g.hash) g g.tidLast

def tidGetNxtItemsLoop : Nat → TidGet → Nat → TidGet × Int
  | 0, g, _ => (g, 0)
  | fuel + 1, g, iBufSz =>
    let r := getNxtTidItem g iBufSz
    if r.2 ≤ 0 then r
    else
      let g := { r.1 with pos := r.1.pos + r.2.toNat }
      tidGetNxtItemsLoop fuel g (iBufSz - r.2.toNat)

/--
What `tidGetNxtItems` leaves behind and its return value: the bytes packed, or when there are none
what the last call of `getNxtTidItem` has returned.
-/
def tidGetNxtItems (s : LsShmHash) (tidLast : Nat) (pBuf : Mem) (iBufSz : Nat) : TidGet × Int :=
  let r := tidGetNxtItemsLoop (iBufSz + 1) ⟨s, tidLast, 0, pBuf, 0⟩ iBufSz
  let g := if 0 ≤ r.2 then { r.1 with tidLast := r.1.hash.x_tid } else r.1
  (g, if 0 < g.pos then g.pos else r.2)

namespace LsShmHash

/--
`LsShmTidMgr::doSet`. A value that is not longer than the old one is written in place.
-/
def tidDoSet (s : LsShmHash) (parms : StrPair) : LsShmHash × Nat :=
  let offElem := s.find2 (s.m_hf parms.key) parms.key
  if offElem = 0 then s.insertCopy2 (s.m_hf parms.key) parms
  else match s.table.elem offElem with
    | none => (s, 0)
    | some e =>
      if parms.val.len < e.valLen then
        let s := s.setTable (·.setElem offElem (some (e.setVal parms.val)))
        (s.onTid (·.unlinkTid (s.tidLink offElem)), offElem)
      else (s.eraseIteratorHelper offElem).insertCopy2 (s.m_hf parms.key) parms

/--
Whether `LS_OK` is returned.
-/
def setIter (s : LsShmHash) (parms : StrPair) (pTid : Nat) : LsShmHash × Bool :=
  let r := s.tidDoSet parms
  if r.2 ≠ 0 then (r.1.linkTid r.2 pTid, true) else (r.1, false)

def delIter (s : LsShmHash) (off : Nat) : LsShmHash :=
  s.eraseIteratorHelper off

def setTidTblDel (s : LsShmHash) (tid pTid : Nat) : LsShmHash × Bool :=
  let r := s.toLsShmTidMgr.setTidTblEnt tid pTid
  (s.onTid fun _ => r.1, r.2.2)

end LsShmHash

def setTidItem (s : LsShmHash) (mem : Mem) (p : Nat) : LsShmHash × Bool :=
  let key := getMem mem (addData p) (pktKeySz mem p)
  let val := getMem mem (addData p + pktKeySz mem p) (addValSz mem p)
  s.setIter ⟨key, ValParm.ofBytes val⟩ (pktTid mem p)

/--
Whether the element of a deletion is kept because the packet after it, at `p` with `iBufSz` bytes
left, is going to set it: as many bytes as the key of the element has are compared.
-/
def keepsElem (mem : Mem) (p iBufSz : Nat) (e : LsShmHElem) : Bool :=
  sizeofPktHdr < iBufSz && pktSize mem p ≤ iBufSz && pktType mem p = LSSHM_PKTADD &&
    getMem mem (addData p) e.key.length = e.key

/--
The packet at `p` deletes an element, `iBufSz` bytes follow it.
-/
def delTidItem (s : LsShmHash) (mem : Mem) (p iBufSz : Nat) : LsShmHash × Bool :=
  let tid := delTid mem p
  if tid = TIDDEL_FLUSHALL then s.clear.setTidTblDel tid (pktTid mem p)
  else
    let off := s.tid2iterOff tid
    if off = 0 then s.setTidTblDel tid (pktTid mem p)
    else match s.offset2iterator off with
      | none => (s, false)
      | some e =>
        let s := if keepsElem mem (p + pktSize mem p) iBufSz e then s else s.delIter off
        s.setTidTblDel tid (pktTid mem p)

def tidSetItemsLoop (mem : Mem) : Nat → LsShmHash → Nat → Nat → LsShmHash × Nat
  | 0, s, p, _ => (s, p)
  | fuel + 1, s, p, iBufSz =>
    if sizeofPktHdr < iBufSz ∧ pktSize mem p ≤ iBufSz then
      if pktTid mem p ≤ s.x_tid then (s, p)
      else
        let left := iBufSz - pktSize mem p
        let r := if pktType mem p = LSSHM_PKTADD then setTidItem s mem p else delTidItem s mem p left
        if r.2 then tidSetItemsLoop mem fuel r.1 (p + pktSize mem p) left else (r.1, p)
    else (s, p)

/--
The return value is the number of bytes applied. A packet of size 0 ends the loop at the next
iteration, its id is not a new one any more.
-/
def tidSetItems (s : LsShmHash) (mem : Mem) (iBufSz : Nat) : LsShmHash × Nat :=
  tidSetItemsLoop mem (iBufSz + 2) s 0 iBufSz

end Lsmcd
