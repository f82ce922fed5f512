import Lsmcd.Shm.Rehash

/-!
The operations of `LsShmHash` on elements, with the callbacks into the transaction manager.
-/

namespace Lsmcd

def sizeofHTable : Nat := 312

def roundUp (sz : Nat) : Nat :=
  s_primeList.getD (findRange sz) 0

def hashBuf (key : List UInt8) : Nat :=
  key.foldl (fun h ch => (h * 31 + ch.toNat) % 2 ^ 32) 0

/--
What a hash is opened with, and what the memory holds that it does not clear or write itself.
-/
structure HashParm where
  m_hf : List UInt8 → Nat
  flagLru : Bool
  flagTid : Bool
  slave : Bool
  now : Nat
  blkIdx : Nat → Nat → Nat
  blk : Nat → LsShmTidTblBlk
  pool : Nat → PoolView

def HashParm.clean (flagLru flagTid : Bool) : HashParm where
  m_hf := hashBuf
  flagLru := flagLru
  flagTid := flagTid
  slave := false
  now := 0
  blkIdx := fun _ _ => 0
  blk := fun _ =>
    { x_tidBase := 0, x_iIterCnt := 0, x_iDelCnt := 0, x_iNext := 0, x_iPrev := 0
      x_iTidVals := fun _ => 0 }
  pool := fun _ =>
    { freeBucket := 0, freeAbove := none, freeBelow := none, x_iFreePageList := 0 }

namespace LsShmHash

/--
The charge of a new hash is computed from the sizes asked for.
-/
def allocHTable (m : Shm) (parm : HashParm) (init_size : Nat) : Option LsShmHash :=
  let r := m.poolAlloc2 sizeofHTable
  if r.2.1 = 0 then none
  else
    let init_size := roundUp init_size
    let szTable := sz2TableSz init_size
    let szBitMap := sz2BitMapSz init_size
    let q := r.1.poolAlloc2 (szTable + szBitMap)
    let iBase := q.2.1
    if iBase = 0 then none
    else
      let charge := size2roundSize sizeofHTable + size2roundSize (szTable + szBitMap)
      some
        { toLsShmTidMgr :=
            LsShmTidMgr.init { q.1 with m_iHashInUse := charge } parm.slave parm.blkIdx parm.blk
          m_hf := parm.m_hf
          flagLru := parm.flagLru
          flagTid := parm.flagTid
          table :=
            { x_iCapacity := init_size
              x_iSize := 0
              x_iFullFactor := 2
              x_iGrowFactor := 2
              x_iHIdx := iBase + szBitMap
              x_iBitMap := iBase
              x_iHIdxNew := iBase + szBitMap
              x_iCapacityNew := 0
              x_iWorkIterOff := 0
              x_iBitMapSz := szBitMap
              hIdx := fun _ _ => 0
              bitMap := fun _ _ => false
              elem := fun _ => none
              next := fun _ => 0
              pool := parm.pool }
          lru :=
            { linkFirst := 0, linkLast := 0, nvalset := 0, nvalexp := 0, ndataset := 0, ndataexp := 0
              linkNext := fun _ => 0, linkPrev := fun _ => 0, lasttime := fun _ => 0 }
          tidLink := fun _ => 0
          now := parm.now
          rebuilt := false }

def linkTid (s : LsShmHash) (offElem pTid : Nat) : LsShmHash :=
  let r := s.toLsShmTidMgr.setTidTblEnt (iterOff2tidVal offElem) pTid
  let s := s.onTid fun _ => r.1
  if !r.2.2 then s
  else match s.offset2iterator offElem with
    | none => s.rebuild
    | some _ => { s with tidLink := Function.update s.tidLink offElem r.2.1 }

def insertIterCb (s : LsShmHash) (off : Nat) : LsShmHash :=
  s.linkTid off 0

def eraseIterCb (s : LsShmHash) (off : Nat) : LsShmHash :=
  let tid := s.tidLink off
  if tid ≠ 0 then
    { s with tidLink := Function.update s.tidLink off 0 }.onTid (·.unlinkTid tid)
  else s

def updateIterCb (s : LsShmHash) (off : Nat) : LsShmHash :=
  (s.eraseIterCb off).linkTid off 0

def tidReplaceTid (s : LsShmHash) (off pTid : Nat) : LsShmHash :=
  (s.onTid (·.unlinkTid (s.tidLink off))).linkTid off pTid

/--
The loop of `find2` and its end: an offset that is not mapped ends the search without a result.
-/
def find2 (s : LsShmHash) (hkey : Nat) (key : List UInt8) : Nat :=
  let hashIndx := hkey % s.capacity
  if !s.table.getBitMapEnt hashIndx then 0
  else
    let stop := fun off =>
      !s.shm.offset2ptr off ||
        match s.table.elem off with
        | none => false
        | some e => e.x_hkey = hkey && e.key = key
    let off := Linked.seek s.table.next 0 stop s.fuel (s.table.hIdx s.table.x_iHIdx hashIndx)
    if s.shm.offset2ptr off then off else 0

/--
Take an element out of its bucket. `offset` and `next` are read before the callbacks run.
-/
def leaveBucket (s : LsShmHash) (iterOff hashIndx offset next : Nat) : LsShmHash :=
  if offset = iterOff then
    s.setTable fun t =>
      let t := t.setHIdx t.x_iHIdx hashIndx next
      if next = 0 then t.clrBitMapEnt hashIndx else t
  else
    let stop := fun off => !s.shm.offset2ptr off || s.table.next off = iterOff
    let pElem := Linked.seek s.table.next 0 stop s.fuel offset
    if pElem ≠ 0 ∧ s.shm.offset2ptr pElem ∧ s.table.next pElem = iterOff then
      s.setTable (·.setNext pElem next)
    else s

def releaseElem (s : LsShmHash) (off size : Nat) : LsShmHash :=
  { s with shm := s.shm.release2 off size }.setTable (·.setElem off none)

def decrTableSize (s : LsShmHash) : LsShmHash :=
  s.setTable fun t => { t with x_iSize := t.x_iSize - 1 }

def eraseIteratorHelper (s : LsShmHash) (iterOff : Nat) : LsShmHash :=
  if iterOff = 0 then s
  else match s.offset2iterator iterOff with
    | none => s.rebuild
    | some iter =>
      let hashIndx := iter.x_hkey % s.capacity
      let offset := s.table.hIdx s.table.x_iHIdx hashIndx
      let next := s.table.next iterOff
      let s := if s.flagLru then s.unlinkHElem iterOff else s
      let s := if s.flagTid then s.eraseIterCb iterOff else s
      let s := s.leaveBucket iterOff hashIndx offset next
      (s.releaseElem iterOff iter.x_iLen).decrTableSize

def enterBucket (s : LsShmHash) (off hkey : Nat) : LsShmHash :=
  let hashIndx := hkey % s.capacity
  s.setTable fun t =>
    let t := t.setNext off (t.hIdx t.x_iHIdx hashIndx)
    let t := t.setHIdx t.x_iHIdx hashIndx off
    let t := t.setBitMapEnt hashIndx
    { t with x_iSize := t.x_iSize + 1 }

def valueOff (s : LsShmHash) (keyLen : Nat) : Nat :=
  sizeofVardata + round4 keyLen + s.iterExtraSpace

def elementSize (s : LsShmHash) (keyLen valLen : Nat) : Nat :=
  sizeofHElem + s.valueOff keyLen + sizeofVardata + round4 valLen

/--
`allocIter`. What the block held before stays in the fields that are not written: the caller writes
the key and `x_hkey`, the value and the id may keep old bytes.
-/
def allocIter (s : LsShmHash) (keyLen valLen : Nat) : LsShmHash × Nat :=
  let r := s.shm.alloc2 (s.elementSize keyLen valLen)
  let s := { s with shm := r.1 }
  let off := r.2
  if off = 0 then (s, 0)
  else
    let junk := s.shm.junk off
    let s := s.setTable (·.setElem off (some
      { x_iLen := s.elementSize keyLen valLen
        x_iValOff := s.valueOff keyLen
        x_hkey := 0
        key := List.replicate keyLen 0
        valLen := valLen
        data := junk.x_data }))
    ({ s with tidLink := Function.update s.tidLink off junk.x_tid }, off)

def fillIter (s : LsShmHash) (off hkey : Nat) (parms : StrPair) : LsShmHash :=
  match s.table.elem off with
  | none => s
  | some e =>
    s.setTable (·.setElem off (some ({ e with x_hkey := hkey, key := parms.key }.setVal parms.val)))

def insertCopy2 (s : LsShmHash) (hkey : Nat) (parms : StrPair) : LsShmHash × Nat :=
  let r := if s.capacity < s.size * s.table.x_iFullFactor then s.rehash else (s, true)
  if r.2 = false ∧ r.1.size = r.1.capacity then (r.1, 0)
  else
    let q := r.1.allocIter parms.key.length parms.val.len
    if q.2 = 0 then q
    else if !q.1.shm.offset2ptr q.2 then (q.1, 0)
    else
      let s := q.1.fillIter q.2 hkey parms
      let s := if s.flagLru then s.linkHElem q.2 else s
      (s.enterBucket q.2 hkey, q.2)

/--
The callback runs whatever `insertCopy2` returned.
-/
def insert2 (s : LsShmHash) (hkey : Nat) (parms : StrPair) : LsShmHash × Nat :=
  let r := s.insertCopy2 hkey parms
  (if r.1.flagTid then r.1.insertIterCb r.2 else r.1, r.2)

def checkSize (len : Nat) : Bool :=
  !(0x80000000 ≤ len || LSSHM_MAXSIZE < len)

def doInsert (s : LsShmHash) (iterOff hkey : Nat) (parms : StrPair) : LsShmHash × Nat :=
  if iterOff ≠ 0 then (s, 0)
  else if !checkSize parms.val.len then (s, 0)
  else s.insert2 hkey parms

def doSet (s : LsShmHash) (iterOff hkey : Nat) (parms : StrPair) : LsShmHash × Nat :=
  if !checkSize parms.val.len then (s, 0)
  else if iterOff = 0 then s.insert2 hkey parms
  else match s.offset2iterator iterOff with
    | none => s.rebuild.insert2 hkey parms
    | some iter =>
      if parms.val.len ≤ iter.realValLen then
        let s := s.setTable (·.setElem iterOff (some (iter.setVal parms.val)))
        let s := if s.flagLru then s.linkSetTop iterOff else s
        let s := if s.flagTid then s.updateIterCb iterOff else s
        (s, iterOff)
      else (s.eraseIteratorHelper iterOff).insert2 hkey parms

def doUpdate (s : LsShmHash) (iterOff hkey : Nat) (parms : StrPair) : LsShmHash × Nat :=
  if iterOff = 0 then (s, 0) else s.doSet iterOff hkey parms

def growElem (e : LsShmHElem) (junk : Junk) (size_to_grow : Nat) (front : Bool) : LsShmHElem :=
  let shift := if front then size_to_grow else 0
  { e with
    x_iLen := e.x_iLen + round4 size_to_grow
    valLen := e.valLen + size_to_grow
    data := fun i => if shift ≤ i ∧ i < shift + e.valLen then e.data (i - shift) else junk.x_data i }

/--
The new block is looked at with `offset2iterator` before anything is written to it.
-/
def iterGrowValue (s : LsShmHash) (iterOff size_to_grow : Nat) (front : Bool) : LsShmHash × Nat :=
  match s.table.elem iterOff with
  | none => (s, 0)
  | some pOld =>
    if !s.shm.offset2ptr iterOff then (s, 0)
    else
      let r := s.shm.alloc2 (pOld.x_iLen + round4 size_to_grow)
      let s := { s with shm := r.1 }
      let off := r.2
      if off = 0 then (s, 0)
      else
        let junk := s.shm.junk off
        if !(s.shm.offset2ptr off && LsShmHElem.iterOk s.shm off junk.x_iLen junk.x_iValOff) then
          (s.rebuild, 0)
        else
          let s := s.setTable (·.setElem off (some (growElem pOld junk size_to_grow front)))
          let s := { s with tidLink := Function.update s.tidLink off junk.x_tid }
          let s := s.eraseIteratorHelper iterOff
          let s := if s.flagLru then s.linkHElem off else s
          let s := if s.flagTid then s.insertIterCb off else s
          if s.flagTid && (s.offset2iterator off).isNone then (s.rebuild, 0)
          else (s.enterBucket off pOld.x_hkey, off)

/--
The loop of `for_each2` with `release_hash_elem`: the next element is looked up before the current
one is released.
-/
def releaseAll : Nat → LsShmHash → Nat → LsShmHash
  | 0, s, _ => s
  | fuel + 1, s, off =>
    if off = 0 then s
    else
      let r := s.next off
      match r.1.offset2iterator off with
      | none => releaseAll fuel r.1.rebuild r.2
      | some iter => releaseAll fuel (r.1.releaseElem off iter.x_iLen) r.2

/--
The `memset` covers the bitmap and the index behind it.
-/
def clearTable (t : LsShmHTable) : LsShmHTable :=
  { t with
    bitMap := Function.update t.bitMap t.x_iBitMap (fun _ => false)
    hIdx := Function.update t.hIdx (t.x_iBitMap + t.x_iBitMapSz) (fun _ => 0)
    x_iSize := 0 }

def clear (s : LsShmHash) : LsShmHash :=
  let s := releaseAll s.fuel s s.begin
  if s.shm.offset2ptr s.table.x_iBitMap then
    let s := s.setTable clearTable
    let s := if s.flagLru then
      s.setLru fun l => { l with linkFirst := 0, linkLast := 0, nvalset := 0, ndataset := 0 } else s
    if s.flagTid then s.onTid (·.clrTidTbl) else s
  else s

def touchLru (s : LsShmHash) (iterOff : Nat) : LsShmHash :=
  if !s.flagLru then s
  else match s.offset2iterator iterOff with
    | none => s.rebuild
    | some _ => s.linkSetTop iterOff

end LsShmHash

end Lsmcd
