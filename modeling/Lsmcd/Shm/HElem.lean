import Lsmcd.Shm.TidMgr

/-!
The state of a `LsShmHash` and the layout of its elements (`lsshmhash.h`).

The memory is kept field by field: `next`, `linkNext` and the like are the fields of that name of all
elements. An offset has an element (`elem`) from its allocation to its release; dereferencing
another offset is an access to memory that the hash does not own.
-/

namespace Lsmcd

def sizeofHElem : Nat := 16
def sizeofVardata : Nat := 4
def sizeofHElemLink : Nat := 16
def sizeofTidLink : Nat := 8

def VALIDATE_MAXLEN : Nat := 100000000

structure LsShmHElem where
  x_iLen : Nat
  x_iValOff : Nat
  x_hkey : Nat
  key : List UInt8
  valLen : Nat
  data : Nat → UInt8

structure ValParm where
  len : Nat
  buf : Option (Nat → UInt8)

structure StrPair where
  key : List UInt8
  val : ValParm

def ValParm.ofBytes (bs : List UInt8) : ValParm where
  len := bs.length
  buf := some (fun i => bs.getD i 0)

structure FreePages where
  x_iFreeSize : Nat
  x_iFreeNext : Nat
  x_iFreePrev : Nat

/--
What the pool has around a block that comes back: the first block of its bucket, the free pages that
end where it starts, those that start where it ends, and the first ones of the list.
-/
structure PoolView where
  freeBucket : Nat
  freeAbove : Option Nat
  freeBelow : Option FreePages
  x_iFreePageList : Nat

/--
The header, the bucket indices and bitmaps by their offsets, and the elements. `pool` is what the pool
finds when the index at an offset is released.
-/
structure LsShmHTable where
  x_iCapacity : Nat
  x_iSize : Nat
  x_iFullFactor : Nat
  x_iGrowFactor : Nat
  x_iHIdx : Nat
  x_iBitMap : Nat
  x_iHIdxNew : Nat
  x_iCapacityNew : Nat
  x_iWorkIterOff : Nat
  x_iBitMapSz : Nat
  hIdx : Nat → Nat → Nat
  bitMap : Nat → Nat → Bool
  elem : Nat → Option LsShmHElem
  next : Nat → Nat
  pool : Nat → PoolView

structure LsHashLruInfo where
  linkFirst : Nat
  linkLast : Nat
  nvalset : Int
  nvalexp : Int
  ndataset : Int
  ndataexp : Int
  linkNext : Nat → Nat
  linkPrev : Nat → Nat
  lasttime : Nat → Nat

/--
`rebuilt` is set when `rebuild()` raises its signal: the process is taken down and the files are
deleted. `now` is what `time()` returns.
-/
structure LsShmHash extends LsShmTidMgr where
  m_hf : List UInt8 → Nat
  flagLru : Bool
  flagTid : Bool
  table : LsShmHTable
  lru : LsHashLruInfo
  tidLink : Nat → Nat
  now : Nat
  rebuilt : Bool

namespace LsShmHElem

def getVal (e : LsShmHElem) : List UInt8 :=
  (List.range e.valLen).map e.data

def realValLen (e : LsShmHElem) : Nat :=
  e.x_iLen - sizeofHElem - e.x_iValOff - sizeofVardata

def validate (m : Shm) (off x_iLen x_iValOff : Nat) (lru : Bool) : Bool :=
  let valOff := sizeofVardata + (if lru then sizeofHElemLink else 0)
  let valLen := if lru then sizeofHElemLink else 0
  let len := sizeofHElem + sizeofVardata + round4 valLen
  m.isOffsetValid ((x_iValOff + (off + sizeofHElem)) % 2 ^ 32) &&
    !(x_iLen ≠ 0 && x_iLen < x_iValOff) && !(x_iValOff ≤ valOff) && !(x_iLen ≠ 0 && x_iLen ≤ len) &&
    !(VALIDATE_MAXLEN < x_iLen)

/--
The test in `offset2iterator`: a small value offset is taken for an element under construction.
-/
def iterOk (m : Shm) (off x_iLen x_iValOff : Nat) : Bool :=
  x_iValOff < 32 || validate m off x_iLen x_iValOff false

def setVal (e : LsShmHElem) (v : ValParm) : LsShmHElem :=
  { e with
    valLen := v.len
    data := match v.buf with
      | none => e.data
      | some buf => fun i => if i < v.len then buf i else e.data i }

end LsShmHElem

namespace LsShmHTable

def setHIdx (t : LsShmHTable) (base i off : Nat) : LsShmHTable :=
  { t with hIdx := Function.update t.hIdx base (Function.update (t.hIdx base) i off) }

def setNext (t : LsShmHTable) (off next : Nat) : LsShmHTable :=
  { t with next := Function.update t.next off next }

def setElem (t : LsShmHTable) (off : Nat) (e : Option LsShmHElem) : LsShmHTable :=
  { t with elem := Function.update t.elem off e }

def getBitMapEnt (t : LsShmHTable) (indx : Nat) : Bool :=
  t.x_iBitMapSz = 0 || t.bitMap t.x_iBitMap indx

def putBitMapEnt (t : LsShmHTable) (indx : Nat) (bit : Bool) : LsShmHTable :=
  if t.x_iBitMapSz = 0 then t
  else { t with
    bitMap := Function.update t.bitMap t.x_iBitMap
      (Function.update (t.bitMap t.x_iBitMap) indx bit) }

def setBitMapEnt (t : LsShmHTable) (indx : Nat) : LsShmHTable := t.putBitMapEnt indx true

def clrBitMapEnt (t : LsShmHTable) (indx : Nat) : LsShmHTable := t.putBitMapEnt indx false

def hkeyOf (t : LsShmHTable) (off : Nat) : Nat :=
  match t.elem off with
  | none => 0
  | some e => e.x_hkey

def keyOf (t : LsShmHTable) (off : Nat) : List UInt8 :=
  match t.elem off with
  | none => []
  | some e => e.key

def getIndex (t : LsShmHTable) (off : Nat) : Nat :=
  t.hkeyOf off % t.x_iCapacity

end LsShmHTable

namespace LsShmHash

def rebuild (s : LsShmHash) : LsShmHash := { s with rebuilt := true }

def offset2iterator (s : LsShmHash) (off : Nat) : Option LsShmHElem :=
  match s.table.elem off with
  | none => none
  | some e =>
    if s.shm.offset2ptr off && LsShmHElem.iterOk s.shm off e.x_iLen e.x_iValOff then some e
    else none

def getLruLinkPtr (s : LsShmHash) (off : Nat) : Bool :=
  match s.table.elem off with
  | none => false
  | some e => LsShmHElem.validate s.shm off e.x_iLen e.x_iValOff true

def iterExtraSpace (s : LsShmHash) : Nat :=
  (if s.flagLru then sizeofHElemLink else 0) + (if s.flagTid then sizeofTidLink else 0)

def fuel (s : LsShmHash) : Nat := s.shm.live.length + 1

def capacity (s : LsShmHash) : Nat := s.table.x_iCapacity

def size (s : LsShmHash) : Nat := s.table.x_iSize

def onTid (s : LsShmHash) (f : LsShmTidMgr → LsShmTidMgr) : LsShmHash :=
  { s with toLsShmTidMgr := f s.toLsShmTidMgr }

end LsShmHash

end Lsmcd
