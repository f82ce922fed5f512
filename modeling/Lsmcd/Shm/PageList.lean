import Lsmcd.Lib.DList
import Lsmcd.Shm.AllocPage

/-!
The list of free pages of the global pool (`lsshmpool.cpp`): first fit, and blocks that are joined with their
neighbours when they come back. A free block has a top and a bottom with markers in the memory that it is made of.
-/

namespace Lsmcd

open Linked Cover

/--
The file with the word at each offset, and the list. The fields of a `LShmFreeTop` are the words at its offset and at
4, 8 and 12 behind it, those of a `LShmFreeBot` the words at its offset and at 4 behind it.
-/
structure PagePool where
  m_pShm : LsShm
  mem : Nat → Nat
  x_iFreePageList : Nat
  m_iGpFreeListCnt : Nat

namespace PagePool

def offset2ptr (s : PagePool) (off : Nat) : Option Nat :=
  if off < sizeofShmMapHdr ∨ s.m_pShm.m_iFileSize = 0 ∨ s.m_pShm.m_iFileSize < off then none else some off

def maxSize (s : PagePool) : Nat :=
  s.m_pShm.m_iFileSize

def write (s : PagePool) (p v : Nat) : PagePool :=
  { s with mem := Function.update s.mem p v }

def setFreePageList (s : PagePool) (off : Nat) : PagePool :=
  { s with x_iFreePageList := off }

def setFreeListCnt (s : PagePool) (n : Nat) : PagePool :=
  { s with m_iGpFreeListCnt := n }

def writeAt (s : PagePool) (off d v : Nat) : PagePool :=
  match s.offset2ptr off with
  | none => s
  | some xp => s.write (xp + d) v

/--
`x_iAMarker`, `x_iFreeSize`, `x_iFreeNext`, `x_iFreePrev`, and `x_iFreeOffset` and `x_iBMarker`.
-/
def marker (s : PagePool) (ap : Nat) : Nat :=
  s.mem ap

def size (s : PagePool) (ap : Nat) : Nat :=
  s.mem (ap + 4)

def next (s : PagePool) (ap : Nat) : Nat :=
  s.mem (ap + 8)

def prev (s : PagePool) (ap : Nat) : Nat :=
  s.mem (ap + 12)

def back (s : PagePool) (bp : Nat) : Nat :=
  s.mem bp

def bottom (s : PagePool) (bp : Nat) : Nat :=
  s.mem (bp + 4)

def markTopUsed (s : PagePool) (ap : Nat) : PagePool :=
  s.write ap 0

def disconnectFromFree (s : PagePool) (ap : Nat) : PagePool :=
  let myNext := s.next ap
  let myPrev := s.prev ap
  let s := if myPrev ≠ 0 then s.writeAt myPrev 8 myNext else s.setFreePageList myNext
  let s := if myNext ≠ 0 then s.writeAt myNext 12 myPrev else s
  s.setFreeListCnt (s.m_iGpFreeListCnt - 1)

/--
The bottom is not looked for behind `offset` when the whole block is taken, but it is not used either.
-/
def reduceFreeFromBot (s : PagePool) (ap offset newsize : Nat) : PagePool :=
  if newsize = 0 then
    let s := s.markTopUsed ap
    match s.offset2ptr (s.size ap - sizeofFreeBot) with
    | none => s
    | some _ => s.disconnectFromFree ap
  else
    match s.offset2ptr (offset + newsize - sizeofFreeBot) with
    | none => s
    | some bp => ((s.write bp offset).write (bp + 4) LSSHM_FREE_BMARKER).write (ap + 4) newsize

def getFromFreeListLoop (size : Nat) : Nat → PagePool → Nat → PagePool × Nat
  | 0, s, _ => (s, 0)
  | fuel + 1, s, offset =>
    if offset ≠ 0 then
      match s.offset2ptr offset with
      | none => (s, 0)
      | some ap =>
        if size ≤ s.size ap then
          let left := s.size ap - size
          (s.reduceFreeFromBot ap offset left, offset + left)
        else getFromFreeListLoop size fuel s (s.next ap)
    else (s, 0)

def getFromFreeList (s : PagePool) (size : Nat) : PagePool × Nat :=
  getFromFreeListLoop size (s.m_iGpFreeListCnt + 1) s s.x_iFreePageList

def isFreeBlockAbove (s : PagePool) (offset size joinFlag : Nat) : PagePool × Bool :=
  let aboveOffset := offset - sizeofFreeBot
  if aboveOffset < LSSHM_SHM_UNITSIZE then (s, false)
  else match s.offset2ptr aboveOffset with
    | none => (s, false)
    | some bp =>
      let x_iFreeOffset := s.back bp
      if s.bottom bp = LSSHM_FREE_BMARKER ∧ LSSHM_SHM_UNITSIZE ≤ x_iFreeOffset ∧ x_iFreeOffset < aboveOffset then
        match s.offset2ptr x_iFreeOffset with
        | none => (s, false)
        | some ap =>
          if s.marker ap = LSSHM_FREE_AMARKER ∧ (s.size ap + x_iFreeOffset) % 2 ^ 32 = offset then
            if joinFlag ≠ 0 then
              let s := s.write (ap + 4) ((s.size ap + size) % 2 ^ 32)
              match s.offset2ptr (offset + size - sizeofFreeBot) with
              | none => (s, false)
              | some xp =>
                let s := s.write (xp + 4) LSSHM_FREE_BMARKER
                let s := s.write xp (s.back bp)
                match s.offset2ptr offset with
                | none => (s, false)
                | some ft => (s.markTopUsed ft, true)
            else (s, true)
          else (s, false)
      else (s, false)

def isFreeBlockBelow (s : PagePool) (offset size joinFlag : Nat) : PagePool × Bool :=
  let belowOffset := offset + size
  if s.maxSize ≤ belowOffset then (s, false)
  else match s.offset2ptr belowOffset with
    | none => (s, false)
    | some ap =>
      if s.marker ap = LSSHM_FREE_AMARKER then
        let e_offset := (belowOffset + s.size ap) % 2 ^ 32
        if e_offset < LSSHM_SHM_UNITSIZE ∨ s.maxSize < e_offset then (s, false)
        else match s.offset2ptr (e_offset - sizeofFreeBot) with
          | none => (s, false)
          | some bp =>
            if s.bottom bp = LSSHM_FREE_BMARKER ∧ s.back bp = belowOffset then
              if joinFlag ≠ 0 then
                let s := s.markTopUsed ap
                if joinFlag = 2 then
                  let s := s.disconnectFromFree ap
                  match s.offset2ptr offset with
                  | none => (s, false)
                  | some xp => ((s.write (xp + 4) ((s.size xp + s.size ap) % 2 ^ 32)).write bp offset, true)
                else
                  match s.offset2ptr offset with
                  | none => (s, false)
                  | some np =>
                    let s := s.write np LSSHM_FREE_AMARKER
                    let s := s.write (np + 4) ((size + s.size ap) % 2 ^ 32)
                    let s := s.write (np + 8) (s.next ap)
                    let s := s.write (np + 12) (s.prev ap)
                    let s := s.write bp offset
                    let s := if s.next np ≠ 0 then s.writeAt (s.next np) 12 offset else s
                    let s := if s.prev np ≠ 0 then s.writeAt (s.prev np) 8 offset else s.setFreePageList offset
                    (s, true)
              else (s, true)
            else (s, false)
      else (s, false)

def joinFreeList (s : PagePool) (offset size : Nat) : PagePool :=
  match s.offset2ptr offset with
  | none => s
  | some np =>
    let s := s.write np LSSHM_FREE_AMARKER
    let s := s.write (np + 4) size
    let s := s.write (np + 8) s.x_iFreePageList
    let s := s.write (np + 12) 0
    let s := s.setFreePageList offset
    let s := if s.next np ≠ 0 then s.writeAt (s.next np) 12 offset else s
    match s.offset2ptr (offset + size - sizeofFreeBot) with
    | none => s
    | some bp =>
      let s := (s.write bp offset).write (bp + 4) LSSHM_FREE_BMARKER
      s.setFreeListCnt (s.m_iGpFreeListCnt + 1)

def releasePageLocked (s : PagePool) (offset pagesize : Nat) : PagePool :=
  let pagesize := roundPageSize pagesize
  let r := s.isFreeBlockAbove offset pagesize 1
  if r.2 = true then
    let s := r.1
    match s.offset2ptr (offset + pagesize - sizeofFreeBot) with
    | none => s
    | some f =>
      let offset := s.back f
      match s.offset2ptr offset with
      | none => s
      | some ap => (s.isFreeBlockBelow offset (s.size ap) 2).1
  else
    let r := r.1.isFreeBlockBelow offset pagesize 1
    if r.2 = true then r.1 else r.1.joinFreeList offset pagesize

def addLeftOverPages (s : PagePool) (offset size : Nat) : PagePool :=
  s.releasePageLocked offset size

/--
The pages of `LsShm::allocPage`, which gives the list what is left over.
-/
def allocFromShm (s : PagePool) (env : LsShm.Env) (pagesize : Nat) : PagePool × Nat :=
  let r := s.m_pShm.allocPage env pagesize
  let s := { s with m_pShm := r.2 }
  let s := match r.1.leftOver with
    | none => s
    | some left => s.addLeftOverPages left.1 left.2
  if r.1.offset = 0 then (s, 0)
  else match s.offset2ptr r.1.offset with
    | none => (s, r.1.offset)
    | some top => (s.markTopUsed top, r.1.offset)

/--
The offset is 0 when there are no pages.
-/
def allocPage (s : PagePool) (env : LsShm.Env) (pagesize : Nat) : PagePool × Nat :=
  if 0x80000000 ≤ pagesize ∨ LSSHM_MAXSIZE < pagesize then (s, 0)
  else
    let pagesize := roundPageSize pagesize
    let r := s.getFromFreeList pagesize
    if r.2 = 0 then r.1.allocFromShm env pagesize else r

end PagePool

end Lsmcd
