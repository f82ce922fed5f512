import Lsmcd.Shm.Alloc

/-!
The data allocator of a pool (`lsshmpool.cpp`): the chunk, the buckets and the free list, in a memory
of words, over an `allocPage` that hands out any fresh run of pages or fails.

`allocPage` is driven by a list of answers, one for each call.
-/

namespace Lsmcd

def LSSHM_POOL_NUMBUCKET : Nat := 0x40
def LSSHM_MAX_BUCKET_SLOT : Nat := 0x8
def LSSHM_POOL_BCKTINCR : Nat := 16
def LSSHM_POOL_MAXBCKTSIZE : Nat := LSSHM_POOL_NUMBUCKET * LSSHM_POOL_BCKTINCR

/--
A run of pages that `allocPage` may return: the size of the file and the large pages that the file is
mapped to from then on, and the words that the run is left with.
-/
structure PageAnswer where
  off : Nat
  fileSize : Nat
  table : List Nat
  junk : List (Nat × Nat)

/--
The file, the addresses that its large pages are mapped to, and the runs of pages that were obtained and
not given back. A word has its address, the entries of `m_off2ptrTable` are numbers of large pages.
-/
structure PoolShm where
  m_iFileSize : Nat
  m_off2ptrTable : List Nat
  mem : Nat → Nat
  pages : List (Nat × Nat)
  answers : List PageAnswer
  mapped : m_iFileSize ≤ m_off2ptrTable.length * LARGE_PAGE_SIZE
  table_nodup : m_off2ptrTable.Nodup
  table_pos : 0 ∉ m_off2ptrTable
  pages_apart : pages.Pairwise Apart
  pages_range : ∀ b ∈ pages, sizeofShmMapHdr ≤ b.1 ∧ 0 < b.2 ∧ b.1 + b.2 ≤ m_iFileSize
  fileSize_lt : m_iFileSize < 2 ^ 32

namespace PoolShm

def isOffsetValid (m : PoolShm) (off : Nat) : Bool :=
  m.m_iFileSize ≠ 0 && off ≤ m.m_iFileSize

def offset2ptr (m : PoolShm) (off : Nat) : Option Nat :=
  if off < sizeofShmMapHdr ∨ !m.isOffsetValid off then none
  else (m.m_off2ptrTable[off / LARGE_PAGE_SIZE]?).map fun page =>
    page * LARGE_PAGE_SIZE + off % LARGE_PAGE_SIZE

def write (m : PoolShm) (p v : Nat) : PoolShm :=
  { m with mem := Function.update m.mem p v }

structure Fits (m : PoolShm) (size : Nat) (a : PageAnswer) : Prop where
  hdr : sizeofShmMapHdr ≤ a.off
  grown : m.m_iFileSize ≤ a.fileSize
  inside : a.off + size ≤ a.fileSize
  fileSize_lt : a.fileSize < 2 ^ 32
  mapped : a.fileSize ≤ a.table.length * LARGE_PAGE_SIZE
  table_prefix : m.m_off2ptrTable <+: a.table
  table_nodup : a.table.Nodup
  table_pos : 0 ∉ a.table
  apart : ∀ b ∈ m.pages, Apart (a.off, size) b

instance (m : PoolShm) (size : Nat) (a : PageAnswer) : Decidable (Fits m size a) :=
  decidable_of_iff
    (sizeofShmMapHdr ≤ a.off ∧ m.m_iFileSize ≤ a.fileSize ∧ a.off + size ≤ a.fileSize ∧
      a.fileSize < 2 ^ 32 ∧ a.fileSize ≤ a.table.length * LARGE_PAGE_SIZE ∧
      m.m_off2ptrTable <+: a.table ∧ a.table.Nodup ∧ 0 ∉ a.table ∧ ∀ b ∈ m.pages, Apart (a.off, size) b)
    ⟨fun ⟨h1, h2, h3, h4, h5, h6, h7, h8, h9⟩ => ⟨h1, h2, h3, h4, h5, h6, h7, h8, h9⟩,
      fun ⟨h1, h2, h3, h4, h5, h6, h7, h8, h9⟩ => ⟨h1, h2, h3, h4, h5, h6, h7, h8, h9⟩⟩

def litter (m : PoolShm) (off size : Nat) (junk : List (Nat × Nat)) : PoolShm :=
  junk.foldl (fun m w =>
    if w.1 < size then
      match m.offset2ptr (off + w.1) with
      | none => m
      | some p => m.write p w.2
    else m) m

def take (m : PoolShm) (size : Nat) (a : PageAnswer) (hpos : 0 < size) (h : Fits m size a) : PoolShm where
  m_iFileSize := a.fileSize
  m_off2ptrTable := a.table
  mem := m.mem
  pages := (a.off, size) :: m.pages
  answers := m.answers.tail
  mapped := h.mapped
  table_nodup := h.table_nodup
  table_pos := h.table_pos
  pages_apart := List.pairwise_cons.mpr ⟨h.apart, m.pages_apart⟩
  pages_range := by
    intro b hb
    cases hb with
    | head => exact ⟨h.hdr, hpos, h.inside⟩
    | tail _ hb =>
      have hr := m.pages_range b hb
      exact ⟨hr.1, hr.2.1, Nat.le_trans hr.2.2 h.grown⟩
  fileSize_lt := h.fileSize_lt

def allocPage (m : PoolShm) (pagesize : Nat) : PoolShm × Nat :=
  if 0x80000000 ≤ pagesize ∨ LSSHM_MAXSIZE < pagesize then (m, 0)
  else
    let pagesize := roundPageSize pagesize
    match m.answers with
    | [] => (m, 0)
    | a :: as =>
      if h : 0 < pagesize ∧ Fits m pagesize a then
        ((m.take pagesize a h.1 h.2).litter a.off pagesize a.junk, a.off)
      else ({ m with answers := as }, 0)

def releasePage (m : PoolShm) (off size : Nat) : PoolShm where
  m_iFileSize := m.m_iFileSize
  m_off2ptrTable := m.m_off2ptrTable
  mem := m.mem
  pages := m.pages.erase (off, size)
  answers := m.answers
  mapped := m.mapped
  table_nodup := m.table_nodup
  table_pos := m.table_pos
  pages_apart := m.pages_apart.sublist List.erase_sublist
  pages_range := fun b hb => m.pages_range b (List.mem_of_mem_erase hb)
  fileSize_lt := m.fileSize_lt

end PoolShm

structure LsShmPoolMap where
  x_iStart : Nat
  x_iEnd : Nat
  x_iFreeList : Nat
  x_aFreeBucket : Nat → Nat

def LsShmPoolMap.empty : LsShmPoolMap where
  x_iStart := 0
  x_iEnd := 0
  x_iFreeList := 0
  x_aFreeBucket := fun _ => 0

structure LsShmPool where
  m_pShm : PoolShm
  dataMap : LsShmPoolMap
  m_pParent : Option LsShmPoolMap

def dataSize2Bucket (size : Nat) : Nat :=
  size / LSSHM_POOL_BCKTINCR

namespace LsShmPool

def setShm (s : LsShmPool) (m : PoolShm) : LsShmPool :=
  { s with m_pShm := m }

def write (s : LsShmPool) (p v : Nat) : LsShmPool :=
  s.setShm (s.m_pShm.write p v)

def setChunk (s : LsShmPool) (start ende : Nat) : LsShmPool :=
  { s with dataMap := { s.dataMap with x_iStart := start, x_iEnd := ende } }

def setFreeList (s : LsShmPool) (off : Nat) : LsShmPool :=
  { s with dataMap := { s.dataMap with x_iFreeList := off } }

def setBucket (s : LsShmPool) (num off : Nat) : LsShmPool :=
  { s with dataMap := { s.dataMap with x_aFreeBucket := Function.update s.dataMap.x_aFreeBucket num off } }

def pushFreeList (s : LsShmPool) (offset size : Nat) : LsShmPool :=
  match s.m_pShm.offset2ptr offset with
  | none => s
  | some pFree =>
    let s := s.write (pFree + 8) size
    let freeOffset := s.dataMap.x_iFreeList
    if freeOffset ≠ 0 then
      match s.m_pShm.offset2ptr freeOffset with
      | none => s
      | some pFreeList =>
        (((s.write pFree freeOffset).write (pFree + 4) 0).write (pFreeList + 4) offset).setFreeList offset
    else ((s.write pFree 0).write (pFree + 4) 0).setFreeList offset

def releaseData (s : LsShmPool) (offset size : Nat) : LsShmPool :=
  if LSSHM_POOL_MAXBCKTSIZE ≤ size then s.pushFreeList offset size
  else
    let bucketNum := dataSize2Bucket size
    match s.m_pShm.offset2ptr offset with
    | none => s
    | some pData =>
      let bucket := s.dataMap.x_aFreeBucket bucketNum
      if !s.m_pShm.isOffsetValid offset then s
      else if !s.m_pShm.isOffsetValid bucket then (s.write pData 0).setBucket bucketNum offset
      else (s.write pData bucket).setBucket bucketNum offset

def rmFromDataFreeList (s : LsShmPool) (pFree : Nat) : LsShmPool :=
  let next := s.m_pShm.mem pFree
  let prev := s.m_pShm.mem (pFree + 4)
  let unlinkNext := fun (s : LsShmPool) =>
    if next ≠ 0 then
      match s.m_pShm.offset2ptr next with
      | none => s
      | some xp => s.write (xp + 4) prev
    else s
  if prev = 0 then unlinkNext (s.setFreeList next)
  else match s.m_pShm.offset2ptr prev with
    | none => s
    | some xp => unlinkNext (s.write xp next)

def mvDataFreeListToBucket (s : LsShmPool) (pFree offset : Nat) : LsShmPool :=
  let s := s.rmFromDataFreeList pFree
  let size := s.m_pShm.mem (pFree + 8)
  if 0 < size then
    let bucketNum := dataSize2Bucket size
    (s.write pFree (s.dataMap.x_aFreeBucket bucketNum)).setBucket bucketNum offset
  else s

/--
The offset and the number of blocks. The second call finds the pages of the first one.
-/
def allocFromDataChunk (s : LsShmPool) (size num : Nat) : Nat → LsShmPool × Nat × Nat
  | 0 => (s, 0, 0)
  | fuel + 1 =>
    let start := s.dataMap.x_iStart
    let avail := s.dataMap.x_iEnd - start
    let numAvail := avail / size
    if numAvail ≠ 0 then
      let num := if numAvail < num then numAvail else num
      (s.setChunk (start + size * num) s.dataMap.x_iEnd, start, num)
    else
      let s := s.setChunk (start + avail) s.dataMap.x_iEnd
      let releaseOffset := if avail ≠ 0 then start else 0
      let releaseSize := avail
      let needed := roundPageSize (size * num)
      let needed := if needed < LSSHM_SHM_UNITSIZE then LSSHM_SHM_UNITSIZE else needed
      let r := s.m_pShm.allocPage needed
      let s := s.setShm r.1
      let offset := r.2
      if offset = 0 then (s, 0, 0)
      else
        let s :=
          if releaseOffset ≠ 0 then
            if releaseOffset + releaseSize = offset then
              s.setChunk releaseOffset (releaseOffset + (needed + releaseSize))
            else (s.releaseData releaseOffset releaseSize).setChunk offset (offset + needed)
          else s.setChunk offset (offset + needed)
        s.allocFromDataChunk size num fuel

/--
Walk over at most `n` blocks from `next`, of which `cnt` are behind: where the walk stops, the place of
the last link and the number of blocks. `none` when an offset is no pointer.
-/
def globalWalk (m : PoolShm) : Nat → Nat → Nat → Nat → Option (Nat × Nat × Nat)
  | 0, next, np, cnt => some (next, np, cnt)
  | n + 1, next, np, cnt =>
    if next = 0 then some (next, np, cnt)
    else match m.offset2ptr next with
      | none => none
      | some p => globalWalk m n (m.mem p) p (cnt + 1)

/--
`m_pParent->allocFromGlobalBucket`: up to `num` blocks of the parent, the offset of the first and their
number.
-/
def allocFromGlobalBucket (s : LsShmPool) (bucketNum num : Nat) : LsShmPool × Nat × Nat :=
  match s.m_pParent with
  | none => (s, 0, num)
  | some parent =>
    let first := parent.x_aFreeBucket bucketNum
    if first = 0 then (s, 0, num)
    else match globalWalk s.m_pShm num first 0 0 with
      | none => (s, 0, num)
      | some (next, np, cnt) =>
        let parent :=
          { parent with x_aFreeBucket := Function.update parent.x_aFreeBucket bucketNum next }
        (({ s with m_pParent := some parent }).write np 0, first, cnt)

def thread (s : LsShmPool) (size : Nat) : Nat → Nat → Nat → LsShmPool × Bool
  | 0, _, _ => (s, true)
  | num + 1, xp, xoffset =>
    let xp := xp + size
    let xoffset := xoffset + size
    if !s.m_pShm.isOffsetValid xoffset then (s, false)
    else (s.write xp (if num ≠ 0 then xoffset else 0)).thread size num xp xoffset

/--
The first block of the parent's is taken, the others are forgotten.
-/
def fillDataBucket (s : LsShmPool) (bucketNum size : Nat) : LsShmPool × Nat :=
  let num := min (LSSHM_POOL_MAXBCKTSIZE * 4 / size) LSSHM_MAX_BUCKET_SLOT
  let g := s.allocFromGlobalBucket bucketNum num
  if g.2.1 ≠ 0 then
    if 1 < g.2.2 then
      if (g.1.m_pShm.offset2ptr g.2.1).isNone then (g.1, 0) else (g.1.setBucket bucketNum 0, g.2.1)
    else (g.1, g.2.1)
  else
    let r := g.1.allocFromDataChunk size g.2.2 2
    let s := r.1
    let offset := r.2.1
    if r.2.2 = 0 then (s, offset)
    else
      let num := r.2.2 - 1
      let xoffset := offset + size
      if num ≠ 0 ∧ !s.m_pShm.isOffsetValid xoffset then (s, offset)
      else
        let s := if num ≠ 0 then s.setBucket bucketNum xoffset else s
        -- the place of the last block is looked up, those before it are counted back
        let xp := (s.m_pShm.offset2ptr (offset + num * size)).getD 0 - num * size
        let t := s.thread size num xp xoffset
        if t.2 then (t.1, offset) else (t.1, 0)

def allocFromDataBucket (s : LsShmPool) (size : Nat) : LsShmPool × Nat :=
  let num := dataSize2Bucket size
  let offset := s.dataMap.x_aFreeBucket num
  if offset ≠ 0 then
    match s.m_pShm.offset2ptr offset with
    | none => (s.setBucket num 0, offset)
    | some np =>
      let next := s.m_pShm.mem np
      if !s.m_pShm.isOffsetValid next then (s.setBucket num 0, offset) else (s.setBucket num next, offset)
  else s.fillDataBucket num size

/--
The first block of the free list that is large enough gives its end away. The list has no more blocks
than fit in the file.
-/
def allocFromDataFreeList (s : LsShmPool) (size : Nat) : LsShmPool × Nat :=
  go s.m_pShm.m_iFileSize s.dataMap.x_iFreeList
where
  fromChunk : LsShmPool × Nat :=
    let r := s.allocFromDataChunk size 1 2
    (r.1, r.2.1)
  go : Nat → Nat → LsShmPool × Nat
  | 0, _ => fromChunk
  | n + 1, offset =>
    if offset = 0 then fromChunk
    else match s.m_pShm.offset2ptr offset with
      | none => fromChunk
      | some pFree =>
        let free := s.m_pShm.mem (pFree + 8)
        if size ≤ free then
          let left := free - size
          let s := s.write (pFree + 8) left
          (if left < LSSHM_POOL_MAXBCKTSIZE then s.mvDataFreeListToBucket pFree offset else s, offset + left)
        else go n (s.m_pShm.mem pFree)

def alloc2Ex (s : LsShmPool) (size : Nat) : LsShmPool × Nat :=
  if LSSHM_SHM_UNITSIZE ≤ size then
    let r := s.m_pShm.allocPage size
    (s.setShm r.1, r.2)
  else if LSSHM_POOL_MAXBCKTSIZE ≤ size then s.allocFromDataFreeList size
  else s.allocFromDataBucket size

def Crosses (off size : Nat) : Prop :=
  off >>> LARGE_PAGE_BITS ≠ (off + size - 1) >>> LARGE_PAGE_BITS

instance (off size : Nat) : Decidable (Crosses off size) := inferInstanceAs (Decidable (_ ≠ _))

/--
The offset and the size that `*size` is left with. A block that crosses is not given back before a whole
large page is asked for.
-/
def alloc2 (s : LsShmPool) (size : Nat) : LsShmPool × Nat × Nat :=
  if size = 0 ∨ 0x80000000 ≤ size ∨ LSSHM_MAXSIZE < size then (s, 0, size)
  else
    let size := roundDataSize size
    let r := s.alloc2Ex size
    if LARGE_PAGE_SIZE ≤ size ∨ ¬ Crosses r.2 size then (r.1, r.2, size)
    else
      let r := r.1.alloc2Ex LARGE_PAGE_SIZE
      (r.1, r.2, LARGE_PAGE_SIZE)

def release2 (s : LsShmPool) (offset size : Nat) : LsShmPool :=
  let size := roundDataSize size
  if LSSHM_SHM_UNITSIZE ≤ size then s.setShm (s.m_pShm.releasePage offset (roundPageSize size))
  else s.releaseData offset size

end LsShmPool

end Lsmcd
