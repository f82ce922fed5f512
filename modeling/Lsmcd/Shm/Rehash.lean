import Lsmcd.Lib.Buckets
import Lsmcd.Shm.Lru

/-!
The traversal of the table (`begin`, `next`) and `LsShmHash::rehash` as the sequence of its stores.
-/

namespace Lsmcd

def s_primeList : List Nat :=
  [7, 13, 29, 53, 97, 193, 389, 769, 1543, 3079, 6151, 12289, 24593, 49157, 98317, 196613, 393241,
    786433, 1572869, 3145739, 6291469, 12582917, 25165843, 50331653, 100663319, 201326611,
    402653189, 805306457, 1610612741, 3221225473, 4294967291]

def findRange (sz : Nat) : Nat :=
  1 + ((s_primeList.drop 1).take 29).findIdx (fun p => decide (sz ≤ p))

def MINSZ_FOR_BITMAP : Nat := 1024 * 1024 / 4

def sz2TableSz (sz : Nat) : Nat := sz * 4 % 2 ^ 32

def sz2BitMapSz (sz : Nat) : Nat :=
  if sz < MINSZ_FOR_BITMAP then 0 else (sz + 31) / 32 * 4

/--
A store of the pool while it takes a block back: to a word of the block, or to memory that no hash owns.
-/
inductive PoolStore
  | word (i v : Nat)
  | own

namespace PoolView

def releaseData (p : PoolView) : List PoolStore :=
  [.word 0 p.freeBucket, .own, .own, .own]

def disconnectFromFree (ap : FreePages) : List PoolStore :=
  .own :: (if ap.x_iFreeNext ≠ 0 then [.own, .own] else [.own])

def joinAbove (p : PoolView) (top bot : Nat) : List PoolStore :=
  [.own, .word (bot + 1) LSSHM_FREE_BMARKER, .word bot top, .word 0 0] ++
    match p.freeBelow with
    | none => []
    | some ap => .own :: (disconnectFromFree ap ++ [.own, .own])

/--
`isFreeBlockBelow`: the block takes the place of the free pages behind it.
-/
def joinBelow (ap : FreePages) (pagesize : Nat) : List PoolStore :=
  [.own, .word 0 LSSHM_FREE_AMARKER, .word 1 (pagesize + ap.x_iFreeSize), .word 2 ap.x_iFreeNext,
    .word 3 ap.x_iFreePrev, .own] ++ (if ap.x_iFreeNext ≠ 0 then [.own, .own] else [.own])

def joinFreeList (p : PoolView) (offset size bot : Nat) : List PoolStore :=
  [.word 0 LSSHM_FREE_AMARKER, .word 1 size, .word 2 p.x_iFreePageList, .word 3 0, .own] ++
    (if p.x_iFreePageList ≠ 0 then [.own] else []) ++
    [.word bot offset, .word (bot + 1) LSSHM_FREE_BMARKER, .own]

def releasePageLocked (p : PoolView) (offset size : Nat) : List PoolStore :=
  let pagesize := roundPageSize size
  let bot := (pagesize - sizeofFreeBot) / 4
  .own ::
    match p.freeAbove, p.freeBelow with
    | some top, _ => p.joinAbove top bot
    | none, some ap => joinBelow ap pagesize
    | none, none => p.joinFreeList offset pagesize bot

def release2 (p : PoolView) (offset size : Nat) : List PoolStore :=
  let size := roundDataSize size
  if LSSHM_SHM_UNITSIZE ≤ size then p.releasePageLocked offset size ++ [.own] else p.releaseData

end PoolView

namespace PoolStore

/--
What is left of an index behind a bitmap of `szBitMap` bytes. No one reads that bitmap any more.
-/
def apply (szBitMap : Nat) (idx : Nat → Nat) : PoolStore → Nat → Nat
  | word i v => if szBitMap ≤ 4 * i then Function.update idx (i - szBitMap / 4) v else idx
  | own => idx

def states (szBitMap : Nat) : (Nat → Nat) → List PoolStore → List (Nat → Nat)
  | _, [] => []
  | idx, st :: sts => st.apply szBitMap idx :: states szBitMap (st.apply szBitMap idx) sts

theorem length_states (szBitMap : Nat) (idx : Nat → Nat) (sts : List PoolStore)
    : (states szBitMap idx sts).length = sts.length := by
  induction sts generalizing idx with
  | nil => rfl
  | cons st sts ih => simp [states, ih]

end PoolStore

namespace LsShmHash

def begin (s : LsShmHash) : Nat :=
  if s.size = 0 then 0 else Linked.scan (s.table.hIdx s.table.x_iHIdx) 0 s.capacity 0

def setTable (s : LsShmHash) (f : LsShmHTable → LsShmHTable) : LsShmHash :=
  { s with table := f s.table }

/--
The search for the next bucket in `next`. A bucket that starts with `off` itself is emptied.
-/
def nextBucket (off : Nat) : Nat → LsShmHash → Nat → LsShmHash × Nat
  | 0, s, _ => (s, 0)
  | n + 1, s, i =>
    let p := s.table.hIdx s.table.x_iHIdx i
    if p = 0 then nextBucket off n s (i + 1)
    else if p = off then nextBucket off n (s.setTable (·.setHIdx s.table.x_iHIdx i 0)) (i + 1)
    else (s, p)

def next (s : LsShmHash) (off : Nat) : LsShmHash × Nat :=
  if off = 0 then (s, 0)
  else match s.offset2iterator off with
    | none => (s.rebuild, 0)
    | some e =>
      let i := e.x_hkey % s.capacity
      let nx := s.table.next off
      if nx ≠ 0 ∧ nx ≠ off then (s, nx)
      else
        let s := if nx ≠ 0 then s.setTable (·.setNext off 0) else s
        nextBucket off (s.capacity - (i + 1)) s (i + 1)

def rehashMove (s : LsShmHash) (newSize newIdxOff iterOff : Nat) (e : LsShmHElem)
    : List LsShmHash :=
  let opIdx := e.x_hkey % s.capacity
  let new_idx := e.x_hkey % newSize
  let s₁ := s.setTable (·.setBitMapEnt new_idx)
  let s₂ := s₁.setTable fun t => { t with x_iWorkIterOff := iterOff }
  let s₂' := if s₂.table.hIdx s₂.table.x_iHIdx opIdx ≠ iterOff then s₂.rebuild else s₂
  let s₃ := s₂'.setTable fun t => t.setHIdx t.x_iHIdx opIdx (t.next iterOff)
  let s₃' := if s₃.table.hIdx newIdxOff new_idx = iterOff then s₃.rebuild else s₃
  let s₄ := s₃'.setTable fun t => t.setNext iterOff (t.hIdx newIdxOff new_idx)
  let s₅ := s₄.setTable fun t => t.setHIdx newIdxOff new_idx iterOff
  [s₁, s₂, s₃, s₄, s₅]

/--
An element that `offset2iterator` refuses is not passed over: the loop raises the signal each time.
-/
def rehashLoop (newSize newIdxOff : Nat) : Nat → LsShmHash → Nat → Nat → List LsShmHash
  | 0, _, _, _ => []
  | fuel + 1, s, iterOff, count =>
    if iterOff = 0 then []
    else match s.offset2iterator iterOff with
      | none => [s.rebuild]
      | some e =>
        let r := s.next iterOff
        let stores := r.1.rehashMove newSize newIdxOff iterOff e
        let s' := stores.getLastD r.1
        let s' := if s.capacity + s.capacity / 2 < count + 1 then s'.rebuild else s'
        stores ++ rehashLoop newSize newIdxOff fuel s' r.2 (count + 1)

def releaseStores (s : LsShmHash) : List PoolStore :=
  let szBitMap := sz2BitMapSz s.capacity
  (s.table.pool s.table.x_iHIdx).release2 (s.table.x_iHIdx - szBitMap) (sz2TableSz s.capacity + szBitMap)

def idxStates (s : LsShmHash) : List (Nat → Nat) :=
  PoolStore.states (sz2BitMapSz s.capacity) (s.table.hIdx s.table.x_iHIdx) s.releaseStores

def releasedIdx (s : LsShmHash) : Nat → Nat :=
  s.idxStates.getLastD (s.table.hIdx s.table.x_iHIdx)

def withIdx (s : LsShmHash) (m : Shm) (idx : Nat → Nat) : LsShmHash :=
  { s with
    shm := m
    table := { s.table with hIdx := Function.update s.table.hIdx s.table.x_iHIdx idx } }

/--
The release of the index in use: the stores of the pool, whose block it is from then on, and that of
`m_iHashInUse`.
-/
def releaseIdx (s : LsShmHash) : List LsShmHash :=
  let szBitMap := sz2BitMapSz s.capacity
  let off := s.table.x_iHIdx - szBitMap
  s.idxStates.map (s.withIdx (s.shm.poolRelease2 off)) ++
    [s.withIdx (s.shm.release2 off (sz2TableSz s.capacity + szBitMap)) s.releasedIdx]

theorem length_releaseIdx (s : LsShmHash) : s.releaseIdx.length = s.releaseStores.length + 1 := by
  simp [releaseIdx, idxStates, PoolStore.length_states]

theorem mem_releaseIdx {s s' : LsShmHash} (h : s' ∈ s.releaseIdx) : ∃ m idx, s' = s.withIdx m idx := by
  rcases List.mem_append.mp h with h | h
  . obtain ⟨idx, _, rfl⟩ := List.mem_map.mp h
    exact ⟨_, idx, rfl⟩
  . exact ⟨_, _, List.mem_singleton.mp h⟩

def rehashFinish (s : LsShmHash) (newSize newIdxOff : Nat) : List LsShmHash :=
  let s₁ := s.setTable fun t => { t with x_iWorkIterOff := 0 }
  let released := s₁.releaseIdx
  let s₂ := released.getLastD s₁
  let s₃ := s₂.setTable fun t => { t with x_iCapacity := newSize }
  let s₄ := s₃.setTable fun t => { t with x_iHIdx := newIdxOff }
  s₁ :: (released ++ [s₃, s₄])

/--
The stores with which an interrupted move is completed. The store to the old index is left out when
it was made before.
-/
def rehashResume (s : LsShmHash) : List LsShmHash :=
  let newSize := s.table.x_iCapacityNew
  let newIdxOff := s.table.x_iHIdxNew
  let iterOff := s.table.x_iWorkIterOff
  if iterOff = 0 then []
  else match s.offset2iterator iterOff with
    | none => [s.rebuild]
    | some e =>
      let npIdx := e.x_hkey % newSize
      if s.table.hIdx newIdxOff npIdx ≠ iterOff ∧ s.shm.offset2ptr s.table.x_iHIdx then
        let opIdx := e.x_hkey % s.capacity
        let removed :=
          if s.table.hIdx s.table.x_iHIdx opIdx = iterOff then
            [s.setTable fun t => t.setHIdx t.x_iHIdx opIdx (t.next iterOff)]
          else []
        let s₁ := removed.getLastD s
        let s₂ := s₁.setTable fun t => t.setNext iterOff (t.hIdx newIdxOff npIdx)
        let s₃ := s₂.setTable fun t => t.setHIdx newIdxOff npIdx iterOff
        removed ++ [s₂, s₃]
      else []

/--
The stores of a rehash that starts: the allocation, the clearing of the block and four fields of the
header. `none` when the allocation fails.
-/
def rehashStart (s : LsShmHash) : List LsShmHash × Option (Nat × Nat) :=
  let newSize := s_primeList.getD (findRange s.capacity + s.table.x_iGrowFactor) 0
  let szTable := sz2TableSz newSize
  let szBitMap := sz2BitMapSz newSize
  let r := s.shm.alloc2 (szTable + szBitMap)
  let s₀ := { s with shm := r.1 }
  if r.2 = 0 then ([s₀], none)
  else
    let newBitOff := r.2
    let newIdxOff := newBitOff + szBitMap
    let s₁ := s₀.setTable fun t =>
      { t with
        hIdx := Function.update t.hIdx newIdxOff (fun _ => 0)
        bitMap := Function.update t.bitMap newBitOff (fun _ => false) }
    let s₂ := s₁.setTable fun t => { t with x_iBitMap := newBitOff }
    let s₃ := s₂.setTable fun t => { t with x_iBitMapSz := szBitMap }
    let s₄ := s₃.setTable fun t => { t with x_iCapacityNew := newSize }
    let s₅ := s₄.setTable fun t => { t with x_iHIdxNew := newIdxOff }
    ([s₀, s₁, s₂, s₃, s₄, s₅], some (newSize, newIdxOff))

def rehashBody (s : LsShmHash) (newSize newIdxOff : Nat) : List LsShmHash :=
  let moves := rehashLoop newSize newIdxOff s.fuel s s.begin 0
  moves ++ (moves.getLastD s).rehashFinish newSize newIdxOff

/--
The states that the stores of `rehash(true)` lead through, and whether it returns 0.
-/
def rehashStores (s : LsShmHash) : List LsShmHash × Bool :=
  if s.table.x_iHIdx ≠ s.table.x_iHIdxNew then
    let pre := s.rehashResume
    let s' := pre.getLastD s
    (pre ++ s'.rehashBody s.table.x_iCapacityNew s.table.x_iHIdxNew, true)
  else
    let r := s.rehashStart
    match r.2 with
    | none => (r.1, false)
    | some (newSize, newIdxOff) =>
      let s' := r.1.getLastD s
      (r.1 ++ s'.rehashBody newSize newIdxOff, true)

def rehash (s : LsShmHash) : LsShmHash × Bool :=
  let r := s.rehashStores
  (r.1.getLastD s, r.2)

/--
`lockChkRehash` in the process that takes the lock over from a dead one.
-/
def lockChkRehash (s : LsShmHash) : LsShmHash :=
  if s.table.x_iHIdx ≠ s.table.x_iHIdxNew then s.rehash.1 else s

end LsShmHash

end Lsmcd
