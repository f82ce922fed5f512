import Lsmcd.Lib.Chain
import Lsmcd.Lib.Run
import Mathlib.Data.List.Range

/-!
`LsShmLock` (`lsshmlock.cpp`): the file of locks and the list of the free ones in it.
-/

namespace Lsmcd

open Linked Run

namespace LsShmLock

def LSSHM_LOCK_MAGIC : Nat := 0x20150505

def s_iPageSize : Nat := 0x2000

def s_iHdrSize : Nat := 32

def roundToPageSize (size : Nat) : Nat :=
  (size + s_iPageSize - 1) % 2 ^ 32 / s_iPageSize * s_iPageSize

inductive LsShmStatus where
  | LSSHM_OK
  | LSSHM_ERROR
  | LSSHM_BADVERSION
  | LSSHM_BADMAPFILE
  deriving DecidableEq

/--
`sizeof (union ls_shmlock_elem_s)`: an offset or a lock of the kind that is compiled in.
-/
structure ElemSize where
  val : Nat
  offset_le : 4 ≤ val
  two_le : s_iHdrSize + 2 * val ≤ s_iPageSize

structure LsShmLockMap where
  x_iMagic : Nat
  x_iMaxElem : Nat
  x_id : Nat
  x_iMaxSize : Nat
  x_iFreeOffset : Nat

/--
`x_iNext` is the first word of each element. It belongs to the lock while the lock is in use.
-/
structure LockFile where
  st_size : Nat
  header : LsShmLockMap
  x_iNext : Nat → Nat

/--
What the system calls of `init` answer.
-/
structure InitEnv where
  fstat : Bool
  expandFile : Bool
  mapHeader : Bool
  map : Bool

end LsShmLock

/--
`m_iMaxSizeO` is the size of the mapping, 0 when there is none.
-/
structure LsShmLock where
  file : LsShmLock.LockFile
  m_iMaxSizeO : Nat

namespace LsShmLock

def empty : LsShmLock where
  file := {
    st_size := 0
    header := { x_iMagic := 0, x_iMaxElem := 0, x_id := 0, x_iMaxSize := 0, x_iFreeOffset := 0 }
    x_iNext := fun _ => 0
  }
  m_iMaxSizeO := 0

/--
`mmap` refuses an empty mapping.
-/
def map (s : LsShmLock) (answer : Bool) (size : Nat) : Option LsShmLock :=
  if answer = true ∧ size ≠ 0 then some { s with m_iMaxSizeO := size } else none

def setupLoop (x_iNext : Nat → Nat) : Nat → Nat → Nat → (Nat → Nat) × Nat
  | numAdd + 2, p_elem, lastNum =>
    setupLoop (Function.update x_iNext (p_elem - 1) lastNum) (numAdd + 1) (p_elem - 1) (lastNum - 1)
  | _, _, lastNum => (x_iNext, lastNum)

def setupFreeList (sz : ElemSize) (s : LsShmLock) («to» : Nat) : LsShmLock :=
  let hdr := s.file.header
  let «from» := s_iHdrSize + hdr.x_iMaxElem * sz.val
  let numAdd := («to» - «from») / sz.val
  let curNum := hdr.x_iMaxElem
  let lastNum := curNum + numAdd
  let x_iNext := Function.update s.file.x_iNext (lastNum - 1) hdr.x_iFreeOffset
  let r := setupLoop x_iNext numAdd (lastNum - 1) (lastNum - 1)
  -- lock 0 is the one of the lock file
  let x_iFreeOffset := if r.2 = 0 then r.2 + 1 else r.2
  { s with file := { s.file with
      header := { hdr with x_iFreeOffset, x_iMaxElem := lastNum }
      x_iNext := r.1 } }

def initNew (sz : ElemSize) (s : LsShmLock) (env : InitEnv) (size id : Nat) : LsShmStatus × LsShmLock :=
  if id = 0 then (.LSSHM_BADVERSION, s)
  else if env.expandFile = false then (.LSSHM_ERROR, s)
  else
    let s := { s with file := { s.file with st_size := roundToPageSize size } }
    match map s env.map size with
    | none => (.LSSHM_ERROR, s)
    | some s =>
      let header := { x_iMagic := LSSHM_LOCK_MAGIC, x_iMaxElem := 0, x_id := id, x_iMaxSize := size, x_iFreeOffset := 0 }
      (.LSSHM_OK, setupFreeList sz { s with file := { s.file with header } } size)

def initOld (sz : ElemSize) (s : LsShmLock) (env : InitEnv) (size : Nat) : LsShmStatus × LsShmLock :=
  if s.file.st_size < s_iHdrSize then (.LSSHM_BADMAPFILE, s)
  else match map s env.mapHeader s_iHdrSize with
    | none => (.LSSHM_ERROR, s)
    | some s =>
      if s.file.header.x_iMagic ≠ LSSHM_LOCK_MAGIC then (.LSSHM_BADVERSION, s)
      else if s.file.header.x_iMaxSize < size then
        if env.expandFile = false then (.LSSHM_ERROR, s)
        else
          let header := { s.file.header with x_iMaxSize := size }
          let s := { s with file := { s.file with st_size := size, header }, m_iMaxSizeO := 0 }
          match map s env.map size with
          | none => (.LSSHM_ERROR, s)
          | some s => (.LSSHM_OK, setupFreeList sz s size)
      else
        let s := { s with m_iMaxSizeO := 0 }
        match map s env.map size with
        | none => (.LSSHM_ERROR, s)
        | some s => (.LSSHM_OK, s)

def init (sz : ElemSize) (s : LsShmLock) (env : InitEnv) (size id : Nat) : LsShmStatus × LsShmLock :=
  if env.fstat = false then (.LSSHM_BADMAPFILE, s)
  else if s.file.st_size = 0 then initNew sz s env (roundToPageSize size) id
  else initOld sz s env (roundToPageSize size)

def lockOffset (sz : ElemSize) (num : Nat) : Nat :=
  s_iHdrSize + num * sz.val

def allocLock (sz : ElemSize) (s : LsShmLock) : Nat × LsShmLock :=
  let offset := s.file.header.x_iFreeOffset
  if offset = 0 then (0, s)
  else
    (lockOffset sz offset % 2 ^ 32,
      { s with file := { s.file with
          header := { s.file.header with x_iFreeOffset := s.file.x_iNext offset }
          x_iNext := Function.update s.file.x_iNext offset 0 } })

def freeLock (sz : ElemSize) (s : LsShmLock) (pLock : Nat) : LsShmLock :=
  let num := (pLock - s_iHdrSize) / sz.val
  { s with file := { s.file with
      header := { s.file.header with x_iFreeOffset := num }
      x_iNext := Function.update s.file.x_iNext num s.file.header.x_iFreeOffset } }

def store (sz : ElemSize) (s : LsShmLock) (pLock word : Nat) : LsShmLock :=
  { s with file := { s.file with
      x_iNext := Function.update s.file.x_iNext ((pLock - s_iHdrSize) / sz.val) word } }

end LsShmLock

/--
A lock file with what its users have: whether the last `init` succeeded, and the offsets of the locks that were
allocated and not freed.
-/
structure LockUse where
  lock : LsShmLock
  ready : Bool
  live : List Nat

namespace LockUse

open LsShmLock

inductive Event where
  | init (env : InitEnv) (size id : Nat)
  | allocLock
  | freeLock (pLock : Nat)
  | store (pLock word : Nat)

def new : LockUse where
  lock := .empty
  ready := false
  live := []

def step (sz : ElemSize) (u : LockUse) : Event → LockUse
  | .init env size id =>
    let r := u.lock.init sz env size id
    { u with lock := r.2, ready := r.1 = .LSSHM_OK }
  | .allocLock =>
    let r := u.lock.allocLock sz
    { u with lock := r.2, live := if r.1 = 0 then u.live else r.1 :: u.live }
  | .freeLock pLock => { u with lock := u.lock.freeLock sz pLock, live := u.live.erase pLock }
  | .store pLock word => { u with lock := u.lock.store sz pLock word }

/--
A new size is not smaller than the file, and only live locks are freed and used, and lock 0.
-/
def Allowed (sz : ElemSize) (u : LockUse) : Event → Prop
  | .init _ size _ => u.lock.file.st_size ≤ size ∧ size < 2 ^ 32
  | .allocLock => u.ready = true
  | .freeLock pLock => u.ready = true ∧ pLock ∈ u.live
  | .store pLock _ => u.ready = true ∧ (pLock ∈ u.live ∨ pLock = lockOffset sz 0)

structure FreeList (sz : ElemSize) (u : LockUse) (xs : List Nat) : Prop where
  chain : Chain u.lock.file.x_iNext 0 u.lock.file.header.x_iFreeOffset xs
  nodup : xs.Nodup
  mem_iff : ∀ num, num ∈ xs ↔ 0 < num ∧ num < u.lock.file.header.x_iMaxElem ∧ lockOffset sz num ∉ u.live

structure Correct (sz : ElemSize) (u : LockUse) : Prop where
  distinct : u.live.Nodup
  not_zero : lockOffset sz 0 ∉ u.live
  elem : ∀ p ∈ u.live, ∃ num, p = lockOffset sz num ∧ num < u.lock.file.header.x_iMaxElem
  inside : ∀ num, num < u.lock.file.header.x_iMaxElem →
    lockOffset sz num + sz.val ≤ u.lock.file.st_size ∧
      (u.ready = true → lockOffset sz num + sz.val ≤ u.lock.m_iMaxSizeO)
  all_live : u.ready = true → (u.lock.allocLock sz).1 = 0 →
    ∀ num, 0 < num → num < u.lock.file.header.x_iMaxElem → lockOffset sz num ∈ u.live
  free : ∃ xs, FreeList sz u xs

end LockUse

namespace LsShmLock

variable {sz : ElemSize} {s : LsShmLock} {nx : Nat → Nat} {f a : Nat} {xs : List Nat}

theorem setupLoop_eq (nx : Nat → Nat) (n a : Nat)
    : setupLoop nx (n + 1) (a + n) (a + n) = (fun i => if a ≤ i ∧ i < a + n then i + 1 else nx i, a) := by
  induction n generalizing nx with
  | zero =>
    have hnone : (fun i => if a ≤ i ∧ i < a + 0 then i + 1 else nx i) = nx := by
      funext i
      rw [if_neg (by omega)]
    rw [hnone]
    rfl
  | succ n ih =>
    rw [setupLoop, show a + (n + 1) - 1 = a + n by omega, ih]
    congr 1
    funext i
    by_cases hi : i = a + n
    . subst hi
      rw [if_neg (by omega), Function.update_self, if_pos (by omega)]
      omega
    . rw [Function.update_of_ne hi]
      by_cases hlow : a ≤ i ∧ i < a + n
      . rw [if_pos hlow, if_pos (by omega)]
      . rw [if_neg hlow, if_neg (by omega)]

theorem chain_range {n : Nat} (hpos : 0 < a) (hnext : ∀ i, a ≤ i → i < a + n → nx i = i + 1)
    (hlast : Chain nx 0 (nx (a + n)) xs) : Chain nx 0 a (List.range' a (n + 1) ++ xs) := by
  induction n generalizing a with
  | zero => exact ⟨rfl, by omega, hlast⟩
  | succ n ih =>
    rw [List.range'_succ, List.cons_append]
    refine ⟨rfl, by omega, ?_⟩
    rw [hnext a (by omega) (by omega)]
    refine ih (by omega) (fun i hi hlt => hnext i (by omega) (by omega)) ?_
    rw [show a + 1 + n = a + (n + 1) by omega]
    exact hlast

theorem lockOffset_le_of_le {m n : Nat} (h : m ≤ n) : lockOffset sz m ≤ lockOffset sz n :=
  Nat.add_le_add_left (Nat.mul_le_mul_right _ h) _

theorem lockOffset_succ (n : Nat) : lockOffset sz (n + 1) = lockOffset sz n + sz.val := by
  unfold lockOffset
  rw [Nat.succ_mul]
  omega

theorem lockOffset_inj {m n : Nat} (h : lockOffset sz m = lockOffset sz n) : m = n := by
  have hpos : 0 < sz.val := Nat.lt_of_lt_of_le (by decide) sz.offset_le
  exact Nat.eq_of_mul_eq_mul_right hpos (Nat.add_left_cancel h)

theorem num_lockOffset (n : Nat) : (lockOffset sz n - s_iHdrSize) / sz.val = n := by
  have hpos : 0 < sz.val := Nat.lt_of_lt_of_le (by decide) sz.offset_le
  unfold lockOffset
  rw [Nat.add_sub_cancel_left, Nat.mul_div_cancel _ hpos]

structure SetUp (sz : ElemSize) (s s' : LsShmLock) («to» : Nat) (xs : List Nat) : Prop where
  st_size : s'.file.st_size = s.file.st_size
  magic : s'.file.header.x_iMagic = s.file.header.x_iMagic
  maxSize : s'.file.header.x_iMaxSize = s.file.header.x_iMaxSize
  mapped : s'.m_iMaxSizeO = s.m_iMaxSizeO
  grown : s.file.header.x_iMaxElem + 2 ≤ s'.file.header.x_iMaxElem
  inside : lockOffset sz s'.file.header.x_iMaxElem ≤ «to»
  chain : Chain s'.file.x_iNext 0 s'.file.header.x_iFreeOffset
    (List.range' (max s.file.header.x_iMaxElem 1)
      (s'.file.header.x_iMaxElem - max s.file.header.x_iMaxElem 1) ++ xs)

theorem setupFreeList_setUp {«to» : Nat} (hroom : lockOffset sz (s.file.header.x_iMaxElem + 2) ≤ «to»)
    (hchain : Chain s.file.x_iNext 0 s.file.header.x_iFreeOffset xs)
    (hlt : ∀ i ∈ xs, i < s.file.header.x_iMaxElem) : SetUp sz s (setupFreeList sz s «to») «to» xs := by
  have hpos : 0 < sz.val := Nat.lt_of_lt_of_le (by decide) sz.offset_le
  generalize hM : s.file.header.x_iMaxElem = M at *
  obtain ⟨n, hn⟩ : ∃ n, («to» - lockOffset sz M) / sz.val = n + 2 := by
    have htwo : 2 ≤ («to» - lockOffset sz M) / sz.val := by
      rw [Nat.le_div_iff_mul_le hpos]
      rw [lockOffset_succ, lockOffset_succ] at hroom
      omega
    exact ⟨_, (Nat.sub_add_cancel htwo).symm⟩
  have hfull : lockOffset sz (M + (n + 2)) ≤ «to» := by
    have hle := Nat.div_mul_le_self («to» - lockOffset sz M) sz.val
    rw [hn] at hle
    have hbase : lockOffset sz M ≤ «to» := le_trans (lockOffset_le_of_le (by omega)) hroom
    have hsum : lockOffset sz (M + (n + 2)) = lockOffset sz M + (n + 2) * sz.val := by
      unfold lockOffset
      rw [Nat.add_mul]
      omega
    omega
  have hloop : setupFreeList sz s «to» = { s with file := { s.file with
      header := { s.file.header with x_iFreeOffset := max M 1, x_iMaxElem := M + (n + 2) }
      x_iNext := fun i => if M ≤ i ∧ i < M + (n + 1) then i + 1
        else Function.update s.file.x_iNext (M + (n + 1)) s.file.header.x_iFreeOffset i } } := by
    have hnum : («to» - (s_iHdrSize + M * sz.val)) / sz.val = n + 2 := hn
    have hmax : (if M = 0 then M + 1 else M) = max M 1 := by
      split <;> omega
    unfold setupFreeList
    dsimp only
    rw [hM, hnum, show M + (n + 2) - 1 = M + (n + 1) by omega, setupLoop_eq, hmax]
  rw [hloop]
  refine ⟨rfl, rfl, rfl, rfl, ?_, hfull, ?_⟩
  . dsimp only
    omega
  . dsimp only
    obtain ⟨k, hk⟩ : ∃ k, M + (n + 1) = max M 1 + k := ⟨M + (n + 1) - max M 1, by omega⟩
    rw [hM, show M + (n + 2) - max M 1 = k + 1 by omega]
    apply chain_range (by omega)
    . intro i hi hlt
      rw [if_pos (by omega)]
    . rw [if_neg (by omega), hk, Function.update_self]
      apply hchain.congr
      intro i hi
      have hi := hlt i hi
      rw [if_neg (by omega), Function.update_of_ne (by omega)]

inductive InitResult (sz : ElemSize) (s : LsShmLock) (size id : Nat) : LsShmStatus × LsShmLock → Prop where
  | refused {st s'} : st ≠ .LSSHM_OK → s'.file = s.file → InitResult sz s size id (st, s')
  | newUnmapped {s'} : s.file.st_size = 0 → s'.file = { s.file with st_size := size } →
    InitResult sz s size id (.LSSHM_ERROR, s')
  | created : s.file.st_size = 0 → size ≠ 0 →
    InitResult sz s size id (.LSSHM_OK, setupFreeList sz
      { file := {
          st_size := size
          header := { x_iMagic := LSSHM_LOCK_MAGIC, x_iMaxElem := 0, x_id := id, x_iMaxSize := size, x_iFreeOffset := 0 }
          x_iNext := s.file.x_iNext }
        m_iMaxSizeO := size } size)
  | oldUnmapped {s'} : s.file.header.x_iMagic = LSSHM_LOCK_MAGIC → s.file.header.x_iMaxSize < size →
    s'.file = { s.file with st_size := size, header := { s.file.header with x_iMaxSize := size } } →
    InitResult sz s size id (.LSSHM_ERROR, s')
  | expanded : s.file.header.x_iMagic = LSSHM_LOCK_MAGIC → s.file.header.x_iMaxSize < size →
    InitResult sz s size id (.LSSHM_OK, setupFreeList sz
      { file := { s.file with st_size := size, header := { s.file.header with x_iMaxSize := size } }
        m_iMaxSizeO := size } size)
  | same : s.file.header.x_iMagic = LSSHM_LOCK_MAGIC → size ≤ s.file.header.x_iMaxSize → size ≠ 0 →
    InitResult sz s size id (.LSSHM_OK, { s with m_iMaxSizeO := size })

theorem map_eq_some {answer : Bool} {size : Nat} {s' : LsShmLock} (h : map s answer size = some s')
    : size ≠ 0 ∧ s' = { s with m_iMaxSizeO := size } := by
  unfold map at h
  split at h
  . rename_i hc
    exact ⟨hc.2, (Option.some.inj h).symm⟩
  . nomatch h

theorem roundToPageSize_dvd (size : Nat) : s_iPageSize ∣ roundToPageSize size :=
  Nat.dvd_mul_left ..

theorem roundToPageSize_lt (size : Nat) : roundToPageSize size < 2 ^ 32 := by
  unfold roundToPageSize s_iPageSize
  omega

theorem roundToPageSize_idem (size : Nat) : roundToPageSize (roundToPageSize size) = roundToPageSize size := by
  unfold roundToPageSize s_iPageSize
  omega

theorem roundToPageSize_cases {size : Nat} (h : size < 2 ^ 32)
    : roundToPageSize size = 0 ∨ size ≤ roundToPageSize size := by
  unfold roundToPageSize s_iPageSize
  omega

theorem initNew_result (hnew : s.file.st_size = 0) (env : InitEnv) {size : Nat} (hsize : roundToPageSize size = size)
    (id : Nat) : InitResult sz s size id (initNew sz s env size id) := by
  unfold initNew
  split
  . exact .refused (by decide) rfl
  . split
    . exact .refused (by decide) rfl
    . rw [hsize]
      dsimp only
      split
      . exact .newUnmapped hnew rfl
      . rename_i hmap
        obtain ⟨hne, rfl⟩ := map_eq_some hmap
        exact .created hnew hne

theorem initOld_result (env : InitEnv) (size id : Nat) : InitResult sz s size id (initOld sz s env size) := by
  unfold initOld
  split
  . exact .refused (by decide) rfl
  . split
    . exact .refused (by decide) rfl
    . rename_i hmap
      obtain ⟨-, rfl⟩ := map_eq_some hmap
      split
      . exact .refused (by decide) rfl
      . rename_i hmagic
        have hmagic := not_not.mp hmagic
        split
        . rename_i hgrow
          split
          . exact .refused (by decide) rfl
          . dsimp only
            split
            . exact .oldUnmapped hmagic hgrow rfl
            . rename_i hmap
              obtain ⟨-, rfl⟩ := map_eq_some hmap
              exact .expanded hmagic hgrow
        . rename_i hle
          dsimp only
          split
          . exact .refused (by decide) rfl
          . rename_i hmap
            obtain ⟨hne, rfl⟩ := map_eq_some hmap
            exact .same hmagic (Nat.not_lt.mp hle) hne

theorem init_result (sz : ElemSize) (s : LsShmLock) (env : InitEnv) (size id : Nat)
    : InitResult sz s (roundToPageSize size) id (init sz s env size id) := by
  unfold init
  split
  . exact .refused (by decide) rfl
  . split
    . rename_i hnew
      exact initNew_result hnew env (roundToPageSize_idem size) id
    . exact initOld_result env _ id

end LsShmLock

namespace LockUse

open LsShmLock

variable {sz : ElemSize} {u : LockUse} {xs : List Nat}

structure Valid (sz : ElemSize) (f : LockFile) : Prop where
  maxSize : f.header.x_iMaxSize = f.st_size
  pages : s_iPageSize ∣ f.st_size
  pos : 0 < f.st_size
  lt : f.st_size < 2 ^ 32
  inside : lockOffset sz f.header.x_iMaxElem ≤ f.st_size

theorem Valid.congr {f f' : LockFile} (h : Valid sz f) (hst : f'.st_size = f.st_size)
    (hsize : f'.header.x_iMaxSize = f.header.x_iMaxSize) (helem : f'.header.x_iMaxElem = f.header.x_iMaxElem)
    : Valid sz f' where
  maxSize := by rw [hsize, hst]; exact h.maxSize
  pages := hst ▸ h.pages
  pos := hst ▸ h.pos
  lt := hst ▸ h.lt
  inside := by rw [helem, hst]; exact h.inside

structure Inv (sz : ElemSize) (u : LockUse) (xs : List Nat) : Prop where
  free : FreeList sz u xs
  distinct : u.live.Nodup
  elem : ∀ p ∈ u.live, ∃ num, p = lockOffset sz num ∧ 0 < num ∧ num < u.lock.file.header.x_iMaxElem
  valid : u.lock.file.header.x_iMagic = LSSHM_LOCK_MAGIC → Valid sz u.lock.file
  invalid : u.lock.file.header.x_iMagic ≠ LSSHM_LOCK_MAGIC → u.lock.file.header.x_iMaxElem = 0
  ready : u.ready = true →
    u.lock.file.header.x_iMagic = LSSHM_LOCK_MAGIC ∧ u.lock.m_iMaxSizeO = u.lock.file.st_size

theorem Inv.new (sz : ElemSize) : Inv sz .new [] where
  free := {
    chain := rfl
    nodup := .nil
    mem_iff := fun num => by simp [LockUse.new, LsShmLock.empty] }
  distinct := .nil
  elem p hp := nomatch hp
  valid h := by simp [LockUse.new, LsShmLock.empty, LSSHM_LOCK_MAGIC] at h
  invalid _ := rfl
  ready h := nomatch h

theorem Inv.lt_maxElem (h : Inv sz u xs) {num : Nat} (hnum : num ∈ xs) : num < u.lock.file.header.x_iMaxElem :=
  ((h.free.mem_iff num).mp hnum).2.1

theorem Inv.inside (h : Inv sz u xs) {num : Nat} (hnum : num < u.lock.file.header.x_iMaxElem)
    : lockOffset sz num + sz.val ≤ u.lock.file.st_size := by
  by_cases hmagic : u.lock.file.header.x_iMagic = LSSHM_LOCK_MAGIC
  . rw [← lockOffset_succ]
    exact le_trans (lockOffset_le_of_le hnum) (h.valid hmagic).inside
  . have hzero := h.invalid hmagic
    omega

theorem Inv.lockOffset_lt (h : Inv sz u xs) {num : Nat} (hnum : num < u.lock.file.header.x_iMaxElem)
    : lockOffset sz num < 2 ^ 32 := by
  have hle := h.inside hnum
  by_cases hmagic : u.lock.file.header.x_iMagic = LSSHM_LOCK_MAGIC
  . have hlt := (h.valid hmagic).lt
    have := sz.offset_le
    omega
  . have hzero := h.invalid hmagic
    omega

theorem Inv.of_file (h : Inv sz u xs) {s : LsShmLock} {ready : Bool} (hfile : s.file = u.lock.file)
    (hready : ready = true → u.lock.file.header.x_iMagic = LSSHM_LOCK_MAGIC ∧ s.m_iMaxSizeO = u.lock.file.st_size)
    : Inv sz { u with lock := s, ready } xs where
  free := {
    chain := by rw [hfile]; exact h.free.chain
    nodup := h.free.nodup
    mem_iff := by rw [hfile]; exact h.free.mem_iff }
  distinct := h.distinct
  elem := by rw [hfile]; exact h.elem
  valid := by rw [hfile]; exact h.valid
  invalid := by rw [hfile]; exact h.invalid
  ready := by rw [hfile]; exact hready

theorem Inv.of_header (h : Inv sz u xs) {s : LsShmLock} (hnext : s.file.x_iNext = u.lock.file.x_iNext)
    (hfree : s.file.header.x_iFreeOffset = u.lock.file.header.x_iFreeOffset)
    (hmax : s.file.header.x_iMaxElem = u.lock.file.header.x_iMaxElem)
    (hvalid : s.file.header.x_iMagic = LSSHM_LOCK_MAGIC → Valid sz s.file)
    (hmagic : s.file.header.x_iMagic = u.lock.file.header.x_iMagic)
    : Inv sz { u with lock := s, ready := false } xs where
  free := {
    chain := by rw [hfree, hnext]; exact h.free.chain
    nodup := h.free.nodup
    mem_iff := by rw [hmax]; exact h.free.mem_iff }
  distinct := h.distinct
  elem := by rw [hmax]; exact h.elem
  valid := hvalid
  invalid := by rw [hmagic, hmax]; exact h.invalid
  ready hc := nomatch hc

theorem Inv.setUp (h : Inv sz u xs) {s s' : LsShmLock} {size : Nat} (hset : SetUp sz s s' size xs)
    (hmax : s.file.header.x_iMaxElem = u.lock.file.header.x_iMaxElem)
    (hmagic : s.file.header.x_iMagic = LSSHM_LOCK_MAGIC) (hsize : s.file.header.x_iMaxSize = size)
    (hst : s.file.st_size = size) (hmapped : s.m_iMaxSizeO = size) (hpages : s_iPageSize ∣ size) (hpos : 0 < size)
    (hlt : size < 2 ^ 32)
    : Inv sz { u with lock := s', ready := true }
      (List.range' (max u.lock.file.header.x_iMaxElem 1)
        (s'.file.header.x_iMaxElem - max u.lock.file.header.x_iMaxElem 1) ++ xs) := by
  have hgrown := hset.grown
  have hinside := hset.inside
  rw [hmax] at hgrown
  have hchain := hset.chain
  rw [hmax] at hchain
  refine ⟨⟨hchain, hchain.nodup, fun num => ?_⟩, h.distinct, fun p hp => ?_, fun _ => ?_, fun hc => ?_, fun _ => ?_⟩
  . rw [List.mem_append, List.mem_range'_1, h.free.mem_iff]
    dsimp only
    constructor
    . rintro (hnew | hold)
      . refine ⟨by omega, by omega, fun hlive => ?_⟩
        obtain ⟨m, hm, -, hlt⟩ := h.elem _ hlive
        have := lockOffset_inj hm
        omega
      . exact ⟨hold.1, by omega, hold.2.2⟩
    . intro hnum
      by_cases hold : num < u.lock.file.header.x_iMaxElem
      . exact .inr ⟨hnum.1, hold, hnum.2.2⟩
      . exact .inl (by omega)
  . obtain ⟨num, hp, hpos, hlt⟩ := h.elem p hp
    exact ⟨num, hp, hpos, by dsimp only; omega⟩
  . have hst' := hset.st_size.trans hst
    exact {
      maxSize := (hset.maxSize.trans hsize).trans hst'.symm
      pages := hst' ▸ hpages
      pos := hst' ▸ hpos
      lt := hst' ▸ hlt
      inside := hst' ▸ hinside }
  . exact absurd (hset.magic.trans hmagic) hc
  . exact ⟨hset.magic.trans hmagic, (hset.mapped.trans hmapped).trans (hset.st_size.trans hst).symm⟩

theorem room_of_page {num size size' : Nat} (h : lockOffset sz num ≤ size) (hpages : s_iPageSize ∣ size)
    (hpages' : s_iPageSize ∣ size') (hlt : size < size') : lockOffset sz (num + 2) ≤ size' := by
  have hsz := sz.two_le
  rw [lockOffset_succ, lockOffset_succ]
  unfold s_iPageSize s_iHdrSize at *
  omega

theorem Inv.init (h : Inv sz u xs) (env : InitEnv) {size : Nat} (id : Nat) (hle : u.lock.file.st_size ≤ size)
    (hlt : size < 2 ^ 32) : ∃ xs', Inv sz (step sz u (.init env size id)) xs' := by
  have hres := init_result sz u.lock env size id
  unfold step
  dsimp only
  generalize LsShmLock.init sz u.lock env size id = r at hres
  have hpages := roundToPageSize_dvd size
  have hround := roundToPageSize_lt size
  have hcases := roundToPageSize_cases hlt
  generalize roundToPageSize size = size' at *
  cases hres with
  | @refused st s' hst hfile => exact ⟨xs, h.of_file hfile (fun hc => absurd (of_decide_eq_true hc) hst)⟩
  | @newUnmapped s' hnew hfile =>
    have hbad : u.lock.file.header.x_iMagic ≠ LSSHM_LOCK_MAGIC := by
      intro hc
      have hpos := (h.valid hc).pos
      omega
    refine ⟨xs, h.of_header (by rw [hfile]) (by rw [hfile]) (by rw [hfile]) (fun hc => ?_) (by rw [hfile])⟩
    rw [hfile] at hc
    exact absurd hc hbad
  | created hnew hne =>
    have hbad : u.lock.file.header.x_iMagic ≠ LSSHM_LOCK_MAGIC := by
      intro hc
      have hpos := (h.valid hc).pos
      omega
    have hzero := h.invalid hbad
    have hnil : xs = [] := by
      apply List.eq_nil_iff_forall_not_mem.mpr
      intro num hnum
      have := h.lt_maxElem hnum
      omega
    subst hnil
    have hroom : lockOffset sz 2 ≤ size' := by
      have hsz := sz.two_le
      unfold lockOffset s_iHdrSize s_iPageSize at *
      omega
    rw [decide_eq_true rfl]
    exact ⟨_, h.setUp (setupFreeList_setUp hroom rfl (by simp)) hzero.symm rfl rfl rfl rfl hpages
      (Nat.pos_of_ne_zero hne) hround⟩
  | @oldUnmapped s' hmagic hgrow hfile =>
    have hval := h.valid hmagic
    rw [hval.maxSize] at hgrow
    refine ⟨xs, h.of_header (by rw [hfile]) (by rw [hfile]) (by rw [hfile]) (fun _ => ?_) (by rw [hfile])⟩
    rw [hfile]
    exact ⟨rfl, hpages, Nat.lt_of_le_of_lt (Nat.zero_le _) hgrow, hround, le_trans hval.inside (Nat.le_of_lt hgrow)⟩
  | expanded hmagic hgrow =>
    have hval := h.valid hmagic
    rw [hval.maxSize] at hgrow
    have hroom := room_of_page hval.inside hval.pages hpages hgrow
    rw [decide_eq_true rfl]
    exact ⟨_, h.setUp (setupFreeList_setUp hroom h.free.chain (fun _ hi => h.lt_maxElem hi)) rfl hmagic rfl rfl rfl
      hpages (Nat.lt_of_le_of_lt (Nat.zero_le _) hgrow) hround⟩
  | same hmagic hsame hne =>
    rw [(h.valid hmagic).maxSize] at hsame
    refine ⟨xs, h.of_file rfl (fun _ => ⟨hmagic, ?_⟩)⟩
    dsimp only
    omega

theorem Inv.allocLock (h : Inv sz u xs) : ∃ xs', Inv sz (step sz u .allocLock) xs' := by
  unfold step LsShmLock.allocLock
  dsimp only
  split
  . rename_i hnone
    exact ⟨xs, h⟩
  . rename_i hne
    cases xs with
    | nil => exact absurd h.free.chain hne
    | cons num xs =>
      obtain ⟨hhead, -, hchain⟩ := h.free.chain
      have hnodup := List.nodup_cons.mp h.free.nodup
      obtain ⟨hpos, hlt, hfree⟩ := (h.free.mem_iff num).mp List.mem_cons_self
      rw [hhead, Nat.mod_eq_of_lt (h.lockOffset_lt hlt)]
      rw [if_neg (show lockOffset sz num ≠ 0 by unfold lockOffset s_iHdrSize; omega)]
      refine ⟨xs, ⟨hchain.update_of_notMem hnodup.1 0, hnodup.2, fun m => ?_⟩, List.nodup_cons.mpr ⟨hfree, h.distinct⟩,
        fun p hp => ?_, fun hc => (h.valid hc).congr rfl rfl rfl, h.invalid, h.ready⟩
      . have hm := h.free.mem_iff m
        rw [List.mem_cons] at hm
        dsimp only
        rw [List.mem_cons, not_or]
        constructor
        . intro hmem
          have hm := hm.mp (.inr hmem)
          refine ⟨hm.1, hm.2.1, fun hc => ?_, hm.2.2⟩
          exact hnodup.1 (lockOffset_inj hc ▸ hmem)
        . rintro ⟨hp, hl, hne, hfree⟩
          exact (hm.mpr ⟨hp, hl, hfree⟩).resolve_left fun hc => hne (hc ▸ rfl)
      . obtain rfl | hp := List.mem_cons.mp hp
        . exact ⟨num, rfl, hpos, hlt⟩
        . exact h.elem p hp

theorem Inv.freeLock (h : Inv sz u xs) {pLock : Nat} (hlive : pLock ∈ u.live)
    : ∃ xs', Inv sz (step sz u (.freeLock pLock)) xs' := by
  obtain ⟨num, rfl, hpos, hlt⟩ := h.elem pLock hlive
  have hnot : num ∉ xs := fun hmem => ((h.free.mem_iff num).mp hmem).2.2 hlive
  unfold step LsShmLock.freeLock
  dsimp only
  rw [num_lockOffset]
  refine ⟨num :: xs, ⟨h.free.chain.push hnot (Nat.ne_of_gt hpos), List.nodup_cons.mpr ⟨hnot, h.free.nodup⟩, fun m => ?_⟩,
    h.distinct.erase _, fun p hp => h.elem p (List.mem_of_mem_erase hp),
    fun hc => (h.valid hc).congr rfl rfl rfl, h.invalid, h.ready⟩
  dsimp only
  rw [List.mem_cons, h.free.mem_iff, h.distinct.mem_erase_iff]
  constructor
  . rintro (rfl | hm)
    . exact ⟨hpos, hlt, fun hc => hc.1 rfl⟩
    . exact ⟨hm.1, hm.2.1, fun hc => hm.2.2 hc.2⟩
  . rintro ⟨hp, hl, hm⟩
    by_cases heq : m = num
    . exact .inl heq
    . exact .inr ⟨hp, hl, fun hc => hm ⟨fun he => heq (lockOffset_inj he), hc⟩⟩

theorem Inv.store (h : Inv sz u xs) {pLock : Nat} (word : Nat) (hp : pLock ∈ u.live ∨ pLock = lockOffset sz 0)
    : Inv sz (step sz u (.store pLock word)) xs := by
  obtain ⟨num, rfl, hnot⟩ : ∃ num, pLock = lockOffset sz num ∧ num ∉ xs := by
    obtain hlive | hzero := hp
    . obtain ⟨num, rfl, -, -⟩ := h.elem pLock hlive
      exact ⟨num, rfl, fun hmem => ((h.free.mem_iff num).mp hmem).2.2 hlive⟩
    . exact ⟨0, hzero, h.free.chain.nil_not_mem⟩
  unfold step LsShmLock.store
  dsimp only
  rw [num_lockOffset]
  exact ⟨⟨h.free.chain.update_of_notMem hnot word, h.free.nodup, h.free.mem_iff⟩, h.distinct, h.elem,
    fun hc => (h.valid hc).congr rfl rfl rfl, h.invalid, h.ready⟩

theorem Inv.step (h : Inv sz u xs) (e : Event) (hok : Allowed sz u e) : ∃ xs', Inv sz (step sz u e) xs' := by
  cases e with
  | init env size id => exact h.init env id hok.1 hok.2
  | allocLock => exact h.allocLock
  | freeLock pLock => exact h.freeLock hok.2
  | store pLock word => exact ⟨xs, h.store word hok.2⟩

theorem Inv.correct (h : Inv sz u xs) : Correct sz u where
  distinct := h.distinct
  not_zero hc := by
    obtain ⟨num, heq, hpos, -⟩ := h.elem _ hc
    have := lockOffset_inj heq
    omega
  elem p hp := by
    obtain ⟨num, heq, -, hlt⟩ := h.elem p hp
    exact ⟨num, heq, hlt⟩
  inside num hnum := ⟨h.inside hnum, fun hready => (h.ready hready).2 ▸ h.inside hnum⟩
  all_live _ hnone num hpos hlt := by
    by_contra hfree
    have hmem := (h.free.mem_iff num).mpr ⟨hpos, hlt, hfree⟩
    cases xs with
    | nil => nomatch hmem
    | cons m xs =>
      obtain ⟨hhead, hne, -⟩ := h.free.chain
      obtain ⟨-, hm, -⟩ := (h.free.mem_iff m).mp List.mem_cons_self
      unfold LsShmLock.allocLock at hnone
      rw [hhead, if_neg hne, Nat.mod_eq_of_lt (h.lockOffset_lt hm)] at hnone
      unfold lockOffset s_iHdrSize at hnone
      omega
  free := ⟨xs, h.free⟩

/--
In every run from an empty file the live locks are distinct elements of the file, and the free list has all
the others but lock 0.
-/
theorem locks_correct (sz : ElemSize) (es : List Event) (h : Meets (step sz) (Allowed sz) new es)
    : Correct sz (exec (step sz) new es) := by
  have hinv : ∃ xs, Inv sz (exec (step sz) new es) xs :=
    exec_invariant (fun u => ∃ xs, Inv sz u xs) (fun _ e ⟨_, hu⟩ hok => hu.step e hok) ⟨[], .new sz⟩ h
  obtain ⟨xs, hinv⟩ := hinv
  exact hinv.correct

def sampleEvents : List Event :=
  [.init ⟨true, true, true, true⟩ 0x400 1, .allocLock, .store 72 1, .freeLock 72, .allocLock,
    .init ⟨true, true, true, true⟩ 0x2001 1]

set_option maxRecDepth 8000 in
theorem locks_correct_sample
    : Correct ⟨40, by decide, by decide⟩ (exec (step ⟨40, by decide, by decide⟩) new sampleEvents) :=
  locks_correct _ _ ⟨⟨by decide, by decide⟩, rfl, ⟨rfl, .inl (by decide)⟩, ⟨rfl, by decide⟩, rfl,
    ⟨by decide, by decide⟩, trivial⟩

end LockUse

end Lsmcd
