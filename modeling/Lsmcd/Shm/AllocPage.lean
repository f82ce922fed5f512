import Lsmcd.Lib.Cover
import Lsmcd.Shm.AddrMap

/-!
`LsShm::allocPage` (`lsshm.cpp`): pages from the end of what is used of the file, which is expanded when it is
too small. Sizes are numbers of 32 bits.
-/

namespace Lsmcd

open Run

/--
`m_iMaxShmSize` is 0 when there is no limit.
-/
structure LsShm where
  m_iFileSize : Nat
  m_iUsedSize : Nat
  m_iMaxShmSize : Nat
  ready : Bool
  m_addrMap : AddrMap

namespace LsShm

/--
What the system answers during a call: the lock, the new size of the file, the region of `mapAddrSpace` and the
mappings of the file in it.
-/
structure Env where
  lock : Bool
  expandfile : Bool
  region : Nat
  blocks : Bool

def availLoop (m_off2ptrTable : List Nat) (required_size : Nat) : Nat → Nat → Nat → Nat
  | 0, avail, _ => avail
  | fuel + 1, avail, page =>
    if avail < required_size ∧ page + 1 < m_off2ptrTable.length then
      if LARGE_PAGE_SIZE < required_size ∧
          m_off2ptrTable.getD (page + 1) 0 = m_off2ptrTable.getD page 0 + LARGE_PAGE_SIZE then
        availLoop m_off2ptrTable required_size fuel (avail + LARGE_PAGE_SIZE) (page + 1)
      else avail
    else avail

def getAvailAddrSpace (m : AddrMap) (offset required_size : Nat) : Nat :=
  availLoop m.m_off2ptrTable required_size m.m_off2ptrTable.length
    (LARGE_PAGE_SIZE - offset % LARGE_PAGE_SIZE) (offset / LARGE_PAGE_SIZE)

def avail (s : LsShm) : Nat :=
  (s.m_iFileSize + 2 ^ 32 - s.m_iUsedSize) % 2 ^ 32

def used (s : LsShm) (size : Nat) : LsShm :=
  { s with m_iUsedSize := (s.m_iUsedSize + size) % 2 ^ 32 }

def expandFile (s : LsShm) (env : Env) («from» incrSize : Nat) : Bool :=
  if s.m_iMaxShmSize ≠ 0 ∧ s.m_iMaxShmSize < («from» + incrSize) % 2 ^ 32 then false
  else if («from» + incrSize) % 2 ^ 32 < «from» then false
  else env.expandfile

def mapAddrMap (s : LsShm) (env : Env) (size : Nat) : Bool × AddrMap :=
  let r := (s.m_addrMap.mapAddrSpace size env.region).getD (AddrMap.LS_FAIL, s.m_addrMap)
  (r.1 ≠ AddrMap.LS_FAIL && env.blocks, r.2)

def expand (s : LsShm) (env : Env) (incrSize : Nat) : Bool × LsShm :=
  if s.expandFile env s.m_iFileSize incrSize = false then (false, s)
  else
    let xsize := (s.m_iFileSize + incrSize) % 2 ^ 32
    let r := s.mapAddrMap env xsize
    (r.1, { s with m_iFileSize := xsize, m_addrMap := r.2 })

def roundTarget (size : Nat) : Nat :=
  (size + (16 * LSSHM_SHM_UNITSIZE - 1)) % 2 ^ 32 / (16 * LSSHM_SHM_UNITSIZE) * (16 * LSSHM_SHM_UNITSIZE)

/--
The offset, which is 0 when there is none, and the left-over pages that the pool is given.
-/
structure Alloc where
  offset : Nat
  leftOver : Option (Nat × Nat)

def allocPage (s : LsShm) (env : Env) (pagesize : Nat) : Alloc × LsShm :=
  if s.ready = true ∧ env.lock = false then (⟨0, none⟩, s)
  else
    let availSize := s.avail
    if availSize < pagesize then
      let availAddrSize := getAvailAddrSpace s.m_addrMap s.m_iUsedSize pagesize % 2 ^ 32
      let needSize := pagesize - availSize
      let needSize := if availAddrSize < pagesize then (needSize + availAddrSize) % 2 ^ 32 else needSize
      let targetSize := roundTarget ((s.m_iFileSize + needSize) % 2 ^ 32)
      let r := s.expand env ((targetSize + 2 ^ 32 - s.m_iFileSize) % 2 ^ 32)
      let s := r.2
      if r.1 = false then (⟨0, none⟩, s)
      else if availAddrSize < pagesize then
        let s' := s.used availAddrSize
        (⟨s'.m_iUsedSize, some (s.m_iUsedSize, availAddrSize)⟩, s'.used pagesize)
      else (⟨s.m_iUsedSize, none⟩, s.used pagesize)
    else (⟨s.m_iUsedSize, none⟩, s.used pagesize)

def target (s : LsShm) (pagesize : Nat) : Nat :=
  let addr := getAvailAddrSpace s.m_addrMap s.m_iUsedSize pagesize
  let need := s.m_iUsedSize + pagesize + (if addr < pagesize then addr else 0)
  (need + (16 * LSSHM_SHM_UNITSIZE - 1)) / (16 * LSSHM_SHM_UNITSIZE) * (16 * LSSHM_SHM_UNITSIZE)

end LsShm

/--
A file with the pages that were handed out, the last ones first.
-/
structure ShmUse where
  shm : LsShm
  regions : List (Nat × Nat)

namespace ShmUse

open LsShm

structure Call where
  env : Env
  pagesize : Nat

def step (u : ShmUse) (c : Call) : ShmUse :=
  let r := u.shm.allocPage c.env c.pagesize
  { shm := r.2
    regions := if r.1.offset = 0 then u.regions else (r.1.offset, c.pagesize) :: (r.1.leftOver.toList ++ u.regions) }

def Allowed (_ : ShmUse) (c : Call) : Prop :=
  LSSHM_SHM_UNITSIZE ∣ c.pagesize ∧ c.pagesize ≤ LSSHM_MAXSIZE

/--
Nothing happens for a request beyond 32 bits. Otherwise the file keeps its size or gets the one it needs.
-/
structure Exact (u : ShmUse) (c : Call) : Prop where
  refused : u.shm.avail < c.pagesize → 2 ^ 32 ≤ u.shm.target c.pagesize →
    u.shm.allocPage c.env c.pagesize = (⟨0, none⟩, u.shm)
  fileSize : (step u c).shm.m_iFileSize = u.shm.m_iFileSize ∨
    (u.shm.m_iFileSize < u.shm.target c.pagesize ∧ (step u c).shm.m_iFileSize = u.shm.target c.pagesize)
  failed : (u.shm.allocPage c.env c.pagesize).1.offset = 0 → (step u c).shm.m_iUsedSize = u.shm.m_iUsedSize

/--
The regions are what was used from `start` on.
-/
structure Tiles (start : Nat) (u : ShmUse) : Prop where
  apart : u.regions.Pairwise Apart
  inside : ∀ b ∈ u.regions, start ≤ b.1 ∧ b.1 + b.2 ≤ u.shm.m_iUsedSize
  within : ∀ x, (∃ b ∈ u.regions, Cover.Within b x) ↔ start ≤ x ∧ x < u.shm.m_iUsedSize
  used_le : u.shm.m_iUsedSize ≤ u.shm.m_iFileSize
  lt : u.shm.m_iFileSize < 2 ^ 32

end ShmUse

namespace LsShm

variable {s : LsShm} {env : Env} {pagesize : Nat}

theorem availLoop_le (tbl : List Nat) (required fuel avail page : Nat)
    : availLoop tbl required fuel avail page ≤ max avail (required + LARGE_PAGE_SIZE) := by
  induction fuel generalizing avail page with
  | zero => exact Nat.le_max_left ..
  | succ fuel ih =>
    unfold availLoop
    split
    . split
      . have := ih (avail + LARGE_PAGE_SIZE) (page + 1)
        omega
      . exact Nat.le_max_left ..
    . exact Nat.le_max_left ..

theorem getAvailAddrSpace_lt (m : AddrMap) (offset : Nat) (h : pagesize ≤ LSSHM_MAXSIZE)
    : getAvailAddrSpace m offset pagesize < 2 ^ 32 := by
  have hle := availLoop_le m.m_off2ptrTable pagesize m.m_off2ptrTable.length
    (LARGE_PAGE_SIZE - offset % LARGE_PAGE_SIZE) (offset / LARGE_PAGE_SIZE)
  unfold getAvailAddrSpace
  unfold LARGE_PAGE_SIZE LSSHM_MAXSIZE at *
  omega

theorem roundTarget_lt {n : Nat} (h : n + (16 * LSSHM_SHM_UNITSIZE - 1) < 2 ^ 32)
    : roundTarget (n % 2 ^ 32) =
      (n + (16 * LSSHM_SHM_UNITSIZE - 1)) / (16 * LSSHM_SHM_UNITSIZE) * (16 * LSSHM_SHM_UNITSIZE) := by
  unfold roundTarget
  rw [Nat.mod_eq_of_lt (show n < 2 ^ 32 by omega), Nat.mod_eq_of_lt h]

theorem roundTarget_wrap {size need : Nat} (hsize : 0 < size) (hlt : size < 2 ^ 32)
    (hneed : need + 16 * LSSHM_SHM_UNITSIZE ≤ 2 ^ 32)
    (h : 2 ^ 32 ≤ size + need + (16 * LSSHM_SHM_UNITSIZE - 1)) : roundTarget ((size + need) % 2 ^ 32) < size := by
  unfold roundTarget LSSHM_SHM_UNITSIZE at *
  omega

theorem expand_of_lt {target : Nat} (htarget : target < s.m_iFileSize) (hlt : s.m_iFileSize < 2 ^ 32)
    : s.expand env ((target + 2 ^ 32 - s.m_iFileSize) % 2 ^ 32) = (false, s) := by
  have hsum : (s.m_iFileSize + (target + 2 ^ 32 - s.m_iFileSize) % 2 ^ 32) % 2 ^ 32 = target := by omega
  have hfile : s.expandFile env s.m_iFileSize ((target + 2 ^ 32 - s.m_iFileSize) % 2 ^ 32) = false := by
    unfold expandFile
    rw [hsum, if_pos htarget]
    split <;> rfl
  unfold expand
  rw [if_pos hfile]

theorem expand_of_gt {target : Nat} (htarget : s.m_iFileSize < target) (hlt : target < 2 ^ 32)
    : s.expand env ((target + 2 ^ 32 - s.m_iFileSize) % 2 ^ 32) = (false, s) ∨
      ∃ ok m, s.expand env ((target + 2 ^ 32 - s.m_iFileSize) % 2 ^ 32) =
        (ok, { s with m_iFileSize := target, m_addrMap := m }) := by
  have hsum : (s.m_iFileSize + (target + 2 ^ 32 - s.m_iFileSize) % 2 ^ 32) % 2 ^ 32 = target := by omega
  unfold expand
  by_cases hfile : s.expandFile env s.m_iFileSize ((target + 2 ^ 32 - s.m_iFileSize) % 2 ^ 32) = false
  . exact .inl (if_pos hfile)
  . rw [if_neg hfile, hsum]
    exact .inr ⟨_, _, rfl⟩

inductive Result (s : LsShm) (pagesize : Nat) : Alloc × LsShm → Prop where
  | refused : Result s pagesize (⟨0, none⟩, s)
  | fits : s.m_iUsedSize + pagesize ≤ s.m_iFileSize →
    Result s pagesize (⟨s.m_iUsedSize, none⟩, { s with m_iUsedSize := s.m_iUsedSize + pagesize })
  | unmapped (m) : s.m_iFileSize < s.target pagesize → s.target pagesize < 2 ^ 32 →
    Result s pagesize (⟨0, none⟩, { s with m_iFileSize := s.target pagesize, m_addrMap := m })
  | leftOver (m addr) : s.m_iFileSize < s.target pagesize → s.target pagesize < 2 ^ 32 →
    s.m_iUsedSize + addr + pagesize ≤ s.target pagesize →
    Result s pagesize (⟨s.m_iUsedSize + addr, some (s.m_iUsedSize, addr)⟩,
      { s with m_iFileSize := s.target pagesize, m_iUsedSize := s.m_iUsedSize + addr + pagesize, m_addrMap := m })
  | whole (m) : s.m_iFileSize < s.target pagesize → s.target pagesize < 2 ^ 32 →
    s.m_iUsedSize + pagesize ≤ s.target pagesize →
    Result s pagesize (⟨s.m_iUsedSize, none⟩,
      { s with m_iFileSize := s.target pagesize, m_iUsedSize := s.m_iUsedSize + pagesize, m_addrMap := m })

structure Valid (s : LsShm) : Prop where
  pos : 0 < s.m_iUsedSize
  used_le : s.m_iUsedSize ≤ s.m_iFileSize
  lt : s.m_iFileSize < 2 ^ 32

theorem Valid.avail_eq (h : s.Valid) : s.avail = s.m_iFileSize - s.m_iUsedSize := by
  have hle := h.used_le
  have hlt := h.lt
  unfold avail
  omega

theorem Valid.allocPage_fits (h : s.Valid) (hfit : ¬ s.avail < pagesize)
    : Result s pagesize (s.allocPage env pagesize) := by
  have hle := h.used_le
  have hlt := h.lt
  have hroom := h.avail_eq ▸ hfit
  have hused : s.used pagesize = { s with m_iUsedSize := s.m_iUsedSize + pagesize } := by
    unfold used
    rw [Nat.mod_eq_of_lt (by omega)]
  unfold allocPage
  split
  . exact .refused
  . dsimp only
    rw [if_neg hfit, hused]
    exact .fits (by omega)

/--
The size that is computed in 32 bits is the one without bound, or one that is refused.
-/
theorem Valid.target_cases (h : s.Valid) (hp : pagesize ≤ LSSHM_MAXSIZE) (hgrow : s.avail < pagesize)
    {needSize : Nat} (hneed : s.m_iFileSize + needSize = s.m_iUsedSize + pagesize +
      (if getAvailAddrSpace s.m_addrMap s.m_iUsedSize pagesize < pagesize
        then getAvailAddrSpace s.m_addrMap s.m_iUsedSize pagesize else 0))
    : (2 ^ 32 ≤ s.target pagesize ∧ roundTarget ((s.m_iFileSize + needSize) % 2 ^ 32) < s.m_iFileSize) ∨
      (s.target pagesize < 2 ^ 32 ∧ s.m_iFileSize < s.target pagesize ∧
        roundTarget ((s.m_iFileSize + needSize) % 2 ^ 32) = s.target pagesize ∧
        s.m_iFileSize + needSize ≤ s.target pagesize) := by
  have hpos := h.pos
  have hle := h.used_le
  have hlt := h.lt
  have htarget : s.target pagesize = (s.m_iFileSize + needSize + (16 * LSSHM_SHM_UNITSIZE - 1)) /
      (16 * LSSHM_SHM_UNITSIZE) * (16 * LSSHM_SHM_UNITSIZE) := by
    unfold target
    rw [hneed]
  rw [h.avail_eq] at hgrow
  have hadd : (if getAvailAddrSpace s.m_addrMap s.m_iUsedSize pagesize < pagesize
      then getAvailAddrSpace s.m_addrMap s.m_iUsedSize pagesize else 0) ≤ LSSHM_MAXSIZE := by
    split <;> omega
  generalize (if getAvailAddrSpace s.m_addrMap s.m_iUsedSize pagesize < pagesize
      then getAvailAddrSpace s.m_addrMap s.m_iUsedSize pagesize else 0) = extra at *
  have hmax : needSize + 16 * LSSHM_SHM_UNITSIZE ≤ 2 ^ 32 := by
    unfold LSSHM_MAXSIZE LSSHM_SHM_UNITSIZE at *
    omega
  by_cases hwrap : 2 ^ 32 ≤ s.m_iFileSize + needSize + (16 * LSSHM_SHM_UNITSIZE - 1)
  . refine .inl ⟨?_, roundTarget_wrap (by omega) hlt hmax hwrap⟩
    rw [htarget]
    unfold LSSHM_SHM_UNITSIZE at *
    omega
  . rw [roundTarget_lt (by omega), ← htarget]
    refine .inr ⟨?_, ?_, rfl, ?_⟩
    . rw [htarget]
      unfold LSSHM_SHM_UNITSIZE at *
      omega
    . rw [htarget]
      unfold LSSHM_SHM_UNITSIZE at *
      omega
    . rw [htarget]
      unfold LSSHM_SHM_UNITSIZE at *
      omega

theorem Valid.allocPage_grown (h : s.Valid) (hp : pagesize ≤ LSSHM_MAXSIZE) (hgrow : s.avail < pagesize)
    : Result s pagesize (s.allocPage env pagesize) ∧
      (2 ^ 32 ≤ s.target pagesize → s.allocPage env pagesize = (⟨0, none⟩, s)) := by
  have hpos := h.pos
  have hle := h.used_le
  have hlt := h.lt
  have havail := h.avail_eq
  unfold allocPage
  split
  . exact ⟨.refused, fun _ => rfl⟩
  dsimp only
  rw [if_pos hgrow, Nat.mod_eq_of_lt (getAvailAddrSpace_lt s.m_addrMap s.m_iUsedSize hp)]
  have hcases := @Valid.target_cases s pagesize h hp hgrow
  generalize getAvailAddrSpace s.m_addrMap s.m_iUsedSize pagesize = addr at *
  by_cases haddr : addr < pagesize
  . have hneed : (pagesize - s.avail + addr) % 2 ^ 32 = pagesize - s.avail + addr := by
      unfold LSSHM_MAXSIZE at hp
      omega
    simp only [if_pos haddr] at hcases ⊢
    rw [hneed]
    have hcases := @hcases (pagesize - s.avail + addr) (by omega)
    obtain ⟨hbig, hwrap⟩ | ⟨hsmall, hmore, heq, hroom⟩ := hcases
    . rw [expand_of_lt hwrap hlt]
      exact ⟨.refused, fun _ => rfl⟩
    . rw [heq]
      refine ⟨?_, fun hc => absurd hc (by omega)⟩
      obtain hfail | ⟨ok, m, hok⟩ := @expand_of_gt s env _ hmore hsmall
      . rw [hfail]
        exact .refused
      . rw [hok]
        cases ok with
        | false => exact .unmapped m hmore hsmall
        | true =>
          have hused : (s.m_iUsedSize + addr) % 2 ^ 32 = s.m_iUsedSize + addr := by omega
          have hused' : (s.m_iUsedSize + addr + pagesize) % 2 ^ 32 = s.m_iUsedSize + addr + pagesize := by omega
          rw [if_neg (show ¬ true = false from nofun)]
          unfold used
          dsimp only
          rw [hused, hused']
          exact .leftOver m addr hmore hsmall (by omega)
  . simp only [if_neg haddr] at hcases ⊢
    have hcases := @hcases (pagesize - s.avail) (by omega)
    obtain ⟨hbig, hwrap⟩ | ⟨hsmall, hmore, heq, hroom⟩ := hcases
    . rw [expand_of_lt hwrap hlt]
      exact ⟨.refused, fun _ => rfl⟩
    . rw [heq]
      refine ⟨?_, fun hc => absurd hc (by omega)⟩
      obtain hfail | ⟨ok, m, hok⟩ := @expand_of_gt s env _ hmore hsmall
      . rw [hfail]
        exact .refused
      . rw [hok]
        cases ok with
        | false => exact .unmapped m hmore hsmall
        | true =>
          have hused : (s.m_iUsedSize + pagesize) % 2 ^ 32 = s.m_iUsedSize + pagesize := by omega
          rw [if_neg (show ¬ true = false from nofun)]
          unfold used
          dsimp only
          rw [hused]
          exact .whole m hmore hsmall (by omega)

theorem Valid.allocPage_result (h : s.Valid) (hp : pagesize ≤ LSSHM_MAXSIZE) (env : Env)
    : Result s pagesize (s.allocPage env pagesize) := by
  by_cases hgrow : s.avail < pagesize
  . exact (h.allocPage_grown hp hgrow).1
  . exact h.allocPage_fits hgrow

end LsShm

namespace ShmUse

open LsShm

variable {u : ShmUse} {start : Nat} {c : Call}

theorem Tiles.push (h : Tiles start u) {shm : LsShm} {size : Nat} (hstart : start ≤ u.shm.m_iUsedSize)
    (hused : shm.m_iUsedSize = u.shm.m_iUsedSize + size) (hle : shm.m_iUsedSize ≤ shm.m_iFileSize)
    (hlt : shm.m_iFileSize < 2 ^ 32) : Tiles start { shm, regions := (u.shm.m_iUsedSize, size) :: u.regions } where
  apart := by
    apply List.pairwise_cons.mpr
    refine ⟨fun b hb => ?_, h.apart⟩
    exact .inr (h.inside b hb).2
  inside b hb := by
    obtain rfl | hb := List.mem_cons.mp hb
    . exact ⟨hstart, Nat.le_of_eq hused.symm⟩
    . have := h.inside b hb
      dsimp only
      omega
  within x := by
    have hold := h.within x
    dsimp only
    constructor
    . rintro ⟨b, hb, hx⟩
      obtain rfl | hb := List.mem_cons.mp hb
      . unfold Cover.Within at hx
        dsimp only at hx
        omega
      . have := hold.mp ⟨b, hb, hx⟩
        omega
    . intro hx
      by_cases hlow : x < u.shm.m_iUsedSize
      . obtain ⟨b, hb, hx⟩ := hold.mpr ⟨hx.1, hlow⟩
        exact ⟨b, List.mem_cons_of_mem _ hb, hx⟩
      . refine ⟨_, List.mem_cons_self, ?_⟩
        unfold Cover.Within
        dsimp only
        omega
  used_le := hle
  lt := hlt

theorem Tiles.file (h : Tiles start u) {shm : LsShm} (hused : shm.m_iUsedSize = u.shm.m_iUsedSize)
    (hle : u.shm.m_iFileSize ≤ shm.m_iFileSize) (hlt : shm.m_iFileSize < 2 ^ 32)
    : Tiles start { shm, regions := u.regions } where
  apart := h.apart
  inside := by rw [hused]; exact h.inside
  within := by rw [hused]; exact h.within
  used_le := by rw [hused]; exact le_trans h.used_le hle
  lt := hlt

structure Inv (start : Nat) (u : ShmUse) : Prop where
  tiles : Tiles start u
  pos : 0 < start
  start_le : start ≤ u.shm.m_iUsedSize

theorem Inv.valid (h : Inv start u) : u.shm.Valid where
  pos := Nat.lt_of_lt_of_le h.pos h.start_le
  used_le := h.tiles.used_le
  lt := h.tiles.lt

theorem Inv.step (h : Inv start u) (hc : Allowed u c) : Inv start (step u c) := by
  have hpos := h.valid.pos
  have hlt := h.valid.lt
  have hstart := h.start_le
  have hres := h.valid.allocPage_result hc.2 c.env
  unfold ShmUse.step
  dsimp only
  generalize u.shm.allocPage c.env c.pagesize = r at hres
  cases hres with
  | refused => exact h
  | fits hroom =>
    dsimp only
    rw [if_neg (by omega)]
    exact ⟨h.tiles.push hstart rfl hroom hlt, h.pos, by dsimp only; omega⟩
  | unmapped m hmore hsmall => exact ⟨h.tiles.file rfl (Nat.le_of_lt hmore) hsmall, h.pos, hstart⟩
  | leftOver m addr hmore hsmall hroom =>
    dsimp only
    rw [if_neg (by omega)]
    have hmid := @Tiles.push u start h.tiles
      { u.shm with m_iFileSize := u.shm.target c.pagesize, m_iUsedSize := u.shm.m_iUsedSize + addr } addr hstart rfl
      (by dsimp only; omega) hsmall
    exact ⟨hmid.push (by dsimp only; omega) rfl hroom hsmall, h.pos, by dsimp only; omega⟩
  | whole m hmore hsmall hroom =>
    dsimp only
    rw [if_neg (by omega)]
    exact ⟨h.tiles.push hstart rfl hroom hsmall, h.pos, by dsimp only; omega⟩

theorem Inv.exact (h : Inv start u) (hc : Allowed u c) : Exact u c where
  refused hgrow := (@Valid.allocPage_grown u.shm c.env c.pagesize h.valid hc.2 hgrow).2
  fileSize := by
    have hres := h.valid.allocPage_result hc.2 c.env
    unfold ShmUse.step
    dsimp only
    generalize u.shm.allocPage c.env c.pagesize = r at hres
    cases hres with
    | refused => exact .inl rfl
    | fits => exact .inl rfl
    | unmapped m hmore => exact .inr ⟨hmore, rfl⟩
    | leftOver m addr hmore => exact .inr ⟨hmore, rfl⟩
    | whole m hmore => exact .inr ⟨hmore, rfl⟩
  failed := by
    have hpos := h.valid.pos
    have hres := h.valid.allocPage_result hc.2 c.env
    unfold ShmUse.step
    dsimp only
    generalize u.shm.allocPage c.env c.pagesize = r at hres
    cases hres with
    | refused => exact fun _ => rfl
    | unmapped => exact fun _ => rfl
    | _ => exact fun hz => absurd hz (by dsimp only; omega)

/--
In every run the pages that were handed out and left over are exactly what was used of the file, and sizes never
wrap.
-/
theorem pages_tile (s : LsShm) (h : s.Valid) (cs : List Call) (hc : Meets step Allowed ⟨s, []⟩ cs)
    : Tiles s.m_iUsedSize (exec step ⟨s, []⟩ cs) ∧ Meets step Exact ⟨s, []⟩ cs := by
  have hstart : Inv s.m_iUsedSize ⟨s, []⟩ := {
    tiles := {
      apart := .nil
      inside := fun _ hb => nomatch hb
      within := fun x => ⟨fun ⟨_, hb, _⟩ => (nomatch hb), fun hx => absurd hx.2 (Nat.not_lt.mpr hx.1)⟩
      used_le := h.used_le
      lt := h.lt }
    pos := h.pos
    start_le := Nat.le_refl _ }
  constructor
  . exact (exec_invariant (Inv s.m_iUsedSize) (fun _ _ hu hok => hu.step hok) hstart hc).tiles
  . exact Meets.of_invariant (Inv s.m_iUsedSize) (fun _ _ hu hok => hu.step hok) (fun _ _ hu hok => hu.exact hok) hstart hc

def sampleFile : LsShm where
  m_iFileSize := 8192
  m_iUsedSize := 1024
  m_iMaxShmSize := 0
  ready := true
  m_addrMap := .new

def sampleCalls : List Call :=
  [ ⟨⟨true, true, 0x200000, true⟩, 4096⟩
  , ⟨⟨true, true, 0x200000, true⟩, 65536⟩
  , ⟨⟨true, true, 0x40000000, true⟩, 1953120 * 1024⟩
  , ⟨⟨true, true, 0x200000000, true⟩, 1953120 * 1024⟩
  , ⟨⟨true, true, 0x400000000, true⟩, 1953120 * 1024⟩ ]

theorem pages_tile_sample
    : Tiles 1024 (exec step ⟨sampleFile, []⟩ sampleCalls) ∧ Meets step Exact ⟨sampleFile, []⟩ sampleCalls :=
  pages_tile sampleFile ⟨by decide, by decide, by decide⟩ sampleCalls
    ⟨⟨by decide, by decide⟩, ⟨by decide, by decide⟩, ⟨by decide, by decide⟩, ⟨by decide, by decide⟩,
      ⟨by decide, by decide⟩, trivial⟩

end ShmUse

end Lsmcd
