import Lsmcd.Shm.PageJoin

/-!
Pages are taken and come back in any order.
-/

namespace Lsmcd

open Linked Cover Run

structure PageUse where
  pool : PagePool
  inUse : List (Nat × Nat)

inductive PageOp
  | alloc (env : LsShm.Env) (pagesize : Nat)
  | release (offset pagesize : Nat)
  | write (off v : Nat)

namespace PageUse

open PagePool

def step (u : PageUse) : PageOp → PageUse
  | .alloc env pagesize =>
    let r := u.pool.allocPage env pagesize
    { pool := r.1, inUse := if r.2 = 0 then u.inUse else (r.2, roundPageSize pagesize) :: u.inUse }
  | .release offset pagesize =>
    { pool := u.pool.releasePageLocked offset pagesize, inUse := u.inUse.erase (offset, roundPageSize pagesize) }
  | .write off v => { u with pool := u.pool.write off v }

/--
Blocks come back that were handed out, data are written to such blocks, and no data are taken for the ends of a free
block next to pages that come back.
-/
def Ok (u : PageUse) : PageOp → Prop
  | .alloc _ pagesize => 0 < pagesize ∧ u.pool.HonestAbove u.pool.m_pShm.m_iUsedSize
  | .release offset pagesize =>
    (offset, roundPageSize pagesize) ∈ u.inUse ∧ u.pool.HonestAbove offset ∧
      u.pool.HonestBelow (offset + roundPageSize pagesize)
  | .write off _ => ∃ b ∈ u.inUse, Within b off

instance (u : PageUse) (op : PageOp) : Decidable (Ok u op) :=
  match op with
  | .alloc _ _ => inferInstanceAs (Decidable (_ ∧ _))
  | .release _ _ => inferInstanceAs (Decidable (_ ∧ _ ∧ _))
  | .write off _ => inferInstanceAs (Decidable (∃ b ∈ u.inUse, Within b off))

def freeBlocks (u : PageUse) : List (Nat × Nat) :=
  u.pool.blocks u.pool.freeStarts

/--
The free blocks and the ones in use are, without overlaps, what was used of the file, and no free blocks touch.
-/
structure Sound (start : Nat) (u : PageUse) : Prop where
  apart : (u.freeBlocks ++ u.inUse).Pairwise Apart
  within : ∀ x, (∃ b ∈ u.freeBlocks ++ u.inUse, Within b x) ↔ start ≤ x ∧ x < u.pool.m_pShm.m_iUsedSize
  units : ∀ b ∈ u.freeBlocks ++ u.inUse, u.pool.Units b
  joined : ∀ b ∈ u.freeBlocks, ∀ c ∈ u.freeBlocks, b.1 + b.2 ≠ c.1
  cnt : u.pool.m_iGpFreeListCnt = u.freeBlocks.length

def KeepsData (u v : PageUse) (bs : List (Nat × Nat)) : Prop :=
  ∀ b ∈ bs, ∀ a, Within b a → v.pool.mem a = u.pool.mem a

def Exact (u : PageUse) : PageOp → Prop
  | .alloc env pagesize =>
    KeepsData u (step u (.alloc env pagesize)) u.inUse ∧
      (pagesize ≤ LSSHM_MAXSIZE → (∃ b ∈ u.freeBlocks, roundPageSize pagesize ≤ b.2) →
        (u.pool.allocPage env pagesize).2 ≠ 0 ∧
        (step u (.alloc env pagesize)).pool.m_pShm = u.pool.m_pShm)
  | .release offset pagesize =>
    KeepsData u (step u (.release offset pagesize)) (u.inUse.erase (offset, roundPageSize pagesize))
  | .write _ _ => True

/--
The offsets of the free blocks are `xs`. What was not used of the file is 0.
-/
structure At (start : Nat) (xs : List Nat) (u : PageUse) : Prop where
  free : FreeList u.pool xs
  count : ∀ x, count (u.pool.blocks xs ++ u.inUse) x = if start ≤ x ∧ x < u.pool.m_pShm.m_iUsedSize then 1 else 0
  joined : u.pool.Joined xs
  units : ∀ b ∈ u.inUse, u.pool.Units b
  fresh : ∀ a, u.pool.m_pShm.m_iUsedSize ≤ a → u.pool.mem a = 0
  valid : u.pool.m_pShm.Valid
  whole : u.pool.m_pShm.m_iUsedSize % LSSHM_SHM_UNITSIZE = 0
  low : LSSHM_SHM_UNITSIZE ≤ start
  start_le : start ≤ u.pool.m_pShm.m_iUsedSize

def Inv (start : Nat) (u : PageUse) : Prop :=
  ∃ xs, At start xs u

def Goes (start : Nat) (xs : List Nat) (u v : PageUse) : Prop :=
  ∃ xs', At start xs' v ∧ Marks u.pool v.pool xs xs'

variable {start : Nat} {xs xs' : List Nat} {u : PageUse} {s : PagePool} {n : Nat}

theorem At.sound (h : At start xs u) : Sound start u := by
  have hfree : u.freeBlocks = u.pool.blocks xs := by
    unfold freeBlocks
    rw [h.free.freeStarts_eq]
  have hunits : ∀ b ∈ u.pool.blocks xs ++ u.inUse, u.pool.Units b := by
    intro b hb
    rcases List.mem_append.mp hb with hb | hb
    . obtain ⟨p, hp, rfl⟩ := List.mem_map.mp hb
      exact h.free.units p hp
    . exact h.units b hb
  refine ⟨?_, ?_, ?_, ?_, ?_⟩
  . rw [hfree]
    apply pairwise_of_count_le_one
    . intro x
      rw [h.count]
      split <;> omega
    . exact fun b hb => (hunits b hb).pos
  . intro x
    rw [hfree, ← count_pos_iff, h.count]
    split <;> omega
  . rw [hfree]
    exact hunits
  . rw [hfree]
    intro b hb c hc
    obtain ⟨p, hp, rfl⟩ := List.mem_map.mp hb
    obtain ⟨q, hq, rfl⟩ := List.mem_map.mp hc
    exact fun he => h.joined p hp (show p + u.pool.size p ∈ xs from he ▸ hq)
  . rw [hfree, h.free.cnt]
    exact (List.length_map ..).symm

theorem At.used_of_within (h : At start xs u) {b : Nat × Nat} (hb : b ∈ u.pool.blocks xs ++ u.inUse) {a : Nat}
    (ha : Within b a) : start ≤ a ∧ a < u.pool.m_pShm.m_iUsedSize := by
  have hpos := count_pos_of_mem hb ha
  rw [h.count] at hpos
  by_contra hno
  rw [if_neg hno] at hpos
  exact Nat.lt_irrefl 0 hpos

theorem At.not_free (h : At start xs u) {b c : Nat × Nat} (hb : b ∈ u.inUse) (hc : c ∈ u.pool.blocks xs) {a : Nat}
    (ha : Within b a) : ¬ Within c a := by
  intro hca
  have hle : Cover.count (u.pool.blocks xs ++ u.inUse) a ≤ 1 := by
    rw [h.count]
    split <;> omega
  exact not_within_of_count hle hc hca hb ha

theorem keeps_list (h : FreeList s xs) {t : PagePool} (hmem : ∀ p ∈ xs, ∀ a, Within (s.block p) a → t.mem a = s.mem a)
    (hhead : t.x_iFreePageList = s.x_iFreePageList) (hcnt : t.m_iGpFreeListCnt = s.m_iGpFreeListCnt)
    (hmax : s.maxSize ≤ t.maxSize) (hfits : t.maxSize < 2 ^ 32)
    : FreeList t xs ∧ t.blocks xs = s.blocks xs ∧ (s.Joined xs → t.Joined xs) := by
  have hword : ∀ p ∈ xs, ∀ d, d < 1024 → t.mem (p + d) = s.mem (p + d) := by
    intro p hp d hd
    obtain ⟨_, _, hge, _, _⟩ := h.nums hp
    refine hmem p hp _ ?_
    unfold Within block
    dsimp only
    omega
  have hsize : ∀ p ∈ xs, t.size p = s.size p := fun p hp => hword p hp 4 (by decide)
  have hblock : ∀ p ∈ xs, t.block p = s.block p := fun p hp => by
    unfold block
    rw [hsize p hp]
  have hend : ∀ p ∈ xs, ∀ d, d < 8 → t.mem (p + s.size p - 8 + d) = s.mem (p + s.size p - 8 + d) := by
    intro p hp d hd
    obtain ⟨_, _, hge, _, _⟩ := h.nums hp
    refine hmem p hp _ ?_
    unfold Within block
    dsimp only
    omega
  refine ⟨⟨?_, ?_, ?_, ?_, ?_, ?_, ?_, hfits⟩, List.map_congr_left hblock, ?_⟩
  . obtain ⟨tail, hlist⟩ := h.list
    rw [hhead]
    exact ⟨tail, hlist.congr (fun p hp => hword p hp 8 (by decide)) fun p hp => hword p hp 12 (by decide)⟩
  . intro p hp
    exact (hword p hp 0 (by decide)).trans (h.top p hp)
  . intro p hp
    rw [hsize p hp]
    exact (hend p hp 0 (by decide)).trans (h.back p hp)
  . intro p hp
    rw [hsize p hp]
    exact (hend p hp 4 (by decide)).trans (h.bottom p hp)
  . intro p hp
    rw [hblock p hp]
    exact (h.units p hp).mono hmax
  . intro p hp q hq hne
    rw [hblock p hp, hblock q hq]
    exact h.apart p hp q hq hne
  . rw [hcnt]
    exact h.cnt
  . intro hjoined p hp
    rw [hsize p hp]
    exact hjoined p hp

section Write

theorem At.write (h : At start xs u) {off v : Nat} (hok : Ok u (.write off v)) : At start xs (step u (.write off v)) := by
  obtain ⟨b, hb, hin⟩ := hok
  have hout : ∀ p ∈ xs, ∀ a, Within (u.pool.block p) a → (u.pool.write off v).mem a = u.pool.mem a := by
    intro p hp a ha
    apply mem_write_ne
    rintro rfl
    exact h.not_free hb (List.mem_map_of_mem hp) hin ha
  obtain ⟨hfree, hblocks, hjoined⟩ := keeps_list h.free (t := u.pool.write off v) hout rfl rfl (Nat.le_refl _) h.free.fits
  have hused := h.used_of_within (List.mem_append_right _ hb) hin
  refine ⟨hfree, ?_, hjoined h.joined, fun b hb => ?_, ?_, h.valid, h.whole, h.low, h.start_le⟩
  . intro x
    show Cover.count ((u.pool.write off v).blocks xs ++ u.inUse) x = _
    rw [hblocks]
    exact h.count x
  . exact (h.units b hb).mono (Nat.le_refl _)
  . intro a ha
    have hne : a ≠ off := fun he => absurd (he ▸ ha) (Nat.not_le.mpr hused.2)
    exact (mem_write_ne hne v).trans (h.fresh a ha)

end Write

section Release

theorem At.release (h : At start xs u) {offset pagesize : Nat} (hok : Ok u (.release offset pagesize))
    : Goes start xs u (step u (.release offset pagesize)) ∧ Exact u (.release offset pagesize) := by
  obtain ⟨hin, hA, hB⟩ := hok
  have hunits := h.units _ hin
  have hround : roundPageSize (roundPageSize pagesize) = roundPageSize pagesize := roundPageSize_eq hunits.size
  have hsame : u.pool.releasePageLocked offset pagesize = u.pool.releasePageLocked offset (roundPageSize pagesize) := by
    unfold releasePageLocked
    rw [hround]
  generalize hn : roundPageSize pagesize = n at *
  have hloose : Loose u.pool xs offset n := by
    refine ⟨hunits, fun p hp => ?_⟩
    have hnum := h.free.nums hp
    by_contra hov
    have hx : Within (u.pool.block p) (max p offset) ∧ Within (offset, n) (max p offset) := by
      have hpos := hunits.pos
      unfold Apart block at hov
      unfold Within block
      dsimp only at *
      omega
    exact h.not_free hin (List.mem_map_of_mem hp) hx.2 hx.1
  obtain ⟨xs', htakes⟩ := h.free.release hloose hA hB
  have hother : ∀ b ∈ u.inUse.erase (offset, n), ∀ a, Within b a →
      ∀ c ∈ (offset, n) :: u.pool.blocks xs, ¬ Within c a := by
    intro b hb a ha c hc hca
    rcases List.mem_cons.mp hc with rfl | hc
    . have hle : Cover.count u.inUse a ≤ 1 := by
        have hone := h.count a
        rw [count_append] at hone
        split at hone <;> omega
      have herase := count_erase hin a
      have hpos := count_pos_of_mem hb ha
      rw [count_singleton, if_pos hca] at herase
      omega
    . exact h.not_free (List.mem_of_mem_erase hb) hc ha hca
  constructor
  . unfold step
    dsimp only
    rw [hsame, hn]
    have hshm := htakes.within.shm
    refine ⟨xs', ⟨htakes.free, ?_, htakes.joined h.joined, ?_, ?_, ?_, ?_, h.low, ?_⟩, htakes.marks⟩
    . intro x
      dsimp only
      rw [hshm, ← h.count x, count_append, count_append, htakes.count x]
      have herase := count_erase hin x
      omega
    . intro b hb
      refine (h.units b (List.mem_of_mem_erase hb)).mono ?_
      unfold maxSize
      dsimp only
      rw [hshm]
    . intro a ha
      dsimp only at ha ⊢
      rw [hshm] at ha
      rw [htakes.within.mem a, h.fresh a ha]
      intro c hc hca
      have hused : ∀ b ∈ u.pool.blocks xs ++ u.inUse, Within b a → False := fun b hb hba =>
        absurd ha (Nat.not_le.mpr (h.used_of_within hb hba).2)
      rcases List.mem_cons.mp hc with rfl | hc
      . exact hused _ (List.mem_append_right _ hin) hca
      . exact hused _ (List.mem_append_left _ hc) hca
    . dsimp only
      rw [hshm]
      exact h.valid
    . dsimp only
      rw [hshm]
      exact h.whole
    . dsimp only
      rw [hshm]
      exact h.start_le
  . show KeepsData u _ (u.inUse.erase (offset, roundPageSize pagesize))
    rw [hn]
    intro b hb a ha
    show (u.pool.releasePageLocked offset pagesize).mem a = _
    rw [hsame]
    exact htakes.within.mem a (hother b hb a ha)

end Release

section Extend

variable {t : PagePool} {inUse : List (Nat × Nat)} {off : Nat}

theorem At.extend (hfree : FreeList t xs) (hjoined : t.Joined xs) (hunits : ∀ b ∈ inUse, t.Units b)
    (hcount : ∀ x, Cover.count (t.blocks xs ++ inUse) x = if start ≤ x ∧ x < off then 1 else 0)
    (hfresh : ∀ a, off ≤ a → t.mem a = 0) (hused : t.m_pShm.m_iUsedSize = off + n) (hvalid : t.m_pShm.Valid)
    (hoff : off % LSSHM_SHM_UNITSIZE = 0) (hn : n % LSSHM_SHM_UNITSIZE = 0) (hpos : 0 < n)
    (hlow : LSSHM_SHM_UNITSIZE ≤ start) (hle : start ≤ off) : At start xs ⟨t.markTopUsed off, (off, n) :: inUse⟩ := by
  have hsame : (t.markTopUsed off).mem = t.mem := by
    funext a
    by_cases ha : a = off
    . rw [ha]
      exact (mem_write_self ..).trans (hfresh off (Nat.le_refl _)).symm
    . exact mem_write_ne ha 0
  obtain ⟨hfree', hblocks, hjoined'⟩ := keeps_list hfree (t := t.markTopUsed off) (fun _ _ a _ => by rw [hsame]) rfl rfl
    (Nat.le_refl _) hfree.fits
  have husedle := hvalid.used_le
  refine ⟨hfree', ?_, hjoined' hjoined, ?_, ?_, hvalid, ?_, hlow, ?_⟩
  . intro x
    have hperm : Cover.count (t.blocks xs ++ (off, n) :: inUse) x =
        Cover.count [(off, n)] x + Cover.count (t.blocks xs ++ inUse) x := by
      rw [count_append, count_append, count_cons]
      omega
    have hend : (t.markTopUsed off).m_pShm.m_iUsedSize = off + n := hused
    dsimp only
    rw [hblocks, hperm, hcount, count_singleton]
    have hin : Within (off, n) x ↔ off ≤ x ∧ x < off + n := Iff.rfl
    by_cases hold : start ≤ x ∧ x < off
    . rw [if_pos hold, if_neg (by rw [hin]; omega), if_pos (by omega)]
    . by_cases hnew : Within (off, n) x
      . rw [if_pos hnew, if_neg hold, if_pos (by rw [hin] at hnew; omega)]
      . rw [if_neg hnew, if_neg hold, if_neg (by rw [hin] at hnew; omega)]
  . intro b hb
    rcases List.mem_cons.mp hb with rfl | hb
    . refine ⟨hoff, hn, hpos, hlow.trans hle, ?_⟩
      show off + n ≤ t.m_pShm.m_iFileSize
      omega
    . exact (hunits b hb).mono (Nat.le_refl _)
  . intro a ha
    show (t.markTopUsed off).mem a = 0
    rw [hsame]
    have hused' : t.m_pShm.m_iUsedSize ≤ a := ha
    exact hfresh a (by omega)
  . show t.m_pShm.m_iUsedSize % _ = 0
    rw [hused]
    unfold LSSHM_SHM_UNITSIZE at *
    omega
  . show start ≤ t.m_pShm.m_iUsedSize
    omega

theorem At.grown (h : At start xs u) {shm : LsShm} (hused : shm.m_iUsedSize = u.pool.m_pShm.m_iUsedSize)
    (hmore : u.pool.m_pShm.m_iFileSize ≤ shm.m_iFileSize) (hlt : shm.m_iFileSize < 2 ^ 32)
    : At start xs ⟨{ u.pool with m_pShm := shm }, u.inUse⟩ := by
  obtain ⟨hfree, hblocks, hjoined⟩ := keeps_list h.free (t := { u.pool with m_pShm := shm }) (fun _ _ _ _ => rfl) rfl rfl
    hmore hlt
  have hle := h.valid.used_le
  refine ⟨hfree, ?_, hjoined h.joined, ?_, ?_, ⟨?_, ?_, hlt⟩, ?_, h.low, ?_⟩
  . intro x
    dsimp only
    rw [hblocks, hused]
    exact h.count x
  . intro b hb
    exact (h.units b hb).mono hmore
  . intro a ha
    exact h.fresh a (hused ▸ ha)
  . dsimp only
    rw [hused]
    exact h.valid.pos
  . dsimp only
    omega
  . dsimp only
    rw [hused]
    exact h.whole
  . dsimp only
    rw [hused]
    exact h.start_le

end Extend

section LeftOver

theorem availLoop_unit (tbl : List Nat) (required fuel avail page : Nat)
    : avail ≤ LsShm.availLoop tbl required fuel avail page ∧
      (avail % LSSHM_SHM_UNITSIZE = 0 → LsShm.availLoop tbl required fuel avail page % LSSHM_SHM_UNITSIZE = 0) := by
  induction fuel generalizing avail page with
  | zero => exact ⟨Nat.le_refl _, id⟩
  | succ fuel ih =>
    unfold LsShm.availLoop
    split
    . split
      . obtain ⟨hle, hunit⟩ := ih (avail + LARGE_PAGE_SIZE) (page + 1)
        refine ⟨by omega, fun h => hunit ?_⟩
        unfold LSSHM_SHM_UNITSIZE LARGE_PAGE_SIZE at *
        omega
      . exact ⟨Nat.le_refl _, id⟩
    . exact ⟨Nat.le_refl _, id⟩

theorem leftOver_unit {shm : LsShm} {env : LsShm.Env} {pagesize : Nat} (hp : pagesize ≤ LSSHM_MAXSIZE)
    (hused : shm.m_iUsedSize % LSSHM_SHM_UNITSIZE = 0) {left : Nat × Nat}
    (h : (shm.allocPage env pagesize).1.leftOver = some left) : 0 < left.2 ∧ left.2 % LSSHM_SHM_UNITSIZE = 0 := by
  have hlt := LsShm.getAvailAddrSpace_lt shm.m_addrMap shm.m_iUsedSize hp
  have hloop := availLoop_unit shm.m_addrMap.m_off2ptrTable pagesize shm.m_addrMap.m_off2ptrTable.length
    (LARGE_PAGE_SIZE - shm.m_iUsedSize % LARGE_PAGE_SIZE) (shm.m_iUsedSize / LARGE_PAGE_SIZE)
  have hgot : 0 < LsShm.getAvailAddrSpace shm.m_addrMap shm.m_iUsedSize pagesize ∧
      LsShm.getAvailAddrSpace shm.m_addrMap shm.m_iUsedSize pagesize % LSSHM_SHM_UNITSIZE = 0 := by
    unfold LsShm.getAvailAddrSpace
    unfold LSSHM_SHM_UNITSIZE LARGE_PAGE_SIZE at *
    omega
  unfold LsShm.allocPage at h
  dsimp only at h
  rw [Nat.mod_eq_of_lt hlt] at h
  by_cases haddr : LsShm.getAvailAddrSpace shm.m_addrMap shm.m_iUsedSize pagesize < pagesize
  . simp only [if_pos haddr] at h
    split at h
    . cases h
    . split at h
      . split at h
        . cases h
        . obtain rfl := Option.some.inj h
          exact hgot
      . cases h
  . simp only [if_neg haddr] at h
    split at h
    . cases h
    . split at h
      . split at h
        . cases h
        . cases h
      . cases h

end LeftOver

section Alloc

variable {pagesize : Nat}

theorem At.leftOver (h : At start xs u) (shm : LsShm) {addr : Nat} (haddr : 0 < addr)
    (hunit : addr % LSSHM_SHM_UNITSIZE = 0) (hn : n % LSSHM_SHM_UNITSIZE = 0) (hpos : 0 < n)
    (hused : shm.m_iUsedSize = u.pool.m_pShm.m_iUsedSize + addr + n) (hle : shm.m_iUsedSize ≤ shm.m_iFileSize)
    (hmore : u.pool.m_pShm.m_iFileSize ≤ shm.m_iFileSize) (hlt : shm.m_iFileSize < 2 ^ 32)
    (hA : u.pool.HonestAbove u.pool.m_pShm.m_iUsedSize)
    : let t := { u.pool with m_pShm := shm }.addLeftOverPages u.pool.m_pShm.m_iUsedSize addr
      let off := u.pool.m_pShm.m_iUsedSize + addr
      t.m_pShm = shm ∧ Goes start xs u ⟨t.markTopUsed off, (off, n) :: u.inUse⟩ ∧
        ∀ b ∈ u.inUse, ∀ a, Within b a → (t.markTopUsed off).mem a = u.pool.mem a := by
  intro t off
  obtain ⟨hfree, hblocks, hjoined⟩ := keeps_list h.free (t := { u.pool with m_pShm := shm }) (fun _ _ _ _ => rfl) rfl rfl
    hmore hlt
  have hwhole := h.whole
  have hlow := h.low
  have hstart := h.start_le
  have hloose : Loose { u.pool with m_pShm := shm } xs u.pool.m_pShm.m_iUsedSize addr := by
    refine ⟨⟨hwhole, hunit, haddr, hlow.trans hstart, ?_⟩, ?_⟩
    . show u.pool.m_pShm.m_iUsedSize + addr ≤ shm.m_iFileSize
      omega
    . intro p hp
      have hnum := h.free.nums hp
      have hlast := h.used_of_within (b := u.pool.block p) (a := p + u.pool.size p - 1)
        (List.mem_append_left _ (List.mem_map_of_mem hp)) (by unfold Within block; dsimp only; omega)
      left
      show p + u.pool.size p ≤ u.pool.m_pShm.m_iUsedSize
      omega
  have hB : { u.pool with m_pShm := shm }.HonestBelow (u.pool.m_pShm.m_iUsedSize + addr) := by
    intro hmark
    have hzero : u.pool.mem (u.pool.m_pShm.m_iUsedSize + addr) = 0 := h.fresh _ (by omega)
    exact absurd (hzero.symm.trans hmark) (by decide)
  obtain ⟨xs', htakes⟩ := hfree.release hloose hA hB
  have hshm : t.m_pShm = shm := htakes.within.shm
  have hsub : ∀ b ∈ (u.pool.m_pShm.m_iUsedSize, addr) :: { u.pool with m_pShm := shm }.blocks xs, ∀ a,
      Within b a → a < off := by
    intro b hb a ha
    rcases List.mem_cons.mp hb with rfl | hb
    . exact ha.2
    . rw [hblocks] at hb
      have := (h.used_of_within (List.mem_append_left _ hb) ha).2
      omega
  refine ⟨hshm, ⟨xs', ?_, fun a ha => htakes.marks a (update_marker (ne_marker rfl) ha).2⟩, ?_⟩
  . refine At.extend htakes.free (htakes.joined (hjoined h.joined)) ?_ ?_ ?_ ?_ ?_ ?_ hn hpos hlow ?_
    . intro b hb
      refine (h.units b hb).mono ?_
      show _ ≤ t.m_pShm.m_iFileSize
      rw [hshm]
      exact hmore
    . intro x
      have hcount := htakes.count x
      have hold := h.count x
      rw [count_append] at hold ⊢
      rw [hblocks] at hcount
      rw [show Cover.count (t.blocks xs') x = _ from hcount]
      have hin : Within (u.pool.m_pShm.m_iUsedSize, addr) x ↔
          u.pool.m_pShm.m_iUsedSize ≤ x ∧ x < u.pool.m_pShm.m_iUsedSize + addr := Iff.rfl
      rw [count_singleton]
      by_cases hbefore : start ≤ x ∧ x < u.pool.m_pShm.m_iUsedSize
      . rw [if_pos hbefore] at hold
        rw [if_neg (by rw [hin]; omega), if_pos (by omega)]
        omega
      . rw [if_neg hbefore] at hold
        by_cases hnew : Within (u.pool.m_pShm.m_iUsedSize, addr) x
        . rw [if_pos hnew, if_pos (by rw [hin] at hnew; omega)]
          omega
        . rw [if_neg hnew, if_neg (by rw [hin] at hnew; omega)]
          omega
    . intro a ha
      have hmem := htakes.within.mem a fun b hb hba => absurd (hsub b hb a hba) (Nat.not_lt.mpr ha)
      exact hmem.trans (h.fresh a (by omega))
    . rw [show _ = shm from hshm]
      exact hused
    . rw [show _ = shm from hshm]
      exact ⟨by omega, hle, hlt⟩
    . unfold LSSHM_SHM_UNITSIZE at *
      omega
    . omega
  . intro b hb a ha
    have hold := (h.used_of_within (List.mem_append_right _ hb) ha).2
    have hne : a ≠ off := by omega
    refine (mem_write_ne hne 0).trans (htakes.within.mem a ?_)
    intro c hc hca
    rcases List.mem_cons.mp hc with rfl | hc
    . have := hca.1
      dsimp only at this
      omega
    . rw [hblocks] at hc
      exact h.not_free hb hc ha hca

def took (u : PageUse) (n : Nat) (r : PagePool × Nat) : PageUse :=
  { pool := r.1, inUse := if r.2 = 0 then u.inUse else (r.2, n) :: u.inUse }

theorem At.behind (h : At start xs u) (shm : LsShm) (hn : n % LSSHM_SHM_UNITSIZE = 0) (hpos : 0 < n)
    (hused : shm.m_iUsedSize = u.pool.m_pShm.m_iUsedSize + n) (hle : shm.m_iUsedSize ≤ shm.m_iFileSize)
    (hmore : u.pool.m_pShm.m_iFileSize ≤ shm.m_iFileSize) (hlt : shm.m_iFileSize < 2 ^ 32)
    : let t := { u.pool with m_pShm := shm }
      let off := u.pool.m_pShm.m_iUsedSize
      Goes start xs u ⟨t.markTopUsed off, (off, n) :: u.inUse⟩ ∧
        ∀ b ∈ u.inUse, ∀ a, Within b a → (t.markTopUsed off).mem a = u.pool.mem a := by
  intro t off
  obtain ⟨hfree, hblocks, hjoined⟩ := keeps_list h.free (t := t) (fun _ _ _ _ => rfl) rfl rfl hmore hlt
  have hvalid := h.valid.pos
  constructor
  . refine ⟨xs, At.extend hfree (hjoined h.joined) ?_ ?_ (fun a ha => h.fresh a ha) hused ⟨?_, hle, hlt⟩ h.whole hn hpos
      h.low h.start_le, .of_mem fun a ha => (update_marker (ne_marker rfl) ha).2⟩
    . intro b hb
      exact (h.units b hb).mono hmore
    . intro x
      rw [hblocks]
      exact h.count x
    . show 0 < shm.m_iUsedSize
      omega
  . intro b hb a ha
    have hold := (h.used_of_within (List.mem_append_right _ hb) ha).2
    exact mem_write_ne (Nat.ne_of_lt hold) 0

theorem At.allocFromShm (h : At start xs u) (env : LsShm.Env) (hn : n % LSSHM_SHM_UNITSIZE = 0) (hpos : 0 < n) (hmax : n ≤ LSSHM_MAXSIZE)
    (hA : u.pool.HonestAbove u.pool.m_pShm.m_iUsedSize)
    : Goes start xs u (took u n (u.pool.allocFromShm env n)) ∧
      ∀ b ∈ u.inUse, ∀ a, Within b a → (u.pool.allocFromShm env n).1.mem a = u.pool.mem a := by
  have hlow : 1024 ≤ u.pool.m_pShm.m_iUsedSize := h.low.trans h.start_le
  have hlt := h.valid.lt
  have hres := h.valid.allocPage_result hmax env
  have hleft := @leftOver_unit u.pool.m_pShm env n hmax h.whole
  have hptr : ∀ (t : PagePool) (off : Nat), 1024 ≤ off → off ≤ t.m_pShm.m_iFileSize → t.offset2ptr off = some off := by
    intro t off hlo hhi
    exact offset2ptr_eq (by unfold sizeofShmMapHdr; omega) hhi
  unfold PagePool.allocFromShm
  dsimp only
  generalize hr : u.pool.m_pShm.allocPage env n = r at hres hleft
  cases hres with
  | refused =>
    dsimp only
    rw [if_pos rfl]
    exact ⟨⟨xs, h, .of_mem fun _ => id⟩, fun _ _ _ _ => rfl⟩
  | fits hroom =>
    have hb := h.behind { u.pool.m_pShm with m_iUsedSize := u.pool.m_pShm.m_iUsedSize + n } hn hpos rfl hroom
      (Nat.le_refl _) hlt
    have hp := hptr { u.pool with m_pShm := { u.pool.m_pShm with m_iUsedSize := u.pool.m_pShm.m_iUsedSize + n } } _ hlow
      h.valid.used_le
    dsimp only at hp hb ⊢
    rw [if_neg (by omega), hp]
    unfold took
    dsimp only
    rw [if_neg (by omega)]
    exact hb
  | unmapped m hmore hsmall =>
    dsimp only
    rw [if_pos rfl]
    exact ⟨⟨xs, h.grown rfl (Nat.le_of_lt hmore) hsmall, .of_mem fun _ => id⟩, fun _ _ _ _ => rfl⟩
  | leftOver m addr hmore hsmall hroom =>
    obtain ⟨haddr, hunit⟩ := hleft rfl
    obtain ⟨hshm, hat, hkeep⟩ := h.leftOver { u.pool.m_pShm with
      m_iFileSize := u.pool.m_pShm.target n
      m_iUsedSize := u.pool.m_pShm.m_iUsedSize + addr + n
      m_addrMap := m } haddr hunit hn hpos rfl hroom (Nat.le_of_lt hmore) hsmall hA
    dsimp only
    rw [if_neg (by omega), hptr _ _ (by omega) (by rw [hshm]; dsimp only; omega)]
    unfold took
    dsimp only
    rw [if_neg (by omega)]
    exact ⟨hat, hkeep⟩
  | whole m hmore hsmall hroom =>
    have hb := h.behind { u.pool.m_pShm with
      m_iFileSize := u.pool.m_pShm.target n
      m_iUsedSize := u.pool.m_pShm.m_iUsedSize + n
      m_addrMap := m } hn hpos rfl hroom (Nat.le_of_lt hmore) hsmall
    dsimp only
    rw [if_neg (by omega), hptr _ _ hlow (by dsimp only; omega)]
    unfold took
    dsimp only
    rw [if_neg (by omega)]
    exact hb

theorem At.gives (h : At start xs u) {t : PagePool} {off : Nat} (hg : Gives u.pool t xs xs' (off, n))
    : At start xs' ⟨t, (off, n) :: u.inUse⟩ := by
  have hshm := hg.within.shm
  refine ⟨hg.free, ?_, ?_, ?_, ?_, ?_, ?_, h.low, ?_⟩
  . intro x
    have hold := h.count x
    have hcount := hg.count x
    dsimp only
    rw [hshm, ← hold, count_append, count_append, count_cons, hcount]
    omega
  . intro p hp hnext
    obtain ⟨hpx, hsize⟩ := hg.kept p hp
    obtain ⟨hqx, _⟩ := hg.kept _ hnext
    have hpos : 0 < t.size p := (hg.free.units p hp).pos
    have hqpos : 0 < u.pool.size (p + t.size p) := (h.free.units _ hqx).pos
    have happ : p + u.pool.size p ≤ p + t.size p ∨ p + t.size p + u.pool.size (p + t.size p) ≤ p :=
      h.free.apart p hpx _ hqx (by omega)
    have heq : p + t.size p = p + u.pool.size p := by omega
    exact h.joined p hpx (heq ▸ hqx)
  . intro b hb
    have hu : u.pool.Units b := by
      rcases List.mem_cons.mp hb with rfl | hb
      . exact hg.units
      . exact h.units b hb
    refine hu.mono ?_
    unfold maxSize
    dsimp only
    rw [hshm]
  . intro a ha
    dsimp only at ha ⊢
    rw [hshm] at ha
    rw [hg.within.mem a, h.fresh a ha]
    intro b hb hba
    have hused := (h.used_of_within (List.mem_append_left _ hb) hba).2
    omega
  . dsimp only
    rw [hshm]
    exact h.valid
  . dsimp only
    rw [hshm]
    exact h.whole
  . dsimp only
    rw [hshm]
    exact h.start_le

theorem roundPageSize_spec (hpos : 0 < pagesize) (hmax : pagesize ≤ LSSHM_MAXSIZE)
    : roundPageSize pagesize % LSSHM_SHM_UNITSIZE = 0 ∧ 0 < roundPageSize pagesize ∧
      roundPageSize pagesize ≤ LSSHM_MAXSIZE := by
  unfold roundPageSize LSSHM_SHM_UNITSIZE LSSHM_MAXSIZE at *
  omega

theorem At.alloc (h : At start xs u) {env : LsShm.Env} (hok : Ok u (.alloc env pagesize))
    : Goes start xs u (step u (.alloc env pagesize)) ∧ Exact u (.alloc env pagesize) := by
  obtain ⟨hpos, hA⟩ := hok
  show Goes start xs u (took u (roundPageSize pagesize) (u.pool.allocPage env pagesize)) ∧
    KeepsData u (took u (roundPageSize pagesize) (u.pool.allocPage env pagesize)) u.inUse ∧ _
  by_cases hbad : 0x80000000 ≤ pagesize ∨ LSSHM_MAXSIZE < pagesize
  . have hsame : u.pool.allocPage env pagesize = (u.pool, 0) := if_pos hbad
    rw [hsame]
    refine ⟨⟨xs, h, .of_mem fun _ => id⟩, fun _ _ _ _ => rfl, fun hmax => ?_⟩
    unfold LSSHM_MAXSIZE at *
    omega
  . have hmax : pagesize ≤ LSSHM_MAXSIZE := by omega
    obtain ⟨hunit, hrpos, hrmax⟩ := roundPageSize_spec hpos hmax
    have hfree : u.freeBlocks = u.pool.blocks xs := by
      unfold freeBlocks
      rw [h.free.freeStarts_eq]
    show _ ∧ _ ∧ (_ → (∃ b ∈ u.freeBlocks, _) → _ ∧
      (took u (roundPageSize pagesize) (u.pool.allocPage env pagesize)).pool.m_pShm = _)
    unfold allocPage
    rw [if_neg hbad, hfree]
    dsimp only
    generalize roundPageSize pagesize = n at *
    rcases h.free.get hunit hrpos with ⟨hsmall, hnone⟩ | ⟨_, hne, xs', hgives⟩
    . rw [hnone, if_pos rfl]
      obtain ⟨hat, hkeeps⟩ := h.allocFromShm env hunit hrpos hrmax hA
      refine ⟨hat, hkeeps, fun _ hbig => ?_⟩
      obtain ⟨b, hb, hsize⟩ := hbig
      obtain ⟨p, hp, rfl⟩ := List.mem_map.mp hb
      exact absurd hsize (Nat.not_le.mpr (hsmall p hp))
    . rw [if_neg hne]
      refine ⟨⟨xs', ?_, hgives.marks⟩, ?_, fun _ _ => ⟨hne, hgives.within.shm⟩⟩
      . unfold took
        rw [if_neg hne]
        exact h.gives hgives
      . intro b hb a ha
        exact hgives.within.mem a fun c hc hca => h.not_free hb hc ha hca

end Alloc

theorem Inv.step (h : Inv start u) {op : PageOp} (hok : Ok u op) : Inv start (step u op) ∧ Exact u op := by
  obtain ⟨xs, hat⟩ := h
  cases op with
  | alloc env pagesize =>
    obtain ⟨⟨xs', hat', _⟩, hexact⟩ := hat.alloc hok
    exact ⟨⟨xs', hat'⟩, hexact⟩
  | release offset pagesize =>
    obtain ⟨⟨xs', hat', _⟩, hexact⟩ := hat.release hok
    exact ⟨⟨xs', hat'⟩, hexact⟩
  | write off v => exact ⟨⟨xs, hat.write hok⟩, trivial⟩

theorem At.init (hvalid : s.m_pShm.Valid) (hwhole : s.m_pShm.m_iUsedSize % LSSHM_SHM_UNITSIZE = 0)
    (hlow : LSSHM_SHM_UNITSIZE ≤ s.m_pShm.m_iUsedSize) (hlist : s.x_iFreePageList = 0) (hcnt : s.m_iGpFreeListCnt = 0)
    (hfresh : ∀ a, s.m_pShm.m_iUsedSize ≤ a → s.mem a = 0) : At s.m_pShm.m_iUsedSize [] ⟨s, []⟩ := by
  refine ⟨⟨⟨0, ?_⟩, ?_, ?_, ?_, ?_, ?_, hcnt, hvalid.lt⟩, ?_, ?_, ?_, hfresh, hvalid, hwhole, hlow, Nat.le_refl _⟩
  . rw [hlist]
    exact DList.empty
  . intro p hp
    cases hp
  . intro p hp
    cases hp
  . intro p hp
    cases hp
  . intro p hp
    cases hp
  . intro p hp
    cases hp
  . intro x
    rw [if_neg (by dsimp only; omega)]
    rfl
  . intro p hp
    cases hp
  . intro p hp
    cases hp

/--
In every run the free blocks and those that were handed out share the pages, free neighbours are joined, and data
stay where they are until their block comes back.
-/
theorem pages_exec (hvalid : s.m_pShm.Valid) (hwhole : s.m_pShm.m_iUsedSize % LSSHM_SHM_UNITSIZE = 0)
    (hlow : LSSHM_SHM_UNITSIZE ≤ s.m_pShm.m_iUsedSize) (hlist : s.x_iFreePageList = 0) (hcnt : s.m_iGpFreeListCnt = 0)
    (hfresh : ∀ a, s.m_pShm.m_iUsedSize ≤ a → s.mem a = 0) {ops : List PageOp} (hok : Meets step Ok ⟨s, []⟩ ops)
    : Sound s.m_pShm.m_iUsedSize (exec step ⟨s, []⟩ ops) ∧ Meets step Exact ⟨s, []⟩ ops := by
  have hinit : Inv s.m_pShm.m_iUsedSize ⟨s, []⟩ := ⟨[], At.init hvalid hwhole hlow hlist hcnt hfresh⟩
  constructor
  . obtain ⟨_, hat⟩ := exec_invariant (Inv s.m_pShm.m_iUsedSize) (fun _ _ h hop => (h.step hop).1) hinit hok
    exact hat.sound
  . exact Meets.of_invariant (Inv s.m_pShm.m_iUsedSize) (fun _ _ h hop => (h.step hop).1)
      (fun _ _ h hop => (h.step hop).2) hinit hok

def samplePool : PagePool where
  m_pShm := { m_iFileSize := 65536, m_iUsedSize := 1024, m_iMaxShmSize := 0, ready := true, m_addrMap := .new }
  mem := fun _ => 0
  x_iFreePageList := 0
  m_iGpFreeListCnt := 0

def sampleEnv : LsShm.Env where
  lock := true
  expandfile := true
  region := 0
  blocks := true

def sampleOps : List PageOp :=
  [.alloc sampleEnv 3000, .alloc sampleEnv 1024, .alloc sampleEnv 1024, .write 4096 7, .release 1024 3000,
    .release 5120 1024, .alloc sampleEnv 2048, .release 4096 1024, .alloc sampleEnv 3072, .release 2048 2048]

theorem pages_sample
    : Sound 1024 (exec step ⟨samplePool, []⟩ sampleOps) ∧ Meets step Exact ⟨samplePool, []⟩ sampleOps :=
  pages_exec (s := samplePool) ⟨by decide, by decide, by decide⟩ (by decide) (by decide) rfl rfl (fun _ _ => rfl)
    (by decide +kernel)

section Plain

def Plain (u : PageUse) : PageOp → Prop
  | .alloc _ pagesize => 0 < pagesize
  | .release offset pagesize => (offset, roundPageSize pagesize) ∈ u.inUse
  | .write off v => (∃ b ∈ u.inUse, Within b off) ∧ v ≠ LSSHM_FREE_AMARKER

instance (u : PageUse) (op : PageOp) : Decidable (Plain u op) :=
  match op with
  | .alloc _ _ => inferInstanceAs (Decidable (_ < _))
  | .release _ _ => inferInstanceAs (Decidable (_ ∈ _))
  | .write off _ => inferInstanceAs (Decidable ((∃ b ∈ u.inUse, Within b off) ∧ _))

/--
The marker is at the tops of the free blocks only.
-/
def Clean (start : Nat) (u : PageUse) : Prop :=
  ∃ xs, At start xs u ∧ ∀ a, u.pool.marker a = LSSHM_FREE_AMARKER → a ∈ xs

theorem Clean.ok (h : Clean start u) {op : PageOp} (hp : Plain u op) : Ok u op := by
  obtain ⟨xs, hat, hmark⟩ := h
  have hstarts := hat.free.freeStarts_eq
  cases op with
  | alloc env pagesize => exact ⟨hp, fun _ ha => hstarts ▸ hmark _ ha⟩
  | release offset pagesize => exact ⟨hp, fun _ ha => hstarts ▸ hmark _ ha, fun ha => hstarts ▸ hmark _ ha⟩
  | write off v => exact hp.1

theorem Goes.clean {v : PageUse} (h : Goes start xs u v) (hmark : ∀ a, u.pool.marker a = LSSHM_FREE_AMARKER → a ∈ xs)
    : Clean start v := by
  obtain ⟨xs', hat, hmarks⟩ := h
  refine ⟨xs', hat, fun a ha => ?_⟩
  rcases hmarks a ha with hin | ⟨hout, hold⟩
  . exact hin
  . exact absurd (hmark a hold) hout

theorem Clean.step (h : Clean start u) {op : PageOp} (hp : Plain u op) : Clean start (step u op) := by
  have hok := h.ok hp
  obtain ⟨xs, hat, hmark⟩ := h
  cases op with
  | alloc env pagesize => exact (hat.alloc hok).1.clean hmark
  | release offset pagesize => exact (hat.release hok).1.clean hmark
  | write off v => exact ⟨xs, hat.write hok, fun a ha => hmark a (update_marker hp.2 ha).2⟩

/--
What the pool itself leaves in the memory is never taken for a free block: only data can be.
-/
theorem plain_exec (hvalid : s.m_pShm.Valid) (hwhole : s.m_pShm.m_iUsedSize % LSSHM_SHM_UNITSIZE = 0)
    (hlow : LSSHM_SHM_UNITSIZE ≤ s.m_pShm.m_iUsedSize) (hlist : s.x_iFreePageList = 0) (hcnt : s.m_iGpFreeListCnt = 0)
    (hfresh : ∀ a, s.m_pShm.m_iUsedSize ≤ a → s.mem a = 0) (hmark : ∀ a, s.mem a ≠ LSSHM_FREE_AMARKER)
    {ops : List PageOp} (hplain : Meets step Plain ⟨s, []⟩ ops) : Meets step Ok ⟨s, []⟩ ops := by
  have hinit : Clean s.m_pShm.m_iUsedSize ⟨s, []⟩ := by
    refine ⟨[], At.init hvalid hwhole hlow hlist hcnt hfresh, fun a ha => absurd ha (hmark a)⟩
  exact Meets.of_invariant (Clean s.m_pShm.m_iUsedSize) (fun _ _ h hp => h.step hp) (fun _ _ h hp => h.ok hp) hinit hplain

theorem plain_sample : Meets step Ok ⟨samplePool, []⟩ sampleOps :=
  plain_exec (s := samplePool) ⟨by decide, by decide, by decide⟩ (by decide) (by decide) rfl rfl (fun _ _ => rfl)
    (fun _ => ne_marker rfl) (by decide +kernel)

end Plain

end PageUse

end Lsmcd
