import Lsmcd.Shm.PoolRep

/-!
What the operations of a pool do to its blocks.
-/

namespace Lsmcd

open Linked Cover

namespace LsShmPool

open LsShmPoolMap

variable {s : LsShmPool} {xs ys : Nat → List Nat} {fr : List (Nat × Nat)} {off size : Nat}

def parentFree (s : LsShmPool) (ys : Nat → List Nat) : List (Nat × Nat) :=
  match s.m_pParent with
  | none => []
  | some p => p.free ys

def parts (s : LsShmPool) (xs ys : Nat → List Nat) : List (Nat × Nat) :=
  s.dataMap.free xs ++ s.parentFree ys

/--
The free blocks of the pool and of its parent and the other blocks `fr` hold every address of the pages
once and no other one.
-/
structure Inv (s : LsShmPool) (xs ys : Nat → List Nat) (fr : List (Nat × Nat)) : Prop where
  rep : s.dataMap.Rep s.m_pShm.word xs
  parent : ∀ p, s.m_pParent = some p → p.Rep s.m_pShm.word ys
  tiles : ∀ x, count (s.parts xs ys ++ fr) x = count s.m_pShm.pages x

theorem Inv.count_le (h : Inv s xs ys fr) (x : Nat) : count (s.parts xs ys ++ fr) x ≤ 1 := by
  rw [h.tiles]
  exact s.m_pShm.count_pages_le x

theorem Inv.range (h : Inv s xs ys fr) {b : Nat × Nat} {o : Nat} (hb : b ∈ s.parts xs ys ++ fr)
    (ho : Within b o) : sizeofShmMapHdr ≤ o ∧ o < s.m_pShm.m_iFileSize := by
  have hpos := count_pos_of_mem hb ho
  rw [h.tiles] at hpos
  obtain ⟨c, hc, hoc⟩ := count_pos_iff.mp hpos
  exact PoolShm.range_of_within hc hoc

theorem Inv.apart {b : Nat × Nat} (h : Inv s xs ys (b :: fr)) {o : Nat} (ho : Within b o)
    : (∀ c ∈ s.parts xs ys, ¬ Within c o) ∧ ∀ c ∈ fr, ¬ Within c o := by
  have hone := h.count_le o
  rw [count_append, count_cons, count_singleton, if_pos ho] at hone
  constructor
  . intro c hc hco
    have hpos := count_pos_of_mem hc hco
    omega
  . intro c hc hco
    have hpos := count_pos_of_mem hc hco
    omega

theorem Inv.ptr (h : Inv s xs ys fr) {b : Nat × Nat} {o : Nat} (hb : b ∈ s.parts xs ys ++ fr)
    (ho : Within b o) : ∃ p, s.m_pShm.offset2ptr o = some p := by
  obtain ⟨hlo, hhi⟩ := h.range hb ho
  exact PoolShm.offset2ptr_isSome hlo hhi

theorem mem_parts_bucket {b : Nat} (hb : b < LSSHM_POOL_NUMBUCKET) {y : Nat} (hy : y ∈ xs b)
    : (y, LSSHM_POOL_BCKTINCR * b) ∈ s.parts xs ys :=
  List.mem_append_left _ (List.mem_cons_of_mem _ (mem_inBuckets hb hy))

theorem Inv.head_valid (h : Inv s xs ys fr) (hpos : 0 < s.m_pShm.m_iFileSize) {b : Nat}
    (hb : b < LSSHM_POOL_NUMBUCKET) : s.m_pShm.isOffsetValid (s.dataMap.x_aFreeBucket b) = true := by
  apply PoolShm.isOffsetValid_of_le hpos
  have hc := h.rep.chain b hb
  cases hx : xs b with
  | nil =>
    rw [hx] at hc
    rw [show s.dataMap.x_aFreeBucket b = 0 from hc]
    exact Nat.zero_le _
  | cons y l =>
    rw [hx] at hc
    have hmem : y ∈ xs b := by
      rw [hx]
      exact List.mem_cons_self
    rw [hc.1]
    exact Nat.le_of_lt (h.range (List.mem_append_left fr (mem_parts_bucket hb hmem)) (h.rep.within hmem)).2

theorem Inv.parent_update (h : Inv s xs ys fr) (hout : ∀ c ∈ s.parts xs ys, ¬ Within c off) (v : Nat)
    : ∀ p, s.m_pParent = some p → p.Rep (Function.update s.m_pShm.word off v) ys := by
  intro p hp
  apply (h.parent p hp).update_out
  intro c hc
  apply hout c
  apply List.mem_append_right
  unfold parentFree
  rw [hp]
  exact hc

theorem count_parts (s : LsShmPool) (xs ys : Nat → List Nat) (x : Nat)
    : count (s.parts xs ys) x =
      count [(s.dataMap.x_iStart, s.dataMap.x_iEnd - s.dataMap.x_iStart)] x + count (inBuckets xs) x +
        count (s.parentFree ys) x := by
  unfold parts
  rw [count_append, count_free]

theorem bucket_of_size (hmod : size % LSSHM_POOL_UNITSIZE = 0)
    : LSSHM_POOL_BCKTINCR * dataSize2Bucket size = size := by
  unfold LSSHM_POOL_UNITSIZE at hmod
  unfold LSSHM_POOL_BCKTINCR dataSize2Bucket LSSHM_POOL_BCKTINCR
  omega

theorem bucket_lt (hlt : size < LSSHM_POOL_MAXBCKTSIZE) : dataSize2Bucket size < LSSHM_POOL_NUMBUCKET := by
  unfold LSSHM_POOL_MAXBCKTSIZE LSSHM_POOL_NUMBUCKET LSSHM_POOL_BCKTINCR at hlt
  unfold dataSize2Bucket LSSHM_POOL_NUMBUCKET LSSHM_POOL_BCKTINCR
  omega

theorem Inv.releaseData (h : Inv s xs ys ((off, size) :: fr)) (hpos : 0 < size)
    (hlt : size < LSSHM_POOL_MAXBCKTSIZE) (hmod : size % LSSHM_POOL_UNITSIZE = 0)
    : Inv (s.releaseData off size)
        (Function.update xs (dataSize2Bucket size) (off :: xs (dataSize2Bucket size))) ys fr ∧
      PoolShm.Keeps s.m_pShm (s.releaseData off size).m_pShm fr ∧
      (s.releaseData off size).m_pShm.pages = s.m_pShm.pages := by
  have hin : Within (off, size) off := by
    unfold Within
    dsimp only
    omega
  have hmem : (off, size) ∈ s.parts xs ys ++ (off, size) :: fr :=
    List.mem_append_right _ List.mem_cons_self
  obtain ⟨hlo, hhi⟩ := h.range hmem hin
  obtain ⟨p, hp⟩ := h.ptr hmem hin
  obtain ⟨hparts, hfr⟩ := h.apart hin
  have hfile : 0 < s.m_pShm.m_iFileSize := Nat.lt_of_le_of_lt (Nat.zero_le _) hhi
  have hb := bucket_lt hlt
  have hsize := bucket_of_size hmod
  have heq : s.releaseData off size =
      (s.write p (s.dataMap.x_aFreeBucket (dataSize2Bucket size))).setBucket (dataSize2Bucket size) off := by
    unfold LsShmPool.releaseData
    rw [if_neg (Nat.not_le.mpr hlt)]
    dsimp only
    rw [hp]
    dsimp only
    rw [PoolShm.isOffsetValid_of_le hfile (Nat.le_of_lt hhi), h.head_valid hfile hb]
    rfl
  have hword : (s.releaseData off size).m_pShm.word =
      Function.update s.m_pShm.word off (s.dataMap.x_aFreeBucket (dataSize2Bucket size)) := by
    rw [heq]
    exact PoolShm.word_write hp _
  have hne : dataSize2Bucket size ≠ 0 := by
    intro hz
    rw [hz] at hsize
    omega
  refine ⟨⟨?_, ?_, ?_⟩, ?_, ?_⟩
  . rw [hword, heq]
    refine h.rep.push hb hne ?_ fun c hc => hparts c (List.mem_append_left _ hc)
    unfold sizeofShmMapHdr at hlo
    omega
  . rw [hword]
    have hparent : (s.releaseData off size).m_pParent = s.m_pParent := by
      rw [heq]
      rfl
    rw [hparent]
    exact h.parent_update hparts _
  . intro x
    have htiles := h.tiles x
    have hup := @count_inBuckets_update xs _ hb (off :: xs (dataSize2Bucket size)) x
    rw [count_blocks_cons, hsize] at hup
    have hsame : (s.releaseData off size).m_pShm.pages = s.m_pShm.pages ∧
        count ((s.releaseData off size).parts
          (Function.update xs (dataSize2Bucket size) (off :: xs (dataSize2Bucket size))) ys) x =
        count [(s.dataMap.x_iStart, s.dataMap.x_iEnd - s.dataMap.x_iStart)] x +
          count (inBuckets (Function.update xs (dataSize2Bucket size) (off :: xs (dataSize2Bucket size)))) x +
          count (s.parentFree ys) x := by
      rw [heq]
      exact ⟨rfl, count_parts ..⟩
    rw [hsame.1, count_append, hsame.2]
    rw [count_append, count_cons, count_parts] at htiles
    omega
  . rw [heq]
    exact PoolShm.keeps_write hp _ hfr
  . rw [heq]
    rfl

theorem Inv.takeChunk (h : Inv s xs ys fr) {n : Nat} (hn : s.dataMap.x_iStart + n ≤ s.dataMap.x_iEnd)
    (hmod : n % LSSHM_POOL_UNITSIZE = 0)
    : Inv (s.setChunk (s.dataMap.x_iStart + n) s.dataMap.x_iEnd) xs ys ((s.dataMap.x_iStart, n) :: fr) where
  rep := by
    have haligned := h.rep.aligned
    refine ⟨h.rep.chain, h.rep.zero, hn, ?_, h.rep.freeList⟩
    show (s.dataMap.x_iEnd - (s.dataMap.x_iStart + n)) % LSSHM_POOL_UNITSIZE = 0
    unfold LSSHM_POOL_UNITSIZE at *
    omega
  parent := h.parent
  tiles x := by
    have htiles := h.tiles x
    have hsplit := count_split s.dataMap.x_iStart n (s.dataMap.x_iEnd - (s.dataMap.x_iStart + n)) x
    rw [show n + (s.dataMap.x_iEnd - (s.dataMap.x_iStart + n)) = s.dataMap.x_iEnd - s.dataMap.x_iStart by
      omega] at hsplit
    rw [count_append, count_parts] at htiles
    rw [count_append, count_cons, count_parts]
    show count [(s.dataMap.x_iStart + n, s.dataMap.x_iEnd - (s.dataMap.x_iStart + n))] x +
      count (inBuckets xs) x + count (s.parentFree ys) x + _ = count s.m_pShm.pages x
    omega

theorem Inv.giveChunk {n : Nat} (h : Inv s xs ys ((off, n) :: fr))
    (hempty : s.dataMap.x_iStart = s.dataMap.x_iEnd) (hmod : n % LSSHM_POOL_UNITSIZE = 0)
    : Inv (s.setChunk off (off + n)) xs ys fr where
  rep := by
    refine ⟨h.rep.chain, h.rep.zero, Nat.le_add_right .., ?_, h.rep.freeList⟩
    show (off + n - off) % LSSHM_POOL_UNITSIZE = 0
    rw [Nat.add_sub_cancel_left]
    exact hmod
  parent := h.parent
  tiles x := by
    have htiles := h.tiles x
    rw [count_append, count_cons, count_parts, hempty, Nat.sub_self, count_empty] at htiles
    rw [count_append, count_parts]
    show count [(off, off + n - off)] x + count (inBuckets xs) x + count (s.parentFree ys) x + _ =
      count s.m_pShm.pages x
    rw [Nat.add_sub_cancel_left]
    omega

theorem Inv.unchanged {m : PoolShm} (h : Inv s xs ys fr) (hm : PoolShm.Unchanged s.m_pShm m)
    : Inv (s.setShm m) xs ys fr where
  rep := by
    show s.dataMap.Rep m.word xs
    rw [hm.word]
    exact h.rep
  parent := by
    show ∀ p, s.m_pParent = some p → p.Rep m.word ys
    rw [hm.word]
    exact h.parent
  tiles x := by
    show _ = count m.pages x
    rw [hm.pages]
    exact h.tiles x

theorem Inv.keeps_all {m : PoolShm} (h : Inv s xs ys fr) (hk : PoolShm.Keeps s.m_pShm m s.m_pShm.pages)
    : PoolShm.Keeps s.m_pShm m (s.parts xs ys ++ fr) := by
  intro b hb o ho
  have hpos := count_pos_of_mem hb ho
  rw [h.tiles] at hpos
  obtain ⟨c, hc, hco⟩ := count_pos_iff.mp hpos
  exact hk c hc o hco

theorem Inv.obtains {m : PoolShm} {n : Nat} (h : Inv s xs ys fr) (ho : PoolShm.Obtains s.m_pShm m off n)
    : Inv (s.setShm m) xs ys ((off, n) :: fr) ∧ PoolShm.Keeps s.m_pShm m fr := by
  have hkeeps := h.keeps_all ho.keeps
  refine ⟨⟨?_, ?_, ?_⟩, hkeeps.mono fun b hb => List.mem_append_right _ hb⟩
  . exact h.rep.congr fun c hc =>
      hkeeps c (List.mem_append_left _ (List.mem_append_left _ hc))
  . intro p hp
    refine (h.parent p hp).congr fun c hc => hkeeps c (List.mem_append_left _ (List.mem_append_right _ ?_))
    unfold parentFree
    rw [show s.m_pParent = some p from hp]
    exact hc
  . intro x
    have htiles := h.tiles x
    show count (s.parts xs ys ++ (off, n) :: fr) x = count m.pages x
    rw [ho.pages, count_append, count_cons, count_cons (off, n) s.m_pShm.pages]
    rw [count_append] at htiles
    omega

def pagesNeeded (size num : Nat) : Nat :=
  if roundPageSize (size * num) < LSSHM_SHM_UNITSIZE then LSSHM_SHM_UNITSIZE else roundPageSize (size * num)

theorem le_pagesNeeded (size num : Nat) : size * num ≤ pagesNeeded size num := by
  unfold pagesNeeded roundPageSize LSSHM_SHM_UNITSIZE
  split <;> omega

theorem round_pagesNeeded (size num : Nat) : roundPageSize (pagesNeeded size num) = pagesNeeded size num := by
  unfold pagesNeeded roundPageSize LSSHM_SHM_UNITSIZE
  split <;> omega

theorem aligned_pagesNeeded (size num : Nat) : pagesNeeded size num % LSSHM_POOL_UNITSIZE = 0 := by
  unfold pagesNeeded roundPageSize LSSHM_SHM_UNITSIZE LSSHM_POOL_UNITSIZE
  split <;> omega

def avail (s : LsShmPool) : Nat :=
  s.dataMap.x_iEnd - s.dataMap.x_iStart

/--
The blocks that are cut off the chunk, after new pages have come if there is no room for one: where
they start and how many they are. `none` when no pages can be had.
-/
def chunkBatch (s : LsShmPool) (size num : Nat) : Option (Nat × Nat) :=
  if s.avail / size ≠ 0 then some (s.dataMap.x_iStart, min (s.avail / size) num)
  else
    let offset := (s.m_pShm.allocPage (pagesNeeded size num)).2
    if offset = 0 then none
    else if s.avail ≠ 0 ∧ s.dataMap.x_iStart + s.avail = offset then some (s.dataMap.x_iStart, num)
    else some (offset, num)

theorem allocFromDataChunk_room {num : Nat} (hsize : 0 < size) (hnum : 0 < num) (h : size * num ≤ s.avail)
    (fuel : Nat)
    : s.allocFromDataChunk size num (fuel + 1) =
      (s.setChunk (s.dataMap.x_iStart + size * num) s.dataMap.x_iEnd, s.dataMap.x_iStart, num) := by
  have hle : num ≤ s.avail / size := (Nat.le_div_iff_mul_le hsize).mpr (by rw [Nat.mul_comm]; exact h)
  unfold allocFromDataChunk
  dsimp only
  change (if s.avail / size ≠ 0 then _ else _) = _
  rw [if_pos (by omega)]
  change (s.setChunk (s.dataMap.x_iStart + size * (if s.avail / size < num then s.avail / size else num)) _, _,
    (if s.avail / size < num then s.avail / size else num)) = _
  rw [if_neg (by omega)]


theorem Inv.of_count {gr : List (Nat × Nat)} (h : Inv s xs ys fr) (hcount : ∀ x, count gr x = count fr x)
    : Inv s xs ys gr where
  rep := h.rep
  parent := h.parent
  tiles x := by
    rw [count_append, hcount, ← count_append]
    exact h.tiles x

theorem chunk_releaseData (s : LsShmPool) (off : Nat) (hlt : size < LSSHM_POOL_MAXBCKTSIZE)
    : (s.releaseData off size).dataMap.x_iStart = s.dataMap.x_iStart ∧
      (s.releaseData off size).dataMap.x_iEnd = s.dataMap.x_iEnd := by
  unfold LsShmPool.releaseData
  rw [if_neg (Nat.not_le.mpr hlt)]
  dsimp only
  split
  . exact ⟨rfl, rfl⟩
  . split
    . exact ⟨rfl, rfl⟩
    . split
      . exact ⟨rfl, rfl⟩
      . exact ⟨rfl, rfl⟩

def refilled (s : LsShmPool) (size num : Nat) : LsShmPool :=
  let r := s.m_pShm.allocPage (pagesNeeded size num)
  let t := (s.setChunk (s.dataMap.x_iStart + s.avail) s.dataMap.x_iEnd).setShm r.1
  if (if s.avail ≠ 0 then s.dataMap.x_iStart else 0) ≠ 0 then
    if (if s.avail ≠ 0 then s.dataMap.x_iStart else 0) + s.avail = r.2 then
      t.setChunk (if s.avail ≠ 0 then s.dataMap.x_iStart else 0)
        ((if s.avail ≠ 0 then s.dataMap.x_iStart else 0) + (pagesNeeded size num + s.avail))
    else (t.releaseData (if s.avail ≠ 0 then s.dataMap.x_iStart else 0) s.avail).setChunk r.2
      (r.2 + pagesNeeded size num)
  else t.setChunk r.2 (r.2 + pagesNeeded size num)

theorem allocFromDataChunk_refill {num : Nat} (h : s.avail / size = 0)
    : s.allocFromDataChunk size num 2 =
      if (s.m_pShm.allocPage (pagesNeeded size num)).2 = 0 then
        ((s.setChunk (s.dataMap.x_iStart + s.avail) s.dataMap.x_iEnd).setShm
          (s.m_pShm.allocPage (pagesNeeded size num)).1, 0, 0)
      else (s.refilled size num).allocFromDataChunk size num 1 := by
  rw [LsShmPool.allocFromDataChunk]
  change (if s.avail / size ≠ 0 then _ else _) = _
  rw [if_neg (not_not.mpr h)]
  rfl

theorem Inv.start_ne (h : Inv s xs ys fr) (hav : s.avail ≠ 0) : s.dataMap.x_iStart ≠ 0 := by
  have hin : Within (s.dataMap.x_iStart, s.dataMap.x_iEnd - s.dataMap.x_iStart) s.dataMap.x_iStart := by
    unfold avail at hav
    unfold Within
    dsimp only
    omega
  have hr := h.range (List.mem_append_left _ (List.mem_append_left _ List.mem_cons_self)) hin
  unfold sizeofShmMapHdr at hr
  omega

theorem Inv.refilled {num : Nat} (h : Inv s xs ys fr) (hpos : 0 < size) (hlt : size < LSSHM_POOL_MAXBCKTSIZE)
    (hmod : size % LSSHM_POOL_UNITSIZE = 0) (hroom : s.avail / size = 0)
    (hpage : (s.m_pShm.allocPage (pagesNeeded size num)).2 ≠ 0)
    : (∃ xs', xs' (dataSize2Bucket size) = xs (dataSize2Bucket size) ∧ Inv (s.refilled size num) xs' ys fr) ∧
      PoolShm.Keeps s.m_pShm (s.refilled size num).m_pShm fr ∧
      pagesNeeded size num ≤ (s.refilled size num).avail ∧
      (s.refilled size num).dataMap.x_iStart =
        if s.avail ≠ 0 ∧ s.dataMap.x_iStart + s.avail = (s.m_pShm.allocPage (pagesNeeded size num)).2
        then s.dataMap.x_iStart else (s.m_pShm.allocPage (pagesNeeded size num)).2 := by
  have hle := h.rep.le
  have haligned : s.avail % LSSHM_POOL_UNITSIZE = 0 := h.rep.aligned
  have hneeded := aligned_pagesNeeded size num
  have hend : s.dataMap.x_iStart + s.avail = s.dataMap.x_iEnd := by
    unfold avail
    omega
  have hob : PoolShm.Obtains s.m_pShm (s.m_pShm.allocPage (pagesNeeded size num)).1
      (s.m_pShm.allocPage (pagesNeeded size num)).2 (pagesNeeded size num) := by
    rcases PoolShm.allocPage_cases s.m_pShm (pagesNeeded size num) with ⟨hz, -⟩ | hob
    . exact absurd hz hpage
    . rw [round_pagesNeeded] at hob
      exact hob
  -- what is left is cut off the chunk, which is empty then
  obtain ⟨h2, hk2⟩ := (h.takeChunk (Nat.le_of_eq hend) haligned).obtains hob
  have hk := hk2.mono fun b hb => List.mem_cons_of_mem _ hb
  unfold LsShmPool.refilled
  dsimp only
  generalize hoff : (s.m_pShm.allocPage (pagesNeeded size num)).2 = o at *
  generalize (s.m_pShm.allocPage (pagesNeeded size num)).1 = m at *
  generalize pagesNeeded size num = needed at *
  by_cases hav : s.avail = 0
  . rw [if_neg (not_not.mpr hav), if_neg (not_not.mpr rfl), if_neg fun hc => hc.1 hav]
    refine ⟨⟨xs, rfl, Inv.giveChunk (Inv.of_count h2 fun x => ?_) hend hneeded⟩, hk, ?_, rfl⟩
    . have hzero := count_empty s.dataMap.x_iStart x
      rw [hav, count_cons, count_pair, hzero, Nat.add_zero]
    . show needed ≤ o + needed - o
      omega
  . have hstart := h.start_ne hav
    have hsmall : s.avail < size := Nat.lt_of_div_eq_zero hpos hroom
    rw [if_pos hav, if_pos hstart]
    by_cases hmerge : s.dataMap.x_iStart + s.avail = o
    . rw [if_pos hmerge, if_pos ⟨hav, hmerge⟩]
      refine ⟨⟨xs, rfl, Inv.giveChunk (Inv.of_count h2 fun x => ?_) hend ?_⟩, hk, ?_, rfl⟩
      . have hsplit := count_split s.dataMap.x_iStart s.avail needed x
        rw [hmerge] at hsplit
        rw [Nat.add_comm needed, count_cons, hsplit, count_pair]
        omega
      . unfold LSSHM_POOL_UNITSIZE at *
        omega
      . show needed ≤ s.dataMap.x_iStart + (needed + s.avail) - s.dataMap.x_iStart
        omega
    . rw [if_neg hmerge, if_neg fun hc => hmerge hc.2]
      have hswap := @Inv.of_count _ _ _ _ ((s.dataMap.x_iStart, s.avail) :: (o, needed) :: fr) h2 fun x => by
        rw [count_pair, count_pair]
        omega
      obtain ⟨h3, hk3, -⟩ := hswap.releaseData (Nat.pos_of_ne_zero hav) (Nat.lt_trans hsmall hlt) haligned
      obtain ⟨hst, hen⟩ := chunk_releaseData
        ((s.setChunk (s.dataMap.x_iStart + s.avail) s.dataMap.x_iEnd).setShm m) s.dataMap.x_iStart
        (Nat.lt_trans hsmall hlt)
      refine ⟨⟨_, ?_, Inv.giveChunk h3 ?_ hneeded⟩, ?_, ?_, rfl⟩
      . rw [Function.update_of_ne]
        unfold dataSize2Bucket LSSHM_POOL_BCKTINCR
        unfold LSSHM_POOL_UNITSIZE at hmod haligned
        omega
      . rw [hst, hen]
        exact hend
      . exact hk.trans (hk3.mono fun b hb => List.mem_cons_of_mem _ hb)
      . show needed ≤ o + needed - o
        omega


theorem aligned_mul (hmod : size % LSSHM_POOL_UNITSIZE = 0) (n : Nat)
    : size * n % LSSHM_POOL_UNITSIZE = 0 :=
  Nat.mod_eq_zero_of_dvd (Nat.dvd_mul_right_of_dvd (Nat.dvd_of_mod_eq_zero hmod) n)

theorem Inv.chunk {num o k : Nat} (h : Inv s xs ys fr) (hpos : 0 < size)
    (hlt : size < LSSHM_POOL_MAXBCKTSIZE) (hmod : size % LSSHM_POOL_UNITSIZE = 0) (hnum : 0 < num)
    (hb : s.chunkBatch size num = some (o, k))
    : (s.allocFromDataChunk size num 2).2 = (o, k) ∧ 0 < k ∧ k ≤ num ∧
      (∃ xs', xs' (dataSize2Bucket size) = xs (dataSize2Bucket size) ∧
        Inv (s.allocFromDataChunk size num 2).1 xs' ys ((o, size * k) :: fr)) ∧
      PoolShm.Keeps s.m_pShm (s.allocFromDataChunk size num 2).1.m_pShm fr := by
  have hle := h.rep.le
  unfold chunkBatch at hb
  by_cases hroom : s.avail / size = 0
  . rw [if_neg (not_not.mpr hroom)] at hb
    dsimp only at hb
    split at hb
    . cases hb
    rename_i hpage
    obtain ⟨⟨xs', hxs, h'⟩, hk, hav, hstart⟩ := h.refilled hpos hlt hmod hroom hpage
    have hfit : size * num ≤ (s.refilled size num).avail := Nat.le_trans (le_pagesNeeded size num) hav
    rw [allocFromDataChunk_refill hroom, if_neg hpage, allocFromDataChunk_room hpos hnum hfit 0]
    have hok : (o, k) = ((s.refilled size num).dataMap.x_iStart, num) := by
      rw [hstart]
      split at hb
      . rename_i hmerge
        rw [if_pos hmerge]
        exact (Option.some.inj hb).symm
      . rename_i hmerge
        rw [if_neg hmerge]
        exact (Option.some.inj hb).symm
    obtain ⟨rfl, rfl⟩ := Prod.mk.inj hok
    refine ⟨rfl, hnum, Nat.le_refl _, ⟨xs', hxs, ?_⟩, hk⟩
    refine h'.takeChunk ?_ (aligned_mul hmod _)
    have hle' := h'.rep.le
    unfold avail at hfit
    omega
  . rw [if_pos hroom] at hb
    obtain ⟨rfl, rfl⟩ := Prod.mk.inj (Option.some.inj hb)
    have hcut : size * min (s.avail / size) num ≤ s.avail :=
      Nat.le_trans (Nat.mul_le_mul_left size (Nat.min_le_left _ _)) (Nat.mul_div_le _ _)
    have heq : s.allocFromDataChunk size num 2 =
        (s.setChunk (s.dataMap.x_iStart + size * min (s.avail / size) num) s.dataMap.x_iEnd,
          s.dataMap.x_iStart, min (s.avail / size) num) := by
      have hmin : (if s.avail / size < num then s.avail / size else num) = min (s.avail / size) num := by
        split <;> omega
      rw [LsShmPool.allocFromDataChunk, ← hmin]
      exact if_pos hroom
    rw [heq]
    refine ⟨rfl, Nat.lt_min.mpr ⟨Nat.pos_of_ne_zero hroom, hnum⟩, Nat.min_le_right _ _, ⟨xs, rfl, ?_⟩, .refl _ _⟩
    refine h.takeChunk ?_ (aligned_mul hmod _)
    unfold avail at hcut
    unfold avail
    omega

theorem chunk_of_batch_none {num : Nat} (hb : s.chunkBatch size num = none)
    : s.allocFromDataChunk size num 2 =
        ((s.setChunk (s.dataMap.x_iStart + s.avail) s.dataMap.x_iEnd).setShm
          (s.m_pShm.allocPage (pagesNeeded size num)).1, 0, 0) ∧
      PoolShm.Unchanged s.m_pShm (s.m_pShm.allocPage (pagesNeeded size num)).1 := by
  unfold chunkBatch at hb
  split at hb
  . cases hb
  rename_i hroom
  dsimp only at hb
  split at hb
  . rename_i hpage
    rw [allocFromDataChunk_refill (not_not.mp hroom), if_pos hpage]
    rcases PoolShm.allocPage_cases s.m_pShm (pagesNeeded size num) with ⟨-, hun⟩ | hob
    . exact ⟨rfl, hun⟩
    . exact absurd hpage hob.ne
  . split at hb <;> cases hb

theorem Inv.chunk_none {num : Nat} (h : Inv s xs ys fr) (hb : s.chunkBatch size num = none)
    : (s.allocFromDataChunk size num 2).2 = (0, 0) ∧
      Inv (s.allocFromDataChunk size num 2).1 xs ys ((s.dataMap.x_iStart, s.avail) :: fr) ∧
      PoolShm.Keeps s.m_pShm (s.allocFromDataChunk size num 2).1.m_pShm fr := by
  have hle := h.rep.le
  have hend : s.dataMap.x_iStart + s.avail = s.dataMap.x_iEnd := by
    unfold avail
    omega
  obtain ⟨heq, hun⟩ := chunk_of_batch_none hb
  rw [heq]
  refine ⟨rfl, Inv.unchanged (h.takeChunk (Nat.le_of_eq hend) h.rep.aligned) hun, ?_⟩
  intro b _ o _
  exact congrFun hun.word o

def batch (o size : Nat) : Nat → List Nat
  | 0 => []
  | n + 1 => o :: batch (o + size) size n

theorem mem_batch {o size n y : Nat} (h : y ∈ batch o size n) : o ≤ y ∧ y + size ≤ o + size * n := by
  induction n generalizing o with
  | zero => cases h
  | succ n ih =>
    rw [Nat.mul_succ]
    rcases List.mem_cons.mp h with rfl | h
    . omega
    . have hrest := ih h
      omega

theorem count_batch (o size n x : Nat)
    : count ((batch o size n).map fun y => (y, size)) x = count [(o, size * n)] x := by
  induction n generalizing o with
  | zero =>
    rw [Nat.mul_zero, count_empty]
    rfl
  | succ n ih =>
    rw [batch, List.map_cons, count_cons, ih, Nat.mul_succ, Nat.add_comm (size * n), count_split]

def Contiguous (m : PoolShm) (o size n : Nat) : Prop :=
  ∀ k, k < n → m.offset2ptr (o + size * k) = (m.offset2ptr o).map (· + size * k)

instance (m : PoolShm) (o size n : Nat) : Decidable (Contiguous m o size n) :=
  inferInstanceAs (Decidable (∀ k, k < n → _))

structure Threaded (s t : LsShmPool) (xoffset size n : Nat) : Prop where
  dataMap : t.dataMap = s.dataMap
  parent : t.m_pParent = s.m_pParent
  pages : t.m_pShm.pages = s.m_pShm.pages
  chain : Chain t.m_pShm.word 0 (if n ≠ 0 then xoffset else 0) (batch xoffset size n)
  other : ∀ o, o ∉ batch xoffset size n → t.m_pShm.word o = s.m_pShm.word o

theorem thread_spec (n : Nat) (s : LsShmPool) (xp xoffset : Nat) (hsize : 0 < size) (hne : xoffset ≠ 0)
    (hptr : ∀ k, k < n → s.m_pShm.offset2ptr (xoffset + size * k) = some (xp + size + size * k))
    (hvalid : ∀ k, k < n → s.m_pShm.isOffsetValid (xoffset + size + size * k) = true)
    : (s.thread size n xp xoffset).2 = true ∧ Threaded s (s.thread size n xp xoffset).1 xoffset size n := by
  induction n generalizing s xp xoffset with
  | zero => exact ⟨rfl, rfl, rfl, rfl, rfl, fun _ _ => rfl⟩
  | succ n ih =>
    have hp0 : s.m_pShm.offset2ptr xoffset = some (xp + size) := hptr 0 (Nat.succ_pos n)
    have hv0 : s.m_pShm.isOffsetValid (xoffset + size) = true := hvalid 0 (Nat.succ_pos n)
    have hword := PoolShm.word_write hp0 (if n ≠ 0 then xoffset + size else 0)
    obtain ⟨hok, ht⟩ := ih (s.write (xp + size) (if n ≠ 0 then xoffset + size else 0)) (xp + size) (xoffset + size)
      (by omega)
      (fun k hk => by
        have hpk := hptr (k + 1) (by omega)
        rw [Nat.mul_succ, Nat.add_comm (size * k), ← Nat.add_assoc, ← Nat.add_assoc] at hpk
        exact hpk)
      (fun k hk => by
        have hvk := hvalid (k + 1) (by omega)
        rw [Nat.mul_succ, Nat.add_comm (size * k), ← Nat.add_assoc] at hvk
        exact hvk)
    have hstep : s.thread size (n + 1) xp xoffset =
        (s.write (xp + size) (if n ≠ 0 then xoffset + size else 0)).thread size n (xp + size) (xoffset + size) := by
      rw [thread, hv0]
      rfl
    rw [hstep]
    have hnot : xoffset ∉ batch (xoffset + size) size n := by
      intro hmem
      have hlow := (mem_batch hmem).1
      omega
    refine ⟨hok, ht.dataMap, ht.parent, ht.pages, ?_, ?_⟩
    . rw [if_pos (Nat.succ_ne_zero n)]
      refine ⟨rfl, hne, ?_⟩
      rw [ht.other xoffset hnot]
      have hlink : (s.write (xp + size) (if n ≠ 0 then xoffset + size else 0)).m_pShm.word xoffset =
          if n ≠ 0 then xoffset + size else 0 := by
        show (s.m_pShm.write _ _).word xoffset = _
        rw [hword, Function.update_self]
      rw [hlink]
      exact ht.chain
    . intro o ho
      rw [batch, List.mem_cons, not_or] at ho
      rw [ht.other o ho.2]
      show (s.m_pShm.write _ _).word o = _
      rw [hword, Function.update_of_ne ho.1]


theorem Inv.thread {o k b : Nat} (h : Inv s xs ys ((o, size * k) :: fr)) (hk : 0 < k) (hpos : 0 < size)
    (hb : b < LSSHM_POOL_NUMBUCKET) (hsize : LSSHM_POOL_BCKTINCR * b = size) (hx : xs b = [])
    (hcont : Contiguous s.m_pShm o size k) :
    let t := if k - 1 ≠ 0 then s.setBucket b (o + size) else s
    let r := t.thread size (k - 1) ((s.m_pShm.offset2ptr (o + (k - 1) * size)).getD 0 - (k - 1) * size) (o + size)
    r.2 = true ∧ (k - 1 ≠ 0 → s.m_pShm.isOffsetValid (o + size) = true) ∧
      Inv r.1 (Function.update xs b (batch (o + size) size (k - 1))) ys ((o, size) :: fr) ∧
      PoolShm.Keeps s.m_pShm r.1.m_pShm fr := by
  intro t r
  have htm : t.m_pShm = s.m_pShm := by
    show (if k - 1 ≠ 0 then s.setBucket b (o + size) else s).m_pShm = _
    split <;> rfl
  have htp : t.m_pParent = s.m_pParent := by
    show (if k - 1 ≠ 0 then s.setBucket b (o + size) else s).m_pParent = _
    split <;> rfl
  have hne : b ≠ 0 := by
    rintro rfl
    omega
  have hmap : t.dataMap = { s.dataMap with
      x_aFreeBucket := Function.update s.dataMap.x_aFreeBucket b (if k - 1 ≠ 0 then o + size else 0) } := by
    have hempty : s.dataMap.x_aFreeBucket b = 0 := by
      have hc := h.rep.chain b hb
      rw [hx] at hc
      exact hc
    show (if k - 1 ≠ 0 then s.setBucket b (o + size) else s).dataMap = _
    split
    . rfl
    . rw [← hempty, Function.update_eq_self]
  have hle : size ≤ size * k := Nat.le_mul_of_pos_right size hk
  have hall : ∀ y, o ≤ y → y < o + size * k → Within (o, size * k) y := fun y h1 h2 => ⟨h1, h2⟩
  have hmem : (o, size * k) ∈ s.parts xs ys ++ (o, size * k) :: fr :=
    List.mem_append_right _ List.mem_cons_self
  have hr := h.range hmem (hall o (Nat.le_refl _) (by omega))
  obtain ⟨p, hp⟩ := h.ptr hmem (hall o (Nat.le_refl _) (by omega))
  have hlast := h.range hmem (hall (o + size * k - 1) (by omega) (by omega))
  have hfile : 0 < s.m_pShm.m_iFileSize := Nat.lt_of_le_of_lt (Nat.zero_le _) hr.2
  have hmul : size * k = size * (k - 1) + size := by
    rw [← Nat.mul_succ, Nat.succ_eq_add_one, Nat.sub_add_cancel hk]
  have hxp : (s.m_pShm.offset2ptr (o + (k - 1) * size)).getD 0 - (k - 1) * size = p := by
    rw [Nat.mul_comm, hcont (k - 1) (by omega), hp, Option.map_some, Option.getD_some, Nat.add_sub_cancel]
  obtain ⟨hok, ht⟩ := thread_spec (k - 1) t p (o + size) hpos
    (by
      unfold sizeofShmMapHdr at hr
      omega)
    (fun j hj => by
      rw [htm, Nat.add_assoc, Nat.add_comm size, ← Nat.mul_succ, hcont (j + 1) (by omega), hp, Option.map_some,
        Nat.mul_succ]
      congr 1
      omega)
    (fun j hj => by
      rw [htm]
      apply PoolShm.isOffsetValid_of_le hfile
      have hj' : size * j + size ≤ size * (k - 1) := by
        rw [← Nat.mul_succ]
        exact Nat.mul_le_mul_left size hj
      omega)
  have hrun : r = t.thread size (k - 1) p (o + size) := by
    show t.thread size (k - 1) _ (o + size) = _
    rw [hxp]
  rw [hrun]
  -- a link that is written lies in the batch
  have hin : ∀ y ∈ batch (o + size) size (k - 1), Within (o, size * k) y := by
    intro y hy
    have hy' := mem_batch hy
    exact hall y (by omega) (by omega)
  have hout : ∀ c, (∀ y, Within (o, size * k) y → ¬ Within c y) → ∀ y, Within c y →
      (t.thread size (k - 1) p (o + size)).1.m_pShm.word y = s.m_pShm.word y := by
    intro c hc y hy
    rw [ht.other y fun hmem' => hc y (hin y hmem') hy, htm]
  have hparts : ∀ c ∈ s.parts xs ys, ∀ y, Within (o, size * k) y → ¬ Within c y :=
    fun c hc y hy => (h.apart hy).1 c hc
  refine ⟨hok, fun _ => ?_, ⟨?_, ?_, ?_⟩, ?_⟩
  . apply PoolShm.isOffsetValid_of_le hfile
    omega
  . rw [ht.dataMap, hmap]
    exact h.rep.fill hne (fun c hc => hout c (hparts c (List.mem_append_left _ hc))) ht.chain
  . rw [ht.parent, htp]
    intro q hq
    refine (h.parent q hq).congr fun c hc => hout c (hparts c (List.mem_append_right _ ?_))
    unfold parentFree
    rw [hq]
    exact hc
  . intro x
    have htiles := h.tiles x
    have hup := @count_inBuckets_update xs _ hb (batch (o + size) size (k - 1)) x
    have hbatch := count_batch (o + size) size (k - 1) x
    have hsplit := count_split o size (size * (k - 1)) x
    rw [hx, blocks, blocks, hsize, hbatch, List.map_nil, count_nil] at hup
    rw [Nat.add_comm size, ← hmul] at hsplit
    have hfree : (t.thread size (k - 1) p (o + size)).1.parentFree ys = s.parentFree ys := by
      unfold parentFree
      rw [ht.parent, htp]
    rw [ht.pages, htm, count_append, count_parts, hfree, ht.dataMap, hmap, count_cons (o, size) fr]
    rw [count_append, count_cons (o, size * k) fr, count_parts, hsplit] at htiles
    dsimp only
    omega
  . intro c hc y hy
    exact hout c (fun z hz => (h.apart hz).2 c hc) y hy


def mapped (s : LsShmPool) (size num : Nat) : PoolShm :=
  if s.avail / size ≠ 0 then s.m_pShm else (s.m_pShm.allocPage (pagesNeeded size num)).1

theorem shm_releaseData (s : LsShmPool) (off : Nat) (hlt : size < LSSHM_POOL_MAXBCKTSIZE)
    : (s.releaseData off size).m_pShm.offset2ptr = s.m_pShm.offset2ptr ∧
      (s.releaseData off size).m_pShm.pages = s.m_pShm.pages := by
  unfold LsShmPool.releaseData
  rw [if_neg (Nat.not_le.mpr hlt)]
  dsimp only
  split
  . exact ⟨rfl, rfl⟩
  . split
    . exact ⟨rfl, rfl⟩
    . split
      . exact ⟨rfl, rfl⟩
      . exact ⟨rfl, rfl⟩

theorem shm_refilled (s : LsShmPool) {num : Nat} (hpos : 0 < size) (hlt : size < LSSHM_POOL_MAXBCKTSIZE)
    (hroom : s.avail / size = 0)
    : (s.refilled size num).m_pShm.offset2ptr = (s.m_pShm.allocPage (pagesNeeded size num)).1.offset2ptr ∧
      (s.refilled size num).m_pShm.pages = (s.m_pShm.allocPage (pagesNeeded size num)).1.pages := by
  have hsmall : s.avail < LSSHM_POOL_MAXBCKTSIZE := Nat.lt_trans (Nat.lt_of_div_eq_zero hpos hroom) hlt
  unfold LsShmPool.refilled
  dsimp only
  generalize (if s.avail ≠ 0 then s.dataMap.x_iStart else 0) = start
  split
  . split
    . exact ⟨rfl, rfl⟩
    . exact shm_releaseData _ _ hsmall
  . exact ⟨rfl, rfl⟩

theorem shm_chunk (s : LsShmPool) {num : Nat} (hpos : 0 < size) (hlt : size < LSSHM_POOL_MAXBCKTSIZE)
    (hnum : 0 < num) (hle : s.avail / size = 0 → (s.m_pShm.allocPage (pagesNeeded size num)).2 ≠ 0 →
      size * num ≤ (s.refilled size num).avail)
    : (s.allocFromDataChunk size num 2).1.m_pShm.offset2ptr = (s.mapped size num).offset2ptr ∧
      (s.allocFromDataChunk size num 2).1.m_pShm.pages = (s.mapped size num).pages := by
  unfold mapped
  by_cases hroom : s.avail / size = 0
  . rw [if_neg (not_not.mpr hroom), allocFromDataChunk_refill hroom]
    split
    . exact ⟨rfl, rfl⟩
    . rename_i hpage
      rw [allocFromDataChunk_room hpos hnum (hle hroom hpage) 0]
      exact shm_refilled s hpos hlt hroom
  . rw [if_pos hroom, LsShmPool.allocFromDataChunk]
    change (if s.avail / size ≠ 0 then _ else _ : LsShmPool × Nat × Nat).1.m_pShm.offset2ptr = _ ∧
      (if s.avail / size ≠ 0 then _ else _ : LsShmPool × Nat × Nat).1.m_pShm.pages = _
    rw [if_pos hroom]
    exact ⟨rfl, rfl⟩

def slots (size : Nat) : Nat :=
  min (LSSHM_POOL_MAXBCKTSIZE * 4 / size) LSSHM_MAX_BUCKET_SLOT

theorem slots_pos (hpos : 0 < size) (hlt : size < LSSHM_POOL_MAXBCKTSIZE) : 1 < slots size := by
  have hdiv : 2 ≤ LSSHM_POOL_MAXBCKTSIZE * 4 / size := (Nat.le_div_iff_mul_le hpos).mpr (by omega)
  unfold slots LSSHM_MAX_BUCKET_SLOT
  omega

def parentHead (s : LsShmPool) (b : Nat) : Nat :=
  match s.m_pParent with
  | none => 0
  | some p => p.x_aFreeBucket b

theorem global_none (b num : Nat) (h : s.parentHead b = 0)
    : s.allocFromGlobalBucket b num = (s, 0, num) := by
  unfold parentHead at h
  unfold allocFromGlobalBucket
  split
  . rfl
  . rename_i p hp
    rw [hp] at h
    rw [if_pos h]

theorem Inv.global {b o num : Nat} (h : Inv s xs ys fr) (hb : b < LSSHM_POOL_NUMBUCKET) (hnum : 1 < num)
    (hhead : s.parentHead b = o) (hne : o ≠ 0) (hone : s.m_pShm.word o = 0)
    : (s.allocFromGlobalBucket b num).2 = (o, 1) ∧
      Inv (s.allocFromGlobalBucket b num).1 xs (Function.update ys b [])
        ((o, LSSHM_POOL_BCKTINCR * b) :: fr) ∧
      PoolShm.Keeps s.m_pShm (s.allocFromGlobalBucket b num).1.m_pShm fr ∧
      (s.allocFromGlobalBucket b num).1.m_pShm.pages = s.m_pShm.pages := by
  obtain ⟨m, d, par⟩ := s
  cases par with
  | none => exact absurd hhead.symm hne
  | some p =>
    have hp := h.parent p rfl
    have hc := hp.chain b hb
    have hhd : p.x_aFreeBucket b = o := hhead
    -- the chain is the one block
    obtain ⟨l, hl⟩ : ∃ l, ys b = o :: l := by
      cases hy : ys b with
      | nil =>
        rw [hy] at hc
        exact absurd (hhd.symm.trans hc) hne
      | cons y l =>
        rw [hy] at hc
        exact ⟨l, by rw [← hhd, hc.1]⟩
    have hnil : l = [] := by
      rw [hl] at hc
      have hrest := hc.2.2
      rw [hone] at hrest
      cases l with
      | nil => rfl
      | cons z l => exact absurd hrest.1.symm hrest.2.1
    subst hnil
    have hmem : (o, LSSHM_POOL_BCKTINCR * b) ∈ LsShmPool.parts ⟨m, d, some p⟩ xs ys ++ fr := by
      refine List.mem_append_left _ (List.mem_append_right _ (List.mem_cons_of_mem _ ?_))
      exact mem_inBuckets hb (by rw [hl]; exact List.mem_cons_self)
    have hin : Within (o, LSSHM_POOL_BCKTINCR * b) o := hp.within (by rw [hl]; exact List.mem_cons_self)
    obtain ⟨q, hq⟩ := h.ptr hmem hin
    have hq' : m.offset2ptr o = some q := hq
    have hzero : m.mem q = 0 := by
      rw [← PoolShm.word_eq hq']
      exact hone
    have heq : allocFromGlobalBucket ⟨m, d, some p⟩ b num =
        ((LsShmPool.mk m d (some { p with x_aFreeBucket := Function.update p.x_aFreeBucket b 0 })).write q 0,
          o, 1) := by
      obtain ⟨n, rfl⟩ : ∃ n, num = n + 2 := ⟨num - 2, by omega⟩
      unfold allocFromGlobalBucket
      dsimp only
      rw [hhd, if_neg hne, globalWalk, if_neg hne, hq']
      dsimp only
      rw [hzero, globalWalk, if_pos rfl]
    have hword : (m.write q 0).word = m.word := by
      rw [PoolShm.word_write hq', ← hone, Function.update_eq_self]
    rw [heq]
    refine ⟨rfl, ⟨?_, ?_, ?_⟩, ?_, rfl⟩
    . show d.Rep (m.write q 0).word xs
      rw [hword]
      exact h.rep
    . rintro p' hp'
      obtain rfl : p' = { p with x_aFreeBucket := Function.update p.x_aFreeBucket b 0 } :=
        (Option.some.inj hp').symm
      show LsShmPoolMap.Rep (m.write q 0).word _ _
      have hpop := hp.pop hb hl
      rw [hword]
      rw [show m.word o = 0 from hone] at hpop
      exact hpop
    . intro x
      have htiles := h.tiles x
      have hup := @count_inBuckets_update ys b hb [] x
      rw [hl, count_blocks_cons] at hup
      rw [count_append] at htiles
      show count (d.free xs ++ LsShmPoolMap.free { p with x_aFreeBucket := _ } (Function.update ys b []) ++
        (o, LSSHM_POOL_BCKTINCR * b) :: fr) x = count m.pages x
      change count (d.free xs ++ p.free ys) x + count fr x = count m.pages x at htiles
      rw [count_append, count_append, count_free _ (Function.update ys b []), count_cons _ fr]
      rw [count_append, count_free p ys] at htiles
      dsimp only at *
      omega
    . exact fun c hc y hy => congrFun hword y


/--
Nothing is lost when a block of this size is taken: the parent has at most one block of the size, the
batch that the chunk gives is contiguous, and nothing is left of the chunk when there are no pages for it.
-/
def Lossless (s : LsShmPool) (size : Nat) : Prop :=
  if s.dataMap.x_aFreeBucket (dataSize2Bucket size) ≠ 0 then True
  else if s.parentHead (dataSize2Bucket size) ≠ 0 then
    s.m_pShm.word (s.parentHead (dataSize2Bucket size)) = 0
  else
    match s.chunkBatch size (slots size) with
    | none => s.avail = 0
    | some (o, k) => Contiguous (s.mapped size (slots size)) o size k

instance (s : LsShmPool) (size : Nat) : Decidable (s.Lossless size) := by
  unfold Lossless
  split
  . infer_instance
  . split
    . infer_instance
    . split <;> infer_instance

def nextBlock (s : LsShmPool) (size : Nat) : Nat :=
  if s.dataMap.x_aFreeBucket (dataSize2Bucket size) ≠ 0 then s.dataMap.x_aFreeBucket (dataSize2Bucket size)
  else if s.parentHead (dataSize2Bucket size) ≠ 0 then s.parentHead (dataSize2Bucket size)
  else
    match s.chunkBatch size (slots size) with
    | none => 0
    | some (o, _) => o

/--
What a call that returns `o` leaves: the block, if there is one, is handed out of the free ones, and the
words of the other blocks stay.
-/
structure Serves (s : LsShmPool) (fr : List (Nat × Nat)) (size o : Nat) (r : LsShmPool × Nat) : Prop where
  off : r.2 = o
  inv : ∃ xs ys, Inv r.1 xs ys (if o = 0 then fr else (o, size) :: fr)
  keeps : PoolShm.Keeps s.m_pShm r.1.m_pShm fr
  pages : ∀ b ∈ s.m_pShm.pages, b ∈ r.1.m_pShm.pages

theorem pages_allocPage (m : PoolShm) (size : Nat) : ∀ b ∈ m.pages, b ∈ (m.allocPage size).1.pages := by
  rcases PoolShm.allocPage_cases m size with ⟨-, hun⟩ | hob
  . rw [hun.pages]
    exact fun b hb => hb
  . rw [hob.pages]
    exact fun b hb => List.mem_cons_of_mem _ hb

theorem pages_mapped (s : LsShmPool) (size num : Nat) : ∀ b ∈ s.m_pShm.pages, b ∈ (s.mapped size num).pages := by
  unfold mapped
  split
  . exact fun b hb => hb
  . exact pages_allocPage _ _

theorem Inv.ne_zero {o n : Nat} (h : Inv s xs ys ((o, n) :: fr)) (hn : 0 < n) : o ≠ 0 := by
  have hr := h.range (List.mem_append_right _ List.mem_cons_self) (o := o) (b := (o, n))
    (by
      unfold Within
      dsimp only
      omega)
  unfold sizeofShmMapHdr at hr
  omega

theorem fillDataBucket_chunk (b : Nat) (h : s.parentHead b = 0)
    : s.fillDataBucket b size =
      if (s.allocFromDataChunk size (slots size) 2).2.2 = 0 then
        ((s.allocFromDataChunk size (slots size) 2).1, (s.allocFromDataChunk size (slots size) 2).2.1)
      else
        let t := (s.allocFromDataChunk size (slots size) 2).1
        let offset := (s.allocFromDataChunk size (slots size) 2).2.1
        let num := (s.allocFromDataChunk size (slots size) 2).2.2 - 1
        if num ≠ 0 ∧ !t.m_pShm.isOffsetValid (offset + size) then (t, offset)
        else
          let t' := if num ≠ 0 then t.setBucket b (offset + size) else t
          let r := t'.thread size num ((t'.m_pShm.offset2ptr (offset + num * size)).getD 0 - num * size)
            (offset + size)
          if r.2 then (r.1, offset) else (r.1, 0) := by
  unfold LsShmPool.fillDataBucket
  dsimp only
  rw [global_none b _ h, if_neg (not_not.mpr rfl)]
  rfl


theorem thread_pages (n : Nat) (s : LsShmPool) (xp xoffset : Nat)
    : (s.thread size n xp xoffset).1.m_pShm.pages = s.m_pShm.pages := by
  induction n generalizing s xp xoffset with
  | zero => rfl
  | succ n ih =>
    rw [thread]
    split
    . rfl
    . rw [ih]
      rfl

theorem Inv.serves_chunk (h : Inv s xs ys fr) (hpos : 0 < size) (hlt : size < LSSHM_POOL_MAXBCKTSIZE)
    (hmod : size % LSSHM_POOL_UNITSIZE = 0) (hx : xs (dataSize2Bucket size) = [])
    (hparent : s.parentHead (dataSize2Bucket size) = 0)
    (hl : match s.chunkBatch size (slots size) with
      | none => s.avail = 0
      | some (o, k) => Contiguous (s.mapped size (slots size)) o size k)
    : Serves s fr size (match s.chunkBatch size (slots size) with
        | none => 0
        | some (o, _) => o) (s.fillDataBucket (dataSize2Bucket size) size) := by
  have hb := bucket_lt hlt
  have hsize := bucket_of_size hmod
  have hslots := slots_pos hpos hlt
  have hshm := shm_chunk s hpos hlt (Nat.lt_trans Nat.one_pos hslots) fun hroom hpage =>
    Nat.le_trans (le_pagesNeeded size _) (h.refilled hpos hlt hmod hroom hpage).2.2.1
  rw [fillDataBucket_chunk _ hparent]
  cases hbatch : s.chunkBatch size (slots size) with
  | none =>
    rw [hbatch] at hl
    dsimp only at hl
    obtain ⟨hret, h', hk⟩ := h.chunk_none hbatch
    rw [hret, if_pos rfl]
    refine ⟨rfl, ⟨xs, ys, ?_⟩, hk, ?_⟩
    . rw [if_pos rfl]
      refine Inv.of_count h' fun x => ?_
      rw [hl, count_cons, count_empty, Nat.zero_add]
    . rw [hshm.2]
      exact pages_mapped s size _
  | some ok =>
    obtain ⟨o, k⟩ := ok
    rw [hbatch] at hl
    dsimp only at hl
    obtain ⟨hret, hkpos, -, ⟨xs', hxs, h'⟩, hk⟩ := h.chunk hpos hlt hmod (Nat.lt_trans Nat.one_pos hslots) hbatch
    have hcont : Contiguous (s.allocFromDataChunk size (slots size) 2).1.m_pShm o size k := by
      unfold Contiguous at hl ⊢
      rw [hshm.1]
      exact hl
    have hpages := hshm.2
    generalize (s.allocFromDataChunk size (slots size) 2) = r at *
    obtain ⟨t, o', k'⟩ := r
    obtain ⟨rfl, rfl⟩ := Prod.mk.inj hret
    dsimp only at *
    obtain ⟨hok, hvalid, hinv, hkeep⟩ := h'.thread hkpos hpos hb hsize (hxs.trans hx) hcont
    rw [if_neg (Nat.ne_of_gt hkpos), if_neg]
    . have hptr : (if k' - 1 ≠ 0 then t.setBucket (dataSize2Bucket size) (o' + size) else t).m_pShm = t.m_pShm := by
        split <;> rfl
      rw [hptr, if_pos hok]
      refine ⟨rfl, ⟨Function.update xs' (dataSize2Bucket size) (batch (o' + size) size (k' - 1)), ys, ?_⟩,
        hk.trans hkeep, ?_⟩
      . rw [if_neg (hinv.ne_zero hpos)]
        exact hinv
      . dsimp only
        rw [thread_pages, hptr, hpages]
        exact pages_mapped s size _
    . rintro ⟨hn, hbad⟩
      rw [hvalid hn] at hbad
      exact Bool.noConfusion hbad

theorem Inv.pop {b o : Nat} {l : List Nat} (h : Inv s xs ys fr) (hb : b < LSSHM_POOL_NUMBUCKET)
    (hx : xs b = o :: l)
    : Inv (s.setBucket b (s.m_pShm.word o)) (Function.update xs b l) ys
        ((o, LSSHM_POOL_BCKTINCR * b) :: fr) where
  rep := h.rep.pop hb hx
  parent := h.parent
  tiles x := by
    have htiles := h.tiles x
    have hup := @count_inBuckets_update xs b hb l x
    rw [hx, count_blocks_cons] at hup
    rw [count_append, count_parts] at htiles
    rw [count_append, count_parts, count_cons _ fr]
    show count [(s.dataMap.x_iStart, s.dataMap.x_iEnd - s.dataMap.x_iStart)] x +
      count (inBuckets (Function.update xs b l)) x + count (s.parentFree ys) x + _ = count s.m_pShm.pages x
    omega

theorem Inv.serves_bucket (h : Inv s xs ys fr) (hpos : 0 < size) (hlt : size < LSSHM_POOL_MAXBCKTSIZE)
    (hmod : size % LSSHM_POOL_UNITSIZE = 0) (hl : s.Lossless size)
    : Serves s fr size (s.nextBlock size) (s.allocFromDataBucket size) := by
  have hb := bucket_lt hlt
  have hsize := bucket_of_size hmod
  have hc := h.rep.chain _ hb
  unfold Lossless at hl
  unfold nextBlock allocFromDataBucket
  dsimp only
  by_cases hhead : s.dataMap.x_aFreeBucket (dataSize2Bucket size) = 0
  . rw [if_neg (not_not.mpr hhead)] at hl
    rw [if_neg (not_not.mpr hhead), if_neg (not_not.mpr hhead)]
    have hx : xs (dataSize2Bucket size) = [] := by
      cases hxs : xs (dataSize2Bucket size) with
      | nil => rfl
      | cons y l =>
        rw [hxs] at hc
        exact absurd (hc.1.symm.trans hhead) hc.2.1
    by_cases hparent : s.parentHead (dataSize2Bucket size) = 0
    . rw [if_neg (not_not.mpr hparent)] at hl
      rw [if_neg (not_not.mpr hparent)]
      exact h.serves_chunk hpos hlt hmod hx hparent hl
    . rw [if_pos hparent] at hl
      rw [if_pos hparent]
      obtain ⟨hret, h', hk, hpages⟩ := h.global hb (slots_pos hpos hlt) rfl hparent hl
      rw [hsize] at h'
      have heq : s.fillDataBucket (dataSize2Bucket size) size =
          ((s.allocFromGlobalBucket (dataSize2Bucket size) (slots size)).1,
            s.parentHead (dataSize2Bucket size)) := by
        unfold LsShmPool.fillDataBucket
        dsimp only
        change (if (s.allocFromGlobalBucket (dataSize2Bucket size) (slots size)).2.1 ≠ 0 then
          (if 1 < (s.allocFromGlobalBucket (dataSize2Bucket size) (slots size)).2.2 then _ else _) else _) = _
        rw [hret, if_pos hparent, if_neg (Nat.lt_irrefl 1)]
        change (_, (s.allocFromGlobalBucket (dataSize2Bucket size) (slots size)).2.1) = _
        rw [hret]
        rfl
      rw [heq]
      refine ⟨rfl, ⟨xs, Function.update ys (dataSize2Bucket size) [], ?_⟩, hk, ?_⟩
      . rw [if_neg hparent]
        exact h'
      . dsimp only
        rw [hpages]
        exact fun b hb => hb
  . rw [if_pos hhead, if_pos hhead]
    obtain ⟨l, hx⟩ : ∃ l, xs (dataSize2Bucket size) = s.dataMap.x_aFreeBucket (dataSize2Bucket size) :: l := by
      cases hxs : xs (dataSize2Bucket size) with
      | nil =>
        rw [hxs] at hc
        exact absurd hc hhead
      | cons y l =>
        rw [hxs] at hc
        exact ⟨l, by rw [hc.1]⟩
    have h' := h.pop hb hx
    rw [hsize] at h'
    have hmem : s.dataMap.x_aFreeBucket (dataSize2Bucket size) ∈ xs (dataSize2Bucket size) := by
      rw [hx]
      exact List.mem_cons_self
    have hin := h.rep.within hmem
    obtain ⟨p, hp⟩ := h.ptr (List.mem_append_left fr (mem_parts_bucket hb hmem)) hin
    have hr := h.range (List.mem_append_left fr (mem_parts_bucket hb hmem)) hin
    have hvalid := h'.head_valid (Nat.lt_of_le_of_lt (Nat.zero_le _) hr.2) hb
    have hnext : s.m_pShm.isOffsetValid (s.m_pShm.mem p) = true := by
      rw [← PoolShm.word_eq hp]
      have hself : (s.setBucket (dataSize2Bucket size)
          (s.m_pShm.word (s.dataMap.x_aFreeBucket (dataSize2Bucket size)))).dataMap.x_aFreeBucket
          (dataSize2Bucket size) = s.m_pShm.word (s.dataMap.x_aFreeBucket (dataSize2Bucket size)) :=
        Function.update_self ..
      rw [hself] at hvalid
      exact hvalid
    rw [hp]
    dsimp only
    rw [hnext, Bool.not_true, if_neg Bool.false_ne_true, ← PoolShm.word_eq hp]
    refine ⟨rfl, ⟨Function.update xs (dataSize2Bucket size) l, ys, ?_⟩, .refl _ _, fun b hb => hb⟩
    rw [if_neg hhead]
    exact h'

theorem alloc2_of_not_crosses (hvalid : ¬ (size = 0 ∨ 0x80000000 ≤ size ∨ LSSHM_MAXSIZE < size))
    (hc : LARGE_PAGE_SIZE ≤ roundDataSize size ∨
      ¬ Crosses (s.alloc2Ex (roundDataSize size)).2 (roundDataSize size))
    : s.alloc2 size =
      ((s.alloc2Ex (roundDataSize size)).1, (s.alloc2Ex (roundDataSize size)).2, roundDataSize size) := by
  unfold LsShmPool.alloc2
  rw [if_neg hvalid]
  dsimp only
  rw [if_pos hc]

end LsShmPool

end Lsmcd
