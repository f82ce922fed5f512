import Lsmcd.Shm.PoolRun

/-!
Calls of `alloc2` that fail: what they leave, and when there is a block that they cannot miss.
-/

namespace Lsmcd

open Linked Cover

namespace LsShmPool

open LsShmPoolMap

variable {s t : LsShmPool} {xs ys : Nat → List Nat} {fr : List (Nat × Nat)} {size : Nat}

section Found

theorem thread_valid (n : Nat) (s : LsShmPool) (xp xoffset : Nat)
    (hvalid : ∀ k, k < n → s.m_pShm.isOffsetValid (xoffset + size + size * k) = true)
    : (s.thread size n xp xoffset).2 = true := by
  induction n generalizing s xp xoffset with
  | zero => rfl
  | succ n ih =>
    have hfirst : s.m_pShm.isOffsetValid (xoffset + size) = true := hvalid 0 (Nat.succ_pos n)
    rw [thread, hfirst]
    refine ih _ _ _ fun k hk => ?_
    have hnext := hvalid (k + 1) (by omega)
    rw [Nat.mul_succ, Nat.add_comm (size * k), ← Nat.add_assoc] at hnext
    exact hnext

theorem globalWalk_chain {m : PoolShm} (n : Nat) {o np cnt : Nat} {l : List Nat} (h : Chain m.word 0 o l)
    (hptr : ∀ y ∈ l, ∃ p, m.offset2ptr y = some p) : ∃ r, globalWalk m n o np cnt = some r := by
  induction n generalizing o np cnt l with
  | zero => exact ⟨_, rfl⟩
  | succ n ih =>
    rw [globalWalk]
    cases l with
    | nil =>
      rw [if_pos (show o = 0 from h)]
      exact ⟨_, rfl⟩
    | cons y l =>
      obtain ⟨rfl, hne, hrest⟩ := h
      obtain ⟨p, hp⟩ := hptr o List.mem_cons_self
      rw [if_neg hne, hp]
      rw [PoolShm.word_eq hp] at hrest
      exact ih hrest fun y hy => hptr y (List.mem_cons_of_mem _ hy)

theorem Inv.fill_global {b : Nat} (h : Inv s xs ys fr) (hb : b < LSSHM_POOL_NUMBUCKET)
    (hne : s.parentHead b ≠ 0) : (s.fillDataBucket b size).2 = s.parentHead b := by
  obtain ⟨m, d, par⟩ := s
  cases par with
  | none => exact absurd rfl hne
  | some p =>
    have hrep := h.parent p rfl
    have hc := hrep.chain b hb
    have hfirst : p.x_aFreeBucket b ≠ 0 := hne
    have hptr : ∀ y ∈ ys b, ∃ q, m.offset2ptr y = some q := by
      intro y hy
      refine h.ptr (b := (y, LSSHM_POOL_BCKTINCR * b)) ?_ (hrep.within hy)
      exact List.mem_append_left _ (List.mem_append_right _ (List.mem_cons_of_mem _ (mem_inBuckets hb hy)))
    obtain ⟨q, hq⟩ : ∃ q, m.offset2ptr (p.x_aFreeBucket b) = some q := by
      cases hy : ys b with
      | nil =>
        rw [hy] at hc
        exact absurd hc hfirst
      | cons y l =>
        rw [hy] at hc
        apply hptr
        rw [hy, hc.1]
        exact List.mem_cons_self
    obtain ⟨⟨next, np, cnt⟩, hwalk⟩ :=
      @globalWalk_chain m (min (LSSHM_POOL_MAXBCKTSIZE * 4 / size) LSSHM_MAX_BUCKET_SLOT) _ 0 0 _ hc hptr
    unfold LsShmPool.fillDataBucket allocFromGlobalBucket
    dsimp only
    rw [if_neg hfirst, hwalk]
    dsimp only
    rw [if_pos hfirst]
    have hsome : (LsShmPool.write ⟨m, d, some { p with x_aFreeBucket := Function.update p.x_aFreeBucket b next }⟩
        np 0).m_pShm.offset2ptr (p.x_aFreeBucket b) = some q := hq
    rw [hsome]
    split
    . rfl
    . rfl

theorem Inv.fill_chunk {o k : Nat} (h : Inv s xs ys fr) (hpos : 0 < size) (hlt : size < LSSHM_POOL_MAXBCKTSIZE)
    (hmod : size % LSSHM_POOL_UNITSIZE = 0) (hparent : s.parentHead (dataSize2Bucket size) = 0)
    (hbatch : s.chunkBatch size (slots size) = some (o, k))
    : (s.fillDataBucket (dataSize2Bucket size) size).2 = o ∧ o ≠ 0 := by
  obtain ⟨hret, hk, -, ⟨xs', -, h'⟩, -⟩ :=
    h.chunk hpos hlt hmod (Nat.lt_trans Nat.one_pos (slots_pos hpos hlt)) hbatch
  rw [fillDataBucket_chunk _ hparent]
  generalize s.allocFromDataChunk size (slots size) 2 = r at *
  obtain ⟨t, o', k'⟩ := r
  obtain ⟨rfl, rfl⟩ := Prod.mk.inj hret
  dsimp only at *
  have hmul : size * k' = size * (k' - 1) + size := by
    rw [← Nat.mul_succ, Nat.succ_eq_add_one, Nat.sub_add_cancel hk]
  have hmem : (o', size * k') ∈ t.parts xs' ys ++ (o', size * k') :: fr :=
    List.mem_append_right _ List.mem_cons_self
  have hlast := h'.range hmem (o := o' + size * k' - 1) (by
    unfold Within
    dsimp only
    omega)
  have hvalid : ∀ y, y ≤ o' + size * k' → t.m_pShm.isOffsetValid y = true :=
    fun y hy => PoolShm.isOffsetValid_of_le (by omega) (by omega)
  have hne : o' ≠ 0 := h'.ne_zero (by omega)
  rw [if_neg (Nat.ne_of_gt hk), if_neg]
  . have hthread : ∀ u : LsShmPool, u.m_pShm = t.m_pShm → ∀ xp,
        (u.thread size (k' - 1) xp (o' + size)).2 = true := by
      intro u hu xp
      refine thread_valid _ _ _ _ fun j hj => ?_
      rw [hu]
      apply hvalid
      have hj' : size * j + size ≤ size * (k' - 1) := by
        rw [← Nat.mul_succ]
        exact Nat.mul_le_mul_left size hj
      omega
    rw [if_pos (hthread _ (by split <;> rfl) _)]
    exact ⟨rfl, hne⟩
  . rintro ⟨-, hbad⟩
    rw [hvalid _ (by omega)] at hbad
    exact Bool.noConfusion hbad

theorem Inv.off_bucket (h : Inv s xs ys fr) (hpos : 0 < size) (hlt : size < LSSHM_POOL_MAXBCKTSIZE)
    (hmod : size % LSSHM_POOL_UNITSIZE = 0) : (s.allocFromDataBucket size).2 = s.nextBlock size := by
  unfold nextBlock allocFromDataBucket
  dsimp only
  by_cases hhead : s.dataMap.x_aFreeBucket (dataSize2Bucket size) = 0
  . rw [if_neg (not_not.mpr hhead), if_neg (not_not.mpr hhead)]
    by_cases hparent : s.parentHead (dataSize2Bucket size) = 0
    . rw [if_neg (not_not.mpr hparent)]
      cases hbatch : s.chunkBatch size (slots size) with
      | none =>
        rw [fillDataBucket_chunk _ hparent, (h.chunk_none hbatch).1]
        rfl
      | some ok => exact (h.fill_chunk hpos hlt hmod hparent hbatch).1
    . rw [if_pos hparent]
      exact h.fill_global (bucket_lt hlt) hparent
  . rw [if_pos hhead, if_pos hhead]
    split
    . rfl
    . split
      . rfl
      . rfl

end Found

/--
A free block that `alloc2` takes when it is asked for the size: the first one of the bucket of the size, else
that of the parent's bucket, else the start of the chunk. 0 when there is none.
-/
def freeBlock (s : LsShmPool) (size : Nat) : Nat :=
  if s.dataMap.x_aFreeBucket (dataSize2Bucket size) ≠ 0 then s.dataMap.x_aFreeBucket (dataSize2Bucket size)
  else if s.parentHead (dataSize2Bucket size) ≠ 0 then s.parentHead (dataSize2Bucket size)
  else if size ≤ s.avail then s.dataMap.x_iStart
  else 0

def Fitted (s : LsShmPool) (size : Nat) : Prop :=
  size ≠ 0 ∧ roundDataSize size < LSSHM_POOL_MAXBCKTSIZE ∧ s.freeBlock (roundDataSize size) ≠ 0 ∧
    ¬ Crosses (s.freeBlock (roundDataSize size)) (roundDataSize size)

instance (s : LsShmPool) (size : Nat) : Decidable (s.Fitted size) := inferInstanceAs (Decidable (_ ∧ _))

theorem nextBlock_of_freeBlock (hpos : 0 < size) (h : s.freeBlock size ≠ 0)
    : s.nextBlock size = s.freeBlock size := by
  unfold freeBlock at h ⊢
  unfold nextBlock
  split
  . rfl
  . split
    . rfl
    . rename_i hhead hparent
      rw [if_neg hhead, if_neg hparent] at h
      by_cases hfit : size ≤ s.avail
      . have hroom : s.avail / size ≠ 0 := Nat.ne_of_gt (Nat.div_pos hfit hpos)
        unfold chunkBatch
        rw [if_pos hroom, if_pos hfit]
      . rw [if_neg hfit] at h
        exact absurd rfl h

theorem alloc2Ex_small (hlt : size < LSSHM_POOL_MAXBCKTSIZE)
    : s.alloc2Ex size = s.allocFromDataBucket size := by
  unfold alloc2Ex
  rw [if_neg (show ¬ LSSHM_SHM_UNITSIZE ≤ size from Nat.not_le.mpr hlt), if_neg (Nat.not_le.mpr hlt)]

theorem alloc2Ex_page (hle : LSSHM_SHM_UNITSIZE ≤ size)
    : s.alloc2Ex size = (s.setShm (s.m_pShm.allocPage size).1, (s.m_pShm.allocPage size).2) := by
  unfold alloc2Ex
  rw [if_pos hle]

def freeBytes (s : LsShmPool) (xs ys : Nat → List Nat) : Nat :=
  ((s.parts xs ys).map Prod.snd).sum

/--
No block is dropped on the way: a block that is found ends in the large page that it starts in, and nothing is
left of the chunk when none is found.
-/
def NothingDropped (s : LsShmPool) (size : Nat) : Prop :=
  if roundDataSize size < LSSHM_POOL_MAXBCKTSIZE then
    (s.nextBlock (roundDataSize size) = 0 → s.avail = 0) ∧
      ¬ Crosses (s.nextBlock (roundDataSize size)) (roundDataSize size)
  else
    LARGE_PAGE_SIZE ≤ roundDataSize size ∨
      ¬ Crosses (s.m_pShm.allocPage (roundDataSize size)).2 (roundDataSize size)

instance (s : LsShmPool) (size : Nat) : Decidable (s.NothingDropped size) := by
  unfold NothingDropped
  infer_instance

structure Same (s t : LsShmPool) : Prop where
  dataMap : t.dataMap = s.dataMap
  parent : t.m_pParent = s.m_pParent
  shm : PoolShm.Unchanged s.m_pShm t.m_pShm

theorem Same.refl (s : LsShmPool) : Same s s := ⟨rfl, rfl, rfl, rfl, rfl⟩

theorem Same.inv (hs : Same s t) (h : Inv s xs ys fr) : Inv t xs ys fr := by
  have heq : t = { s with m_pShm := t.m_pShm } := by
    rw [← hs.dataMap, ← hs.parent]
  rw [heq]
  exact h.unchanged hs.shm

theorem Same.parts (hs : Same s t) : t.parts xs ys = s.parts xs ys := by
  unfold LsShmPool.parts parentFree
  rw [hs.dataMap, hs.parent]

theorem Same.fitted (hs : Same s t) (h : s.Fitted size) : t.Fitted size := by
  unfold Fitted freeBlock parentHead avail at *
  rw [hs.dataMap, hs.parent]
  exact h

theorem Inv.bucket_none (h : Inv s xs ys fr) (hpos : 0 < size) (hlt : size < LSSHM_POOL_MAXBCKTSIZE)
    (hmod : size % LSSHM_POOL_UNITSIZE = 0) (hz : s.nextBlock size = 0) (hav : s.avail = 0)
    : Same s (s.allocFromDataBucket size).1 := by
  have hle := h.rep.le
  unfold nextBlock at hz
  split at hz
  . rename_i hhead
    exact absurd hz hhead
  rename_i hhead
  split at hz
  . rename_i hparent
    exact absurd hz hparent
  rename_i hparent
  cases hbatch : s.chunkBatch size (slots size) with
  | some ok =>
    rw [hbatch] at hz
    exact absurd hz (h.fill_chunk hpos hlt hmod (not_not.mp hparent) hbatch).2
  | none =>
    obtain ⟨heq, hun⟩ := chunk_of_batch_none hbatch
    have hend : s.dataMap.x_iStart + s.avail = s.dataMap.x_iStart := by
      rw [hav]
      rfl
    unfold allocFromDataBucket
    dsimp only
    rw [if_neg hhead, fillDataBucket_chunk _ (not_not.mp hparent), heq, if_pos rfl, hend]
    exact ⟨rfl, rfl, hun⟩

theorem Inv.alloc2_fitted (h : Inv s xs ys fr) (hfit : s.Fitted size)
    : (s.alloc2 size).2.1 = s.freeBlock (roundDataSize size) := by
  obtain ⟨hne, hlt, hblock, hcross⟩ := hfit
  have hle := le_roundDataSize size
  have hsmall : size < LSSHM_SHM_UNITSIZE := Nat.lt_of_le_of_lt hle hlt
  have hpos : 0 < roundDataSize size := by omega
  have hoff : (s.alloc2Ex (roundDataSize size)).2 = s.freeBlock (roundDataSize size) := by
    rw [alloc2Ex_small hlt, h.off_bucket hpos hlt (roundDataSize_small hsmall).2]
    exact nextBlock_of_freeBlock hpos hblock
  rw [alloc2_of_not_crosses (valid_small hne hsmall) (.inr (by rw [hoff]; exact hcross))]
  exact hoff

theorem Inv.alloc2_failed (h : Inv s xs ys fr) (hz : (s.alloc2 size).2.1 = 0) (hd : s.NothingDropped size)
    : Same s (s.alloc2 size).1 := by
  by_cases hvalid : size = 0 ∨ 0x80000000 ≤ size ∨ LSSHM_MAXSIZE < size
  . unfold LsShmPool.alloc2
    rw [if_pos hvalid]
    exact .refl s
  have hle := le_roundDataSize size
  have hpos : 0 < roundDataSize size := by omega
  unfold NothingDropped at hd
  by_cases hlt : roundDataSize size < LSSHM_POOL_MAXBCKTSIZE
  . rw [if_pos hlt] at hd
    have hmod := (roundDataSize_small (Nat.lt_of_le_of_lt hle hlt)).2
    have hoff := h.off_bucket hpos hlt hmod
    rw [alloc2_of_not_crosses hvalid (.inr (by rw [alloc2Ex_small hlt, hoff]; exact hd.2)),
      alloc2Ex_small hlt] at hz ⊢
    rw [hoff] at hz
    exact h.bucket_none hpos hlt hmod hz (hd.1 hz)
  . rw [if_neg hlt] at hd
    have hpage := Nat.not_lt.mp hlt
    rw [alloc2_of_not_crosses hvalid (by rw [alloc2Ex_page hpage]; exact hd), alloc2Ex_page hpage] at hz ⊢
    rcases PoolShm.allocPage_cases s.m_pShm (roundDataSize size) with ⟨-, hun⟩ | hob
    . exact ⟨rfl, rfl, hun⟩
    . exact absurd hz hob.ne

/--
A size that has a free block never fails, and a call that fails leaves the free blocks, the chains and the sizes
that have a free block as they were.
-/
theorem alloc2_conserves (s : LsShmPool) (xs ys : Nat → List Nat) (fr : List (Nat × Nat)) (size : Nat)
    (h : Inv s xs ys fr)
    : (s.Fitted size → (s.alloc2 size).2.1 ≠ 0) ∧
      ((s.alloc2 size).2.1 = 0 → s.NothingDropped size →
        Inv (s.alloc2 size).1 xs ys fr ∧
        (s.alloc2 size).1.freeBytes xs ys = s.freeBytes xs ys ∧
        ∀ size', s.Fitted size' → ((s.alloc2 size).1.alloc2 size').2.1 ≠ 0) := by
  constructor
  . intro hfit
    rw [h.alloc2_fitted hfit]
    exact hfit.2.2.1
  . intro hz hd
    have hsame := h.alloc2_failed hz hd
    refine ⟨hsame.inv h, ?_, fun size' hfit => ?_⟩
    . unfold freeBytes
      rw [hsame.parts]
    . have hfit' := hsame.fitted hfit
      rw [(hsame.inv h).alloc2_fitted hfit']
      exact hfit'.2.2.1

def sampleCut : PoolRun :=
  Run.exec PoolRun.step (PoolRun.start PoolRun.sampleShm false) [.onPool (.alloc2 ⟨128, by decide⟩)]

theorem inv_sampleCut : ∃ xs ys, PoolRun.Inv sampleCut xs ys [] :=
  Run.exec_invariant (fun r => ∃ xs ys, PoolRun.Inv r xs ys []) (fun _ _ ⟨_, _, h⟩ hl => h.step hl)
    ⟨_, _, PoolRun.inv_start rfl false⟩
    (show Run.Meets PoolRun.step PoolRun.LosslessEvent _ [.onPool (.alloc2 ⟨128, by decide⟩)] by decide +kernel)

theorem alloc2_conserves_sample
    : (sampleCut.pool.alloc2 16).2.1 = 0 ∧ (sampleCut.pool.alloc2 128).2.1 ≠ 0 ∧
      ((sampleCut.pool.alloc2 16).1.alloc2 128).2.1 ≠ 0 := by
  obtain ⟨xs, ys, h⟩ := inv_sampleCut
  have hfail : (sampleCut.pool.alloc2 16).2.1 = 0 := by decide +kernel
  have hfit : sampleCut.pool.Fitted 128 := by decide +kernel
  exact ⟨hfail, (alloc2_conserves _ xs ys _ 128 h.pool).1 hfit,
    ((alloc2_conserves _ xs ys _ 16 h.pool).2 hfail (by decide +kernel)).2.2 128 hfit⟩

/--
A block of 128 bytes is not looked for when 16 bytes are asked for.
-/
theorem not_alloc2_large_block
    : ¬ ∀ (s : LsShmPool) (xs ys : Nat → List Nat) (fr : List (Nat × Nat)) (size : Nat), Inv s xs ys fr →
        0 < size → (∃ b ∈ s.dataMap.free xs, roundDataSize size ≤ b.2) → (s.alloc2 size).2.1 ≠ 0 := by
  intro hall
  obtain ⟨xs, ys, h⟩ := inv_sampleCut
  have hhead : sampleCut.pool.dataMap.x_aFreeBucket 8 = 1152 := by decide +kernel
  have hc := h.pool.rep.chain 8 (by decide)
  rw [hhead] at hc
  have hmem : 1152 ∈ xs 8 := by
    cases hx : xs 8 with
    | nil =>
      rw [hx] at hc
      cases hc
    | cons y l =>
      rw [hx] at hc
      rw [hc.1]
      exact List.mem_cons_self
  refine hall sampleCut.pool xs ys _ 16 h.pool (by decide)
    ⟨_, List.mem_cons_of_mem _ (mem_inBuckets (by decide) hmem), by decide⟩ ?_
  decide +kernel

end LsShmPool

end Lsmcd
