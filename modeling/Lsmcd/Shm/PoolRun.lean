import Lsmcd.Lib.Run
import Lsmcd.Shm.PoolOps

/-!
Runs of `alloc2` and `release2` on a pool and on its parent, for blocks that are smaller than a page,
while the owners of the blocks write what they like into them.
-/

namespace Lsmcd

open Linked Cover

/--
The blocks that are in use have the sizes that `alloc2` has left in `*size`.
-/
structure PoolRun where
  pool : LsShmPool
  live : List (Nat × Nat)

inductive PoolOp where
  | alloc2 (size : Fin LSSHM_SHM_UNITSIZE)
  | release2 (offset size : Nat)
  | store (offset v : Nat)

inductive PoolEvent where
  | onPool (op : PoolOp)
  | onParent (op : PoolOp)

def Holds (b : Nat × Nat) (offset : Nat) : Prop :=
  b.1 ≤ offset ∧ offset + 4 ≤ b.1 + b.2

instance (b : Nat × Nat) (offset : Nat) : Decidable (Holds b offset) := inferInstanceAs (Decidable (_ ∧ _))

namespace PoolRun

def op (r : PoolRun) : PoolOp → PoolRun
  | .alloc2 size =>
    let a := r.pool.alloc2 size
    ⟨a.1, if a.2.1 = 0 then r.live else (a.2.1, a.2.2) :: r.live⟩
  | .release2 offset size =>
    if (offset, roundDataSize size) ∈ r.live then
      ⟨r.pool.release2 offset size, r.live.erase (offset, roundDataSize size)⟩
    else r
  | .store offset v =>
    if ∃ b ∈ r.live, Holds b offset then
      match r.pool.m_pShm.offset2ptr offset with
      | none => r
      | some p => { r with pool := r.pool.write p v }
    else r

def parentView (r : PoolRun) (p : LsShmPoolMap) : PoolRun :=
  ⟨⟨r.pool.m_pShm, p, none⟩, r.live⟩

def step (r : PoolRun) : PoolEvent → PoolRun
  | .onPool op => r.op op
  | .onParent op =>
    match r.pool.m_pParent with
    | none => r
    | some p =>
      let v := (r.parentView p).op op
      ⟨⟨v.pool.m_pShm, r.pool.dataMap, some v.pool.dataMap⟩, v.live⟩

def start (m : PoolShm) (withParent : Bool) : PoolRun :=
  ⟨⟨m, .empty, if withParent then some .empty else none⟩, []⟩

end PoolRun

namespace LsShmPool

/--
A block that is handed out ends in the large page that it starts in, and nothing is lost on the way.
-/
def LosslessOp (s : LsShmPool) : PoolOp → Prop
  | .alloc2 size =>
    if size.val = 0 then True
    else if LSSHM_SHM_UNITSIZE ≤ roundDataSize size then
      ¬ Crosses (s.m_pShm.allocPage (roundDataSize size)).2 (roundDataSize size)
    else s.Lossless (roundDataSize size) ∧ ¬ Crosses (s.nextBlock (roundDataSize size)) (roundDataSize size)
  | _ => True

instance (s : LsShmPool) (op : PoolOp) : Decidable (s.LosslessOp op) := by
  cases op
  . unfold LosslessOp
    infer_instance
  . exact inferInstanceAs (Decidable True)
  . exact inferInstanceAs (Decidable True)

end LsShmPool

namespace PoolRun

def LosslessEvent (r : PoolRun) : PoolEvent → Prop
  | .onPool op => r.pool.LosslessOp op
  | .onParent op =>
    match r.pool.m_pParent with
    | none => True
    | some p => (r.parentView p).pool.LosslessOp op

instance (r : PoolRun) (e : PoolEvent) : Decidable (r.LosslessEvent e) := by
  cases e
  . exact inferInstanceAs (Decidable (LsShmPool.LosslessOp _ _))
  . unfold LosslessEvent
    dsimp only
    split <;> infer_instance

end PoolRun

def LsShmPoolMap.parts (d : LsShmPoolMap) (xs : Nat → List Nat) : List (Nat × Nat) :=
  (if d.x_iStart = d.x_iEnd then [] else [(d.x_iStart, d.x_iEnd - d.x_iStart)]) ++ LsShmPoolMap.inBuckets xs

structure LsShmPoolMap.Chained (w : Nat → Nat) (d : LsShmPoolMap) (xs : Nat → List Nat) : Prop where
  chain : ∀ b, b < LSSHM_POOL_NUMBUCKET → Chain w 0 (d.x_aFreeBucket b) (xs b)
  zero : xs 0 = []
  freeList : d.x_iFreeList = 0

/--
The blocks of the pool and of its parent and the blocks in use do not overlap, and they are what the pages
are made of.
-/
structure PoolRun.PartitionBy (r : PoolRun) (xs ys : Nat → List Nat) : Prop where
  pool : r.pool.dataMap.Chained r.pool.m_pShm.word xs
  parent : ∀ p, r.pool.m_pParent = some p → p.Chained r.pool.m_pShm.word ys
  apart : (r.pool.dataMap.parts xs ++ ((r.pool.m_pParent.map fun p => p.parts ys).getD []) ++ r.live).Pairwise Apart
  cover : ∀ x, (∃ b ∈ r.pool.dataMap.parts xs ++ ((r.pool.m_pParent.map fun p => p.parts ys).getD []) ++ r.live,
    Within b x) ↔ ∃ b ∈ r.pool.m_pShm.pages, Within b x

def PoolRun.Partition (r : PoolRun) : Prop :=
  ∃ xs ys, r.PartitionBy xs ys

namespace LsShmPool

variable {s : LsShmPool} {xs ys : Nat → List Nat} {fr gr : List (Nat × Nat)} {off size : Nat}

section Parent

theorem parent_releaseData (s : LsShmPool) (off size : Nat) : (s.releaseData off size).m_pParent = s.m_pParent := by
  unfold releaseData pushFreeList
  dsimp only
  repeat' split
  all_goals rfl

theorem parent_chunk (n : Nat) (s : LsShmPool) (num : Nat)
    : (s.allocFromDataChunk size num n).1.m_pParent = s.m_pParent := by
  induction n generalizing s with
  | zero => rfl
  | succ n ih =>
    unfold allocFromDataChunk
    dsimp only
    split
    . rfl
    . generalize (if roundPageSize (size * num) < LSSHM_SHM_UNITSIZE then LSSHM_SHM_UNITSIZE
        else roundPageSize (size * num)) = needed
      generalize (if s.dataMap.x_iEnd - s.dataMap.x_iStart ≠ 0 then s.dataMap.x_iStart else 0) = start
      split
      . rfl
      . rw [ih]
        split
        . split
          . rfl
          . exact parent_releaseData ..
        . rfl

theorem parent_thread (n : Nat) (s : LsShmPool) (xp xoffset : Nat)
    : (s.thread size n xp xoffset).1.m_pParent = s.m_pParent := by
  induction n generalizing s xp xoffset with
  | zero => rfl
  | succ n ih =>
    rw [thread]
    split
    . rfl
    . rw [ih]
      rfl

theorem parent_bucket (h : s.m_pParent = none) : (s.allocFromDataBucket size).1.m_pParent = none := by
  have hhead : s.parentHead (dataSize2Bucket size) = 0 := by
    unfold parentHead
    rw [h]
  unfold allocFromDataBucket
  dsimp only
  split
  . split
    . exact h
    . split
      . exact h
      . exact h
  . rw [fillDataBucket_chunk _ hhead]
    have hchunk := (@parent_chunk size 2 s (slots size)).trans h
    generalize s.allocFromDataChunk size (slots size) 2 = r at *
    dsimp only
    split
    . exact hchunk
    . split
      . exact hchunk
      . have hthread : ∀ xp, ((if r.2.2 - 1 ≠ 0 then r.1.setBucket (dataSize2Bucket size) (r.2.1 + size)
            else r.1).thread size (r.2.2 - 1) xp (r.2.1 + size)).1.m_pParent = none := by
          intro xp
          rw [parent_thread, apply_ite LsShmPool.m_pParent]
          exact (ite_self _).trans hchunk
        generalize (if r.2.2 - 1 ≠ 0 then r.1.setBucket (dataSize2Bucket size) (r.2.1 + size) else r.1) = t at *
        split
        . exact hthread _
        . exact hthread _

end Parent

structure Sized (pages : List (Nat × Nat)) (b : Nat × Nat) : Prop where
  pos : 0 < b.2
  le : b.2 ≤ LSSHM_SHM_UNITSIZE
  aligned : b.2 % LSSHM_POOL_UNITSIZE = 0
  page : b.2 = LSSHM_SHM_UNITSIZE → b ∈ pages

theorem Sized.mono {pages pages' : List (Nat × Nat)} {b : Nat × Nat} (h : Sized pages b)
    (hsub : ∀ c ∈ pages, c ∈ pages') : Sized pages' b :=
  { h with page := fun hb => hsub b (h.page hb) }

theorem roundDataSize_small (hlt : size < LSSHM_SHM_UNITSIZE)
    : roundDataSize size ≤ LSSHM_SHM_UNITSIZE ∧ roundDataSize size % LSSHM_POOL_UNITSIZE = 0 := by
  unfold LSSHM_SHM_UNITSIZE at *
  unfold roundDataSize LSSHM_POOL_UNITSIZE
  omega

theorem valid_small (hne : size ≠ 0) (hlt : size < LSSHM_SHM_UNITSIZE)
    : ¬ (size = 0 ∨ 0x80000000 ≤ size ∨ LSSHM_MAXSIZE < size) := by
  unfold LSSHM_SHM_UNITSIZE at hlt
  unfold LSSHM_MAXSIZE
  omega

theorem Inv.serves_page (h : Inv s xs ys fr) (hsize : roundPageSize size = size)
    : Serves s fr size (s.m_pShm.allocPage size).2
        (s.setShm (s.m_pShm.allocPage size).1, (s.m_pShm.allocPage size).2) ∧
      ((s.m_pShm.allocPage size).2 ≠ 0 →
        ((s.m_pShm.allocPage size).2, size) ∈ (s.m_pShm.allocPage size).1.pages) := by
  rcases PoolShm.allocPage_cases s.m_pShm size with ⟨hz, hun⟩ | hob
  . refine ⟨⟨rfl, ⟨xs, ys, ?_⟩, ?_, pages_allocPage _ _⟩, fun hne => absurd hz hne⟩
    . rw [if_pos hz]
      exact h.unchanged hun
    . exact fun b _ o _ => congrFun hun.word o
  . rw [hsize] at hob
    obtain ⟨h', hk⟩ := h.obtains hob
    refine ⟨⟨rfl, ⟨xs, ys, ?_⟩, hk, pages_allocPage _ _⟩, fun _ => ?_⟩
    . rw [if_neg hob.ne]
      exact h'
    . rw [hob.pages]
      exact List.mem_cons_self

theorem Inv.alloc2 (h : Inv s xs ys fr) {size : Fin LSSHM_SHM_UNITSIZE} (hl : s.LosslessOp (.alloc2 size))
    : (∃ xs' ys', Inv (s.alloc2 size).1 xs' ys'
        (if (s.alloc2 size).2.1 = 0 then fr else (s.alloc2 size).2 :: fr)) ∧
      PoolShm.Keeps s.m_pShm (s.alloc2 size).1.m_pShm fr ∧
      (∀ b ∈ s.m_pShm.pages, b ∈ (s.alloc2 size).1.m_pShm.pages) ∧
      (s.m_pParent = none → (s.alloc2 size).1.m_pParent = none) ∧
      ((s.alloc2 size).2.1 ≠ 0 → Sized (s.alloc2 size).1.m_pShm.pages (s.alloc2 size).2) := by
  obtain ⟨size, hlt⟩ := size
  unfold LosslessOp at hl
  dsimp only at *
  by_cases hzero : size = 0
  . have heq : s.alloc2 size = (s, 0, size) := by
      unfold LsShmPool.alloc2
      rw [if_pos (.inl hzero)]
    rw [heq]
    exact ⟨⟨xs, ys, h⟩, .refl _ _, fun b hb => hb, fun hp => hp, fun hne => absurd rfl hne⟩
  rw [if_neg hzero] at hl
  obtain ⟨hle, hmod⟩ := roundDataSize_small hlt
  have hpos : 0 < roundDataSize size := Nat.lt_of_lt_of_le (Nat.pos_of_ne_zero hzero) (le_roundDataSize size)
  by_cases hpage : LSSHM_SHM_UNITSIZE ≤ roundDataSize size
  . rw [if_pos hpage] at hl
    have hunit : roundDataSize size = LSSHM_SHM_UNITSIZE := Nat.le_antisymm hle hpage
    have hex : s.alloc2Ex (roundDataSize size) =
        (s.setShm (s.m_pShm.allocPage (roundDataSize size)).1, (s.m_pShm.allocPage (roundDataSize size)).2) := by
      unfold alloc2Ex
      rw [if_pos hpage]
    rw [alloc2_of_not_crosses (valid_small hzero hlt) (.inr (by rw [hex]; exact hl)), hex]
    obtain ⟨hs, hmem⟩ := @Inv.serves_page _ _ _ _ (roundDataSize size) h (by rw [hunit]; rfl)
    exact ⟨hs.inv, hs.keeps, hs.pages, fun hp => hp, fun hne => ⟨hpos, hle, hmod, fun _ => hmem hne⟩⟩
  . rw [if_neg hpage] at hl
    have hbucket : s.alloc2Ex (roundDataSize size) = s.allocFromDataBucket (roundDataSize size) := by
      unfold alloc2Ex
      rw [if_neg hpage, if_neg (show ¬ LSSHM_POOL_MAXBCKTSIZE ≤ _ from hpage)]
    have hs := h.serves_bucket hpos (Nat.not_le.mp hpage) hmod hl.1
    rw [alloc2_of_not_crosses (valid_small hzero hlt) (.inr (by rw [hbucket, hs.off]; exact hl.2)), hbucket]
    refine ⟨?_, hs.keeps, hs.pages, parent_bucket, fun _ => ⟨hpos, hle, hmod, fun hb => ?_⟩⟩
    . obtain ⟨xs', ys', h'⟩ := hs.inv
      refine ⟨xs', ys', ?_⟩
      dsimp only
      rw [hs.off]
      exact h'
    . exact absurd (Nat.le_of_eq hb.symm) hpage

theorem Inv.releasePage (h : Inv s xs ys ((off, size) :: fr)) (hmem : (off, size) ∈ s.m_pShm.pages)
    : Inv (s.setShm (s.m_pShm.releasePage off size)) xs ys fr where
  rep := h.rep
  parent := h.parent
  tiles x := by
    have htiles := h.tiles x
    have herase := count_erase hmem x
    rw [count_append, count_cons] at htiles
    show count (s.parts xs ys ++ fr) x = count (s.m_pShm.pages.erase (off, size)) x
    rw [count_append]
    omega

theorem Inv.outside {b : Nat × Nat} (h : Inv s xs ys (fr ++ gr)) (hb : b ∈ fr) {o : Nat} (ho : Within b o)
    : (∀ c ∈ s.parts xs ys, ¬ Within c o) ∧ ∀ c ∈ gr, ¬ Within c o := by
  have hone := h.count_le o
  constructor
  . intro c hc hco
    exact not_within_of_count hone hc hco (List.mem_append_left _ hb) ho
  . rw [← List.append_assoc] at hone
    exact fun c hc => not_within_of_count hone (List.mem_append_right _ hb) ho hc

theorem Inv.store {b : Nat × Nat} {p : Nat} (h : Inv s xs ys (fr ++ gr)) (hb : b ∈ fr) (ho : Within b off)
    (hp : s.m_pShm.offset2ptr off = some p) (v : Nat)
    : Inv (s.write p v) xs ys (fr ++ gr) ∧ PoolShm.Keeps s.m_pShm (s.write p v).m_pShm gr := by
  obtain ⟨hparts, hgr⟩ := h.outside hb ho
  have hword : (s.write p v).m_pShm.word = Function.update s.m_pShm.word off v := PoolShm.word_write hp v
  refine ⟨⟨?_, ?_, h.tiles⟩, PoolShm.keeps_write hp v hgr⟩
  . rw [hword]
    exact h.rep.update_out (fun c hc => hparts c (List.mem_append_left _ hc)) v
  . rw [hword]
    exact h.parent_update hparts v

end LsShmPool

namespace PoolRun

open LsShmPool

/--
The invariant of the runs, for the blocks in use and others `gr`.
-/
structure Inv (r : PoolRun) (xs ys : Nat → List Nat) (gr : List (Nat × Nat)) : Prop where
  pool : r.pool.Inv xs ys (r.live ++ gr)
  sized : ∀ b ∈ r.live, Sized r.pool.m_pShm.pages b

variable {r : PoolRun} {xs ys : Nat → List Nat} {gr : List (Nat × Nat)}

theorem Inv.op (h : r.Inv xs ys gr) {o : PoolOp} (hl : r.pool.LosslessOp o)
    : (∃ xs' ys', (r.op o).Inv xs' ys' gr) ∧ PoolShm.Keeps r.pool.m_pShm (r.op o).pool.m_pShm gr ∧
      (r.pool.m_pParent = none → (r.op o).pool.m_pParent = none) := by
  cases o with
  | alloc2 size =>
    obtain ⟨⟨xs', ys', h'⟩, hk, hpages, hparent, hsized⟩ := h.pool.alloc2 hl
    refine ⟨⟨xs', ys', ?_, ?_⟩, hk.mono fun b hb => List.mem_append_right _ hb, hparent⟩
    . show (r.pool.alloc2 size).1.Inv xs' ys' ((if (r.pool.alloc2 size).2.1 = 0 then r.live
        else (r.pool.alloc2 size).2 :: r.live) ++ gr)
      split
      . rename_i hz
        rw [if_pos hz] at h'
        exact h'
      . rename_i hz
        rw [if_neg hz] at h'
        exact h'
    . show ∀ b ∈ (if (r.pool.alloc2 size).2.1 = 0 then r.live else (r.pool.alloc2 size).2 :: r.live),
        Sized (r.pool.alloc2 size).1.m_pShm.pages b
      intro b hb
      split at hb
      . exact (h.sized b hb).mono hpages
      . rename_i hz
        rcases List.mem_cons.mp hb with rfl | hb
        . exact hsized hz
        . exact (h.sized b hb).mono hpages
  | release2 offset size =>
    by_cases hmem : (offset, roundDataSize size) ∈ r.live
    . have hop : r.op (.release2 offset size) =
          ⟨r.pool.release2 offset size, r.live.erase (offset, roundDataSize size)⟩ := if_pos hmem
      have hs := h.sized _ hmem
      -- the block is taken out of those in use first
      have h' : r.pool.Inv xs ys
          ((offset, roundDataSize size) :: (r.live.erase (offset, roundDataSize size) ++ gr)) := by
        refine Inv.of_count h.pool fun x => ?_
        have herase := count_erase hmem x
        rw [count_cons, count_append, count_append]
        omega
      rw [hop]
      unfold LsShmPool.release2
      by_cases hpage : LSSHM_SHM_UNITSIZE ≤ roundDataSize size
      . have hunit : roundDataSize size = LSSHM_SHM_UNITSIZE := Nat.le_antisymm hs.le hpage
        have hround : roundPageSize (roundDataSize size) = roundDataSize size := by
          rw [hunit]
          rfl
        dsimp only
        rw [if_pos hpage, hround]
        refine ⟨⟨xs, ys, h'.releasePage (hs.page hunit), ?_⟩, fun _ _ _ _ => rfl, fun hp => hp⟩
        intro b hb
        have hsb := h.sized b (List.mem_of_mem_erase hb)
        refine { hsb with page := fun hbu => (List.mem_erase_of_ne ?_).mpr (hsb.page hbu) }
        rintro rfl
        have hin : Within (offset, roundDataSize size) offset := by
          have hpos := hs.pos
          unfold Within
          omega
        exact (h'.apart hin).2 _ (List.mem_append_left _ hb) hin
      . dsimp only
        rw [if_neg hpage]
        obtain ⟨h'', hk, hpages⟩ := h'.releaseData hs.pos (Nat.not_le.mp hpage) hs.aligned
        refine ⟨⟨_, ys, h'', ?_⟩, hk.mono fun b hb => List.mem_append_right _ hb, ?_⟩
        . intro b hb
          dsimp only
          rw [hpages]
          exact h.sized b (List.mem_of_mem_erase hb)
        . exact (parent_releaseData ..).trans
    . have hop : r.op (.release2 offset size) = r := if_neg hmem
      rw [hop]
      exact ⟨⟨xs, ys, h⟩, .refl _ _, fun hp => hp⟩
  | store offset v =>
    by_cases hheld : ∃ b ∈ r.live, Holds b offset
    . have hop : r.op (.store offset v) = match r.pool.m_pShm.offset2ptr offset with
          | none => r
          | some p => { r with pool := r.pool.write p v } := if_pos hheld
      rw [hop]
      obtain ⟨b, hb, hoff⟩ := hheld
      split
      . exact ⟨⟨xs, ys, h⟩, .refl _ _, fun hp => hp⟩
      . rename_i p hp
        have hin : Within b offset := by
          unfold Holds at hoff
          unfold Within
          omega
        obtain ⟨h', hk⟩ := h.pool.store hb hin hp v
        exact ⟨⟨xs, ys, h', h.sized⟩, hk, fun hp => hp⟩
    . have hop : r.op (.store offset v) = r := if_neg hheld
      rw [hop]
      exact ⟨⟨xs, ys, h⟩, .refl _ _, fun hp => hp⟩

theorem Inv.parentView {p : LsShmPoolMap} (h : r.Inv xs ys []) (hp : r.pool.m_pParent = some p)
    : (r.parentView p).Inv ys (fun _ => []) (r.pool.dataMap.free xs) where
  pool := by
    refine ⟨h.pool.parent p hp, fun _ hq => (by cases hq), fun x => ?_⟩
    have htiles := h.pool.tiles x
    unfold parts parentFree at htiles
    rw [hp] at htiles
    show count (p.free ys ++ [] ++ (r.live ++ r.pool.dataMap.free xs)) x = count r.pool.m_pShm.pages x
    simp only [count_append, count_nil] at htiles ⊢
    omega
  sized := h.sized

theorem Inv.step (h : r.Inv xs ys []) {e : PoolEvent} (hl : r.LosslessEvent e)
    : ∃ xs' ys', (r.step e).Inv xs' ys' [] := by
  cases e with
  | onPool o => exact (h.op hl).1
  | onParent o =>
    unfold LosslessEvent at hl
    unfold PoolRun.step
    cases hp : r.pool.m_pParent with
    | none => exact ⟨xs, ys, h⟩
    | some p =>
      rw [hp] at hl
      dsimp only at hl ⊢
      obtain ⟨⟨ys', zs, h'⟩, hk, hparent⟩ := (h.parentView hp).op hl
      refine ⟨xs, ys', ⟨h.pool.rep.congr hk, ?_, fun x => ?_⟩, h'.sized⟩
      . rintro q hq
        obtain rfl := Option.some.inj hq
        exact h'.pool.rep
      . have htiles := h'.pool.tiles x
        unfold parts parentFree at htiles
        rw [hparent rfl] at htiles
        show count (r.pool.dataMap.free xs ++ LsShmPoolMap.free _ ys' ++ (_ ++ [])) x = _
        simp only [count_append, count_nil] at htiles ⊢
        omega

theorem inv_start {m : PoolShm} (hm : m.pages = []) (withParent : Bool)
    : (start m withParent).Inv (fun _ => []) (fun _ => []) [] where
  pool := by
    have hempty : LsShmPoolMap.empty.Rep m.word fun _ => [] :=
      ⟨fun _ _ => rfl, rfl, Nat.le_refl _, rfl, rfl⟩
    have hbuckets : LsShmPoolMap.inBuckets (fun _ => []) = [] := by
      simp [LsShmPoolMap.inBuckets, LsShmPoolMap.blocks]
    refine ⟨hempty, ?_, fun x => ?_⟩
    . intro p hp
      cases withParent with
      | false => cases hp
      | true =>
        obtain rfl := Option.some.inj hp
        exact hempty
    . have hfree : count (LsShmPoolMap.empty.free fun _ => []) x = 0 := by
        rw [LsShmPoolMap.count_free, hbuckets]
        exact count_empty 0 x
      have hparent : count ((start m withParent).pool.parentFree fun _ => []) x = 0 := by
        cases withParent with
        | false => rfl
        | true => exact hfree
      show count (LsShmPoolMap.empty.free (fun _ => []) ++ (start m withParent).pool.parentFree (fun _ => []) ++
        ([] ++ [])) x = count m.pages x
      rw [hm, count_append, count_append, hfree, hparent]
      rfl
  sized b hb := by cases hb

theorem parts_pos {w : Nat → Nat} {d : LsShmPoolMap} (h : d.Rep w xs)
    : ∀ b ∈ d.parts xs, 0 < b.2 := by
  intro b hb
  rcases List.mem_append.mp hb with hb | hb
  . have hle := h.le
    split at hb
    . cases hb
    . obtain rfl := List.mem_singleton.mp hb
      dsimp only
      omega
  . obtain ⟨n, -, hn⟩ := List.mem_flatMap.mp hb
    obtain ⟨y, hy, rfl⟩ := List.mem_map.mp hn
    have hin := h.within hy
    unfold Within at hin
    dsimp only at *
    omega

theorem count_mapParts (d : LsShmPoolMap) (xs : Nat → List Nat) (x : Nat)
    : count (d.parts xs) x = count (d.free xs) x := by
  rw [LsShmPoolMap.count_free, LsShmPoolMap.parts, count_append]
  split
  . rename_i heq
    rw [heq, Nat.sub_self, count_empty]
    rfl
  . rfl

theorem Inv.partition (h : r.Inv xs ys []) : r.PartitionBy xs ys := by
  have hcount : ∀ x, count (r.pool.dataMap.parts xs ++
      ((r.pool.m_pParent.map fun p => p.parts ys).getD []) ++ r.live) x = count r.pool.m_pShm.pages x := by
    intro x
    have htiles := h.pool.tiles x
    unfold parts parentFree at htiles
    cases hp : r.pool.m_pParent with
    | none =>
      rw [hp] at htiles
      simp only [count_append, count_nil, count_mapParts, Option.map_none, Option.getD_none] at htiles ⊢
      omega
    | some p =>
      rw [hp] at htiles
      simp only [count_append, count_nil, count_mapParts, Option.map_some, Option.getD_some] at htiles ⊢
      omega
  refine ⟨⟨h.pool.rep.chain, h.pool.rep.zero, h.pool.rep.freeList⟩, ?_, ?_, fun x => ?_⟩
  . intro p hp
    have hrep := h.pool.parent p hp
    exact ⟨hrep.chain, hrep.zero, hrep.freeList⟩
  . refine pairwise_of_count_le_one (fun x => ?_) fun b hb => ?_
    . rw [hcount]
      exact r.pool.m_pShm.count_pages_le x
    . rcases List.mem_append.mp hb with hb | hb
      . rcases List.mem_append.mp hb with hb | hb
        . exact parts_pos h.pool.rep b hb
        . cases hp : r.pool.m_pParent with
          | none =>
            rw [hp] at hb
            cases hb
          | some p =>
            rw [hp] at hb
            exact parts_pos (h.pool.parent p hp) b hb
      . exact (h.sized b hb).pos
  . rw [← count_pos_iff, hcount, count_pos_iff]

/--
In a run in which no step loses a block, the free blocks and those in use are what the pages are made of.
-/
theorem partition_exec (m : PoolShm) (withParent : Bool) (es : List PoolEvent) (hm : m.pages = [])
    (hok : Run.Meets step LosslessEvent (start m withParent) es)
    : (Run.exec step (start m withParent) es).Partition := by
  obtain ⟨xs, ys, h⟩ := Run.exec_invariant (fun r => ∃ xs ys, PoolRun.Inv r xs ys [])
    (fun r e ⟨xs, ys, h⟩ hl => h.step hl) ⟨_, _, inv_start hm withParent⟩ hok
  exact ⟨xs, ys, h.partition⟩

theorem pages_apart_nil : ([] : List (Nat × Nat)).Pairwise Apart := .nil

def sampleShm : PoolShm where
  m_iFileSize := LARGE_PAGE_SIZE
  m_off2ptrTable := [1]
  mem := fun _ => 0
  pages := []
  answers := [⟨1024, LARGE_PAGE_SIZE, [1], []⟩]
  mapped := Nat.le_refl _
  table_nodup := List.nodup_singleton 1
  table_pos := by decide
  pages_apart := pages_apart_nil
  pages_range := fun _ h => nomatch h
  fileSize_lt := by decide

theorem partition_exec_sample
    : (Run.exec step (start sampleShm true)
        [.onPool (.alloc2 ⟨16, by decide⟩), .onPool (.alloc2 ⟨24, by decide⟩), .onPool (.release2 1024 16),
          .onParent (.alloc2 ⟨40, by decide⟩)]).Partition :=
  partition_exec sampleShm true _ rfl (by decide +kernel)

def sampleLost : PoolRun :=
  Run.exec step (start sampleShm true) [.onParent (.alloc2 ⟨16, by decide⟩), .onPool (.alloc2 ⟨16, by decide⟩)]

theorem not_partition_exec
    : ¬ ∀ (m : PoolShm) (withParent : Bool) (es : List PoolEvent), m.pages = [] →
        (Run.exec step (start m withParent) es).Partition := by
  intro hall
  obtain ⟨xs, ys, h⟩ := hall sampleShm true
    [.onParent (.alloc2 ⟨16, by decide⟩), .onPool (.alloc2 ⟨16, by decide⟩)] rfl
  change sampleLost.PartitionBy xs ys at h
  obtain ⟨p, hp⟩ : ∃ p, sampleLost.pool.m_pParent = some p := Option.isSome_iff_exists.mp (by decide +kernel)
  have hnil : ∀ {w : Nat → Nat} {d : LsShmPoolMap} {zs : Nat → List Nat}, d.Chained w zs →
      (∀ b, b < LSSHM_POOL_NUMBUCKET → d.x_aFreeBucket b = 0) → LsShmPoolMap.inBuckets zs = [] := by
    intro w d zs hc hz
    refine List.flatMap_eq_nil_iff.mpr fun b hb => ?_
    have hb := List.mem_range.mp hb
    have hchain := hc.chain b hb
    rw [hz b hb] at hchain
    rw [hchain.unique (show Chain w 0 0 [] from rfl)]
    rfl
  have hpool := hnil h.pool (by decide +kernel)
  have hheads : ∀ b, b < LSSHM_POOL_NUMBUCKET → (sampleLost.pool.m_pParent.map (·.x_aFreeBucket b)) = some 0 := by
    decide +kernel
  have hparent := hnil (h.parent p hp) fun b hb => by
    have hb := hheads b hb
    rw [hp] at hb
    exact Option.some.inj hb
  have hchunk : sampleLost.pool.m_pParent.map (fun p => (p.x_iStart, p.x_iEnd)) = some (1152, 2048) := by
    decide +kernel
  rw [hp] at hchunk
  obtain ⟨hstart, hend⟩ := Prod.mk.inj (Option.some.inj hchunk)
  have hown : (sampleLost.pool.dataMap.x_iStart, sampleLost.pool.dataMap.x_iEnd) = (0, 0) := by decide +kernel
  obtain ⟨hstart', hend'⟩ := Prod.mk.inj hown
  have hlive : sampleLost.live = [(1040, 16), (1024, 16)] := by decide +kernel
  -- the second of the seven blocks is in no part
  obtain ⟨b, hb, hin⟩ := (h.cover 1056).mpr ⟨(1024, 1024), by decide +kernel, by decide⟩
  rw [hp, hlive, Option.map_some, Option.getD_some, LsShmPoolMap.parts, LsShmPoolMap.parts, hpool, hparent, hstart,
    hend, hstart', hend'] at hb
  unfold Within at hin
  simp at hb
  rcases hb with rfl | rfl | rfl <;> simp at hin

end PoolRun

end Lsmcd
