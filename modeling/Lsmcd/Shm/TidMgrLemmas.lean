import Mathlib.Tactic.Ring
import Lsmcd.Shm.TidMgr

/-!
The list of blocks of the transaction table stays intact whatever the ids are: every block is in
use, the index names the blocks in order and `x_iPrev`, `x_iNext` follow the index.
-/

namespace Lsmcd

namespace LsShmTidMgr

def blkAt (t : LsShmTidMgr) (i : Nat) : Nat :=
  t.blkIdx t.x_iBlkIdxOff i

def idxRoom (cnt : Nat) : Nat :=
  (cnt + (LSSHMTID_BLKIDX_INCR - 1)) / LSSHMTID_BLKIDX_INCR * LSSHMTID_BLKIDX_INCR

theorem blkIdxRoundSize_eq (t : LsShmTidMgr) : t.blkIdxRoundSize = idxRoom t.x_iBlkCnt := by
  unfold blkIdxRoundSize idxRoom LSSHMTID_BLKIDX_INCR
  dsimp only
  split <;> omega

def idxCharge (cnt : Nat) : Nat :=
  if cnt = 0 then 0 else size2roundSize (LSSHMTID_BLKIDX_SIZE (idxRoom cnt))

def tblCharge (t : LsShmTidMgr) : Nat :=
  t.x_iBlkCnt * size2roundSize sizeofTidTblBlk + idxCharge t.x_iBlkCnt

structure Blks (t : LsShmTidMgr) : Prop where
  cur_zero : t.x_iBlkCnt = 0 → t.x_iTidTblCurOff = 0 ∧ t.x_iBlkIdxOff = 0
  cur : ∀ n, t.x_iBlkCnt = n + 1 → t.x_iTidTblCurOff = t.blkAt n
  idx_owns : t.x_iBlkCnt ≠ 0 →
    t.shm.Owns t.x_iBlkIdxOff (size2roundSize (LSSHMTID_BLKIDX_SIZE (idxRoom t.x_iBlkCnt)))
  idx_ne : ∀ i < t.x_iBlkCnt, t.blkAt i ≠ t.x_iBlkIdxOff
  inj : ∀ i < t.x_iBlkCnt, ∀ j < t.x_iBlkCnt, t.blkAt i = t.blkAt j → i = j
  owns : ∀ i < t.x_iBlkCnt, t.shm.Owns (t.blkAt i) (size2roundSize sizeofTidTblBlk)
  prev_zero : 0 < t.x_iBlkCnt → (t.blk (t.blkAt 0)).x_iPrev = 0
  prev : ∀ i, i + 1 < t.x_iBlkCnt → (t.blk (t.blkAt (i + 1))).x_iPrev = t.blkAt i
  next_zero : ∀ n, t.x_iBlkCnt = n + 1 → (t.blk (t.blkAt n)).x_iNext = 0
  next : ∀ i, i + 1 < t.x_iBlkCnt → (t.blk (t.blkAt i)).x_iNext = t.blkAt (i + 1)

theorem init_blks (shm : Shm) (slave : Bool) (blkIdx : Nat → Nat → Nat) (blk : Nat → LsShmTidTblBlk)
    : Blks (init shm slave blkIdx blk) := by
  constructor <;> simp [init]

/--
The blocks that the table uses.
-/
def Uses (t : LsShmTidMgr) (x : Nat) : Prop :=
  t.x_iBlkCnt ≠ 0 ∧ (x = t.x_iBlkIdxOff ∨ ∃ i < t.x_iBlkCnt, x = t.blkAt i)

/--
What the table leaves to everybody else: blocks it does not use stay in use, it does not start to use
one of them, and the hash is charged for the blocks that it does use.
-/
structure Frame (t t' : LsShmTidMgr) : Prop where
  slave : t'.slave = t.slave
  fileSize : t.shm.m_iFileSize ≤ t'.shm.m_iFileSize
  owns : ∀ x n, t.shm.Owns x n → ¬ t.Uses x → t'.shm.Owns x n
  uses : ∀ x n, t.shm.Owns x n → ¬ t.Uses x → ¬ t'.Uses x
  charged : Shm.Charged t.shm t'.shm ((t'.tblCharge : Int) - t.tblCharge)

theorem charged_same {t t' : LsShmTidMgr} (hm : Shm.Charged t.shm t'.shm 0)
    (hc : t'.x_iBlkCnt = t.x_iBlkCnt) : Shm.Charged t.shm t'.shm ((t'.tblCharge : Int) - t.tblCharge) := by
  unfold tblCharge
  rw [hc, Int.sub_self]
  exact hm

theorem Frame.refl (t : LsShmTidMgr) : Frame t t :=
  ⟨rfl, Nat.le_refl _, fun _ _ h _ => h, fun _ _ _ h => h, charged_same (Shm.Charged.refl _) rfl⟩

theorem Frame.trans {t₁ t₂ t₃ : LsShmTidMgr} (h₁ : Frame t₁ t₂) (h₂ : Frame t₂ t₃)
    : Frame t₁ t₃ where
  slave := h₂.slave.trans h₁.slave
  fileSize := Nat.le_trans h₁.fileSize h₂.fileSize
  owns := fun x n ho hu => h₂.owns x n (h₁.owns x n ho hu) (h₁.uses x n ho hu)
  uses := fun x n ho hu => h₂.uses x n (h₁.owns x n ho hu) (h₁.uses x n ho hu)
  charged := h₁.charged.trans h₂.charged (by omega)

theorem Blks.withShm {t : LsShmTidMgr} (h : Blks t) {m : Shm}
    (hm : ∀ x n, t.shm.Owns x n → t.Uses x → m.Owns x n)
    : Blks { t with shm := m } := by
  constructor
  case idx_owns =>
    intro hne
    exact hm _ _ (h.idx_owns hne) ⟨hne, Or.inl rfl⟩
  case owns =>
    intro i hi
    have hi' : i < t.x_iBlkCnt := hi
    exact hm _ _ (h.owns i hi) ⟨by omega, Or.inr ⟨i, hi, rfl⟩⟩
  case cur_zero => exact h.cur_zero
  case cur => exact h.cur
  case idx_ne => exact h.idx_ne
  case inj => exact h.inj
  case prev_zero => exact h.prev_zero
  case prev => exact h.prev
  case next_zero => exact h.next_zero
  case next => exact h.next

theorem Frame.withShm {t : LsShmTidMgr} {m : Shm} (hsz : t.shm.m_iFileSize ≤ m.m_iFileSize)
    (hm : ∀ x n, t.shm.Owns x n → ¬ t.Uses x → m.Owns x n) (hc : Shm.Charged t.shm m 0)
    : Frame t { t with shm := m } :=
  ⟨rfl, hsz, hm, fun _ _ _ hu => hu, charged_same hc rfl⟩

theorem Blks.uses_owns {t : LsShmTidMgr} (h : Blks t) {x : Nat} (hx : t.Uses x)
    : ∃ n, t.shm.Owns x n := by
  obtain ⟨hne, rfl | ⟨i, hi, rfl⟩⟩ := hx
  . exact ⟨_, h.idx_owns hne⟩
  . exact ⟨_, h.owns i hi⟩

structure Grown (t t' : LsShmTidMgr) (base off : Nat) : Prop where
  slave : t'.slave = t.slave
  tid : t'.x_tid = t.x_tid
  pre : t'.x_lastTidPreClear = t.x_lastTidPreClear
  cnt : t'.x_iBlkCnt = t.x_iBlkCnt + 1
  cur : t'.x_iTidTblCurOff = off
  blkAt_lt : ∀ i < t.x_iBlkCnt, t'.blkAt i = t.blkAt i
  blkAt_cnt : t'.blkAt t.x_iBlkCnt = off
  blk_off : t'.blk off =
    { x_tidBase := base, x_iIterCnt := 0, x_iDelCnt := 0, x_iNext := 0,
      x_iPrev := t.x_iTidTblCurOff, x_iTidVals := fun _ => 0 }
  blk_cur : t.x_iBlkCnt ≠ 0 →
    t'.blk t.x_iTidTblCurOff = { t.blk t.x_iTidTblCurOff with x_iNext := off }
  blk_ne : ∀ x, x ≠ off → (t.x_iBlkCnt ≠ 0 → x ≠ t.x_iTidTblCurOff) → t'.blk x = t.blk x
  fileSize : t.shm.m_iFileSize ≤ t'.shm.m_iFileSize
  owns : ∀ x n, t.shm.Owns x n → x ≠ t.x_iBlkIdxOff → t'.shm.Owns x n
  fresh : ∀ n, ¬ t.shm.Owns off n
  owns_off : t'.shm.Owns off (size2roundSize sizeofTidTblBlk)
  owns_idx : t'.shm.Owns t'.x_iBlkIdxOff
    (size2roundSize (LSSHMTID_BLKIDX_SIZE (idxRoom t'.x_iBlkCnt)))
  idx_ne : t'.x_iBlkIdxOff ≠ off
  idx : (t.x_iBlkCnt ≠ 0 ∧ t'.x_iBlkIdxOff = t.x_iBlkIdxOff) ∨
    ∀ n, ¬ t.shm.Owns t'.x_iBlkIdxOff n
  charged : Shm.Charged t.shm t'.shm
    (size2roundSize sizeofTidTblBlk + idxCharge (t.x_iBlkCnt + 1) - idxCharge t.x_iBlkCnt)

theorem Blks.fresh_ne_idx {t : LsShmTidMgr} (h : Blks t) {off : Nat} (hoff : off ≠ 0)
    (hfresh : ∀ n, ¬ t.shm.Owns off n) : off ≠ t.x_iBlkIdxOff := by
  intro heq
  by_cases hc : t.x_iBlkCnt = 0
  . exact hoff (heq.trans (h.cur_zero hc).2)
  . exact hfresh _ (heq ▸ h.idx_owns hc)

section Append

variable {t : LsShmTidMgr} {m : Shm} {bi : Nat → Nat → Nat} {idx base off : Nat}

theorem appendBlk_grown (h : Blks t)
    (hat : ∀ i < t.x_iBlkCnt, bi idx i = t.blkAt i)
    (hsz : t.shm.m_iFileSize ≤ m.m_iFileSize)
    (hown : ∀ x n, t.shm.Owns x n → x ≠ t.x_iBlkIdxOff → m.Owns x n)
    (hfresh : ∀ n, ¬ t.shm.Owns off n)
    (hoff : m.Owns off (size2roundSize sizeofTidTblBlk))
    (hidx : m.Owns idx (size2roundSize (LSSHMTID_BLKIDX_SIZE (idxRoom (t.x_iBlkCnt + 1)))))
    (hne : idx ≠ off)
    (hcase : (t.x_iBlkCnt ≠ 0 ∧ idx = t.x_iBlkIdxOff) ∨ ∀ n, ¬ t.shm.Owns idx n)
    (hch : Shm.Charged t.shm m
      (size2roundSize sizeofTidTblBlk + idxCharge (t.x_iBlkCnt + 1) - idxCharge t.x_iBlkCnt))
    (r : LsShmTidMgr × Nat)
    (hr : { t with shm := m, blkIdx := bi, x_iBlkIdxOff := idx }.appendBlk base off = r)
    : r.2 ≠ 0 ∧ Grown t r.1 base r.2 := by
  have hcurne : t.x_iBlkCnt ≠ 0 → t.x_iTidTblCurOff ≠ off := by
    intro hc heq
    obtain ⟨n, hn⟩ := Nat.exists_eq_succ_of_ne_zero hc
    apply hfresh
    rw [← heq, h.cur n hn]
    exact h.owns n (by omega)
  have hptr : (t.x_iTidTblCurOff ≠ 0 ∧ m.offset2ptr t.x_iTidTblCurOff = true) ↔
      t.x_iBlkCnt ≠ 0 := by
    constructor
    . rintro ⟨hc, _⟩ hz
      exact hc (h.cur_zero hz).1
    . intro hc
      obtain ⟨n, hn⟩ := Nat.exists_eq_succ_of_ne_zero hc
      have ho := hown _ _ (h.owns n (by omega)) (h.idx_ne n (by omega))
      rw [← h.cur n hn] at ho
      exact ⟨ho.ne_zero, ho.offset2ptr⟩
  unfold appendBlk at hr
  dsimp only at hr
  simp only [hptr] at hr
  by_cases hc : t.x_iBlkCnt ≠ 0
  . simp only [hc, if_true, setBlk_shm, setBlk_x_iBlkIdxOff, hidx.offset2ptr, Bool.not_true,
      Bool.false_eq_true, if_false, setBlkIdx_shm, hoff.offset2ptr, ne_eq, not_false_eq_true] at hr
    subst hr
    refine ⟨hoff.ne_zero, ?_⟩
    constructor
    case blkAt_lt =>
      intro i hi
      simp only [blkAt, setBlk, setBlkIdx, Function.update_self]
      rw [Function.update_of_ne (by omega)]
      exact hat i hi
    case blkAt_cnt => simp [blkAt, setBlk, setBlkIdx]
    case blk_off => simp [setBlk, setBlkIdx]
    case blk_cur =>
      intro _
      simp only [setBlk, setBlkIdx]
      rw [Function.update_of_ne (hcurne hc), Function.update_self]
    case blk_ne =>
      intro x hx hx'
      simp only [setBlk, setBlkIdx]
      rw [Function.update_of_ne hx, Function.update_of_ne (hx' hc)]
    all_goals first | rfl | assumption
  . simp only [hc, if_false, hidx.offset2ptr, Bool.not_true, Bool.false_eq_true,
      setBlkIdx_shm, hoff.offset2ptr] at hr
    subst hr
    refine ⟨hoff.ne_zero, ?_⟩
    constructor
    case blkAt_lt => intro i hi; omega
    case blkAt_cnt => simp [blkAt, setBlk, setBlkIdx]
    case blk_off => simp [setBlk, setBlkIdx]
    case blk_cur => intro hc'; exact absurd hc' hc
    case blk_ne =>
      intro x hx _
      simp only [setBlk, setBlkIdx]
      rw [Function.update_of_ne hx]
    all_goals first | rfl | assumption

end Append

theorem idxRoom_succ_of_mod {cnt : Nat} (h : cnt % LSSHMTID_BLKIDX_INCR ≠ 0)
    : idxRoom (cnt + 1) = idxRoom cnt := by
  unfold idxRoom LSSHMTID_BLKIDX_INCR at *
  omega

theorem idxRoom_succ_of_mod_zero {cnt : Nat} (h : cnt % LSSHMTID_BLKIDX_INCR = 0)
    : idxRoom (cnt + 1) = cnt + LSSHMTID_BLKIDX_INCR := by
  unfold idxRoom LSSHMTID_BLKIDX_INCR at *
  omega

theorem idxCharge_succ_of_mod {cnt : Nat} (h : cnt % LSSHMTID_BLKIDX_INCR ≠ 0)
    : idxCharge (cnt + 1) = idxCharge cnt := by
  have hne : cnt ≠ 0 := by
    rintro rfl
    exact h rfl
  unfold idxCharge
  rw [idxRoom_succ_of_mod h, if_neg (Nat.succ_ne_zero cnt), if_neg hne]

theorem idxCharge_succ_of_mod_zero {cnt : Nat} (h : cnt % LSSHMTID_BLKIDX_INCR = 0)
    : idxCharge (cnt + 1) = size2roundSize (LSSHMTID_BLKIDX_SIZE (cnt + LSSHMTID_BLKIDX_INCR)) := by
  unfold idxCharge
  rw [idxRoom_succ_of_mod_zero h, if_neg (Nat.succ_ne_zero cnt)]

theorem idxRoom_of_mod_zero {cnt : Nat} (h : cnt % LSSHMTID_BLKIDX_INCR = 0) : idxRoom cnt = cnt := by
  unfold idxRoom LSSHMTID_BLKIDX_INCR at *
  omega

theorem allocBlkIdx_cases {t : LsShmTidMgr} (h : Blks t)
    (hmod : t.x_iBlkCnt % LSSHMTID_BLKIDX_INCR = 0) (r : LsShmTidMgr × Nat)
    (hr : t.allocBlkIdx t.x_iBlkIdxOff t.x_iBlkCnt = r)
    : (r.2 = 0 ∧ ∃ m, r.1 = { t with shm := m } ∧ Shm.Grows t.shm m ∧ Shm.Charged t.shm m 0) ∨
      (r.2 ≠ 0 ∧ ∃ m bi, r.1 = { t with shm := m, blkIdx := bi } ∧
        (∀ i < t.x_iBlkCnt, bi r.2 i = t.blkAt i) ∧ t.shm.m_iFileSize ≤ m.m_iFileSize ∧
        Shm.Charged t.shm m ((idxCharge (t.x_iBlkCnt + 1) : Int) - idxCharge t.x_iBlkCnt) ∧
        (∀ x n, t.shm.Owns x n → x ≠ t.x_iBlkIdxOff → m.Owns x n) ∧
        m.Owns r.2
          (size2roundSize (LSSHMTID_BLKIDX_SIZE (t.x_iBlkCnt + LSSHMTID_BLKIDX_INCR))) ∧
        ∀ n, ¬ t.shm.Owns r.2 n) := by
  unfold allocBlkIdx at hr
  dsimp only at hr
  have hg := t.shm.grows_alloc2 (LSSHMTID_BLKIDX_SIZE (t.x_iBlkCnt + LSSHMTID_BLKIDX_INCR))
  have hfr := t.shm.fresh_alloc2 (LSSHMTID_BLKIDX_SIZE (t.x_iBlkCnt + LSSHMTID_BLKIDX_INCR))
  have hch := t.shm.charged_alloc2 (LSSHMTID_BLKIDX_SIZE (t.x_iBlkCnt + LSSHMTID_BLKIDX_INCR))
  rw [← idxCharge_succ_of_mod_zero hmod] at hch
  generalize t.shm.alloc2 (LSSHMTID_BLKIDX_SIZE (t.x_iBlkCnt + LSSHMTID_BLKIDX_INCR)) = a
    at hr hg hfr hch
  obtain ⟨m, idx⟩ := a
  dsimp only at hr hg hfr hch
  split at hr
  . next hidx =>
    rw [if_pos hidx] at hch
    subst hr
    exact Or.inl ⟨rfl, m, rfl, hg, hch⟩
  . next hidx =>
    have hf := hfr hidx
    rw [if_neg hidx] at hch
    have hfresh : ∀ n, ¬ t.shm.Owns idx n := by
      intro n
      apply hf.not_owns
      apply size2roundSize_pos
      unfold LSSHMTID_BLKIDX_SIZE LSSHMTID_BLKIDX_INCR
      omega
    split at hr
    . next hold =>
      have hz : t.x_iBlkCnt = 0 := by
        by_contra hc
        exact (h.idx_owns hc).ne_zero hold
      subst hr
      refine Or.inr ⟨hidx, m, t.blkIdx, rfl, ?_, hg.fileSize, ?_, ?_, hf.owns, hfresh⟩
      . intro i hi
        omega
      . have hzero : idxCharge t.x_iBlkCnt = 0 := if_pos hz
        rw [hzero, Nat.cast_zero, Int.sub_zero]
        exact hch
      . intro x n ho _
        exact ho.grows hg
    . next hold =>
      have hc : t.x_iBlkCnt ≠ 0 := fun hz => hold (h.cur_zero hz).2
      have hio := h.idx_owns hc
      simp only [(hio.grows hg).offset2ptr, hf.owns.offset2ptr, Bool.not_true, Bool.false_eq_true,
        if_false] at hr
      subst hr
      refine Or.inr ⟨hidx, _, _, rfl, ?_, hg.fileSize, ?_, ?_, ?_, hfresh⟩
      . intro i hi
        simp [setBlkIdx, blkAt, hi]
      . have hold : idxCharge t.x_iBlkCnt = size2roundSize (LSSHMTID_BLKIDX_SIZE t.x_iBlkCnt) := by
          unfold idxCharge
          rw [if_neg hc, idxRoom_of_mod_zero hmod]
        rw [hold]
        exact hch.trans (Shm.charged_release2 m _ _) (by omega)
      . intro x n ho hx
        exact Shm.owns_release2.mpr ⟨ho.grows hg, hx⟩
      . refine Shm.owns_release2.mpr ⟨hf.owns, ?_⟩
        intro heq
        exact hfresh _ (heq ▸ hio)

theorem growTidTbl_cases {t : LsShmTidMgr} (h : Blks t) (base : Nat)
    (r : LsShmTidMgr × Nat) (hr : t.growTidTbl base = r)
    : (r.2 = 0 ∧ ∃ m, r.1 = { t with shm := m } ∧ t.shm.m_iFileSize ≤ m.m_iFileSize ∧
        Shm.Charged t.shm m 0 ∧ ∀ x n, t.shm.Owns x n → m.Owns x n) ∨
      (r.2 ≠ 0 ∧ Grown t r.1 base r.2) := by
  unfold growTidTbl at hr
  dsimp only at hr
  have hg := t.shm.grows_alloc2 sizeofTidTblBlk
  have hfr := t.shm.fresh_alloc2 sizeofTidTblBlk
  have hch := t.shm.charged_alloc2 sizeofTidTblBlk
  generalize t.shm.alloc2 sizeofTidTblBlk = a at hr hg hfr hch
  obtain ⟨m, off⟩ := a
  dsimp only at hr hg hfr hch
  split at hr
  . next hoff =>
    rw [if_pos hoff] at hch
    subst hr
    exact Or.inl ⟨rfl, m, rfl, hg.fileSize, hch, fun x n ho => ho.grows hg⟩
  . next hoff =>
    have hf := hfr hoff
    rw [if_neg hoff] at hch
    have hfresh : ∀ n, ¬ t.shm.Owns off n := fun n => hf.not_owns (by decide)
    split at hr
    . next hmod =>
      have hB : Blks { t with shm := m } := h.withShm (fun x n ho _ => ho.grows hg)
      generalize hq : LsShmTidMgr.allocBlkIdx { t with shm := m } t.x_iBlkIdxOff t.x_iBlkCnt = q at hr
      rcases allocBlkIdx_cases hB hmod q hq with
        ⟨hz, m', hq1, hg', hch'⟩ | ⟨hne, m', bi, hq1, hat, hsz, hch', hown, hio, hifresh⟩
      . rw [if_pos hz] at hr
        subst hr
        refine Or.inl ⟨rfl, m'.release2 off sizeofTidTblBlk, by rw [hq1]; rfl,
          Nat.le_trans hg.fileSize hg'.fileSize, ?_, ?_⟩
        . exact (hch.trans hch' rfl).trans (Shm.charged_release2 m' off sizeofTidTblBlk) (by omega)
        intro x n ho
        refine Shm.owns_release2.mpr ⟨(ho.grows hg).grows hg', ?_⟩
        rintro rfl
        exact hfresh n ho
      . rw [if_neg hne, hq1] at hr
        refine Or.inr (appendBlk_grown h hat (Nat.le_trans hg.fileSize hsz) ?_ hfresh ?_ ?_ ?_ ?_
          (hch.trans hch' (by dsimp only; omega)) r hr)
        . intro x n ho hx
          exact hown x n (ho.grows hg) hx
        . exact hown _ _ hf.owns (h.fresh_ne_idx hoff hfresh)
        . rw [idxRoom_succ_of_mod_zero hmod]
          exact hio
        . intro heq
          exact hifresh _ (heq ▸ hf.owns)
        . exact Or.inr (fun n ho => hifresh n (ho.grows hg))
    . next hmod =>
      have hc : t.x_iBlkCnt ≠ 0 := by
        intro hz
        rw [hz] at hmod
        exact hmod rfl
      have hio := h.idx_owns hc
      have hch' : Shm.Charged t.shm m
          (size2roundSize sizeofTidTblBlk + idxCharge (t.x_iBlkCnt + 1) - idxCharge t.x_iBlkCnt) := by
        rw [idxCharge_succ_of_mod hmod, Int.add_sub_cancel]
        exact hch
      refine Or.inr (appendBlk_grown h (fun i _ => rfl) hg.fileSize ?_ hfresh hf.owns ?_ ?_ ?_ hch' r
        hr)
      . intro x n ho _
        exact ho.grows hg
      . rw [idxRoom_succ_of_mod hmod]
        exact hio.grows hg
      . intro heq
        exact hfresh _ (heq ▸ hio)
      . exact Or.inl ⟨hc, rfl⟩

theorem Grown.blkAt_ne_off {t t' : LsShmTidMgr} {base off : Nat} (h : Blks t)
    (hg : Grown t t' base off) {i : Nat} (hi : i < t.x_iBlkCnt) : t.blkAt i ≠ off := by
  intro heq
  exact hg.fresh _ (heq ▸ h.owns i hi)

theorem Grown.blk_prev {t t' : LsShmTidMgr} {base off : Nat} (hg : Grown t t' base off) {x : Nat}
    (hx : x ≠ off) : (t'.blk x).x_iPrev = (t.blk x).x_iPrev := by
  by_cases hc : t.x_iBlkCnt ≠ 0 ∧ x = t.x_iTidTblCurOff
  . rw [hc.2, hg.blk_cur hc.1]
  . rw [hg.blk_ne x hx (fun hcnt heq => hc ⟨hcnt, heq⟩)]

theorem Grown.blks {t t' : LsShmTidMgr} {base off : Nat} (h : Blks t) (hg : Grown t t' base off)
    : Blks t' := by
  -- the blocks of the new table are those of the old one and `off`
  have hat : ∀ i < t'.x_iBlkCnt, (i < t.x_iBlkCnt ∧ t'.blkAt i = t.blkAt i ∧ t.blkAt i ≠ off) ∨
      (i = t.x_iBlkCnt ∧ t'.blkAt i = off) := by
    intro i hi
    rw [hg.cnt] at hi
    rcases Nat.lt_succ_iff_lt_or_eq.mp hi with hlt | rfl
    . exact Or.inl ⟨hlt, hg.blkAt_lt i hlt, hg.blkAt_ne_off h hlt⟩
    . exact Or.inr ⟨rfl, hg.blkAt_cnt⟩
  constructor
  case cur_zero => intro hz; rw [hg.cnt] at hz; omega
  case cur =>
    intro n hn
    rw [hg.cnt] at hn
    obtain rfl : t.x_iBlkCnt = n := by omega
    rw [hg.cur, hg.blkAt_cnt]
  case idx_owns => exact fun _ => hg.owns_idx
  case idx_ne =>
    intro i hi
    rcases hat i hi with ⟨hlt, heq, hne⟩ | ⟨rfl, heq⟩
    . rw [heq]
      rcases hg.idx with ⟨_, hidx⟩ | hidx
      . rw [hidx]
        exact h.idx_ne i hlt
      . intro hc
        exact hidx _ (hc ▸ h.owns i hlt)
    . rw [heq]
      exact hg.idx_ne.symm
  case inj =>
    intro i hi j hj hij
    rcases hat i hi with ⟨hlt, heq, hne⟩ | ⟨rfl, heq⟩ <;>
      rcases hat j hj with ⟨hlt', heq', hne'⟩ | ⟨rfl, heq'⟩
    . exact h.inj i hlt j hlt' (by rw [← heq, ← heq', hij])
    . exact absurd (by rw [← heq, hij, heq']) hne
    . exact absurd (by rw [← heq', ← hij, heq]) hne'
    . rfl
  case owns =>
    intro i hi
    rcases hat i hi with ⟨hlt, heq, hne⟩ | ⟨rfl, heq⟩
    . rw [heq]
      exact hg.owns _ _ (h.owns i hlt) (h.idx_ne i hlt)
    . rw [heq]
      exact hg.owns_off
  case prev_zero =>
    intro hpos
    rcases hat 0 hpos with ⟨hlt, heq, hne⟩ | ⟨hz, heq⟩
    . rw [heq, hg.blk_prev hne]
      exact h.prev_zero hlt
    . rw [heq, hg.blk_off]
      exact (h.cur_zero hz.symm).1
  case prev =>
    intro i hi
    rcases hat (i + 1) hi with ⟨hlt, heq, hne⟩ | ⟨hi', heq⟩
    . rw [heq, hg.blk_prev hne, hg.blkAt_lt i (by omega)]
      exact h.prev i hlt
    . rw [heq, hg.blk_off, hg.blkAt_lt i (by omega)]
      exact h.cur i hi'.symm
  case next_zero =>
    intro n hn
    rw [hg.cnt] at hn
    obtain rfl : t.x_iBlkCnt = n := by omega
    rw [hg.blkAt_cnt, hg.blk_off]
  case next =>
    intro i hi
    have hi' : i < t.x_iBlkCnt := by rw [hg.cnt] at hi; omega
    rw [hg.blkAt_lt i hi']
    rcases hat (i + 1) hi with ⟨hlt, heq, hne⟩ | ⟨hcnt, heq⟩
    . have hcur : t.blkAt i ≠ t.x_iTidTblCurOff := by
        obtain ⟨n, hn⟩ := Nat.exists_eq_succ_of_ne_zero (show t.x_iBlkCnt ≠ 0 by omega)
        rw [h.cur n hn]
        intro hc
        have := h.inj i hi' n (by omega) hc
        omega
      rw [heq, hg.blk_ne _ (hg.blkAt_ne_off h hi') (fun _ => hcur)]
      exact h.next i hlt
    . rw [heq, ← h.cur i hcnt.symm, hg.blk_cur (by omega)]

theorem Grown.frame {t t' : LsShmTidMgr} {base off : Nat} (hg : Grown t t' base off)
    (h : Blks t) : Frame t t' := by
  have hidx : ∀ x n, t.shm.Owns x n → ¬ t.Uses x → x ≠ t.x_iBlkIdxOff := by
    intro x n ho hu heq
    by_cases hc : t.x_iBlkCnt = 0
    . exact ho.ne_zero (heq.trans (h.cur_zero hc).2)
    . exact hu ⟨hc, Or.inl heq⟩
  constructor
  case slave => exact hg.slave
  case fileSize => exact hg.fileSize
  case charged =>
    have heq : (t'.tblCharge : Int) - t.tblCharge =
        size2roundSize sizeofTidTblBlk + idxCharge (t.x_iBlkCnt + 1) - idxCharge t.x_iBlkCnt := by
      unfold tblCharge
      rw [hg.cnt]
      push_cast
      ring
    rw [heq]
    exact hg.charged
  case owns => exact fun x n ho hu => hg.owns x n ho (hidx x n ho hu)
  case uses =>
    rintro x n ho hu ⟨_, heq | ⟨i, hi, heq⟩⟩
    . rcases hg.idx with ⟨_, hsame⟩ | hnew
      . exact hidx x n ho hu (heq.trans hsame)
      . exact hnew n (heq ▸ ho)
    . rw [hg.cnt] at hi
      rcases Nat.lt_succ_iff_lt_or_eq.mp hi with hlt | rfl
      . rw [hg.blkAt_lt i hlt] at heq
        exact hu ⟨by omega, Or.inr ⟨i, hlt, heq⟩⟩
      . rw [hg.blkAt_cnt] at heq
        exact hg.fresh n (heq ▸ ho)

theorem growTidTbl_blks {t : LsShmTidMgr} (h : Blks t) (base : Nat)
    : Blks (t.growTidTbl base).1 ∧ Frame t (t.growTidTbl base).1 := by
  rcases growTidTbl_cases h base _ rfl with ⟨_, m, heq, hsz, hch, hown⟩ | ⟨_, hg⟩
  . rw [heq]
    exact ⟨h.withShm (fun x n ho _ => hown x n ho),
      Frame.withShm hsz (fun x n ho _ => hown x n ho) hch⟩
  . exact ⟨hg.blks h, hg.frame h⟩

theorem Blks.setBlk {t : LsShmTidMgr} (h : Blks t) {off : Nat} {b : LsShmTidTblBlk}
    (hprev : b.x_iPrev = (t.blk off).x_iPrev) (hnext : b.x_iNext = (t.blk off).x_iNext)
    : Blks (t.setBlk off b) := by
  have hp : ∀ x, ((t.setBlk off b).blk x).x_iPrev = (t.blk x).x_iPrev := by
    intro x
    by_cases hx : x = off
    . subst hx
      simp [hprev]
    . simp [hx]
  have hn : ∀ x, ((t.setBlk off b).blk x).x_iNext = (t.blk x).x_iNext := by
    intro x
    by_cases hx : x = off
    . subst hx
      simp [hnext]
    . simp [hx]
  constructor
  case cur_zero => exact h.cur_zero
  case cur => exact h.cur
  case idx_owns => exact h.idx_owns
  case idx_ne => exact h.idx_ne
  case inj => exact h.inj
  case owns => exact h.owns
  case prev_zero => intro hpos; rw [hp]; exact h.prev_zero hpos
  case prev => intro i hi; rw [hp]; exact h.prev i hi
  case next_zero => intro n hc; rw [hn]; exact h.next_zero n hc
  case next => intro i hi; rw [hn]; exact h.next i hi

theorem Blks.withTid {t : LsShmTidMgr} (h : Blks t) (tid : Nat) : Blks { t with x_tid := tid } :=
  ⟨h.cur_zero, h.cur, h.idx_owns, h.idx_ne, h.inj, h.owns, h.prev_zero, h.prev, h.next_zero, h.next⟩

theorem frame_setBlk (t : LsShmTidMgr) (off : Nat) (b : LsShmTidTblBlk)
    : Frame t (t.setBlk off b) :=
  ⟨rfl, Nat.le_refl _, fun _ _ h _ => h, fun _ _ _ h => h, charged_same (Shm.Charged.refl _) rfl⟩

theorem putTidVal_blks {t : LsShmTidMgr} (h : Blks t) (off indx tidVal : Nat)
    : Blks (t.putTidVal off indx tidVal) ∧ Frame t (t.putTidVal off indx tidVal) := by
  unfold putTidVal
  refine ⟨h.setBlk ?_ ?_, frame_setBlk t _ _⟩ <;> split <;> rfl

theorem storeTidTblEnt_blks {t : LsShmTidMgr} (h : Blks t) (tidVal tid : Nat)
    : Blks (t.storeTidTblEnt tidVal tid).1 ∧ Frame t (t.storeTidTblEnt tidVal tid).1 := by
  unfold storeTidTblEnt
  dsimp only
  split
  . have hg := growTidTbl_blks h (tid - tid % TIDTBLBLK_MAXSZ)
    split
    . exact hg
    . split
      . exact hg
      . have hp := putTidVal_blks hg.1 (t.growTidTbl (tid - tid % TIDTBLBLK_MAXSZ)).2
          (tid % TIDTBLBLK_MAXSZ) tidVal
        exact ⟨hp.1, hg.2.trans hp.2⟩
  . exact putTidVal_blks h _ _ _

theorem setTidTblEnt_blks {t : LsShmTidMgr} (h : Blks t) (tidVal pTid : Nat)
    : Blks (t.setTidTblEnt tidVal pTid).1 ∧ Frame t (t.setTidTblEnt tidVal pTid).1 := by
  unfold setTidTblEnt
  split
  . exact ⟨h, Frame.refl t⟩
  . next tid _ =>
    have hs := storeTidTblEnt_blks (h.withTid tid) tidVal tid
    exact ⟨hs.1, hs.2.slave, hs.2.fileSize, hs.2.owns, hs.2.uses, hs.2.charged⟩

theorem clrTidTblEnt_blks {t : LsShmTidMgr} (h : Blks t) (tid : Nat)
    : Blks (t.clrTidTblEnt tid) ∧ Frame t (t.clrTidTblEnt tid) := by
  unfold clrTidTblEnt
  split
  . exact ⟨h, Frame.refl t⟩
  . exact ⟨h.setBlk rfl rfl, frame_setBlk t _ _⟩

theorem checkTidTbl_blks {t : LsShmTidMgr} (h : Blks t)
    : Blks t.checkTidTbl ∧ Frame t t.checkTidTbl := by
  unfold checkTidTbl
  dsimp only
  split
  . exact growTidTbl_blks h _
  . exact ⟨h, Frame.refl t⟩

theorem unlinkTid_blks {t : LsShmTidMgr} (h : Blks t) (tid : Nat)
    : Blks (t.unlinkTid tid) ∧ Frame t (t.unlinkTid tid) := by
  have hc := clrTidTblEnt_blks h tid
  unfold unlinkTid
  dsimp only
  split
  . have hs := setTidTblEnt_blks hc.1 tid 0
    exact ⟨hs.1, hc.2.trans hs.2⟩
  . exact hc

theorem clrTidTblLoop_eq {t : LsShmTidMgr} (h : Blks t) {k off : Nat} (hk : k ≤ t.x_iBlkCnt)
    (hz : k = 0 → off = 0) (hoff : ∀ j, k = j + 1 → off = t.blkAt j) {m : Shm}
    (hown : ∀ i < k, ∃ n, m.Owns (t.blkAt i) n) {fuel : Nat} (hfuel : k < fuel)
    : ∃ m', clrTidTblLoop fuel { t with shm := m } off = ({ t with shm := m' }, true) ∧
        m'.m_iFileSize = m.m_iFileSize ∧
        Shm.Charged m m' (-(k * size2roundSize sizeofTidTblBlk : Int)) ∧
        ∀ x n, m'.Owns x n ↔ m.Owns x n ∧ ∀ i < k, x ≠ t.blkAt i := by
  induction k generalizing off m fuel with
  | zero =>
    obtain ⟨fuel, rfl⟩ := Nat.exists_eq_succ_of_ne_zero (show fuel ≠ 0 by omega)
    refine ⟨m, ?_, rfl, ?_, ?_⟩
    . simp [clrTidTblLoop, hz rfl]
    . simpa using Shm.Charged.refl m
    . simp
  | succ j ih =>
    obtain ⟨fuel, rfl⟩ := Nat.exists_eq_succ_of_ne_zero (show fuel ≠ 0 by omega)
    obtain rfl := hoff j rfl
    obtain ⟨n, ho⟩ := hown j (by omega)
    have hne : ∀ i < j, t.blkAt i ≠ t.blkAt j := by
      intro i hi heq
      have := h.inj i (by omega) j (by omega) heq
      omega
    have hprev : (j = 0 → (t.blk (t.blkAt j)).x_iPrev = 0) ∧
        ∀ i, j = i + 1 → (t.blk (t.blkAt j)).x_iPrev = t.blkAt i := by
      refine ⟨?_, ?_⟩
      . rintro rfl
        exact h.prev_zero (by omega)
      . rintro i rfl
        exact h.prev i (by omega)
    have hown' : ∀ i < j, ∃ n, (m.release2 (t.blkAt j) sizeofTidTblBlk).Owns (t.blkAt i) n := by
      intro i hi
      obtain ⟨n, hi'⟩ := hown i (by omega)
      exact ⟨n, Shm.owns_release2.mpr ⟨hi', hne i hi⟩⟩
    obtain ⟨m', heq, hsz, hch, hm'⟩ := ih (by omega) hprev.1 hprev.2 hown' (show j < fuel by omega)
    refine ⟨m', ?_, hsz, ?_, ?_⟩
    . rw [clrTidTblLoop, if_neg ho.ne_zero]
      simp only [ho.offset2ptr, Bool.not_true, Bool.false_eq_true, if_false]
      exact heq
    . apply (Shm.charged_release2 m (t.blkAt j) sizeofTidTblBlk).trans hch
      push_cast
      ring
    . intro x n
      rw [hm' x n, Shm.owns_release2, and_assoc]
      apply and_congr_right
      intro _
      constructor
      . rintro ⟨hx, hlt⟩ i hi
        rcases Nat.lt_succ_iff_lt_or_eq.mp hi with hi | rfl
        . exact hlt i hi
        . exact hx
      . intro hlt
        exact ⟨hlt j (by omega), fun i hi => hlt i (by omega)⟩

theorem Blks.cnt_le_live {t : LsShmTidMgr} (h : Blks t) {m : Shm}
    (hown : ∀ i < t.x_iBlkCnt, ∃ n, m.Owns (t.blkAt i) n) : t.x_iBlkCnt ≤ m.live.length := by
  have hnd : ((List.range t.x_iBlkCnt).map t.blkAt).Nodup := by
    apply List.Nodup.map_on _ List.nodup_range
    intro i hi j hj heq
    exact h.inj i (List.mem_range.mp hi) j (List.mem_range.mp hj) heq
  have hle := m.length_le_live hnd (by
    intro x hx
    obtain ⟨i, hi, rfl⟩ := List.mem_map.mp hx
    exact hown i (List.mem_range.mp hi))
  simpa using hle

theorem releaseTidTbl_eq {t : LsShmTidMgr} (h : Blks t)
    : ∃ m, t.releaseTidTbl = ({ t with shm := m }, true) ∧
        m.m_iFileSize = t.shm.m_iFileSize ∧ Shm.Charged t.shm m (-(t.tblCharge : Int)) ∧
        ∀ x n, m.Owns x n ↔ t.shm.Owns x n ∧ ¬ t.Uses x := by
  unfold releaseTidTbl
  dsimp only
  by_cases hc : t.x_iBlkCnt = 0
  . have hcur := (h.cur_zero hc).1
    rw [if_neg (not_not.mpr hcur)]
    refine ⟨t.shm, ?_, rfl, ?_, ?_⟩
    . rw [clrTidTblLoop, if_pos hcur]
    . simpa [tblCharge, idxCharge, hc] using Shm.Charged.refl t.shm
    . intro x n
      simp [Uses, hc]
  . obtain ⟨k, hk⟩ := Nat.exists_eq_succ_of_ne_zero hc
    have hcur := h.cur k hk
    have hco := h.owns k (by omega)
    rw [← hcur] at hco
    rw [if_pos hco.ne_zero]
    have hown : ∀ i < t.x_iBlkCnt, ∃ n, (t.shm.release2 t.x_iBlkIdxOff
        (LSSHMTID_BLKIDX_SIZE t.blkIdxRoundSize)).Owns (t.blkAt i) n :=
      fun i hi => ⟨_, Shm.owns_release2.mpr ⟨h.owns i hi, h.idx_ne i hi⟩⟩
    obtain ⟨m, heq, hsz, hch, hm⟩ := clrTidTblLoop_eq h (Nat.le_refl _) (fun hz => absurd hz hc)
      (fun j hj => h.cur j hj) hown (Nat.lt_succ_of_le (h.cnt_le_live hown))
    refine ⟨m, heq, hsz, ?_, ?_⟩
    . apply (Shm.charged_release2 t.shm _ _).trans hch
      unfold tblCharge idxCharge
      rw [if_neg hc, blkIdxRoundSize_eq]
      push_cast
      ring
    intro x n
    rw [hm x n, Shm.owns_release2, and_assoc]
    apply and_congr_right
    intro _
    constructor
    . rintro ⟨hx, hlt⟩ ⟨_, rfl | ⟨i, hi, rfl⟩⟩
      . exact hx rfl
      . exact hlt i hi rfl
    . intro hu
      exact ⟨fun heq => hu ⟨hc, Or.inl heq⟩, fun i hi heq => hu ⟨hc, Or.inr ⟨i, hi, heq⟩⟩⟩

theorem resetTidTbl_blks (t : LsShmTidMgr) : Blks t.resetTidTbl := by
  constructor <;> simp [resetTidTbl]

theorem clrTidTbl_blks {t : LsShmTidMgr} (h : Blks t)
    : Blks t.clrTidTbl ∧ Frame t t.clrTidTbl := by
  obtain ⟨m, heq, hsz, hch, hm⟩ := releaseTidTbl_eq h
  have hframe : Frame t ({ t with shm := m } : LsShmTidMgr).resetTidTbl := by
    refine ⟨rfl, Nat.le_of_eq hsz.symm, fun x n ho hu => (hm x n).mpr ⟨ho, hu⟩, ?_, ?_⟩
    . rintro x n _ _ ⟨hc, _⟩
      exact hc rfl
    . have hzero : (resetTidTbl { t with shm := m }).tblCharge = 0 := by
        simp [tblCharge, resetTidTbl, idxCharge]
      rw [hzero, Nat.cast_zero, Int.zero_sub]
      exact hch
  unfold clrTidTbl
  simp only [heq, if_true]
  split
  . have hs := setTidTblEnt_blks (resetTidTbl_blks { t with shm := m }) TIDDEL_FLUSHALL 0
    exact ⟨hs.1, hframe.trans hs.2⟩
  . exact ⟨resetTidTbl_blks _, hframe⟩

end LsShmTidMgr

end Lsmcd
