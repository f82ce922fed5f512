import Lsmcd.Lib.Run
import Lsmcd.Shm.TidMgrLemmas

/-!
The transaction table against what was stored in it. A log records the values stored since the table
was cleared last; the table is indexed by its ids as long as every id that needs a new block needs
exactly the one that comes next, counted from the block of `x_lastTidPreClear`.
-/

namespace Lsmcd

/--
The value stored for an id since the last `clrTidTbl`, 0 once it was taken out again.
-/
abbrev TidLog := Nat → Option Nat

namespace LsShmTidMgr

def firstBlk (t : LsShmTidMgr) : Nat :=
  t.x_lastTidPreClear / TIDTBLBLK_MAXSZ

def Reaches (t : LsShmTidMgr) (tid : Nat) : Prop :=
  tid / TIDTBLBLK_MAXSZ ≤ t.firstBlk + t.x_iBlkCnt ∧ tid + TIDTBLBLK_MAXSZ < 2 ^ 64

instance (t : LsShmTidMgr) (tid : Nat) : Decidable (t.Reaches tid) :=
  inferInstanceAs (Decidable (_ ∧ _))

structure Indexed (t : LsShmTidMgr) (log : TidLog) : Prop where
  blks : Blks t
  pre_le : t.x_lastTidPreClear ≤ t.x_tid
  tid_lt : t.x_tid + TIDTBLBLK_MAXSZ < 2 ^ 64
  last_le : ∀ n, t.x_iBlkCnt = n + 1 → (t.firstBlk + n) * TIDTBLBLK_MAXSZ ≤ t.x_tid + 1
  last_lt : ∀ n, t.x_iBlkCnt = n + 1 →
    (t.firstBlk + n) * TIDTBLBLK_MAXSZ + TIDTBLBLK_MAXSZ < 2 ^ 64
  base : ∀ i < t.x_iBlkCnt, (t.blk (t.blkAt i)).x_tidBase = (t.firstBlk + i) * TIDTBLBLK_MAXSZ
  entries : ∀ i < t.x_iBlkCnt, ∀ j < TIDTBLBLK_MAXSZ,
    (t.blk (t.blkAt i)).x_iTidVals j = (log ((t.firstBlk + i) * TIDTBLBLK_MAXSZ + j)).getD 0
  log_lt : ∀ tid v, log tid = some v →
    t.x_lastTidPreClear < tid ∧ tid ≤ t.x_tid ∧ tid / TIDTBLBLK_MAXSZ < t.firstBlk + t.x_iBlkCnt

variable {t : LsShmTidMgr} {log : TidLog}

theorem Indexed.blkEnd_eq (h : Indexed t log) {i : Nat} (hi : i < t.x_iBlkCnt)
    : blkEnd (t.blk (t.blkAt i)) = (t.firstBlk + i + 1) * TIDTBLBLK_MAXSZ := by
  obtain ⟨n, hn⟩ := Nat.exists_eq_succ_of_ne_zero (show t.x_iBlkCnt ≠ 0 by omega)
  have hlast := h.last_lt n hn
  have hmul : (t.firstBlk + i) * TIDTBLBLK_MAXSZ ≤ (t.firstBlk + n) * TIDTBLBLK_MAXSZ :=
    Nat.mul_le_mul_right _ (by omega)
  unfold blkEnd
  rw [h.base i hi, Nat.mod_eq_of_lt, Nat.succ_mul]
  exact Nat.lt_of_le_of_lt (Nat.add_le_add_right hmul _) hlast

theorem Indexed.needsBlk_iff (h : Indexed t log) (tid : Nat)
    : t.needsBlk tid = true ↔
        (t.firstBlk + t.x_iBlkCnt ≤ tid / TIDTBLBLK_MAXSZ ∨ t.x_iBlkCnt = 0) := by
  unfold needsBlk
  cases hc : t.x_iBlkCnt with
  | zero => simp [(h.blks.cur_zero hc).1, Shm.offset2ptr_zero]
  | succ n =>
    have hcur := h.blks.cur n hc
    have ho := h.blks.owns n (by omega)
    rw [hcur, ho.offset2ptr, h.blkEnd_eq (by omega)]
    simp only [Bool.not_true, Bool.false_or, decide_eq_true_eq, Nat.add_eq_zero_iff,
      Nat.one_ne_zero, and_false, or_false]
    unfold TIDTBLBLK_MAXSZ
    omega

theorem Indexed.tid2tblBlk_eq (h : Indexed t log) {tid : Nat} (hpre : t.x_lastTidPreClear ≤ tid)
    (hlt : tid / TIDTBLBLK_MAXSZ < t.firstBlk + t.x_iBlkCnt)
    : t.tid2tblBlk tid = some (t.blkAt (tid / TIDTBLBLK_MAXSZ - t.firstBlk)) := by
  have hle : t.firstBlk ≤ tid / TIDTBLBLK_MAXSZ := Nat.div_le_div_right hpre
  have hi : tid / TIDTBLBLK_MAXSZ - t.firstBlk < t.x_iBlkCnt := by omega
  have hidx := h.blks.idx_owns (by omega)
  have ho := h.blks.owns _ hi
  have heq : (tid >>> 10) - (t.x_lastTidPreClear >>> 10) = tid / TIDTBLBLK_MAXSZ - t.firstBlk := by
    simp only [Nat.shiftRight_eq_div_pow, firstBlk, TIDTBLBLK_MAXSZ]
  unfold tid2tblBlk
  simp only [Nat.not_lt.mpr hpre, if_false, heq, hidx.ne_zero, false_or, Nat.not_le.mpr hi,
    hidx.offset2ptr, Bool.not_true, Bool.false_eq_true]
  unfold blkAt at ho ⊢
  rw [if_pos ho.offset2ptr]

theorem tid2tblBlk_none {tid : Nat} (hpre : t.x_lastTidPreClear ≤ tid)
    (hge : t.firstBlk + t.x_iBlkCnt ≤ tid / TIDTBLBLK_MAXSZ)
    : t.tid2tblBlk tid = none := by
  have heq : (tid >>> 10) - (t.x_lastTidPreClear >>> 10) = tid / TIDTBLBLK_MAXSZ - t.firstBlk := by
    simp only [Nat.shiftRight_eq_div_pow, firstBlk, TIDTBLBLK_MAXSZ]
  unfold tid2tblBlk
  simp only [Nat.not_lt.mpr hpre, if_false, heq]
  rw [if_pos (Or.inr (by omega))]

theorem Indexed.withShm (h : Indexed t log) {m : Shm}
    (hm : ∀ x n, t.shm.Owns x n → t.Uses x → m.Owns x n) : Indexed { t with shm := m } log :=
  ⟨h.blks.withShm hm, h.pre_le, h.tid_lt, h.last_le, h.last_lt, h.base,
    h.entries, h.log_lt⟩

theorem Indexed.withTid (h : Indexed t log) {tid : Nat} (hle : t.x_tid ≤ tid)
    (hlt : tid + TIDTBLBLK_MAXSZ < 2 ^ 64) : Indexed { t with x_tid := tid } log where
  blks := h.blks.withTid tid
  pre_le := Nat.le_trans h.pre_le hle
  tid_lt := hlt
  last_le := fun n hn => Nat.le_trans (h.last_le n hn) (Nat.succ_le_succ hle)
  last_lt := h.last_lt
  base := h.base
  entries := h.entries
  log_lt := fun x v hx =>
    have hl := h.log_lt x v hx
    ⟨hl.1, Nat.le_trans hl.2.1 hle, hl.2.2⟩

theorem Grown.firstBlk {t' : LsShmTidMgr} {base off : Nat} (hg : Grown t t' base off)
    : t'.firstBlk = t.firstBlk := by
  unfold LsShmTidMgr.firstBlk
  rw [hg.pre]

theorem Indexed.grown (h : Indexed t log) {t' : LsShmTidMgr} {off : Nat}
    (hg : Grown t t' ((t.firstBlk + t.x_iBlkCnt) * TIDTBLBLK_MAXSZ) off)
    (hle : (t.firstBlk + t.x_iBlkCnt) * TIDTBLBLK_MAXSZ ≤ t.x_tid + 1)
    (hlt : (t.firstBlk + t.x_iBlkCnt) * TIDTBLBLK_MAXSZ + TIDTBLBLK_MAXSZ < 2 ^ 64)
    : Indexed t' log := by
  have hfirst := hg.firstBlk
  have hother : ∀ i < t.x_iBlkCnt, (t'.blk (t.blkAt i)).x_tidBase = (t.blk (t.blkAt i)).x_tidBase ∧
      (t'.blk (t.blkAt i)).x_iTidVals = (t.blk (t.blkAt i)).x_iTidVals := by
    intro i hi
    by_cases hcur : t.blkAt i = t.x_iTidTblCurOff
    . rw [hcur, hg.blk_cur (by omega)]
      exact ⟨rfl, rfl⟩
    . rw [hg.blk_ne _ (hg.blkAt_ne_off h.blks hi) (fun _ => hcur)]
      exact ⟨rfl, rfl⟩
  constructor
  case blks => exact hg.blks h.blks
  case pre_le => rw [hg.pre, hg.tid]; exact h.pre_le
  case tid_lt => rw [hg.tid]; exact h.tid_lt
  case last_le =>
    intro n hn
    rw [hg.cnt] at hn
    obtain rfl : t.x_iBlkCnt = n := by omega
    rw [hfirst, hg.tid]
    exact hle
  case last_lt =>
    intro n hn
    rw [hg.cnt] at hn
    obtain rfl : t.x_iBlkCnt = n := by omega
    rw [hfirst]
    exact hlt
  case base =>
    intro i hi
    rw [hg.cnt] at hi
    rw [hfirst]
    rcases Nat.lt_succ_iff_lt_or_eq.mp hi with hlt | rfl
    . rw [hg.blkAt_lt i hlt, (hother i hlt).1]
      exact h.base i hlt
    . rw [hg.blkAt_cnt, hg.blk_off]
  case entries =>
    intro i hi j hj
    rw [hg.cnt] at hi
    rw [hfirst]
    rcases Nat.lt_succ_iff_lt_or_eq.mp hi with hlt | rfl
    . rw [hg.blkAt_lt i hlt, (hother i hlt).2]
      exact h.entries i hlt j hj
    . -- nothing was stored beyond the last block
      rw [hg.blkAt_cnt, hg.blk_off]
      cases hv : log ((t.firstBlk + t.x_iBlkCnt) * TIDTBLBLK_MAXSZ + j) with
      | none => rfl
      | some v =>
        have hl := (h.log_lt _ _ hv).2.2
        unfold TIDTBLBLK_MAXSZ at hl hj
        omega
  case log_lt =>
    intro tid v hv
    have hl := h.log_lt tid v hv
    rw [hg.pre, hg.tid, hfirst, hg.cnt]
    exact ⟨hl.1, hl.2.1, by omega⟩

theorem Indexed.setVal (h : Indexed t log) {tid v k : Nat} {b : LsShmTidTblBlk} {log' : TidLog}
    (hk : k < t.x_iBlkCnt) (htid : tid / TIDTBLBLK_MAXSZ = t.firstBlk + k)
    (hbase : b.x_tidBase = (t.blk (t.blkAt k)).x_tidBase)
    (hprev : b.x_iPrev = (t.blk (t.blkAt k)).x_iPrev)
    (hnext : b.x_iNext = (t.blk (t.blkAt k)).x_iNext)
    (hvals : b.x_iTidVals =
      Function.update (t.blk (t.blkAt k)).x_iTidVals (tid % TIDTBLBLK_MAXSZ) v)
    (hlog : (log' tid).getD 0 = v) (hother : ∀ x, x ≠ tid → log' x = log x)
    (hrange : log' tid ≠ none → t.x_lastTidPreClear < tid ∧ tid ≤ t.x_tid)
    : Indexed (t.setBlk (t.blkAt k) b) log' := by
  have hne : ∀ i < t.x_iBlkCnt, i ≠ k → t.blkAt i ≠ t.blkAt k :=
    fun i hi hik heq => hik (h.blks.inj i hi k hk heq)
  constructor
  case blks => exact h.blks.setBlk hprev hnext
  case pre_le => exact h.pre_le
  case tid_lt => exact h.tid_lt
  case last_le => exact h.last_le
  case last_lt => exact h.last_lt
  case base =>
    intro i hi
    show (Function.update t.blk (t.blkAt k) b (t.blkAt i)).x_tidBase = _
    by_cases hik : i = k
    . subst hik
      rw [Function.update_self, hbase]
      exact h.base i hi
    . rw [Function.update_of_ne (hne i hi hik)]
      exact h.base i hi
  case entries =>
    intro i hi j hj
    show (Function.update t.blk (t.blkAt k) b (t.blkAt i)).x_iTidVals j
      = (log' ((t.firstBlk + i) * TIDTBLBLK_MAXSZ + j)).getD 0
    have hdiv : ((t.firstBlk + i) * TIDTBLBLK_MAXSZ + j) / TIDTBLBLK_MAXSZ = t.firstBlk + i := by
      unfold TIDTBLBLK_MAXSZ at hj ⊢
      omega
    have hmod : ((t.firstBlk + i) * TIDTBLBLK_MAXSZ + j) % TIDTBLBLK_MAXSZ = j := by
      unfold TIDTBLBLK_MAXSZ at hj ⊢
      omega
    by_cases hik : i = k
    . subst hik
      rw [Function.update_self, hvals]
      by_cases hjt : j = tid % TIDTBLBLK_MAXSZ
      . have heq : (t.firstBlk + i) * TIDTBLBLK_MAXSZ + j = tid := by
          rw [← htid, hjt]
          unfold TIDTBLBLK_MAXSZ
          omega
        rw [heq, hlog, hjt, Function.update_self]
      . have hx : (t.firstBlk + i) * TIDTBLBLK_MAXSZ + j ≠ tid := by
          intro heq
          rw [heq] at hmod
          exact hjt hmod.symm
        rw [hother _ hx, Function.update_of_ne hjt]
        exact h.entries i hi j hj
    . have hx : (t.firstBlk + i) * TIDTBLBLK_MAXSZ + j ≠ tid := by
        intro heq
        rw [heq, htid] at hdiv
        omega
      rw [Function.update_of_ne (hne i hi hik), hother _ hx]
      exact h.entries i hi j hj
  case log_lt =>
    intro x v' hv
    by_cases hx : x = tid
    . subst hx
      have hr := hrange (by rw [hv]; exact Option.some_ne_none v')
      exact ⟨hr.1, hr.2, by show x / TIDTBLBLK_MAXSZ < t.firstBlk + t.x_iBlkCnt; omega⟩
    . rw [hother x hx] at hv
      exact h.log_lt x v' hv

theorem Indexed.putTidVal (h : Indexed t log) {tid k : Nat} (v : Nat) (hk : k < t.x_iBlkCnt)
    (htid : tid / TIDTBLBLK_MAXSZ = t.firstBlk + k) (hpre : t.x_lastTidPreClear < tid)
    (hle : tid ≤ t.x_tid)
    : Indexed (t.putTidVal (t.blkAt k) (tid % TIDTBLBLK_MAXSZ) v)
        (Function.update log tid (some v)) := by
  unfold LsShmTidMgr.putTidVal
  apply h.setVal (v := v) hk htid
  case hlog => simp
  case hother => exact fun x hx => Function.update_of_ne hx _ _
  case hrange => exact fun _ => ⟨hpre, hle⟩
  all_goals split <;> rfl

theorem storeTidTblEnt_indexed (h : Indexed t log) {tid : Nat} (v : Nat) (htid : t.x_tid = tid)
    (hpre : t.x_lastTidPreClear < tid) (hreach : t.Reaches tid)
    (hlast : ∀ n, t.x_iBlkCnt = n + 1 → (t.firstBlk + n) * TIDTBLBLK_MAXSZ ≤ tid)
    : Indexed (t.storeTidTblEnt v tid).1
        (if (t.storeTidTblEnt v tid).2 then Function.update log tid (some v) else log) := by
  have hfirst : t.firstBlk ≤ tid / TIDTBLBLK_MAXSZ := Nat.div_le_div_right (Nat.le_of_lt hpre)
  obtain ⟨hblk, hlt⟩ := hreach
  unfold storeTidTblEnt
  dsimp only
  split
  . next hneeds =>
    have heq : tid / TIDTBLBLK_MAXSZ = t.firstBlk + t.x_iBlkCnt := by
      rcases (h.needsBlk_iff tid).mp hneeds with hge | hz <;> omega
    have hbase : tid - tid % TIDTBLBLK_MAXSZ = (t.firstBlk + t.x_iBlkCnt) * TIDTBLBLK_MAXSZ := by
      rw [← heq]
      unfold TIDTBLBLK_MAXSZ
      omega
    have hble : (t.firstBlk + t.x_iBlkCnt) * TIDTBLBLK_MAXSZ ≤ tid := by
      rw [← hbase]
      exact Nat.sub_le _ _
    rw [hbase]
    rcases growTidTbl_cases h.blks ((t.firstBlk + t.x_iBlkCnt) * TIDTBLBLK_MAXSZ) _ rfl with
      ⟨hz, m, hm, _, _, hown⟩ | ⟨hne, hg⟩
    . rw [if_pos hz, hm]
      exact h.withShm (fun x n ho _ => hown x n ho)
    . have hI := h.grown hg (by omega)
        (Nat.lt_of_le_of_lt (Nat.add_le_add_right hble _) hlt)
      have hcnt : t.x_iBlkCnt < (t.growTidTbl ((t.firstBlk + t.x_iBlkCnt) * TIDTBLBLK_MAXSZ)).1.x_iBlkCnt := by
        rw [hg.cnt]
        omega
      rw [if_neg hne, hg.owns_off.offset2ptr]
      simp only [Bool.not_true, Bool.false_eq_true, if_false, if_true]
      rw [← hg.blkAt_cnt]
      apply hI.putTidVal v hcnt
      . rw [hg.firstBlk]
        exact heq
      . rw [hg.pre]
        exact hpre
      . exact Nat.le_of_eq (hg.tid.trans htid).symm
  . next hneeds =>
    have hn := mt (h.needsBlk_iff tid).mpr hneeds
    rw [not_or] at hn
    obtain ⟨k, hk⟩ := Nat.exists_eq_succ_of_ne_zero hn.2
    have hkt := hlast k hk
    rw [if_pos rfl, h.blks.cur k hk]
    apply h.putTidVal v (by omega) _ hpre (by omega)
    unfold TIDTBLBLK_MAXSZ at hn hkt ⊢
    omega

theorem Indexed.newTid_gt (h : Indexed t log) {tid pTid : Nat} (hnew : t.newTid pTid = some tid)
    : t.x_tid < tid := by
  have hlt := h.tid_lt
  unfold newTid at hnew
  unfold TIDTBLBLK_MAXSZ at hlt
  split at hnew
  . rw [Nat.mod_eq_of_lt (by omega)] at hnew
    simp only [Option.some.injEq] at hnew
    omega
  . split at hnew
    . simp only [Option.some.injEq] at hnew
      omega
    . exact absurd hnew (by simp)

theorem setTidTblEnt_indexed (h : Indexed t log) (v pTid : Nat)
    (hreach : ∀ tid ∈ t.newTid pTid, t.Reaches tid)
    : Indexed (t.setTidTblEnt v pTid).1
        (if (t.setTidTblEnt v pTid).2.2 then
          Function.update log (t.setTidTblEnt v pTid).2.1 (some v) else log) := by
  unfold setTidTblEnt
  split
  . simpa using h
  . next tid hnew =>
    have hr := hreach tid hnew
    have hgt := h.newTid_gt hnew
    have hI := h.withTid (Nat.le_of_lt hgt) hr.2
    exact storeTidTblEnt_indexed hI v rfl (Nat.lt_of_le_of_lt h.pre_le hgt) hr
      (fun n hn => Nat.le_trans (h.last_le n hn) hgt)

theorem clrTidTblEnt_indexed (h : Indexed t log) {tid : Nat} (hpre : t.x_lastTidPreClear < tid)
    : Indexed (t.clrTidTblEnt tid) (Function.update log tid ((log tid).map fun _ => 0)) := by
  unfold clrTidTblEnt
  by_cases hlt : tid / TIDTBLBLK_MAXSZ < t.firstBlk + t.x_iBlkCnt
  . have hfirst : t.firstBlk ≤ tid / TIDTBLBLK_MAXSZ := Nat.div_le_div_right (Nat.le_of_lt hpre)
    rw [h.tid2tblBlk_eq (Nat.le_of_lt hpre) hlt]
    dsimp only
    have hk : tid / TIDTBLBLK_MAXSZ - t.firstBlk < t.x_iBlkCnt := by omega
    have htid : tid / TIDTBLBLK_MAXSZ = t.firstBlk + (tid / TIDTBLBLK_MAXSZ - t.firstBlk) := by
      omega
    apply h.setVal (v := 0) hk htid
    case hlog => cases log tid <;> simp
    case hother => exact fun x hx => Function.update_of_ne hx _ _
    case hrange =>
      intro hne
      cases hv : log tid with
      | none => simp [hv] at hne
      | some v => exact ⟨hpre, (h.log_lt tid v hv).2.1⟩
    all_goals rfl
  . rw [tid2tblBlk_none (Nat.le_of_lt hpre) (Nat.le_of_not_lt hlt)]
    have hnone : log tid = none := by
      cases hv : log tid with
      | none => rfl
      | some v => exact absurd (h.log_lt tid v hv).2.2 hlt
    have hself : Function.update log tid ((log tid).map fun _ => 0) = log := by
      rw [hnone, Option.map_none, ← hnone, Function.update_eq_self]
    rw [hself]
    exact h

theorem resetTidTbl_indexed (h : Indexed t log) {m : Shm}
    : Indexed (resetTidTbl { t with shm := m }) (fun _ => none) := by
  constructor
  case blks => exact resetTidTbl_blks _
  case pre_le => exact Nat.le_refl _
  case tid_lt => exact h.tid_lt
  case last_le => intro n hn; exact absurd hn (by simp [resetTidTbl])
  case last_lt => intro n hn; exact absurd hn (by simp [resetTidTbl])
  case base => intro i hi; exact absurd hi (by simp [resetTidTbl])
  case entries => intro i hi; exact absurd hi (by simp [resetTidTbl])
  case log_lt => intro tid v hv; exact absurd hv (by simp)

end LsShmTidMgr

section Next

open LsShmTidMgr

variable {b : LsShmTidTblBlk}

theorem nxtValInBlk_go_some {n indx j : Nat} (h : nxtValInBlk.go b n indx = some j)
    : indx ≤ j ∧ j < indx + n ∧ b.x_iTidVals j ≠ 0 ∧
        ∀ k, indx ≤ k → k < j → b.x_iTidVals k = 0 := by
  induction n generalizing indx with
  | zero => simp [nxtValInBlk.go] at h
  | succ n ih =>
    rw [nxtValInBlk.go] at h
    split at h
    . next hne =>
      obtain rfl := Option.some.inj h
      exact ⟨Nat.le_refl _, by omega, hne, fun k hk hk' => by omega⟩
    . next hz =>
      obtain ⟨hle, hlt, hne, hmin⟩ := ih h
      refine ⟨by omega, by omega, hne, ?_⟩
      intro k hk hkj
      rcases Nat.eq_or_lt_of_le hk with rfl | hk
      . exact not_not.mp hz
      . exact hmin k hk hkj

theorem nxtValInBlk_go_none {n indx : Nat} (h : nxtValInBlk.go b n indx = none)
    : ∀ k, indx ≤ k → k < indx + n → b.x_iTidVals k = 0 := by
  induction n generalizing indx with
  | zero => intro k hk hk'; omega
  | succ n ih =>
    rw [nxtValInBlk.go] at h
    split at h
    . exact absurd h (by simp)
    . next hz =>
      intro k hk hk'
      rcases Nat.eq_or_lt_of_le hk with rfl | hk
      . exact not_not.mp hz
      . exact ih h k hk (by omega)

variable {t : LsShmTidMgr} {log : TidLog}

theorem LsShmTidMgr.Indexed.nxtInBlk_cases (h : Indexed t log) {i : Nat} (hi : i < t.x_iBlkCnt)
    (tid : Nat)
    : (∃ j < TIDTBLBLK_MAXSZ, nxtInBlk (t.blk (t.blkAt i)) tid = some j ∧
        tid < (t.firstBlk + i) * TIDTBLBLK_MAXSZ + j ∧
        (log ((t.firstBlk + i) * TIDTBLBLK_MAXSZ + j)).getD 0 ≠ 0 ∧
        ∀ w, tid < w → (t.firstBlk + i) * TIDTBLBLK_MAXSZ ≤ w →
          w < (t.firstBlk + i) * TIDTBLBLK_MAXSZ + j → (log w).getD 0 = 0) ∨
      (nxtInBlk (t.blk (t.blkAt i)) tid = none ∧
        ∀ w, tid < w → (t.firstBlk + i) * TIDTBLBLK_MAXSZ ≤ w →
          w < (t.firstBlk + i + 1) * TIDTBLBLK_MAXSZ → (log w).getD 0 = 0) := by
  have hent := h.entries i hi
  unfold nxtInBlk
  rw [h.blkEnd_eq hi, h.base i hi]
  -- an id of the block is its first id and an index
  have hidx : ∀ w, (t.firstBlk + i) * TIDTBLBLK_MAXSZ ≤ w →
      w < (t.firstBlk + i + 1) * TIDTBLBLK_MAXSZ →
      (log w).getD 0 = (t.blk (t.blkAt i)).x_iTidVals (w - (t.firstBlk + i) * TIDTBLBLK_MAXSZ) := by
    intro w hle hlt
    rw [hent _ (by unfold TIDTBLBLK_MAXSZ at *; omega), Nat.add_sub_cancel' hle]
  generalize hb : (t.firstBlk + i) * TIDTBLBLK_MAXSZ = base at *
  have hend : (t.firstBlk + i + 1) * TIDTBLBLK_MAXSZ = base + TIDTBLBLK_MAXSZ := by
    rw [Nat.succ_mul, hb]
  have hmod : base % TIDTBLBLK_MAXSZ = 0 := by rw [← hb]; exact Nat.mul_mod_left _ _
  rw [hend] at hidx ⊢
  by_cases hlt : tid < base + TIDTBLBLK_MAXSZ
  . rw [if_pos hlt]
    unfold nxtValInBlk
    generalize hs : (if base ≤ tid then tid % TIDTBLBLK_MAXSZ + 1 else 0) = s
    have hgt : ∀ j, j < TIDTBLBLK_MAXSZ → (s ≤ j ↔ tid < base + j) := by
      intro j hj
      unfold TIDTBLBLK_MAXSZ at *
      split at hs <;> omega
    have hs' : s + (TIDTBLBLK_MAXSZ - s) = TIDTBLBLK_MAXSZ ∨ TIDTBLBLK_MAXSZ - s = 0 := by omega
    cases hgo : nxtValInBlk.go (t.blk (t.blkAt i)) (TIDTBLBLK_MAXSZ - s) s with
    | some j =>
      obtain ⟨hle, hj, hne, hmin⟩ := nxtValInBlk_go_some hgo
      have hj' : j < TIDTBLBLK_MAXSZ := by omega
      refine Or.inl ⟨j, hj', rfl, (hgt j hj').mp hle, ?_, ?_⟩
      . rw [← hent j hj']
        exact hne
      . intro w htw hbw hwj
        rw [hidx w hbw (by omega)]
        apply hmin _ _ (by omega)
        exact (hgt _ (by omega)).mpr (by omega)
    | none =>
      refine Or.inr ⟨rfl, ?_⟩
      intro w htw hbw hwe
      rw [hidx w hbw hwe]
      have hsw := (hgt (w - base) (by omega)).mpr (by omega)
      exact nxtValInBlk_go_none hgo _ hsw (by omega)
  . rw [if_neg hlt]
    refine Or.inr ⟨rfl, ?_⟩
    intro w htw hbw hwe
    omega

/--
The result of a search for the first id after `tid`, among those from `lo` on, that has a value.
-/
structure NextStored (t : LsShmTidMgr) (log : TidLog) (lo tid : Nat) (r : Option (Nat × Nat))
    : Prop where
  found : ∀ u off, r = some (u, off) → tid < u ∧ (log u).getD 0 ≠ 0 ∧ t.tid2tblBlk u = some off ∧
    ∀ w, tid < w → lo ≤ w → w < u → (log w).getD 0 = 0
  absent : r = none → ∀ w, tid < w → lo ≤ w → (log w).getD 0 = 0

theorem nxtTidTblValLoop_next (h : Indexed t log) (tid : Nat) {fuel i : Nat}
    (hi : i < t.x_iBlkCnt) (hfuel : t.x_iBlkCnt - i ≤ fuel)
    : NextStored t log ((t.firstBlk + i) * TIDTBLBLK_MAXSZ) tid
        (t.nxtTidTblValLoop tid fuel (t.blkAt i)) := by
  induction fuel generalizing i with
  | zero => omega
  | succ fuel ih =>
    rw [nxtTidTblValLoop]
    rcases h.nxtInBlk_cases hi tid with ⟨j, hj, hfound, htj, hval, hmin⟩ | ⟨hnone, hmin⟩
    . rw [hfound, h.base i hi]
      refine ⟨?_, fun hc => absurd hc (by simp)⟩
      rintro u off heq
      simp only [Option.some.injEq, Prod.mk.injEq] at heq
      obtain ⟨rfl, rfl⟩ := heq
      refine ⟨htj, hval, ?_, hmin⟩
      have hdiv : ((t.firstBlk + i) * TIDTBLBLK_MAXSZ + j) / TIDTBLBLK_MAXSZ = t.firstBlk + i := by
        unfold TIDTBLBLK_MAXSZ at hj ⊢
        omega
      have hpre : t.x_lastTidPreClear ≤ (t.firstBlk + i) * TIDTBLBLK_MAXSZ + j := by
        cases hv : log ((t.firstBlk + i) * TIDTBLBLK_MAXSZ + j) with
        | none => rw [hv] at hval; exact absurd rfl hval
        | some v => exact Nat.le_of_lt (h.log_lt _ _ hv).1
      rw [h.tid2tblBlk_eq hpre (by omega), hdiv, Nat.add_sub_cancel_left]
    . rw [hnone]
      dsimp only
      by_cases hlast : i + 1 < t.x_iBlkCnt
      . have ho := h.blks.owns (i + 1) hlast
        rw [h.blks.next i hlast, if_neg ho.ne_zero, ho.offset2ptr]
        simp only [Bool.not_true, Bool.false_eq_true, if_false]
        have hrec := ih hlast (by omega)
        -- ids of this block have no value, the others are those from the next block on
        refine ⟨?_, ?_⟩
        . intro u off heq
          obtain ⟨htu, hval, hblk, hrest⟩ := hrec.found u off heq
          refine ⟨htu, hval, hblk, ?_⟩
          intro w htw hbw hwu
          by_cases hw : w < (t.firstBlk + i + 1) * TIDTBLBLK_MAXSZ
          . exact hmin w htw hbw hw
          . exact hrest w htw (Nat.le_of_not_lt hw) hwu
        . intro heq w htw hbw
          by_cases hw : w < (t.firstBlk + i + 1) * TIDTBLBLK_MAXSZ
          . exact hmin w htw hbw hw
          . exact hrec.absent heq w htw (Nat.le_of_not_lt hw)
      . rw [h.blks.next_zero i (by omega), if_pos rfl]
        refine ⟨fun u off hc => absurd hc (by simp), ?_⟩
        intro _ w htw hbw
        by_cases hw : w < (t.firstBlk + i + 1) * TIDTBLBLK_MAXSZ
        . exact hmin w htw hbw hw
        . cases hv : log w with
          | none => rfl
          | some v =>
            have hl := (h.log_lt w v hv).2.2
            unfold TIDTBLBLK_MAXSZ at hl hw
            omega

theorem nxtTidTblVal_next (h : Indexed t log) {tid v : Nat} (hv : log tid = some v)
    : NextStored t log 0 tid (t.nxtTidTblVal tid 0) := by
  obtain ⟨hpre, _, hlt⟩ := h.log_lt tid v hv
  have hfirst : t.firstBlk ≤ tid / TIDTBLBLK_MAXSZ := Nat.div_le_div_right (Nat.le_of_lt hpre)
  have hi : tid / TIDTBLBLK_MAXSZ - t.firstBlk < t.x_iBlkCnt := by omega
  have hlive := h.blks.cnt_le_live (fun i hi => ⟨_, h.blks.owns i hi⟩)
  have hbase : (t.firstBlk + (tid / TIDTBLBLK_MAXSZ - t.firstBlk)) * TIDTBLBLK_MAXSZ ≤ tid := by
    rw [Nat.add_sub_cancel' hfirst]
    exact Nat.div_mul_le_self _ _
  have hfuel : t.x_iBlkCnt - (tid / TIDTBLBLK_MAXSZ - t.firstBlk) ≤ t.shm.live.length + 1 := by
    omega
  have hloop := nxtTidTblValLoop_next h tid hi hfuel
  unfold nxtTidTblVal
  rw [if_neg (not_not.mpr rfl), h.tid2tblBlk_eq (Nat.le_of_lt hpre) hlt]
  dsimp only
  refine ⟨?_, fun heq w htw _ => hloop.absent heq w htw (by omega)⟩
  intro u off heq
  obtain ⟨htu, hval, hblk, hrest⟩ := hloop.found u off heq
  exact ⟨htu, hval, hblk, fun w htw _ => hrest w htw (by omega)⟩

end Next

inductive TidOp where
  | setTidTblEnt (tidVal pTid : Nat)
  | clrTidTblEnt (tid : Nat)
  | clrTidTbl

structure TidRun where
  mgr : LsShmTidMgr
  log : TidLog

namespace TidRun

open LsShmTidMgr

def setTidTblEnt (s : TidRun) (tidVal pTid : Nat) : TidRun :=
  let r := s.mgr.setTidTblEnt tidVal pTid
  { mgr := r.1, log := if r.2.2 then Function.update s.log r.2.1 (some tidVal) else s.log }

/--
On a master the flush notification that `clrTidTbl` stores last is logged like any other value.
-/
def step (s : TidRun) : TidOp → TidRun
  | .setTidTblEnt tidVal pTid => s.setTidTblEnt tidVal pTid
  | .clrTidTblEnt tid =>
    { mgr := s.mgr.clrTidTblEnt tid
      log := Function.update s.log tid ((s.log tid).map fun _ => 0) }
  | .clrTidTbl =>
    let t := s.mgr.releaseTidTbl.1.resetTidTbl
    { mgr := s.mgr.clrTidTbl
      log := if t.isTidMaster then
        (TidRun.mk t fun _ => none).setTidTblEnt TIDDEL_FLUSHALL 0 |>.log else fun _ => none }

/--
An id that is assigned lies in a block of the table or in the one that comes next; in particular a
master is not cleared when `x_tid` is the last id of its block.
-/
def Ok (s : TidRun) : TidOp → Prop
  | .setTidTblEnt _ pTid => ∀ tid ∈ s.mgr.newTid pTid, s.mgr.Reaches tid
  | .clrTidTblEnt tid => s.mgr.x_lastTidPreClear < tid
  | .clrTidTbl => s.mgr.isTidMaster = true →
      s.mgr.x_tid % TIDTBLBLK_MAXSZ ≠ TIDTBLBLK_MAXSZ - 1 ∧
      s.mgr.x_tid + 1 + TIDTBLBLK_MAXSZ < 2 ^ 64

instance (s : TidRun) (op : TidOp) : Decidable (s.Ok op) :=
  match op with
  | .setTidTblEnt _ pTid =>
    inferInstanceAs (Decidable (∀ tid ∈ s.mgr.newTid pTid, s.mgr.Reaches tid))
  | .clrTidTblEnt _ => inferInstanceAs (Decidable (_ < _))
  | .clrTidTbl => inferInstanceAs (Decidable (_ → _ ∧ _))

theorem step_indexed (s : TidRun) (op : TidOp) (h : Indexed s.mgr s.log) (hok : s.Ok op)
    : Indexed (s.step op).mgr (s.step op).log := by
  cases op with
  | setTidTblEnt tidVal pTid => exact setTidTblEnt_indexed h tidVal pTid hok
  | clrTidTblEnt tid => exact clrTidTblEnt_indexed h hok
  | clrTidTbl =>
    obtain ⟨m, heq, _⟩ := releaseTidTbl_eq h.blks
    have hreset := resetTidTbl_indexed h (m := m)
    simp only [step, LsShmTidMgr.clrTidTbl, heq, if_true]
    split
    . next hmaster =>
      apply setTidTblEnt_indexed hreset
      have hm := hok hmaster
      intro tid htid
      have hpos : (s.mgr.x_tid + 1) % 2 ^ 64 = s.mgr.x_tid + 1 := by
        apply Nat.mod_eq_of_lt
        exact Nat.lt_of_le_of_lt (Nat.le_add_right _ _) hm.2
      simp only [newTid, resetTidTbl, if_true, hpos, Option.mem_some_iff] at htid
      subst htid
      refine ⟨?_, hm.2⟩
      have hres := hm.1
      simp only [resetTidTbl, firstBlk]
      unfold TIDTBLBLK_MAXSZ at hres ⊢
      omega
    . exact hreset

def init (shm : Shm) (slave : Bool) (blkIdx : Nat → Nat → Nat) (blk : Nat → LsShmTidTblBlk)
    : TidRun where
  mgr := LsShmTidMgr.init shm slave blkIdx blk
  log := fun _ => none

theorem init_indexed (shm : Shm) (slave : Bool) (blkIdx : Nat → Nat → Nat)
    (blk : Nat → LsShmTidTblBlk)
    : Indexed (init shm slave blkIdx blk).mgr (init shm slave blkIdx blk).log := by
  constructor
  case blks => exact init_blks shm slave blkIdx blk
  case log_lt => intro tid v hv; exact absurd hv (by simp [init])
  all_goals simp [init, LsShmTidMgr.init, TIDTBLBLK_MAXSZ]

/--
Looking up the ids of the log finds their own entries: the block, the element that an entry refers
to, the entry to be cleared and the next entry that is set.
-/
structure LookupExact (t : LsShmTidMgr) (log : TidLog) : Prop where
  tblBlk : ∀ tid v, log tid = some v → ∃ off, t.tid2tblBlk tid = some off ∧
    (t.blk off).x_tidBase ≤ tid ∧ tid < (t.blk off).x_tidBase + TIDTBLBLK_MAXSZ ∧
    (t.blk off).x_iTidVals (tid % TIDTBLBLK_MAXSZ) = v
  clrEnt : ∀ tid v, log tid = some v → ∃ off, t.tid2tblBlk tid = some off ∧
    ∀ x j, ((t.clrTidTblEnt tid).blk x).x_iTidVals j =
      if x = off ∧ j = tid % TIDTBLBLK_MAXSZ then 0 else (t.blk x).x_iTidVals j
  iterOff : ∀ tid off, off < 2 ^ 32 → log tid = some (iterOff2tidVal off) →
    t.tid2iterOff tid = off
  nxtVal : ∀ tid v, log tid = some v → NextStored t log 0 tid (t.nxtTidTblVal tid 0)

theorem lookupExact_of_indexed {t : LsShmTidMgr} {log : TidLog} (h : Indexed t log)
    : LookupExact t log := by
  have hblk : ∀ tid v, log tid = some v → ∃ off, t.tid2tblBlk tid = some off ∧
      (t.blk off).x_tidBase ≤ tid ∧ tid < (t.blk off).x_tidBase + TIDTBLBLK_MAXSZ ∧
      (t.blk off).x_iTidVals (tid % TIDTBLBLK_MAXSZ) = v := by
    intro tid v hv
    obtain ⟨hpre, _, hlt⟩ := h.log_lt tid v hv
    have hfirst : t.firstBlk ≤ tid / TIDTBLBLK_MAXSZ := Nat.div_le_div_right (Nat.le_of_lt hpre)
    have hi : tid / TIDTBLBLK_MAXSZ - t.firstBlk < t.x_iBlkCnt := by omega
    have hdm := Nat.div_add_mod' tid TIDTBLBLK_MAXSZ
    have hmod : tid % TIDTBLBLK_MAXSZ < TIDTBLBLK_MAXSZ := Nat.mod_lt _ (by decide)
    refine ⟨_, h.tid2tblBlk_eq (Nat.le_of_lt hpre) hlt, ?_, ?_, ?_⟩
    . rw [h.base _ hi, Nat.add_sub_cancel' hfirst]
      omega
    . rw [h.base _ hi, Nat.add_sub_cancel' hfirst]
      omega
    . rw [h.entries _ hi _ hmod, Nat.add_sub_cancel' hfirst, hdm, hv]
      rfl
  constructor
  case tblBlk => exact hblk
  case clrEnt =>
    intro tid v hv
    obtain ⟨off, hoff, _⟩ := hblk tid v hv
    refine ⟨off, hoff, ?_⟩
    intro x j
    unfold LsShmTidMgr.clrTidTblEnt
    rw [hoff]
    simp only [setBlk]
    by_cases hx : x = off
    . subst hx
      rw [Function.update_self]
      by_cases hj : j = tid % TIDTBLBLK_MAXSZ
      . simp [hj]
      . simp [hj]
    . rw [Function.update_of_ne hx, if_neg (fun hc => hx hc.1)]
  case iterOff =>
    intro tid off hlt hv
    obtain ⟨b, hb, _, _, hval⟩ := hblk tid _ hv
    unfold tid2iterOff
    rw [hb]
    dsimp only
    rw [hval, isTidValIterOff_iterOff2tidVal, if_pos rfl, tidVal2iterOff_iterOff2tidVal hlt]
  case nxtVal => exact fun tid v hv => nxtTidTblVal_next h hv

/--
In every history in which no id skips a block of the table, lookups are exact.
-/
theorem lookup_exact (shm : Shm) (slave : Bool) (blkIdx : Nat → Nat → Nat)
    (blk : Nat → LsShmTidTblBlk) (ops : List TidOp)
    (hok : Run.Meets step Ok (init shm slave blkIdx blk) ops)
    : LookupExact (Run.exec step (init shm slave blkIdx blk) ops).mgr
        (Run.exec step (init shm slave blkIdx blk) ops).log := by
  apply lookupExact_of_indexed
  exact Run.exec_invariant (fun s : TidRun => Indexed s.mgr s.log) step_indexed
    (init_indexed shm slave blkIdx blk) hok

def roomForTwo : Shm :=
  Shm.empty [.clean 1024 9216, .clean 16384 1024, .clean 1024 9216, .clean 16384 1024]

def freshMaster : TidRun :=
  init roomForTwo false (fun _ _ => 0)
    (fun _ => { x_tidBase := 0, x_iIterCnt := 0, x_iDelCnt := 0, x_iNext := 0, x_iPrev := 0,
                x_iTidVals := fun _ => 0 })

theorem lookup_exact_clear_early
    : LookupExact
        (Run.exec step freshMaster
          [.setTidTblEnt (iterOff2tidVal 4096) 1022, .clrTidTbl, .setTidTblEnt 7 0]).mgr
        (Run.exec step freshMaster
          [.setTidTblEnt (iterOff2tidVal 4096) 1022, .clrTidTbl, .setTidTblEnt 7 0]).log :=
  lookup_exact _ _ _ _ _ (by decide)

/--
A master cleared when `x_tid` is 1023: the flush notification gets the id 1024, in the second block
counted from 1023, and is stored in the first.
-/
theorem lookup_lost_after_clear
    : ¬ LookupExact
        (Run.exec step freshMaster [.setTidTblEnt (iterOff2tidVal 4096) 1023, .clrTidTbl]).mgr
        (Run.exec step freshMaster [.setTidTblEnt (iterOff2tidVal 4096) 1023, .clrTidTbl]).log := by
  intro h
  obtain ⟨off, hoff, _⟩ := h.tblBlk 1024 TIDDEL_FLUSHALL (by decide)
  have hnone : (Run.exec step freshMaster
      [.setTidTblEnt (iterOff2tidVal 4096) 1023, .clrTidTbl]).mgr.tid2tblBlk 1024 = none := by
    decide
  rw [hnone] at hoff
  exact absurd hoff (by simp)

end TidRun

end Lsmcd
