import Lsmcd.Shm.TidLookup

/-!
The ids that elements carry against the entries of the transaction table.
-/

namespace Lsmcd

namespace LsShmTidMgr

/--
Every element of `E` carries the id of its own entry, and the entries that refer to an element are
those of the elements of `E`.
-/
structure TidLinked (t : LsShmTidMgr) (link : Nat → Nat) (E : List Nat) (log : TidLog) : Prop where
  indexed : Indexed t log
  tid_lt : t.x_tid < TIDDEL_MAGIC_NUMBER
  carries : ∀ x ∈ E, log (link x) = some (iterOff2tidVal x)
  names : ∀ tid v, log tid = some v → isTidValIterOff v = true →
    tidVal2iterOff v ∈ E ∧ link (tidVal2iterOff v) = tid

def clrLog (log : TidLog) (tid : Nat) : TidLog :=
  Function.update log tid ((log tid).map fun _ => 0)

/--
Ids are handed out in the order of the blocks and below the bit that marks an element.
-/
def Assigns (t : LsShmTidMgr) (pTid : Nat) : Prop :=
  ∀ tid ∈ t.newTid pTid, t.Reaches tid ∧ tid < TIDDEL_MAGIC_NUMBER

instance (t : LsShmTidMgr) (pTid : Nat) : Decidable (t.Assigns pTid) :=
  inferInstanceAs (Decidable (∀ tid ∈ t.newTid pTid, t.Reaches tid ∧ tid < TIDDEL_MAGIC_NUMBER))

def HasRoom (t : LsShmTidMgr) (tid : Nat) : Prop :=
  t.needsBlk tid = true → (t.growTidTbl (tid - tid % TIDTBLBLK_MAXSZ)).2 ≠ 0

instance (t : LsShmTidMgr) (tid : Nat) : Decidable (t.HasRoom tid) :=
  inferInstanceAs (Decidable (_ → _))

variable {t t' : LsShmTidMgr} {link : Nat → Nat} {E E' : List Nat} {log : TidLog}

theorem TidLinked.tid_inj (h : TidLinked t link E log) {x y : Nat} (hx : x ∈ E) (hy : y ∈ E)
    (hx32 : x < 2 ^ 32) (hy32 : y < 2 ^ 32) (heq : link x = link y) : x = y := by
  have hval : iterOff2tidVal x = iterOff2tidVal y := by
    have hl := (h.carries x hx).symm.trans (heq ▸ h.carries y hy)
    exact Option.some.inj hl
  rw [← tidVal2iterOff_iterOff2tidVal hx32, hval, tidVal2iterOff_iterOff2tidVal hy32]

theorem TidLinked.congr (h : TidLinked t link E log) {link' : Nat → Nat}
    (hl : ∀ x ∈ E, link' x = link x) (hmem : ∀ x, x ∈ E' ↔ x ∈ E) : TidLinked t link' E' log where
  indexed := h.indexed
  tid_lt := h.tid_lt
  carries := by
    intro x hx
    rw [hl x ((hmem x).mp hx)]
    exact h.carries x ((hmem x).mp hx)
  names := by
    intro tid v hv hi
    obtain ⟨hE, heq⟩ := h.names tid v hv hi
    exact ⟨(hmem _).mpr hE, (hl _ hE).trans heq⟩

theorem TidLinked.withShm (h : TidLinked t link E log) {m : Shm} (hb : Blks { t with shm := m })
    : TidLinked { t with shm := m } link E log where
  indexed := { h.indexed with blks := hb }
  tid_lt := h.tid_lt
  carries := h.carries
  names := h.names

theorem growTidTbl_tid (h : Blks t) (base : Nat) : (t.growTidTbl base).1.x_tid = t.x_tid := by
  rcases growTidTbl_cases h base _ rfl with ⟨_, m, hm, _⟩ | ⟨_, hg⟩
  . rw [hm]
  . exact hg.tid

@[simp]
theorem putTidVal_tid (t : LsShmTidMgr) (off indx v : Nat)
    : (t.putTidVal off indx v).x_tid = t.x_tid := rfl

theorem storeTidTblEnt_tid (h : Blks t) (v tid : Nat)
    : (t.storeTidTblEnt v tid).1.x_tid = t.x_tid := by
  unfold storeTidTblEnt
  dsimp only
  split
  . split
    . exact growTidTbl_tid h _
    . split
      . exact growTidTbl_tid h _
      . simp [growTidTbl_tid h]
  . simp

theorem storeTidTblEnt_stored (h : Blks t) (v tid : Nat)
    : (t.storeTidTblEnt v tid).2 = true ↔ t.HasRoom tid := by
  unfold storeTidTblEnt HasRoom
  dsimp only
  split
  . next hneeds =>
    rcases growTidTbl_cases h (tid - tid % TIDTBLBLK_MAXSZ) _ rfl with ⟨hz, _⟩ | ⟨hne, hg⟩
    . simp [hz, hneeds]
    . simp [hne, hg.owns_off.offset2ptr]
  . next hneeds => simp [hneeds]

theorem setTidTblEnt_of_newTid {tid pTid : Nat} (hnew : t.newTid pTid = some tid) (v : Nat)
    : t.setTidTblEnt v pTid = (({ t with x_tid := tid }.storeTidTblEnt v tid).1, tid,
        ({ t with x_tid := tid }.storeTidTblEnt v tid).2) := by
  unfold setTidTblEnt
  rw [hnew]

theorem growTidTbl_indexed (h : Indexed t log) {tid : Nat} (hneeds : t.needsBlk tid = true)
    (hreach : t.Reaches tid) (hpre : t.x_lastTidPreClear ≤ tid) (hle : tid ≤ t.x_tid + 1)
    : Indexed (t.growTidTbl (tid - tid % TIDTBLBLK_MAXSZ)).1 log := by
  have hfirst : t.firstBlk ≤ tid / TIDTBLBLK_MAXSZ := Nat.div_le_div_right hpre
  obtain ⟨hblk, hlt⟩ := hreach
  have heq : tid / TIDTBLBLK_MAXSZ = t.firstBlk + t.x_iBlkCnt := by
    rcases (h.needsBlk_iff tid).mp hneeds with hge | hz <;> omega
  have hbase : tid - tid % TIDTBLBLK_MAXSZ = (t.firstBlk + t.x_iBlkCnt) * TIDTBLBLK_MAXSZ := by
    rw [← heq]
    unfold TIDTBLBLK_MAXSZ
    omega
  have hble : (t.firstBlk + t.x_iBlkCnt) * TIDTBLBLK_MAXSZ ≤ tid := by
    rw [← hbase]
    exact Nat.sub_le _ _
  rw [hbase]
  rcases growTidTbl_cases h.blks ((t.firstBlk + t.x_iBlkCnt) * TIDTBLBLK_MAXSZ) _ rfl with
    ⟨_, m, hm, _, _, hown⟩ | ⟨_, hg⟩
  . rw [hm]
    exact h.withShm (fun x n ho _ => hown x n ho)
  . exact h.grown hg (Nat.le_trans hble hle)
      (Nat.lt_of_le_of_lt (Nat.add_le_add_right hble _) hlt)

theorem setTidTblEnt_cases (h : Indexed t log) (hlt : t.x_tid < TIDDEL_MAGIC_NUMBER) {pTid : Nat}
    (ha : t.Assigns pTid) (v : Nat)
    : ((t.setTidTblEnt v pTid).2.2 = false ∧ Indexed (t.setTidTblEnt v pTid).1 log ∧
        (t.setTidTblEnt v pTid).1.x_tid < TIDDEL_MAGIC_NUMBER) ∨
      ∃ tid, t.newTid pTid = some tid ∧ log tid = none ∧
        (t.setTidTblEnt v pTid).2 = (tid, true) ∧
        Indexed (t.setTidTblEnt v pTid).1 (Function.update log tid (some v)) ∧
        (t.setTidTblEnt v pTid).1.x_tid = tid := by
  have hI := setTidTblEnt_indexed h v pTid (fun tid htid => (ha tid htid).1)
  cases hnew : t.newTid pTid with
  | none =>
    have heq : t.setTidTblEnt v pTid = (t, pTid, false) := by
      unfold setTidTblEnt
      rw [hnew]
    rw [heq]
    exact Or.inl ⟨rfl, h, hlt⟩
  | some tid =>
    have heq := setTidTblEnt_of_newTid hnew v
    have htid : (t.setTidTblEnt v pTid).1.x_tid = tid := by
      rw [heq]
      exact storeTidTblEnt_tid (h.blks.withTid tid) v tid
    have hfst : (t.setTidTblEnt v pTid).2.1 = tid := by rw [heq]
    cases hst : (t.setTidTblEnt v pTid).2.2 with
    | false =>
      rw [hst] at hI
      exact Or.inl ⟨rfl, hI, htid ▸ (ha tid hnew).2⟩
    | true =>
      rw [hst, hfst] at hI
      refine Or.inr ⟨tid, rfl, ?_, Prod.ext hfst hst, hI, htid⟩
      cases hl : log tid with
      | none => rfl
      | some w =>
        have hgt := h.newTid_gt hnew
        have hle := (h.log_lt tid w hl).2.1
        omega

def logAfter (t : LsShmTidMgr) (log : TidLog) (v pTid : Nat) : TidLog :=
  if (t.setTidTblEnt v pTid).2.2 then
    Function.update log (t.setTidTblEnt v pTid).2.1 (some v) else log

theorem TidLinked.record (h : TidLinked t link E log) {v pTid : Nat}
    (hv : isTidValIterOff v = false) (ha : t.Assigns pTid)
    : TidLinked (t.setTidTblEnt v pTid).1 link E (t.logAfter log v pTid) := by
  unfold logAfter
  rcases setTidTblEnt_cases h.indexed h.tid_lt ha v with
    ⟨hst, hI, hlt⟩ | ⟨tid, hnew, hnone, heq, hI, htid⟩
  . rw [hst]
    exact ⟨hI, hlt, h.carries, h.names⟩
  . rw [heq]
    refine ⟨hI, htid ▸ (ha tid hnew).2, ?_, ?_⟩
    . intro x hx
      have hne : link x ≠ tid := by
        intro heq
        have hc := h.carries x hx
        rw [heq, hnone] at hc
        cases hc
      exact (Function.update_of_ne hne _ _).trans (h.carries x hx)
    . intro u w hw hi
      change Function.update log tid (some v) u = some w at hw
      by_cases hu : u = tid
      . subst hu
        rw [Function.update_self] at hw
        cases hw
        rw [hv] at hi
        cases hi
      . rw [Function.update_of_ne hu] at hw
        exact h.names u w hw hi

theorem TidLinked.enter (h : TidLinked t link E log) {x pTid tid : Nat} (hx : x ∉ E)
    (hx32 : x < 2 ^ 32) (ha : t.Assigns pTid)
    (hst : (t.setTidTblEnt (iterOff2tidVal x) pTid).2 = (tid, true))
    : TidLinked (t.setTidTblEnt (iterOff2tidVal x) pTid).1 (Function.update link x tid) (x :: E)
        (Function.update log tid (some (iterOff2tidVal x))) := by
  rcases setTidTblEnt_cases h.indexed h.tid_lt ha (iterOff2tidVal x) with
    ⟨hst', _⟩ | ⟨tid', hnew, hnone, heq, hI, htid⟩
  . rw [hst] at hst'
    cases hst'
  cases hst.symm.trans heq
  refine ⟨hI, htid ▸ (ha tid hnew).2, ?_, ?_⟩
  . intro y hy
    by_cases hyx : y = x
    . subst hyx
      rw [Function.update_self, Function.update_self]
    . have hyE := (List.mem_cons.mp hy).resolve_left hyx
      have hne : link y ≠ tid := by
        intro heq
        have hc := h.carries y hyE
        rw [heq, hnone] at hc
        cases hc
      rw [Function.update_of_ne hyx, Function.update_of_ne hne]
      exact h.carries y hyE
  . intro u w hw hi
    by_cases hu : u = tid
    . subst hu
      rw [Function.update_self] at hw
      cases hw
      rw [tidVal2iterOff_iterOff2tidVal hx32, Function.update_self]
      exact ⟨List.mem_cons_self, rfl⟩
    . rw [Function.update_of_ne hu] at hw
      obtain ⟨hE, hl⟩ := h.names u w hw hi
      have hne : tidVal2iterOff w ≠ x := fun heq => hx (heq ▸ hE)
      rw [Function.update_of_ne hne]
      exact ⟨List.mem_cons_of_mem x hE, hl⟩

theorem TidLinked.clr (h : TidLinked t link E log) (hnd : E.Nodup) {x : Nat} (hx : x ∈ E)
    (h32 : ∀ y ∈ E, y < 2 ^ 32)
    : TidLinked (t.clrTidTblEnt (link x)) link (E.erase x) (clrLog log (link x)) := by
  have hc := h.carries x hx
  have hpre := (h.indexed.log_lt _ _ hc).1
  refine ⟨clrTidTblEnt_indexed h.indexed hpre, ?_, ?_, ?_⟩
  . unfold clrTidTblEnt
    split
    . exact h.tid_lt
    . exact h.tid_lt
  . intro y hy
    rw [hnd.mem_erase_iff] at hy
    have hne : link y ≠ link x := fun heq => hy.1 (h.tid_inj hy.2 hx (h32 y hy.2) (h32 x hx) heq)
    exact (Function.update_of_ne hne _ _).trans (h.carries y hy.2)
  . intro u w hw hi
    by_cases hu : u = link x
    . subst hu
      rw [clrLog, Function.update_self, hc, Option.map_some] at hw
      cases hw
      simp [isTidValIterOff] at hi
    . rw [clrLog, Function.update_of_ne hu] at hw
      obtain ⟨hE, hl⟩ := h.names u w hw hi
      refine ⟨hnd.mem_erase_iff.mpr ⟨?_, hE⟩, hl⟩
      rintro heq
      rw [heq] at hl
      exact hu hl.symm

theorem TidLinked.unlinkTid (h : TidLinked t link E log) (hnd : E.Nodup) {x : Nat} (hx : x ∈ E)
    (h32 : ∀ y ∈ E, y < 2 ^ 32) (ha : t.isTidMaster = true → t.Assigns 0)
    : TidLinked (t.unlinkTid (link x)) link (E.erase x)
        (if t.isTidMaster then (t.clrTidTblEnt (link x)).logAfter (clrLog log (link x)) (link x) 0
          else clrLog log (link x)) := by
  have h₁ := h.clr hnd hx h32
  have hclr : t.clrTidTblEnt (link x) = { t with blk := (t.clrTidTblEnt (link x)).blk } := by
    unfold clrTidTblEnt
    split <;> rfl
  have hmaster : (t.clrTidTblEnt (link x)).isTidMaster = t.isTidMaster := by rw [hclr]; rfl
  unfold LsShmTidMgr.unlinkTid
  dsimp only
  rw [hmaster]
  split
  . next hm =>
    apply h₁.record
    . apply isTidValIterOff_of_lt
      exact Nat.lt_of_le_of_lt (h.indexed.log_lt _ _ (h.carries x hx)).2.1 h.tid_lt
    . rw [hclr]
      exact ha hm
  . exact h₁

theorem TidLinked.checkTidTbl (h : TidLinked t link E log) (ha : t.Assigns 0)
    : TidLinked t.checkTidTbl link E log := by
  have hlt := h.indexed.tid_lt
  have hnew : t.newTid 0 = some ((t.x_tid + 1) % 2 ^ 64) := rfl
  have hreach := (ha _ hnew).1
  have hmod : (t.x_tid + 1) % 2 ^ 64 = t.x_tid + 1 := by
    apply Nat.mod_eq_of_lt
    unfold TIDTBLBLK_MAXSZ at hlt
    omega
  unfold LsShmTidMgr.checkTidTbl
  rw [hmod] at hreach ⊢
  dsimp only
  split
  . next hneeds =>
    refine ⟨growTidTbl_indexed h.indexed hneeds hreach ?_ (Nat.le_refl _), ?_, h.carries, h.names⟩
    . exact Nat.le_succ_of_le h.indexed.pre_le
    . rw [growTidTbl_tid h.indexed.blks]
      exact h.tid_lt
  . exact h

theorem checkTidTbl_assigns (hb : Blks t) (ha : t.Assigns 0) : t.checkTidTbl.Assigns 0 := by
  unfold LsShmTidMgr.checkTidTbl
  dsimp only
  split
  . rcases growTidTbl_cases hb _ _ rfl with ⟨_, m, hm, _⟩ | ⟨_, hg⟩
    . rw [hm]
      exact ha
    . intro tid hnew
      unfold newTid at hnew
      rw [hg.tid] at hnew
      obtain ⟨⟨hle, hlt⟩, hmag⟩ := ha tid hnew
      refine ⟨⟨?_, hlt⟩, hmag⟩
      rw [hg.firstBlk, hg.cnt]
      omega
  . exact ha

theorem TidLinked.clrTidTbl (h : TidLinked t link E log)
    (ha : t.isTidMaster = true → t.resetTidTbl.Assigns 0)
    : TidLinked t.clrTidTbl link []
        (if t.isTidMaster then
          t.releaseTidTbl.1.resetTidTbl.logAfter (fun _ => none) TIDDEL_FLUSHALL 0
        else fun _ => none) := by
  obtain ⟨m, heq, _⟩ := releaseTidTbl_eq h.indexed.blks
  have hreset : TidLinked (resetTidTbl { t with shm := m }) link [] (fun _ => none) :=
    ⟨resetTidTbl_indexed h.indexed, h.tid_lt, by simp, by simp⟩
  simp only [LsShmTidMgr.clrTidTbl, heq, if_true]
  rw [show (resetTidTbl { t with shm := m }).isTidMaster = t.isTidMaster from rfl]
  split
  . next hm => exact hreset.record (isTidValIterOff_of_lt (by decide)) (ha hm)
  . exact hreset

def Links (t : LsShmTidMgr) (pTid : Nat) : Prop :=
  ∃ tid ∈ t.newTid pTid, t.Reaches tid ∧ tid < TIDDEL_MAGIC_NUMBER ∧
    HasRoom { t with x_tid := tid } tid

instance (t : LsShmTidMgr) (pTid : Nat) : Decidable (t.Links pTid) :=
  decidable_of_iff ((t.newTid pTid).any fun tid => decide (t.Reaches tid ∧
    tid < TIDDEL_MAGIC_NUMBER ∧ HasRoom { t with x_tid := tid } tid))
    (by cases h : t.newTid pTid <;> simp [Links, h])

theorem Links.assigns {pTid : Nat} (h : t.Links pTid) : t.Assigns pTid := by
  obtain ⟨tid, hnew, hreach, hlt, _⟩ := h
  intro tid' hnew'
  cases Option.mem_unique hnew hnew'
  exact ⟨hreach, hlt⟩

theorem Links.stored (hb : Blks t) {pTid : Nat} (h : t.Links pTid) (v : Nat)
    : ∃ tid, t.newTid pTid = some tid ∧ (t.setTidTblEnt v pTid).2 = (tid, true) := by
  obtain ⟨tid, hnew, _, _, hroom⟩ := h
  refine ⟨tid, hnew, ?_⟩
  rw [setTidTblEnt_of_newTid hnew]
  exact Prod.ext rfl ((storeTidTblEnt_stored (hb.withTid tid) v tid).mpr hroom)

theorem not_stored_of_not_links (hb : Blks t) {pTid : Nat} (ha : t.Assigns pTid)
    (h : ¬ t.Links pTid) (v : Nat) : (t.setTidTblEnt v pTid).2.2 = false := by
  cases hnew : t.newTid pTid with
  | none =>
    unfold setTidTblEnt
    rw [hnew]
  | some tid =>
    rw [setTidTblEnt_of_newTid hnew, Bool.eq_false_iff]
    intro hst
    have hroom := (storeTidTblEnt_stored (hb.withTid tid) v tid).mp hst
    exact h ⟨tid, hnew, (ha tid hnew).1, (ha tid hnew).2, hroom⟩

end LsShmTidMgr

end Lsmcd
