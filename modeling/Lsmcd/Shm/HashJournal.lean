import Lsmcd.Shm.SameId
import Lsmcd.Shm.TidJournal

/-!
The journal of a master over all runs of its hash: no change is made that the transaction table does
not tell of.
-/

namespace Lsmcd

open LsShmTidMgr LsShmHTable
open Journal (Later)

def TrimAct.erases : TrimAct → Bool
  | .erase _ => true
  | _ => false

theorem LsShmTidMgr.sameId_checkTidTbl (t : LsShmTidMgr) : SameId t t.checkTidTbl := by
  unfold checkTidTbl
  dsimp only
  split
  . exact sameId_growTidTbl t _
  . exact SameId.refl t

namespace LsShmHash

structure Journaled (s : LsShmHash) (E : List Nat) (log : TidLog) : Prop extends TidOk s E log where
  master : s.slave = false
  logOk : LogOk log
  short : ∀ x ∈ E, (s.table.keyOf x).length < 2 ^ 16

def Advanced (s : LsShmHash) (log : TidLog) (s' : LsShmHash) : Prop :=
  ∃ E' log', Journaled s' E' log' ∧ Later (s.journal log) s.x_tid (s'.journal log') s'.x_tid

variable {s s' s'' : LsShmHash} {E E' : List Nat} {log log' : TidLog} {x : Nat}

theorem Journaled.isTidMaster (h : Journaled s E log) : s.isTidMaster = true := by
  unfold LsShmTidMgr.isTidMaster
  rw [h.master]
  rfl

theorem Journaled.refl (h : Journaled s E log) : Advanced s log s :=
  ⟨E, log, h, Later.refl _ (h.linked.journal_le _)⟩

theorem Advanced.after (h : Advanced s' log' s'')
    (hl : Later (s.journal log) s.x_tid (s'.journal log') s'.x_tid) : Advanced s log s'' := by
  obtain ⟨E'', log'', hj, hl'⟩ := h
  exact ⟨E'', log'', hj, hl.trans hl'⟩

theorem Journaled.well (h : Journaled s E log) : Journal.Well (s.journal log) s.x_tid := by
  apply h.linked.well h.logOk
  intro x hx y hy e d he hd hk
  apply h.rep.keys x hx y hy
  simp only [keyOf, he, hd]
  exact hk

theorem Journaled.rest (h : Journaled s E log) (h' : TidOk s' E log) (hslave : s'.slave = s.slave)
    (hle : s.x_tid ≤ s'.x_tid) (helem : ∀ y ∈ E, s'.table.elem y = s.table.elem y)
    : Journaled s' E log ∧ Later (s.journal log) s.x_tid (s'.journal log) s'.x_tid := by
  refine ⟨⟨h', hslave.trans h.master, h.logOk, ?_⟩, ?_⟩
  . intro y hy
    have hk := h.short y hy
    unfold keyOf at hk ⊢
    rw [helem y hy]
    exact hk
  . exact Later.of_eq (h.linked.journal_le _) hle (h.linked.journal_congr helem)

theorem Journaled.lruOnly (h : Journaled s E log) (hl : LruOnly s s')
    : Journaled s' E log ∧ Later (s.journal log) s.x_tid (s'.journal log) s'.x_tid := by
  have h' := h.toTidOk.lruOnly hl
  apply h.rest h'
  . rw [hl]
  . rw [hl]
  . intro y _
    rw [hl]

theorem Journaled.setLru (h : Journaled s E log) (f : LsHashLruInfo → LsHashLruInfo)
    : Advanced s log (s.setLru f) := by
  have hl : LruOnly s (s.setLru f) := rfl
  obtain ⟨h', hlater⟩ := h.lruOnly hl
  exact ⟨E, log, h', hlater⟩

theorem Journaled.withShm (h : Journaled s E log) {m : Shm} (hg : Shm.Grows s.shm m)
    : Journaled { s with shm := m } E log ∧
        Later (s.journal log) s.x_tid (journal { s with shm := m } log) s.x_tid :=
  h.rest (h.toTidOk.withShm hg) rfl (Nat.le_refl _) (fun _ _ => rfl)

theorem Journaled.kept (h : Journaled s E log) (hrep : Rep s' E) (hk : Kept s s')
    : Journaled s' E log ∧ Later (s.journal log) s.x_tid (s'.journal log) s'.x_tid := by
  apply h.rest (h.toTidOk.kept hrep hk)
  . rw [hk.tid]
  . rw [hk.tid]
  . intro y _
    rw [hk.elem]

section Erase

theorem TidOk.eraseIterCb_mgr (h : TidOk s E log) (hx : x ∈ E)
    : (s.eraseIterCb x).toLsShmTidMgr = s.toLsShmTidMgr.unlinkTid (s.tidLink x) := by
  unfold LsShmHash.eraseIterCb
  dsimp only
  rw [if_pos (h.tid_ne_zero hx)]
  rfl

theorem TidOk.eraseCbs_mgr (h : TidOk s E log) (hx : x ∈ E)
    : (s.eraseCbs x).toLsShmTidMgr = s.toLsShmTidMgr.unlinkTid (s.tidLink x) := by
  have hl : LruOnly s (if s.flagLru then s.unlinkHElem x else s) := by
    split
    . exact lruOnly_unlinkHElem s x
    . exact LruOnly.refl s
  have h₁ := h.lruOnly hl
  unfold LsShmHash.eraseCbs
  dsimp only
  generalize (if s.flagLru then s.unlinkHElem x else s) = s₁ at hl h₁ ⊢
  rw [if_pos h₁.flag, h₁.eraseIterCb_mgr hx, hl]

theorem Journaled.unlinked_eq (h : Journaled s E log) (hx : x ∈ E) (hu : s.Unlinks (s.tidLink x))
    : TidLinked (s.toLsShmTidMgr.unlinkTid (s.tidLink x)) s.tidLink (E.erase x)
          (unlinked log (s.tidLink x) s.x_tid) ∧
        (s.toLsShmTidMgr.unlinkTid (s.tidLink x)).x_tid = s.x_tid + 1 ∧
        s.unlinkLog log x = unlinked log (s.tidLink x) s.x_tid :=
  h.linked.unlinked_eq h.rep.nodup hx (fun _ hy => h.rep.lt_of_mem hy) h.isTidMaster hu

theorem Journaled.journal_unlink (h : Journaled s E log) (hx : x ∈ E) (hu : s.Unlinks (s.tidLink x))
    {elem' : Nat → Option LsShmHElem} (helem : ∀ y ∈ E, y ≠ x → elem' y = s.table.elem y)
    : LogOk (unlinked log (s.tidLink x) s.x_tid) ∧
        Later (s.journal log) s.x_tid (journalOf elem' (unlinked log (s.tidLink x) s.x_tid))
          (s.x_tid + 1) := by
  obtain ⟨e, he, _⟩ := h.rep.elems x hx
  exact h.linked.journal_unlink h.logOk hx (fun _ hy => h.rep.lt_of_mem hy) hu he helem

theorem Journaled.erase (h : Journaled s E log) (hx : x ∈ E) (hu : s.Unlinks (s.tidLink x))
    : Journaled (s.eraseIteratorHelper x) (E.erase x) (unlinked log (s.tidLink x) s.x_tid) ∧
        (s.eraseIteratorHelper x).x_tid = s.x_tid + 1 ∧
        Later (s.journal log) s.x_tid
          ((s.eraseIteratorHelper x).journal (unlinked log (s.tidLink x) s.x_tid)) (s.x_tid + 1) := by
  obtain ⟨e, he, _⟩ := h.rep.elems x hx
  obtain ⟨_, hd⟩ := eraseIteratorHelper_spec h.rep hx he
  obtain ⟨_, hothers, _⟩ := erase_others h.rep hx rfl
  obtain ⟨_, htid, hlog⟩ := h.unlinked_eq hx hu
  have herase := h.toTidOk.erase hx (fun _ => hu.assigns)
  have hmgr := h.toTidOk.eraseCbs_mgr hx
  have hframe := ((quiet_eraseCbs s x).tid h.rep.blks).2
  obtain ⟨hok, hlater⟩ := h.journal_unlink hx hu (fun y _ hyx => hothers y hyx)
  rw [hlog] at herase
  refine ⟨⟨herase, ?_, hok, ?_⟩, ?_, hlater⟩
  . rw [hd.tid]
    exact hframe.slave.trans h.master
  . intro y hy
    rw [h.rep.nodup.mem_erase_iff] at hy
    have hk := h.short y hy.2
    unfold keyOf at hk ⊢
    rw [hothers y hy.1]
    exact hk
  . rw [hd.tid]
    show (s.eraseCbs x).x_tid = _
    rw [hmgr, htid]

end Erase

section Link

theorem linkTid_mgr (s : LsShmHash) (off pTid : Nat)
    : (s.linkTid off pTid).toLsShmTidMgr =
        (s.toLsShmTidMgr.setTidTblEnt (iterOff2tidVal off) pTid).1 := by
  unfold linkTid
  dsimp only
  split
  . rfl
  . split <;> rfl

theorem Journaled.relink (h : Journaled s E log) (hx : x ∈ E) (hu : s.Unlinks (s.tidLink x))
    (hrep : Rep s' E) (hflag : s'.flagTid = true)
    (hmgr : s'.toLsShmTidMgr = s.toLsShmTidMgr.unlinkTid (s.tidLink x))
    (hlink : ∀ y ∈ E.erase x, s'.tidLink y = s.tidLink y)
    (helem : ∀ y ∈ E, y ≠ x → s'.table.elem y = s.table.elem y)
    (hkey : s'.table.keyOf x = s.table.keyOf x) {pTid : Nat} (hlinks : s'.Links pTid)
    : Advanced s log (s'.linkTid x pTid) := by
  obtain ⟨hl, htid, _⟩ := h.unlinked_eq hx hu
  have hl' : TidLinked s'.toLsShmTidMgr s'.tidLink (E.erase x) (unlinked log (s.tidLink x) s.x_tid) := by
    rw [hmgr]
    exact hl.congr hlink (fun _ => Iff.rfl)
  obtain ⟨hok, hlater⟩ := h.journal_unlink hx hu helem
  obtain ⟨e, he, _⟩ := hrep.elems x hx
  obtain ⟨hok', hlater'⟩ := hl'.journal_link hok (hrep.lt_of_mem hx) hlinks he (fun _ _ => rfl)
  have hq := quiet_linkTid s' x pTid
  have hslave : s'.slave = s.slave := by
    rw [hmgr]
    exact ((quiet_unlinkTid s (s.tidLink x)).tid h.rep.blks).2.slave
  rw [show s'.x_tid = s.x_tid + 1 by rw [hmgr, htid]] at hlater'
  refine ⟨E, s'.linkLog (unlinked log (s.tidLink x) s.x_tid) x pTid, ⟨?_, ?_, hok', ?_⟩, ?_⟩
  . exact TidOk.linkTid hflag hrep hl' (fun hin => (h.rep.nodup.mem_erase_iff.mp hin).1 rfl)
      (mem_cons_erase h.rep.nodup hx) hlinks
  . exact ((hq.tid hrep.blks).2.slave.trans hslave).trans h.master
  . intro y hy
    rw [hq.table]
    by_cases hyx : y = x
    . subst hyx
      rw [hkey]
      exact h.short y hy
    . have hk := h.short y hy
      unfold keyOf at hk ⊢
      rw [helem y hy hyx]
      exact hk
  . unfold journal
    rw [linkTid_mgr, hq.table]
    exact hlater.trans hlater'

theorem Journaled.link (h : Journaled s E log) (hid : SameId s.toLsShmTidMgr s'.toLsShmTidMgr)
    (hflag : s'.flagTid = true) (hrep : Rep s' (x :: E))
    (hl : TidLinked s'.toLsShmTidMgr s'.tidLink E log) (hx : x ∉ E)
    (helem : ∀ y ∈ E, s'.table.elem y = s.table.elem y)
    (hkey : (s'.table.keyOf x).length < 2 ^ 16) (hlinks : s'.Links 0)
    : Advanced s log (s'.linkTid x 0) := by
  obtain ⟨e, he, _⟩ := hrep.elems x List.mem_cons_self
  obtain ⟨hok, hlater⟩ := hl.journal_link h.logOk (hrep.lt_of_mem List.mem_cons_self) hlinks he helem
  have hq := quiet_linkTid s' x 0
  refine ⟨x :: E, s'.linkLog log x 0, ⟨?_, ?_, hok, ?_⟩, ?_⟩
  . exact TidOk.linkTid hflag hrep hl hx (fun _ => Iff.rfl) hlinks
  . exact ((hq.tid hrep.blks).2.slave.trans hid.slave).trans h.master
  . intro y hy
    rw [hq.table]
    rcases List.mem_cons.mp hy with rfl | hy
    . exact hkey
    . have hk := h.short y hy
      unfold keyOf at hk ⊢
      rw [helem y hy]
      exact hk
  . unfold journal
    rw [linkTid_mgr, hq.table, ← hid.tid]
    exact hlater

end Link

section Insert

theorem TidOk.insertCopy2 (h : TidOk s E log) (parms : StrPair)
    (hkey : ∀ x ∈ E, s.table.keyOf x ≠ parms.key)
    (hsound : s.Sound parms.key.length parms.val.len)
    : let q := s.insertCopy2 (s.m_hf parms.key) parms
      (∀ y ∈ E, q.1.table.elem y = s.table.elem y) ∧
      q.1.toLsShmTidMgr = { s.toLsShmTidMgr with shm := q.1.shm } ∧
      ((q.2 = 0 ∧ ¬ s.HasMem parms.key.length parms.val.len ∧ TidOk q.1 E log) ∨
        (q.2 ≠ 0 ∧ s.HasMem parms.key.length parms.val.len ∧ q.2 ∉ E ∧ q.1.flagTid = true ∧
          Rep q.1 (q.2 :: E) ∧ TidLinked q.1.toLsShmTidMgr q.1.tidLink E log ∧
          ∃ junk, q.1.table.elem q.2 = some (s.newElem (s.m_hf parms.key) parms junk))) := by
  intro q
  have hcases := insertCopy2_cases h.rep hkey hsound
  obtain ⟨_, hk₁, _⟩ := rehashed_spec h.rep
  dsimp only at hcases
  rcases hcases with ⟨hfull, heq⟩ | ⟨h0, heq⟩ | ⟨hfull, h0, h₂, hs₂, hroom, hkeys, heq⟩
  . change q = _ at heq
    rw [heq]
    exact ⟨fun y _ => congrFun hk₁.elem y, hk₁.tid, .inl ⟨rfl, fun hm => hm.1 hfull, h.rehashed⟩⟩
  . change q = _ at heq
    rw [heq]
    refine ⟨fun y _ => congrFun hk₁.elem y, by rw [hk₁.tid], .inl ⟨rfl, fun hm => hm.2 h0, ?_⟩⟩
    exact h.rehashed.withShm (Shm.grows_alloc2 s.rehashed.1.shm _)
  . change q = _ at heq
    have hmem : s.HasMem parms.key.length parms.val.len := ⟨hfull, h0⟩
    rw [heq]
    generalize hr : s.rehashed.1.shm.alloc2 _ = r at h0 h₂ hs₂ hroom hkeys ⊢
    generalize he : s.newElem _ _ _ = e at h₂ hs₂ hroom hkeys ⊢
    have hhkey : e.x_hkey = s.m_hf parms.key := by rw [← he]; rfl
    have helem₂ : ∀ y ∈ E, (s.rehashed.1.withElem r.1 r.2 e).table.elem y = s.table.elem y := by
      intro y hy
      have hyr : y ≠ r.2 := fun heq => hs₂.notMem (heq ▸ hy)
      rw [← hk₁.elem]
      exact setElem_of_ne hyr _ _
    have hok₂ := h.rehashed.withElem h₂ hs₂.notMem
    have hmgr₂ : (s.rehashed.1.withElem r.1 r.2 e).toLsShmTidMgr =
        { s.toLsShmTidMgr with shm := (s.rehashed.1.withElem r.1 r.2 e).shm } := by
      show { s.rehashed.1.toLsShmTidMgr with shm := r.1 } = { s.toLsShmTidMgr with shm := r.1 }
      rw [hk₁.tid]
    generalize s.rehashed.1.withElem r.1 r.2 e = s₂ at h₂ hs₂ hroom hkeys helem₂ hok₂ hmgr₂ ⊢
    obtain ⟨hflag, hrep, hlinked⟩ := hok₂.enter hs₂ hkeys hroom
    have hq := quiet_linkCb s₂ r.2
    obtain ⟨_, hent⟩ := enterBucket_spec (h₂.quiet hq) (hs₂.quiet h₂ hq)
      (by rw [hq.table]; exact hkeys) (by unfold capacity; rw [hq.table]; exact hroom)
    rw [hhkey] at hflag hrep hlinked hent
    have helem₃ : ((s₂.linkCb r.2).enterBucket r.2 (s.m_hf parms.key)).table.elem = s₂.table.elem := by
      rw [hent.elem, hq.table]
    rw [helem₃]
    refine ⟨helem₂, ?_, .inr ⟨h0, hmem, hs₂.notMem, hflag, hrep, hlinked, r.1.junk r.2, ?_⟩⟩
    . have hlru := lruOnly_linkCb s₂ r.2
      rw [hent.tid, hlru]
      exact hmgr₂
    rw [he]
    exact hs₂.elem

theorem Journaled.insert2 (h : Journaled s E log) (parms : StrPair)
    (hkey : ∀ x ∈ E, s.table.keyOf x ≠ parms.key)
    (hsound : s.Sound parms.key.length parms.val.len) (hlen : parms.key.length < 2 ^ 16)
    (hok : s.InsertTid parms) : Advanced s log (s.insert2 (s.m_hf parms.key) parms).1 := by
  have hid := sameId_insertCopy2 s (s.m_hf parms.key) parms
  obtain ⟨helem, _, hcases⟩ := h.toTidOk.insertCopy2 parms hkey hsound
  obtain ⟨ha, hiff⟩ := hok
  rw [insert2_eq]
  dsimp only
  generalize s.insertCopy2 (s.m_hf parms.key) parms = q at *
  rcases hcases with ⟨_, hmem, hok⟩ | ⟨_, hmem, hx, hflag, hrep, hl, junk, he⟩
  . have hno : ¬ q.1.Links 0 := fun hl => hmem (hiff.mpr hl)
    have hq := quiet_insertCb q.1 q.2
    have hend := hok.insertCb_failed (x := q.2) ha hno
    have hle : q.1.x_tid ≤ (q.1.insertCb q.2).x_tid := by
      rw [insertCb_eq hok.flag, linkTid_mgr]
      cases hnew : q.1.newTid 0 with
      | none => exact absurd hnew (by simp [newTid])
      | some tid =>
        rw [setTidTblEnt_of_newTid hnew]
        show _ ≤ (storeTidTblEnt _ _ tid).1.x_tid
        rw [storeTidTblEnt_tid (hok.rep.blks.withTid tid)]
        exact Nat.le_of_lt (hok.linked.indexed.newTid_gt hnew)
    obtain ⟨hj, hlater⟩ := h.rest hend ((hq.tid hok.rep.blks).2.slave.trans hid.slave)
      (hid.tid ▸ hle) (fun y hy => by rw [hq.table]; exact helem y hy)
    exact ⟨E, log, hj, hlater⟩
  . rw [insertCb_eq hflag]
    apply h.link hid hflag hrep hl hx helem
    . simp only [keyOf, he]
      exact hlen
    . exact hiff.mp hmem

end Insert

section Operations

variable {key : List UInt8} {v : ValParm}

def KeyUnlinks (s : LsShmHash) (key : List UInt8) : Prop :=
  s.findKey key ≠ 0 → s.Unlinks (s.tidLink (s.findKey key))

instance (s : LsShmHash) (key : List UInt8) : Decidable (s.KeyUnlinks key) :=
  inferInstanceAs (Decidable (_ → _))

theorem Journaled.overwrite (h : Journaled s E log) (hx : x ∈ E) {e e' : LsShmHElem}
    (he : s.table.elem x = some e) (hkey : e'.key = e.key) (hok : ElemOk s x e')
    (hu : s.Unlinks (s.tidLink x)) (hupd : s.UpdateTid x)
    : Advanced s log ((s.setTable (·.setElem x (some e'))).updateCbs x) := by
  have hrep := h.rep.setElem (x := x) (o := some e') (fun _ => ⟨e, e', he, rfl, hkey, hok⟩)
  have h₁ : TidOk (s.setTable (·.setElem x (some e'))) E log :=
    h.of_mgr hrep rfl rfl (fun _ _ => rfl)
  have helem₁ : ∀ y, y ≠ x → (s.setTable (·.setElem x (some e'))).table.elem y = s.table.elem y :=
    fun y hy => setElem_of_ne hy _ _
  have hkey₁ : (s.setTable (·.setElem x (some e'))).table.keyOf x = s.table.keyOf x := by
    have hat : (s.setTable (·.setElem x (some e'))).table.elem x = some e' :=
      Function.update_self _ _ _
    simp only [keyOf, hat, he]
    exact hkey
  have hmgr₁ : (s.setTable (·.setElem x (some e'))).toLsShmTidMgr = s.toLsShmTidMgr := rfl
  have hlink₁ : (s.setTable (·.setElem x (some e'))).tidLink = s.tidLink := rfl
  have hupd₁ : (s.setTable (·.setElem x (some e'))).UpdateTid x := hupd.congr rfl rfl
  generalize s.setTable (·.setElem x (some e')) = s₁ at *
  have hl : LruOnly s₁ (if s₁.flagLru then s₁.linkSetTop x else s₁) := by
    split
    . exact lruOnly_linkSetTop s₁ x
    . exact LruOnly.refl s₁
  have h₂ := h₁.lruOnly hl
  unfold LsShmHash.updateCbs LsShmHash.updateIterCb
  dsimp only
  generalize (if s₁.flagLru then s₁.linkSetTop x else s₁) = s₂ at hl h₂ ⊢
  rw [if_pos h₂.flag]
  have hq := quiet_eraseIterCb s₂ x
  have hupd₂ : s₂.UpdateTid x := hupd₁.congr (by rw [hl]) (by rw [hl])
  have htable₂ : s₂.table = s₁.table := by rw [hl]
  apply h.relink hx hu (h₂.rep.quiet hq) (hq.flagTid.trans h₂.flag)
  case hmgr =>
    rw [h₂.eraseIterCb_mgr hx, hl, hmgr₁, ← hlink₁]
  case hlink =>
    intro y hy
    rw [h₂.rep.nodup.mem_erase_iff] at hy
    unfold LsShmHash.eraseIterCb
    dsimp only
    rw [if_pos (h₂.tid_ne_zero hx), ← hlink₁]
    show Function.update s₂.tidLink x 0 y = s₁.tidLink y
    rw [Function.update_of_ne hy.1, hl]
  case helem =>
    intro y _ hyx
    rw [hq.table, htable₂]
    exact helem₁ y hyx
  case hkey => rw [hq.table, htable₂, hkey₁]
  case hlinks => exact hupd₂.2

theorem Journaled.doSet (h : Journaled s E log) (hsound : s.Sound key.length v.len)
    (hlen : key.length < 2 ^ 16) (hset : s.SetTid (s.findKey key) ⟨key, v⟩)
    (hu : checkSize v.len = true → s.KeyUnlinks key)
    : Advanced s log (s.doSet (s.findKey key) (s.m_hf key) ⟨key, v⟩).1 := by
  unfold LsShmHash.doSet
  split
  . exact h.refl
  next hsz =>
  have hsz : checkSize v.len = true := by simpa using hsz
  obtain ⟨hins, hold⟩ := hset hsz
  have hu := hu hsz
  unfold KeyUnlinks at hu
  rcases h.rep.lookup.find2_cases key with ⟨hz, hnone⟩ | ⟨hx, hkx⟩
  . have hz : s.findKey key = 0 := hz
    rw [if_pos hz]
    exact h.insert2 ⟨key, v⟩ hnone hsound hlen (hins hz)
  . change s.findKey key ∈ E at hx
    change s.table.keyOf (s.findKey key) = key at hkx
    generalize s.findKey key = x at hx hkx hold hu ⊢
    obtain ⟨e, he, hiter, _⟩ := h.rep.lookup.elem_some hx
    obtain ⟨e', he', hok⟩ := h.rep.elems x hx
    cases he.symm.trans he'
    have hx0 := h.rep.ne_zero hx
    obtain ⟨hupd, hrepl⟩ := hold e he hx0
    rw [if_neg hx0, hiter]
    dsimp only
    split
    . next hfit => exact h.overwrite hx he rfl (setVal_ok hok hfit) (hu hx0) (hupd hfit)
    . next hfit =>
      obtain ⟨_, hins'⟩ := hrepl hfit
      obtain ⟨h₁, htid, hlater⟩ := h.erase hx (hu hx0)
      obtain ⟨hparm, _, hkeys⟩ := erase_others h.rep hx hkx
      have hins := h₁.insert2 ⟨key, v⟩ hkeys (hparm.sound hsound) hlen hins'
      rw [hparm.hf] at hins
      rw [← htid] at hlater
      exact hins.after hlater

theorem Journaled.doInsert (h : Journaled s E log) (hsound : s.Sound key.length v.len)
    (hlen : key.length < 2 ^ 16)
    (hset : s.findKey key = 0 → checkSize v.len = true → s.InsertTid ⟨key, v⟩)
    : Advanced s log (s.doInsert (s.findKey key) (s.m_hf key) ⟨key, v⟩).1 := by
  unfold LsShmHash.doInsert
  split
  . exact h.refl
  . next hz =>
    split
    . exact h.refl
    . next hsz =>
      have hz := not_not.mp hz
      exact h.insert2 ⟨key, v⟩ (h.rep.lookup.find2_eq_zero_iff.mp hz) hsound hlen
        (hset hz (by simpa using hsz))

theorem Journaled.eraseKey (h : Journaled s E log) (hu : s.KeyUnlinks key)
    : Advanced s log (s.eraseIteratorHelper (s.findKey key)) := by
  rcases h.rep.lookup.find2_cases key with ⟨hz, _⟩ | ⟨hx, _⟩
  . have hz : s.findKey key = 0 := hz
    rw [hz]
    exact h.refl
  . obtain ⟨h₁, htid, hlater⟩ := h.erase hx (hu (h.rep.ne_zero hx))
    rw [← htid] at hlater
    exact ⟨_, _, h₁, hlater⟩

theorem Journaled.replaceKey (h : Journaled s E log) {pTid : Nat} (hu : s.KeyUnlinks key)
    (hok : s.findKey key ≠ 0 →
      (s.toLsShmTidMgr.unlinkTid (s.tidLink (s.findKey key))).Links pTid)
    : Advanced s log (s.step (.tidReplaceTid key pTid)) := by
  unfold LsShmHash.step
  dsimp only
  split
  . next hc =>
    rcases h.rep.lookup.find2_cases key with ⟨hz, _⟩ | ⟨hx, _⟩
    . exact absurd hz hc.2
    . apply h.relink hx (hu hc.2) (h.rep.quiet (quiet_unlinkTid s _)) h.flag rfl (fun _ _ => rfl)
        (fun _ _ _ => rfl) rfl (hok hc.2)
  . exact h.refl

def GrowUnlinks (s : LsShmHash) (off n : Nat) : Prop :=
  ∀ e ∈ s.table.elem off,
    let q := s.shm.alloc2 (e.x_iLen + round4 n)
    q.2 ≠ 0 → LsShmHElem.iterOk q.1 q.2 (q.1.junk q.2).x_iLen (q.1.junk q.2).x_iValOff = true →
      LsShmTidMgr.Unlinks { s.toLsShmTidMgr with shm := q.1 } (s.tidLink off)

instance (s : LsShmHash) (off n : Nat) : Decidable (s.GrowUnlinks off n) :=
  inferInstanceAs (Decidable (∀ e ∈ s.table.elem off,
    let q := s.shm.alloc2 (e.x_iLen + round4 n)
    q.2 ≠ 0 → LsShmHElem.iterOk q.1 q.2 (q.1.junk q.2).x_iLen (q.1.junk q.2).x_iValOff = true →
      LsShmTidMgr.Unlinks { s.toLsShmTidMgr with shm := q.1 } (s.tidLink off)))

theorem Journaled.withElem (h : Journaled s E log) {m : Shm} {off : Nat} {e : LsShmHElem}
    (hrep : Rep (s.withElem m off e) E) (hoff : off ∉ E)
    : Journaled (s.withElem m off e) E log ∧
        Later (s.journal log) s.x_tid ((s.withElem m off e).journal log) s.x_tid := by
  apply h.rest (h.toTidOk.withElem hrep hoff) rfl (Nat.le_refl _)
  intro y hy
  apply setElem_of_ne
  rintro rfl
  exact hoff hy

theorem Journaled.linkEnter (h : Journaled s E log) {off : Nat} {e : LsShmHElem}
    (hs : Spare s E off e) (hkeys : ∀ x ∈ E, s.table.keyOf x ≠ e.key)
    (hroom : E.length < s.capacity) (hlinks : s.Links 0) (hlen : e.key.length < 2 ^ 16)
    : Advanced s log (((s.linkCb off).insertCb off).enterBucket off e.x_hkey) := by
  have hend := h.toTidOk.linkEnter hs hkeys hroom hlinks
  have hlru := lruOnly_linkCb s off
  have h₁ := h.toTidOk.lruOnly hlru
  have hq := hlru.quiet.trans (quiet_insertCb (s.linkCb off) off)
  have hmgr₁ : (s.linkCb off).toLsShmTidMgr = s.toLsShmTidMgr := by rw [hlru]
  obtain ⟨_, hent⟩ := enterBucket_spec (h.rep.quiet hq) (hs.quiet h.rep hq)
    (by rw [hq.table]; exact hkeys) (by unfold capacity; rw [hq.table]; exact hroom)
  have helem : (((s.linkCb off).insertCb off).enterBucket off e.x_hkey).table.elem = s.table.elem := by
    rw [hent.elem, hq.table]
  have hmgr : (((s.linkCb off).insertCb off).enterBucket off e.x_hkey).toLsShmTidMgr =
      (s.toLsShmTidMgr.setTidTblEnt (iterOff2tidVal off) 0).1 := by
    rw [hent.tid, insertCb_eq h₁.flag, linkTid_mgr, hmgr₁]
  obtain ⟨hok, hlater⟩ := h.linked.journal_link h.logOk (hend.rep.lt_of_mem List.mem_cons_self)
    hlinks hs.elem (fun _ _ => rfl)
  refine ⟨_, _, ⟨hend, ?_, hok, ?_⟩, ?_⟩
  . have hslave := (hq.tid h.rep.blks).2.slave
    rw [insertCb_eq h₁.flag, linkTid_mgr, hmgr₁] at hslave
    rw [hmgr]
    exact hslave.trans h.master
  . intro y hy
    unfold keyOf
    rw [helem]
    rcases List.mem_cons.mp hy with rfl | hy
    . rw [hs.elem]
      exact hlen
    . exact h.short y hy
  . unfold journal
    rw [hmgr, helem]
    exact hlater

theorem Journaled.iterGrowValue (h : Journaled s E log) {n : Nat} {front : Bool}
    (hsound : s.GrowSound (s.findKey key) n) (hok : s.GrowTid (s.findKey key) n front)
    (hu : s.GrowUnlinks (s.findKey key) n)
    : Advanced s log (s.iterGrowValue (s.findKey key) n front).1 := by
  rcases h.rep.lookup.find2_cases key with ⟨hz, _⟩ | ⟨hx, _⟩
  . have hz : s.findKey key = 0 := hz
    rw [hz, iterGrowValue_zero]
    exact h.refl
  . change s.findKey key ∈ E at hx
    generalize s.findKey key = x at hx hsound hok hu ⊢
    obtain ⟨e, he, _⟩ := h.rep.elems x hx
    have hgrow := hok e he
    have hunl := hu e he
    have hlen : e.key.length < 2 ^ 16 := by
      have hk := h.short x hx
      simp only [keyOf, he] at hk
      exact hk
    have hcases := iterGrowValue_cases h.rep hx he n front (hsound e he)
    dsimp only at hcases hgrow hunl
    rcases hcases with ⟨_, heq⟩ | ⟨_, _, heq⟩ | ⟨h0, hj, h₁, hs₁, _, hs₂, _, hroom, hkeys, heq⟩
    . rw [heq]
      obtain ⟨h₁, hl⟩ := h.withShm (Shm.grows_alloc2 s.shm (e.x_iLen + round4 n))
      exact h₁.refl.after hl
    . rw [heq]
      obtain ⟨h₁, hl₁⟩ := h.withShm (Shm.grows_alloc2 s.shm (e.x_iLen + round4 n))
      obtain ⟨h₂, hl₂⟩ := h₁.lruOnly (lruOnly_rebuild _)
      exact (h₂.refl.after hl₂).after hl₁
    . rw [heq]
      obtain ⟨_, hlinks⟩ := hgrow h0 hj
      obtain ⟨hj₁, hl₁⟩ := h.withElem h₁ hs₁.notMem
      have hxo : x ≠ (s.shm.alloc2 (e.x_iLen + round4 n)).2 := by
        rintro hxo
        exact hs₁.notMem (hxo ▸ hx)
      have hunl₁ : LsShmTidMgr.Unlinks (s.withElem (s.shm.alloc2 (e.x_iLen + round4 n)).1
          (s.shm.alloc2 (e.x_iLen + round4 n)).2 (growElem e ((s.shm.alloc2
          (e.x_iLen + round4 n)).1.junk (s.shm.alloc2 (e.x_iLen + round4 n)).2) n front)).toLsShmTidMgr
          (Function.update s.tidLink (s.shm.alloc2 (e.x_iLen + round4 n)).2
            ((s.shm.alloc2 (e.x_iLen + round4 n)).1.junk
              (s.shm.alloc2 (e.x_iLen + round4 n)).2).x_tid x) := by
        rw [Function.update_of_ne hxo]
        exact hunl h0 hj
      obtain ⟨hj₂, htid₂, hl₂⟩ := hj₁.erase hx hunl₁
      rw [← htid₂] at hl₂
      exact ((hj₂.linkEnter hs₂ hkeys hroom hlinks hlen).after hl₂).after hl₁

theorem Journaled.touchLru (h : Journaled s E log) (off : Nat) : Advanced s log (s.touchLru off) := by
  have hl : LruOnly s (s.touchLru off) := by
    unfold LsShmHash.touchLru
    split
    . exact LruOnly.refl s
    . split
      . exact lruOnly_rebuild s
      . exact lruOnly_linkSetTop s off
  obtain ⟨h', hlater⟩ := h.lruOnly hl
  exact ⟨E, log, h', hlater⟩

theorem TidOk.clear_mgr (h : TidOk s E log)
    : ∃ m, Blks { s.toLsShmTidMgr with shm := m } ∧ Rep s.clear [] ∧ s.clear.flagTid = true ∧
        s.clear.tidLink = s.tidLink ∧
        s.clear.toLsShmTidMgr = LsShmTidMgr.clrTidTbl { s.toLsShmTidMgr with shm := m } := by
  obtain ⟨xs, _, heq, hrep⟩ := clear_spec h.rep
  have hr := releaseList_spec s xs
  rw [heq]
  generalize hs₁ : (s.releaseList xs).setTable clearTable = s₁ at hrep ⊢
  have hflag : s₁.flagTid = true := by
    rw [← hs₁, hr.rest]
    exact h.flag
  have htid : s₁.toLsShmTidMgr = { s.toLsShmTidMgr with shm := s₁.shm } := by
    rw [← hs₁]
    exact hr.tid
  have hlink : s₁.tidLink = s.tidLink := by
    rw [← hs₁, hr.rest]
    rfl
  have hq := quiet_clearCbs s₁
  have hcbs : s₁.clearCbs.toLsShmTidMgr = s₁.toLsShmTidMgr.clrTidTbl ∧
      s₁.clearCbs.tidLink = s₁.tidLink := by
    cases hlru : s₁.flagLru <;> simp [clearCbs, hlru, hflag, LsShmHash.setLru, onTid]
  refine ⟨s₁.shm, ?_, hrep.quiet hq, hq.flagTid.trans hflag, hcbs.2.trans hlink, ?_⟩
  . rw [← htid]
    exact hrep.blks
  . rw [hcbs.1, htid]

theorem Journaled.clear (h : Journaled s E log) (ha : s.resetTidTbl.Assigns 0)
    (hcnt : s.clear.x_iBlkCnt ≠ 0) : Advanced s log s.clear := by
  obtain ⟨m, hb, hrep, hflag, hlink, hmgr⟩ := h.toTidOk.clear_mgr
  have hl := h.linked.withShm hb
  rw [hmgr] at hcnt
  obtain ⟨log', hend, hok, hlater⟩ :=
    hl.journal_clear h.isTidMaster ha hcnt s.table.elem s.clear.table.elem
  have hframe := (clrTidTbl_blks hb).2
  rw [← hmgr, ← hlink] at hend
  refine ⟨[], log', ⟨⟨hflag, hrep, hend⟩, ?_, hok, by simp⟩, ?_⟩
  . rw [hmgr]
    exact hframe.slave.trans h.master
  . unfold journal
    rw [hmgr]
    exact hlater

end Operations

section Trim

variable {act : Nat → LsShmHElem → TrimAct} {cost : LsShmHElem → Int} {st : TrimState}

def IterUnlinks (act : Nat → LsShmHElem → TrimAct) (st : TrimState) (_ : Unit) : Prop :=
  let s := st.hash.onTid (·.checkTidTbl)
  st.offElem ≠ 0 → 0 < st.left → ∀ e ∈ s.offset2iterator st.offElem,
    (act (s.getLruLasttime st.offElem) e).erases = true → s.Unlinks (s.tidLink st.offElem)

instance (act : Nat → LsShmHElem → TrimAct) (st : TrimState) (u : Unit)
    : Decidable (IterUnlinks act st u) :=
  inferInstanceAs (Decidable (_ → _ → ∀ e ∈ LsShmHash.offset2iterator _ st.offElem, _ → _))

theorem Journaled.trimIter (h : Journaled st.hash E log) (hok : IterTid st ())
    (hu : IterUnlinks act st ()) : Advanced st.hash log (trimIter act cost st).hash := by
  unfold LsShmHash.trimIter
  split
  . exact h.refl
  next hgo =>
  push Not at hgo
  obtain ⟨ha, hin⟩ := hok hgo.1 (by omega)
  have hu := hu hgo.1 (by omega)
  have hx := h.rep.mem_of_inTable hin hgo.1
  have h₁ := h.toTidOk.checkTidTbl ha
  obtain ⟨hj₁, hl₁⟩ := h.rest h₁ (sameId_checkTidTbl st.hash.toLsShmTidMgr).slave
    (Nat.le_of_eq (sameId_checkTidTbl st.hash.toLsShmTidMgr).tid.symm) (fun _ _ => rfl)
  rw [if_pos h.flag]
  dsimp only at hu ⊢
  generalize st.hash.onTid (·.checkTidTbl) = s₁ at *
  obtain ⟨e, _, hiter, _⟩ := h₁.rep.lookup.elem_some hx
  have hu := hu e hiter
  rw [hiter]
  dsimp only
  split
  . exact hj₁.refl.after hl₁
  . exact hj₁.refl.after hl₁
  . obtain ⟨hj₂, hl₂⟩ := hj₁.lruOnly (lruOnly_linkSetTop s₁ st.offElem)
    exact (hj₂.refl.after hl₂).after hl₁
  . next hact =>
    rw [hact] at hu
    obtain ⟨hj₂, htid₂, hl₂⟩ := hj₁.erase hx (hu rfl)
    rw [← htid₂] at hl₂
    refine (Advanced.after ?_ hl₂).after hl₁
    dsimp only
    exact hj₂.setLru _

def TrimUnlinks (s : LsShmHash) (act : Nat → LsShmHElem → TrimAct) (cost : LsShmHElem → Int)
    (left : Int) (fuel : Nat) : Prop :=
  s.flagLru = true → Run.Meets (fun st (_ : Unit) => LsShmHash.trimIter act cost st) (IterUnlinks act)
    (s.trimStart left) (List.replicate fuel ())

instance (s : LsShmHash) (act : Nat → LsShmHElem → TrimAct) (cost : LsShmHElem → Int)
    (left : Int) (fuel : Nat) : Decidable (s.TrimUnlinks act cost left fuel) :=
  inferInstanceAs (Decidable (s.flagLru = true → Run.Meets
    (fun st (_ : Unit) => LsShmHash.trimIter act cost st) (IterUnlinks act) (s.trimStart left)
    (List.replicate fuel ())))

theorem Journaled.trimLoop (h : Journaled s E log) {left : Int} {fuel : Nat}
    (hok : s.TrimTid act cost left fuel) (hu : s.TrimUnlinks act cost left fuel)
    : Advanced s log (s.trimLoop act cost left fuel).1 := by
  unfold LsShmHash.trimLoop
  split
  . exact h.refl
  . next hlru =>
    have hlru : s.flagLru = true := by simpa using hlru
    have hmeets := (hok hlru).and (hu hlru)
    have hend := Run.exec_invariant (fun st : TrimState => Advanced s log st.hash)
      (fun st _ hinv hiter => by
        obtain ⟨E', log', hj, hl⟩ := hinv
        exact (hj.trimIter hiter.1 hiter.2).after hl)
      (show Advanced s log (s.trimStart left).hash from h.refl) hmeets
    obtain ⟨E', log', hj, hl⟩ := hend
    refine Advanced.after ?_ hl
    dsimp only
    exact hj.setLru _

end Trim

end LsShmHash

namespace HashJournalRun

open LsShmHash

/--
Beside what keeps elements and entries in step: the entry of an element that goes can be replaced by
one that says so, and a flush gets a block.
-/
def Recorded (s : LsShmHash) : LsShmHashOp → Prop
  | .time _ => True
  | .doInsert key _ => key.length < 2 ^ 16
  | .doSet key val => key.length < 2 ^ 16 ∧ (checkSize val.len = true → s.KeyUnlinks key)
  | .doUpdate key val => key.length < 2 ^ 16 ∧ (checkSize val.len = true → s.KeyUnlinks key)
  | .iterGrowValue key n _ => s.GrowUnlinks (s.findKey key) n
  | .eraseIterator key => s.KeyUnlinks key
  | .touchLru _ => True
  | .tidReplaceTid key _ => s.KeyUnlinks key
  | .rehash => True
  | .trim tmCutoff func fuel => s.TrimUnlinks (trimAct tmCutoff func) (fun _ => 0) 1 fuel
  | .trimsize need func fuel =>
    s.TrimUnlinks (fun _ e => .erase (trimRet func e)) (fun e => e.x_iLen) need fuel
  | .trimByCb maxCnt func fuel => s.TrimUnlinks (trimByCbAct func) (fun _ => 1) maxCnt fuel
  | .clear => s.clear.x_iBlkCnt ≠ 0

instance (s : LsShmHash) (op : LsShmHashOp) : Decidable (Recorded s op) :=
  match op with
  | .time _ => .isTrue trivial
  | .doInsert _ _ => inferInstanceAs (Decidable (_ < _))
  | .doSet _ _ => inferInstanceAs (Decidable (_ ∧ (_ → _)))
  | .doUpdate _ _ => inferInstanceAs (Decidable (_ ∧ (_ → _)))
  | .iterGrowValue _ _ _ => inferInstanceAs (Decidable (GrowUnlinks _ _ _))
  | .eraseIterator _ => inferInstanceAs (Decidable (KeyUnlinks _ _))
  | .touchLru _ => .isTrue trivial
  | .tidReplaceTid _ _ => inferInstanceAs (Decidable (KeyUnlinks _ _))
  | .rehash => .isTrue trivial
  | .trim _ _ _ => inferInstanceAs (Decidable (TrimUnlinks _ _ _ _ _))
  | .trimsize _ _ _ => inferInstanceAs (Decidable (TrimUnlinks _ _ _ _ _))
  | .trimByCb _ _ _ => inferInstanceAs (Decidable (TrimUnlinks _ _ _ _ _))
  | .clear => inferInstanceAs (Decidable (_ ≠ _))

def Ok (s : LsShmHash) (op : LsShmHashOp) : Prop :=
  TidHashRun.Ok s op ∧ Recorded s op

instance (s : LsShmHash) (op : LsShmHashOp) : Decidable (Ok s op) :=
  inferInstanceAs (Decidable (_ ∧ _))

theorem step_advanced {s : LsShmHash} {E : List Nat} {log : TidLog} (h : Journaled s E log)
    (op : LsShmHashOp) (hok : Ok s op) : Advanced s log (s.step op) := by
  obtain ⟨htid, hrec⟩ := hok
  cases op with
  | time now =>
    have hrep : Rep { s with now := now } E :=
      h.rep.quiet ⟨rfl, rfl, rfl, rfl, fun h => ⟨h, LsShmTidMgr.Frame.refl _⟩⟩
    have hok : TidOk { s with now := now } E log := ⟨h.flag, hrep, h.linked⟩
    obtain ⟨h', hl⟩ := h.rest hok rfl (Nat.le_refl _) (fun _ _ => rfl)
    exact ⟨E, log, h', hl⟩
  | doInsert key val => exact h.doInsert htid.1 hrec htid.2
  | doSet key val => exact h.doSet htid.1 hrec.1 htid.2 hrec.2
  | doUpdate key val =>
    simp only [LsShmHash.step, LsShmHash.doUpdate]
    split
    . exact h.refl
    . next hz => exact h.doSet htid.1 hrec.1 (htid.2 hz) hrec.2
  | iterGrowValue key n front => exact h.iterGrowValue htid.1 htid.2 hrec
  | eraseIterator key => exact h.eraseKey hrec
  | touchLru key => exact h.touchLru _
  | tidReplaceTid key pTid => exact h.replaceKey hrec (fun hz => (htid hz).2)
  | rehash =>
    obtain ⟨hrep, hk, _⟩ := rehash_spec h.rep
    obtain ⟨h', hl⟩ := h.kept hrep hk
    exact ⟨E, log, h', hl⟩
  | trim tmCutoff func fuel => exact h.trimLoop htid hrec
  | trimsize need func fuel => exact h.trimLoop htid hrec
  | trimByCb maxCnt func fuel => exact h.trimLoop htid hrec
  | clear => exact h.clear (htid h.isTidMaster) hrec

theorem exec_advanced {s : LsShmHash} {E : List Nat} {log : TidLog} (h : Journaled s E log)
    {ops : List LsShmHashOp} (hok : Run.Meets LsShmHash.step Ok s ops)
    : Advanced s log (Run.exec LsShmHash.step s ops) :=
  Run.exec_invariant (fun s' => Advanced s log s')
    (fun _ op ⟨_, _, hj, hl⟩ hop => (step_advanced hj op hop).after hl) h.refl hok

theorem allocHTable_journaled {m : Shm} {parm : HashParm} {init_size : Nat} {s : LsShmHash}
    (h : allocHTable m parm init_size = some s) (hn : init_size ≤ MAX_INIT_SIZE)
    (hflag : parm.flagTid = true) (hmaster : parm.slave = false)
    : Journaled s [] (fun _ => none) := by
  refine ⟨TidHashRun.allocHTable_tidOk h hn hflag, ?_, ⟨by simp, by simp⟩, by simp⟩
  unfold allocHTable at h
  dsimp only at h
  split at h
  . cases h
  split at h
  . cases h
  cases h
  exact hmaster

def lookup (s : LsShmHash) (key : List UInt8) : Option LsShmHElem :=
  s.offset2iterator (s.findKey key)

/--
The table of `s₂` tells everything that has changed since `s₁`: a value that was there is still
there under its id, or an entry behind the last id of `s₁` names that id or says that everything was
removed; a value that is there is an old one or has such an entry itself.
-/
structure Tells (s₁ s₂ : LsShmHash) : Prop where
  ids : s₁.x_tid ≤ s₂.x_tid
  kept : ∀ key e, lookup s₁ key = some e →
    (∃ d, lookup s₂ key = some d ∧ d.getVal = e.getVal ∧
      s₂.tidLink (s₂.findKey key) = s₁.tidLink (s₁.findKey key)) ∨
    ∃ tid, s₁.x_tid < tid ∧ tid ≤ s₂.x_tid ∧
      (TidHashRun.tidTblEnt s₂.toLsShmTidMgr tid = some TIDDEL_FLUSHALL ∨
        TidHashRun.tidTblEnt s₂.toLsShmTidMgr tid = some (s₁.tidLink (s₁.findKey key)))
  known : ∀ key d, lookup s₂ key = some d →
    (∃ e, lookup s₁ key = some e ∧ d.getVal = e.getVal ∧
      s₂.tidLink (s₂.findKey key) = s₁.tidLink (s₁.findKey key)) ∨
    s₁.x_tid < s₂.tidLink (s₂.findKey key) ∧ s₂.tidLink (s₂.findKey key) ≤ s₂.x_tid ∧
      TidHashRun.tidTblEnt s₂.toLsShmTidMgr (s₂.tidLink (s₂.findKey key)) =
        some (iterOff2tidVal (s₂.findKey key))

section Lookup

variable {s : LsShmHash} {E : List Nat} {log : TidLog} {key val : List UInt8} {t : Nat}

theorem tidTblEnt_eq (h : TidOk s E log) {v : Nat} (hv : log t = some v)
    : TidHashRun.tidTblEnt s.toLsShmTidMgr t = some v := by
  obtain ⟨off, hoff, _, _, hval⟩ := (TidRun.lookupExact_of_indexed h.linked.indexed).tblBlk t v hv
  unfold TidHashRun.tidTblEnt
  rw [hoff, Option.map_some, hval]

theorem journal_of_lookup (h : TidOk s E log) {e : LsShmHElem} (he : lookup s key = some e)
    : s.findKey key ∈ E ∧ e.key = key ∧
        s.journal log (s.tidLink (s.findKey key)) = some (.add key e.getVal) := by
  rcases h.rep.lookup.find2_cases key with ⟨hz, _⟩ | ⟨hx, hkx⟩
  . have hz : s.findKey key = 0 := hz
    unfold lookup LsShmHash.offset2iterator at he
    rw [hz, Shm.offset2ptr_zero] at he
    split at he <;> simp at he
  . change s.findKey key ∈ E at hx
    change s.table.keyOf (s.findKey key) = key at hkx
    obtain ⟨d, hd, hiter, _⟩ := h.rep.lookup.elem_some hx
    obtain rfl : d = e := Option.some.inj (hiter.symm.trans he)
    have hdk : d.key = key := by
      simp only [LsShmHTable.keyOf, hd] at hkx
      exact hkx
    refine ⟨hx, hdk, ?_⟩
    unfold journal
    rw [journalOf_of_some (h.linked.carries _ hx), tidEntry_iterOff (h.rep.lt_of_mem hx) hd, hdk]

theorem lookup_of_journal (h : TidOk s E log) (he : s.journal log t = some (.add key val))
    : ∃ e, lookup s key = some e ∧ e.getVal = val ∧ s.tidLink (s.findKey key) = t := by
  obtain ⟨v, hv, hev⟩ := journalOf_eq_some he
  obtain ⟨hiter, e, hel, hk, hval⟩ := tidEntry_eq_add hev
  obtain ⟨hx, hlink⟩ := h.linked.names t v hv hiter
  have hkx : s.table.keyOf (tidVal2iterOff v) = key := by
    simp only [LsShmHTable.keyOf, hel]
    exact hk
  have hfind : s.findKey key = tidVal2iterOff v := h.rep.lookup.find2_eq hx hkx
  obtain ⟨d, hd, hiter', _⟩ := h.rep.lookup.elem_some hx
  cases hd.symm.trans hel
  refine ⟨e, ?_, hval, ?_⟩
  . unfold lookup
    rw [hfind]
    exact hiter'
  . rw [hfind]
    exact hlink

end Lookup

theorem tells_of_later {s₁ s₂ : LsShmHash} {E₁ E₂ : List Nat} {log₁ log₂ : TidLog}
    (h₁ : Journaled s₁ E₁ log₁) (h₂ : Journaled s₂ E₂ log₂)
    (hl : Later (s₁.journal log₁) s₁.x_tid (s₂.journal log₂) s₂.x_tid) : Tells s₁ s₂ := by
  have hle : ∀ {s : LsShmHash} {E : List Nat} {log : TidLog} {x : Nat}, TidOk s E log → x ∈ E →
      s.tidLink x ≤ s.x_tid :=
    fun h hx => (h.linked.indexed.log_lt _ _ (h.linked.carries _ hx)).2.1
  refine ⟨hl.le, ?_, ?_⟩
  . intro key e he
    obtain ⟨hx, _, hJ⟩ := journal_of_lookup h₁.toTidOk he
    rcases hl.kept _ (hle h₁.toTidOk hx) with heq | ⟨_, u, hnu, hun, hgone⟩
    . exact .inl (lookup_of_journal h₂.toTidOk (heq.trans hJ))
    . refine .inr ⟨u, hnu, hun, ?_⟩
      rcases hgone with hflush | ⟨_, hdel⟩
      . obtain ⟨v, hv, hev⟩ := journalOf_eq_some hflush
        rw [tidEntry_eq_flush hev] at hv
        exact .inl (tidTblEnt_eq h₂.toTidOk hv)
      . obtain ⟨v, hv, hev⟩ := journalOf_eq_some hdel
        rw [(tidEntry_eq_del hev).1] at hv
        exact .inr (tidTblEnt_eq h₂.toTidOk hv)
  . intro key d hd
    obtain ⟨hy, _, hJ⟩ := journal_of_lookup h₂.toTidOk hd
    by_cases hnew : s₂.tidLink (s₂.findKey key) ≤ s₁.x_tid
    . obtain ⟨e, he, hval, hlink⟩ := lookup_of_journal h₁.toTidOk (hl.eq_of_some hnew hJ)
      exact .inl ⟨e, he, hval.symm, hlink.symm⟩
    . exact .inr ⟨by omega, hle h₂.toTidOk hy,
        tidTblEnt_eq h₂.toTidOk (h₂.linked.carries _ hy)⟩

/--
Whatever a master does between two points of time, a reader of the transaction table who has got up
to the last id of the first one finds behind it everything that has changed.
-/
theorem tells_exec (m : Shm) (parm : HashParm) (init_size : Nat) (s : LsShmHash)
    (h : allocHTable m parm init_size = some s) (hn : init_size ≤ MAX_INIT_SIZE)
    (hflag : parm.flagTid = true) (hmaster : parm.slave = false) (before ops : List LsShmHashOp)
    (hok : Run.Meets LsShmHash.step Ok s (before ++ ops))
    : Tells (Run.exec LsShmHash.step s before) (Run.exec LsShmHash.step s (before ++ ops)) := by
  obtain ⟨E, log, hj, _⟩ := exec_advanced (allocHTable_journaled h hn hflag hmaster) hok.append_left
  obtain ⟨E', log', hj', hl⟩ := exec_advanced hj hok.append_right
  rw [Run.exec_append]
  exact tells_of_later hj hj' hl

theorem tells_exec_sample
    : Tells (Run.exec LsShmHash.step (TidHashRun.sample.get TidHashRun.sample_isSome)
          [.doInsert [1] (ValParm.ofBytes [10]), .doSet [2] (ValParm.ofBytes [20])])
        (Run.exec LsShmHash.step (TidHashRun.sample.get TidHashRun.sample_isSome)
          ([.doInsert [1] (ValParm.ofBytes [10]), .doSet [2] (ValParm.ofBytes [20])] ++
            [.doSet [1] (ValParm.ofBytes [11]), .eraseIterator [2]])) :=
  tells_exec _ _ 7 _ (Option.some_get TidHashRun.sample_isSome).symm (by decide) rfl rfl _ _
    (by decide +kernel)

end HashJournalRun

end Lsmcd
