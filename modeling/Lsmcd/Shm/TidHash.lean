import Lsmcd.Shm.TidLink
import Lsmcd.Shm.HashStep
import Lsmcd.Shm.HashMap

/-!
The elements of a hash and the entries of its transaction table, over all runs.

The callbacks `insertIterCb`, `eraseIterCb` and `updateIterCb` keep the two in step as long as each
id can be assigned and stored, and as long as an element was made when its entry is.
-/

namespace Lsmcd

open LsShmTidMgr

namespace LsShmHash

structure TidOk (s : LsShmHash) (E : List Nat) (log : TidLog) : Prop where
  flag : s.flagTid = true
  rep : Rep s E
  linked : TidLinked s.toLsShmTidMgr s.tidLink E log

variable {s s' : LsShmHash} {E E' : List Nat} {log : TidLog} {x : Nat}

theorem Rep.lt_of_mem (h : Rep s E) (hx : x ∈ E) : x < 2 ^ 32 := by
  obtain ⟨e, _, hok⟩ := h.elems x hx
  have hadd := hok.owns.add_le
  have hlt := s.shm.fileSize_lt
  omega

theorem TidLinked.of_mgr (h : TidLinked s.toLsShmTidMgr s.tidLink E log) (hrep : Rep s' E')
    (htid : s'.toLsShmTidMgr = { s.toLsShmTidMgr with shm := s'.shm })
    (hlink : ∀ x ∈ E, s'.tidLink x = s.tidLink x)
    : TidLinked s'.toLsShmTidMgr s'.tidLink E log := by
  have hb := hrep.blks
  rw [htid] at hb ⊢
  exact (h.withShm hb).congr hlink (fun _ => Iff.rfl)

theorem TidOk.of_mgr (h : TidOk s E log) (hrep : Rep s' E) (hflag : s'.flagTid = s.flagTid)
    (htid : s'.toLsShmTidMgr = { s.toLsShmTidMgr with shm := s'.shm })
    (hlink : ∀ x ∈ E, s'.tidLink x = s.tidLink x) : TidOk s' E log :=
  ⟨hflag.trans h.flag, hrep, TidLinked.of_mgr h.linked hrep htid hlink⟩

theorem TidOk.lruOnly (h : TidOk s E log) (hl : LruOnly s s') : TidOk s' E log := by
  have hrep := h.rep.quiet hl.quiet
  rw [hl] at hrep ⊢
  exact ⟨h.flag, hrep, h.linked⟩

theorem TidOk.kept (h : TidOk s E log) (hrep : Rep s' E) (hk : Kept s s') : TidOk s' E log :=
  h.of_mgr hrep hk.flagTid hk.tid (fun _ _ => by rw [hk.tidLink])

section Erase

def EraseTid (s : LsShmHash) : Prop :=
  s.isTidMaster = true → s.Assigns 0

instance (s : LsShmHash) : Decidable s.EraseTid := inferInstanceAs (Decidable (_ → _))

def unlinkLog (s : LsShmHash) (log : TidLog) (x : Nat) : TidLog :=
  if s.isTidMaster then
    (s.clrTidTblEnt (s.tidLink x)).logAfter (clrLog log (s.tidLink x)) (s.tidLink x) 0
  else clrLog log (s.tidLink x)

theorem TidOk.tid_ne_zero (h : TidOk s E log) (hx : x ∈ E) : s.tidLink x ≠ 0 := by
  have hpre := (h.linked.indexed.log_lt _ _ (h.linked.carries x hx)).1
  omega

theorem TidOk.unlinkTid (h : TidOk s E log) (hx : x ∈ E) (ha : s.EraseTid)
    : TidLinked (s.toLsShmTidMgr.unlinkTid (s.tidLink x)) s.tidLink (E.erase x)
        (s.unlinkLog log x) :=
  h.linked.unlinkTid h.rep.nodup hx (fun _ hy => h.rep.lt_of_mem hy) ha

theorem TidOk.eraseIterCb (h : TidOk s E log) (hx : x ∈ E) (ha : s.EraseTid)
    : TidLinked (s.eraseIterCb x).toLsShmTidMgr (s.eraseIterCb x).tidLink (E.erase x)
        (s.unlinkLog log x) := by
  unfold LsShmHash.eraseIterCb
  dsimp only
  rw [if_pos (h.tid_ne_zero hx)]
  apply (h.unlinkTid hx ha).congr _ (fun _ => Iff.rfl)
  intro y hy
  exact Function.update_of_ne (h.rep.nodup.mem_erase_iff.mp hy).1 _ _

theorem TidOk.eraseCbs (h : TidOk s E log) (hx : x ∈ E) (ha : s.EraseTid)
    : TidLinked (s.eraseCbs x).toLsShmTidMgr (s.eraseCbs x).tidLink (E.erase x)
        (s.unlinkLog log x) := by
  have hl : LruOnly s (if s.flagLru then s.unlinkHElem x else s) := by
    split
    . exact lruOnly_unlinkHElem s x
    . exact LruOnly.refl s
  have h₁ := h.lruOnly hl
  unfold LsShmHash.eraseCbs
  dsimp only
  generalize (if s.flagLru then s.unlinkHElem x else s) = s₁ at hl h₁ ⊢
  rw [if_pos h₁.flag]
  have ha₁ : s₁.EraseTid := by rw [hl]; exact ha
  have hlog : s₁.unlinkLog log x = s.unlinkLog log x := by rw [hl]; rfl
  rw [← hlog]
  exact h₁.eraseIterCb hx ha₁

theorem TidOk.erase (h : TidOk s E log) (hx : x ∈ E) (ha : s.EraseTid)
    : TidOk (s.eraseIteratorHelper x) (E.erase x) (s.unlinkLog log x) := by
  obtain ⟨e, he, _⟩ := h.rep.elems x hx
  obtain ⟨hrep, hd⟩ := eraseIteratorHelper_spec h.rep hx he
  have hq := quiet_eraseCbs s x
  refine ⟨(hd.flagTid.trans hq.flagTid).trans h.flag, hrep, ?_⟩
  apply TidLinked.of_mgr (h.eraseCbs hx ha) hrep
  . rw [hd.tid]
  . intro y _
    rw [hd.tidLink]

end Erase

section Link

theorem linkTid_eq {pTid tid : Nat}
    (hst : (s.toLsShmTidMgr.setTidTblEnt (iterOff2tidVal x) pTid).2 = (tid, true))
    (hiter : (s.onTid fun _ => (s.toLsShmTidMgr.setTidTblEnt (iterOff2tidVal x) pTid).1).offset2iterator
      x ≠ none)
    : s.linkTid x pTid =
        { s.onTid (fun _ => (s.toLsShmTidMgr.setTidTblEnt (iterOff2tidVal x) pTid).1) with
          tidLink := Function.update s.tidLink x tid } := by
  unfold linkTid
  dsimp only
  rw [hst]
  simp only [Bool.not_true, Bool.false_eq_true, if_false]
  split
  . next hnone => exact absurd hnone hiter
  . rfl

def linkLog (s : LsShmHash) (log : TidLog) (x pTid : Nat) : TidLog :=
  s.logAfter log (iterOff2tidVal x) pTid

theorem linkTid_linked {pTid : Nat} (hl : TidLinked s.toLsShmTidMgr s.tidLink E log) (hx : x ∉ E)
    (hx32 : x < 2 ^ 32) (hlinks : s.Links pTid)
    (hiter : (s.onTid fun _ => (s.toLsShmTidMgr.setTidTblEnt (iterOff2tidVal x) pTid).1).offset2iterator
      x ≠ none)
    : TidLinked (s.linkTid x pTid).toLsShmTidMgr (s.linkTid x pTid).tidLink (x :: E)
        (s.linkLog log x pTid) := by
  obtain ⟨tid, _, hst⟩ := hlinks.stored hl.indexed.blks (iterOff2tidVal x)
  rw [linkTid_eq hst hiter]
  have hent := hl.enter hx hx32 hlinks.assigns hst
  unfold linkLog logAfter
  rw [hst]
  exact hent

theorem linkTid_failed {pTid : Nat}
    (hst : (s.toLsShmTidMgr.setTidTblEnt (iterOff2tidVal x) pTid).2.2 = false)
    : s.linkTid x pTid =
        s.onTid fun _ => (s.toLsShmTidMgr.setTidTblEnt (iterOff2tidVal x) pTid).1 := by
  unfold linkTid
  dsimp only
  rw [hst]
  rfl

theorem TidOk.linkTid_failed {pTid : Nat} (h : TidOk s E log) (ha : s.Assigns pTid)
    (hlinks : ¬ s.Links pTid) : TidOk (s.linkTid x pTid) E log := by
  have hst := not_stored_of_not_links h.rep.blks ha hlinks (iterOff2tidVal x)
  have hrep := h.rep.quiet (quiet_linkTid s x pTid)
  rw [LsShmHash.linkTid_failed hst] at hrep ⊢
  rcases setTidTblEnt_cases h.linked.indexed h.linked.tid_lt ha (iterOff2tidVal x) with
    ⟨_, hI, hlt⟩ | ⟨tid, _, _, heq, _⟩
  . exact ⟨h.flag, hrep, hI, hlt, h.linked.carries, h.linked.names⟩
  . rw [heq] at hst
    cases hst

theorem TidOk.linkTid {pTid : Nat} (hflag : s.flagTid = true) (hrep : Rep s E')
    (hl : TidLinked s.toLsShmTidMgr s.tidLink E log) (hx : x ∉ E)
    (hmem : ∀ y, y ∈ E' ↔ y ∈ x :: E) (hlinks : s.Links pTid)
    : TidOk (s.linkTid x pTid) E' (s.linkLog log x pTid) := by
  have hxE : x ∈ E' := (hmem x).mpr List.mem_cons_self
  have hq := quiet_linkTid s x pTid
  have hrep₁ := hrep.quiet (quiet_onTid s (f := fun _ =>
    (s.toLsShmTidMgr.setTidTblEnt (iterOff2tidVal x) pTid).1)
    (fun h => setTidTblEnt_blks h _ _))
  obtain ⟨e, _, hiter, _⟩ := hrep₁.lookup.elem_some hxE
  refine ⟨hq.flagTid.trans hflag, hrep.quiet hq, ?_⟩
  apply (linkTid_linked hl hx (hrep.lt_of_mem hxE) hlinks _).congr (fun _ _ => rfl) hmem
  rw [hiter]
  exact Option.some_ne_none e

theorem insertCb_eq (hflag : s.flagTid = true) (off : Nat) : s.insertCb off = s.linkTid off 0 :=
  if_pos hflag

theorem TidOk.insertCb_failed (h : TidOk s E log) (ha : s.Assigns 0) (hlinks : ¬ s.Links 0)
    : TidOk (s.insertCb x) E log := by
  rw [insertCb_eq h.flag]
  exact h.linkTid_failed ha hlinks

theorem TidOk.insertCb (hflag : s.flagTid = true) (hrep : Rep s E')
    (hl : TidLinked s.toLsShmTidMgr s.tidLink E log) (hx : x ∉ E)
    (hmem : ∀ y, y ∈ E' ↔ y ∈ x :: E) (hlinks : s.Links 0)
    : TidOk (s.insertCb x) E' (s.linkLog log x 0) := by
  rw [insertCb_eq hflag]
  exact TidOk.linkTid hflag hrep hl hx hmem hlinks

end Link

section Insert

def HasMem (s : LsShmHash) (keyLen valLen : Nat) : Prop :=
  ¬ s.Full ∧ (s.rehashed.1.shm.alloc2 (s.elementSize keyLen valLen)).2 ≠ 0

instance (s : LsShmHash) (keyLen valLen : Nat) : Decidable (s.HasMem keyLen valLen) :=
  inferInstanceAs (Decidable (_ ∧ _))

/--
The element and its entry are made both or neither.
-/
def InsertTid (s : LsShmHash) (parms : StrPair) : Prop :=
  (s.insertCopy2 (s.m_hf parms.key) parms).1.Assigns 0 ∧
    (s.HasMem parms.key.length parms.val.len ↔
      (s.insertCopy2 (s.m_hf parms.key) parms).1.Links 0)

instance (s : LsShmHash) (parms : StrPair) : Decidable (s.InsertTid parms) :=
  inferInstanceAs (Decidable (_ ∧ _))

theorem TidOk.withShm (h : TidOk s E log) {m : Shm} (hg : Shm.Grows s.shm m)
    : TidOk { s with shm := m } E log :=
  h.of_mgr (h.rep.withShm hg) rfl rfl (fun _ _ => rfl)

theorem TidOk.withElem (h : TidOk s E log) {m : Shm} {off : Nat} {e : LsShmHElem}
    (hrep : Rep (s.withElem m off e) E) (hoff : off ∉ E) : TidOk (s.withElem m off e) E log := by
  apply h.of_mgr hrep rfl rfl
  intro y hy
  apply Function.update_of_ne
  rintro rfl
  exact hoff hy

theorem lruOnly_linkCb (s : LsShmHash) (off : Nat) : LruOnly s (s.linkCb off) := by
  unfold linkCb
  split
  . exact lruOnly_linkHElem s off
  . exact LruOnly.refl s

theorem TidOk.rehashed (h : TidOk s E log) : TidOk s.rehashed.1 E log := by
  obtain ⟨hrep, hk, _⟩ := rehashed_spec h.rep
  exact h.kept hrep hk

theorem TidOk.enter (h : TidOk s E log) {off : Nat} {e : LsShmHElem} (hs : Spare s E off e)
    (hkeys : ∀ x ∈ E, s.table.keyOf x ≠ e.key) (hroom : E.length < s.capacity)
    : ((s.linkCb off).enterBucket off e.x_hkey).flagTid = true ∧
      Rep ((s.linkCb off).enterBucket off e.x_hkey) (off :: E) ∧
      TidLinked ((s.linkCb off).enterBucket off e.x_hkey).toLsShmTidMgr
        ((s.linkCb off).enterBucket off e.x_hkey).tidLink E log := by
  have hcb := quiet_linkCb s off
  have h₁ := h.lruOnly (lruOnly_linkCb s off)
  obtain ⟨hrep, hent⟩ := enterBucket_spec h₁.rep (hs.quiet h.rep hcb)
    (by rw [hcb.table]; exact hkeys) (by unfold capacity; rw [hcb.table]; exact hroom)
  refine ⟨hent.flagTid.trans h₁.flag, hrep, ?_⟩
  apply TidLinked.of_mgr h₁.linked hrep
  . rw [hent.tid]
  . intro y _
    rw [hent.tidLink]

theorem TidOk.insert2 (h : TidOk s E log) (parms : StrPair)
    (hkey : ∀ x ∈ E, s.table.keyOf x ≠ parms.key)
    (hsound : s.Sound parms.key.length parms.val.len) (hok : s.InsertTid parms)
    : let q := s.insertCopy2 (s.m_hf parms.key) parms
      (q.2 = 0 ∧ TidOk (s.insert2 (s.m_hf parms.key) parms).1 E log) ∨
      (q.2 ∉ E ∧ TidOk (s.insert2 (s.m_hf parms.key) parms).1 (q.2 :: E) (q.1.linkLog log q.2 0)) := by
  intro q
  rw [insert2_eq]
  dsimp only
  obtain ⟨ha, hiff⟩ := hok
  have hcases := insertCopy2_cases h.rep hkey hsound
  dsimp only at hcases
  rcases hcases with ⟨hfull, heq⟩ | ⟨h0, heq⟩ | ⟨hfull, h0, h₂, hs₂, hroom, hkeys, heq⟩
  . left
    have hno : ¬ q.1.Links 0 := fun hl => (hiff.mpr hl).1 hfull
    change q.1.Assigns 0 at ha
    change q = _ at heq
    change _ ∧ TidOk (q.1.insertCb q.2) E log
    rw [heq] at ha hno ⊢
    refine ⟨rfl, ?_⟩
    exact h.rehashed.insertCb_failed ha hno
  . left
    have hno : ¬ q.1.Links 0 := fun hl => (hiff.mpr hl).2 h0
    have h₁ := h.rehashed.withShm (Shm.grows_alloc2 s.rehashed.1.shm
      (s.elementSize parms.key.length parms.val.len))
    change q.1.Assigns 0 at ha
    change q = _ at heq
    change _ ∧ TidOk (q.1.insertCb q.2) E log
    rw [heq] at ha hno ⊢
    refine ⟨rfl, ?_⟩
    exact h₁.insertCb_failed ha hno
  . right
    have hlinks : q.1.Links 0 := hiff.mp ⟨hfull, h0⟩
    obtain ⟨hflag, hrep, hlinked⟩ := (h.rehashed.withElem h₂ hs₂.notMem).enter hs₂ hkeys hroom
    change q = _ at heq
    change _ ∧ TidOk (q.1.insertCb q.2) _ _
    rw [heq] at hlinks ⊢
    refine ⟨hs₂.notMem, ?_⟩
    exact TidOk.insertCb hflag hrep hlinked hs₂.notMem (fun _ => Iff.rfl) hlinks

end Insert

section Update

def UpdateTid (s : LsShmHash) (x : Nat) : Prop :=
  s.EraseTid ∧ (s.eraseIterCb x).Links 0

instance (s : LsShmHash) (x : Nat) : Decidable (s.UpdateTid x) :=
  inferInstanceAs (Decidable (_ ∧ _))

theorem mem_cons_erase (hnd : E.Nodup) (hx : x ∈ E) (y : Nat) : y ∈ E ↔ y ∈ x :: E.erase x := by
  rw [List.mem_cons, hnd.mem_erase_iff]
  constructor
  . intro hy
    by_cases hyx : y = x
    . exact Or.inl hyx
    . exact Or.inr ⟨hyx, hy⟩
  . rintro (rfl | ⟨_, hy⟩)
    . exact hx
    . exact hy

theorem TidOk.updateIterCb (h : TidOk s E log) (hx : x ∈ E) (hok : s.UpdateTid x)
    : TidOk (s.updateIterCb x) E ((s.eraseIterCb x).linkLog (s.unlinkLog log x) x 0) := by
  have hq := quiet_eraseIterCb s x
  exact TidOk.linkTid (hq.flagTid.trans h.flag) (h.rep.quiet hq) (h.eraseIterCb hx hok.1)
    (fun hin => (h.rep.nodup.mem_erase_iff.mp hin).1 rfl) (mem_cons_erase h.rep.nodup hx) hok.2

theorem TidOk.tidReplaceTid (h : TidOk s E log) (hx : x ∈ E) {pTid : Nat} (ha : s.EraseTid)
    (hlinks : (s.toLsShmTidMgr.unlinkTid (s.tidLink x)).Links pTid)
    : TidOk (s.tidReplaceTid x pTid) E
        ((s.onTid (·.unlinkTid (s.tidLink x))).linkLog (s.unlinkLog log x) x pTid) :=
  TidOk.linkTid h.flag (h.rep.quiet (quiet_unlinkTid s _)) (h.unlinkTid hx ha)
    (fun hin => (h.rep.nodup.mem_erase_iff.mp hin).1 rfl) (mem_cons_erase h.rep.nodup hx) hlinks

theorem UpdateTid.congr (h : s.UpdateTid x) (hm : s'.toLsShmTidMgr = s.toLsShmTidMgr)
    (hl : s'.tidLink = s.tidLink) : s'.UpdateTid x := by
  have hcb : (s'.eraseIterCb x).toLsShmTidMgr = (s.eraseIterCb x).toLsShmTidMgr := by
    unfold eraseIterCb
    dsimp only
    rw [hl]
    split
    . exact congrArg (·.unlinkTid (s.tidLink x)) hm
    . exact hm
  unfold UpdateTid EraseTid at h ⊢
  rw [hm, hcb]
  exact h

theorem TidOk.updateCbs (h : TidOk s E log) (hx : x ∈ E) (hok : s.UpdateTid x)
    : ∃ log', TidOk (s.updateCbs x) E log' := by
  have hl : LruOnly s (if s.flagLru then s.linkSetTop x else s) := by
    split
    . exact lruOnly_linkSetTop s x
    . exact LruOnly.refl s
  have h₁ := h.lruOnly hl
  unfold LsShmHash.updateCbs
  dsimp only
  generalize (if s.flagLru then s.linkSetTop x else s) = s₁ at hl h₁ ⊢
  rw [if_pos h₁.flag]
  exact ⟨_, h₁.updateIterCb hx (hok.congr (by rw [hl]) (by rw [hl]))⟩

/--
What `doSet` needs: a new element is inserted with its entry, an element that keeps its place gets a
new entry, one that has to be replaced is removed first.
-/
def SetTid (s : LsShmHash) (off : Nat) (parms : StrPair) : Prop :=
  checkSize parms.val.len = true → (off = 0 → s.InsertTid parms) ∧
    ∀ e ∈ s.table.elem off, off ≠ 0 → (parms.val.len ≤ e.realValLen → s.UpdateTid off) ∧
      (¬ parms.val.len ≤ e.realValLen → s.EraseTid ∧ (s.eraseIteratorHelper off).InsertTid parms)

instance (s : LsShmHash) (off : Nat) (parms : StrPair) : Decidable (s.SetTid off parms) :=
  inferInstanceAs (Decidable (checkSize parms.val.len = true → (off = 0 → s.InsertTid parms) ∧
    ∀ e ∈ s.table.elem off, off ≠ 0 → (parms.val.len ≤ e.realValLen → s.UpdateTid off) ∧
      (¬ parms.val.len ≤ e.realValLen → s.EraseTid ∧ (s.eraseIteratorHelper off).InsertTid parms)))

variable {key : List UInt8} {v : ValParm}

theorem TidOk.insert2_exists (h : TidOk s E log) (parms : StrPair)
    (hkey : ∀ x ∈ E, s.table.keyOf x ≠ parms.key)
    (hsound : s.Sound parms.key.length parms.val.len) (hok : s.InsertTid parms)
    : ∃ E' log', TidOk (s.insert2 (s.m_hf parms.key) parms).1 E' log' := by
  rcases h.insert2 parms hkey hsound hok with ⟨_, h'⟩ | ⟨_, h'⟩
  . exact ⟨E, log, h'⟩
  . exact ⟨_, _, h'⟩

theorem TidOk.doSet (h : TidOk s E log) (hsound : s.Sound key.length v.len)
    (hset : s.SetTid (s.findKey key) ⟨key, v⟩)
    : ∃ E' log', TidOk (s.doSet (s.findKey key) (s.m_hf key) ⟨key, v⟩).1 E' log' := by
  unfold LsShmHash.doSet
  split
  . exact ⟨E, log, h⟩
  next hsz =>
  have hsz : checkSize v.len = true := by simpa using hsz
  obtain ⟨hins, hold⟩ := hset hsz
  rcases h.rep.lookup.find2_cases key with ⟨hz, hnone⟩ | ⟨hx, hkx⟩
  . have hz : s.findKey key = 0 := hz
    rw [if_pos hz]
    exact h.insert2_exists ⟨key, v⟩ hnone hsound (hins hz)
  . change s.findKey key ∈ E at hx
    change s.table.keyOf (s.findKey key) = key at hkx
    generalize s.findKey key = x at hx hkx hold ⊢
    obtain ⟨e, he, hiter, _⟩ := h.rep.lookup.elem_some hx
    obtain ⟨e', he', hok⟩ := h.rep.elems x hx
    cases he.symm.trans he'
    have hx0 := h.rep.ne_zero hx
    obtain ⟨hupd, hrepl⟩ := hold e he hx0
    rw [if_neg hx0, hiter]
    dsimp only
    split
    . next hfit =>
      have hrep := h.rep.setElem (x := x) (o := some (e.setVal v))
        (fun _ => ⟨e, _, he, rfl, rfl, setVal_ok hok hfit⟩)
      have h₁ : TidOk (s.setTable (·.setElem x (some (e.setVal v)))) E log :=
        h.of_mgr hrep rfl rfl (fun _ _ => rfl)
      obtain ⟨log', h₂⟩ := h₁.updateCbs hx ((hupd hfit).congr rfl rfl)
      exact ⟨E, log', h₂⟩
    . next hfit =>
      obtain ⟨ha, hins'⟩ := hrepl hfit
      have h₁ := h.erase hx ha
      obtain ⟨hparm, _, hkeys⟩ := erase_others h.rep hx hkx
      have hins := h₁.insert2_exists ⟨key, v⟩ hkeys (hparm.sound hsound) hins'
      rw [hparm.hf] at hins
      exact hins

theorem TidOk.doInsert (h : TidOk s E log) (hsound : s.Sound key.length v.len)
    (hset : s.findKey key = 0 → checkSize v.len = true → s.InsertTid ⟨key, v⟩)
    : ∃ E' log', TidOk (s.doInsert (s.findKey key) (s.m_hf key) ⟨key, v⟩).1 E' log' := by
  unfold LsShmHash.doInsert
  split
  . exact ⟨E, log, h⟩
  . next hz =>
    split
    . exact ⟨E, log, h⟩
    . next hsz =>
      have hz := not_not.mp hz
      exact h.insert2_exists ⟨key, v⟩ (h.rep.lookup.find2_eq_zero_iff.mp hz) hsound
        (hset hz (by simpa using hsz))

theorem TidOk.doUpdate (h : TidOk s E log) (hsound : s.Sound key.length v.len)
    (hset : s.findKey key ≠ 0 → s.SetTid (s.findKey key) ⟨key, v⟩)
    : ∃ E' log', TidOk (s.doUpdate (s.findKey key) (s.m_hf key) ⟨key, v⟩).1 E' log' := by
  unfold LsShmHash.doUpdate
  split
  . exact ⟨E, log, h⟩
  . next hz => exact h.doSet hsound (hset hz)

end Update

def GrowTid (s : LsShmHash) (off n : Nat) (front : Bool) : Prop :=
  ∀ e ∈ s.table.elem off,
    let q := s.shm.alloc2 (e.x_iLen + round4 n)
    q.2 ≠ 0 → LsShmHElem.iterOk q.1 q.2 (q.1.junk q.2).x_iLen (q.1.junk q.2).x_iValOff = true →
      s.EraseTid ∧ ((s.withElem q.1 q.2 (growElem e (q.1.junk q.2) n front)).eraseIteratorHelper
        off).Links 0

instance (s : LsShmHash) (off n : Nat) (front : Bool) : Decidable (s.GrowTid off n front) :=
  inferInstanceAs (Decidable (∀ e ∈ s.table.elem off,
    let q := s.shm.alloc2 (e.x_iLen + round4 n)
    q.2 ≠ 0 → LsShmHElem.iterOk q.1 q.2 (q.1.junk q.2).x_iLen (q.1.junk q.2).x_iValOff = true →
      s.EraseTid ∧ ((s.withElem q.1 q.2 (growElem e (q.1.junk q.2) n front)).eraseIteratorHelper
        off).Links 0))

theorem TidOk.linkEnter (h : TidOk s E log) {off : Nat} {e : LsShmHElem} (hs : Spare s E off e)
    (hkeys : ∀ x ∈ E, s.table.keyOf x ≠ e.key) (hroom : E.length < s.capacity) (hlinks : s.Links 0)
    : TidOk (((s.linkCb off).insertCb off).enterBucket off e.x_hkey) (off :: E)
        (s.linkLog log off 0) := by
  have hlru := lruOnly_linkCb s off
  have h₁ := h.lruOnly hlru
  have hs₁ := hs.quiet h.rep hlru.quiet
  have htbl := hlru.quiet.table
  have hlinks₁ : (s.linkCb off).Links 0 := by rw [hlru]; exact hlinks
  have hlog : (s.linkCb off).linkLog log off 0 = s.linkLog log off 0 := by rw [hlru]; rfl
  rw [← hlog]
  generalize s.linkCb off = s₁ at h₁ hs₁ htbl hlinks₁ ⊢
  have hq := quiet_insertCb s₁ off
  obtain ⟨hrep, hent⟩ := enterBucket_spec (h₁.rep.quiet hq) (hs₁.quiet h₁.rep hq)
    (by rw [hq.table, htbl]; exact hkeys) (by unfold capacity; rw [hq.table, htbl]; exact hroom)
  refine ⟨(hent.flagTid.trans hq.flagTid).trans h₁.flag, hrep, ?_⟩
  have hs₂ := hs₁.quiet h₁.rep (quiet_onTid s₁ (f := fun _ =>
    (s₁.toLsShmTidMgr.setTidTblEnt (iterOff2tidVal off) 0).1) (fun h => setTidTblEnt_blks h _ _))
  have h32 : off < 2 ^ 32 := hrep.lt_of_mem List.mem_cons_self
  have hl := linkTid_linked h₁.linked hs₁.notMem h32 hlinks₁
    (by rw [hs₂.ok.offset2iterator hs₂.elem]; exact Option.some_ne_none e)
  rw [insertCb_eq h₁.flag] at hent hrep ⊢
  apply TidLinked.of_mgr hl hrep
  . rw [hent.tid]
  . intro y _
    rw [hent.tidLink]

variable {key : List UInt8}

theorem TidOk.iterGrowValue (h : TidOk s E log) {n : Nat} {front : Bool}
    (hsound : s.GrowSound (s.findKey key) n) (hok : s.GrowTid (s.findKey key) n front)
    : ∃ E' log', TidOk (s.iterGrowValue (s.findKey key) n front).1 E' log' := by
  rcases h.rep.lookup.find2_cases key with ⟨hz, _⟩ | ⟨hx, _⟩
  . have hz : s.findKey key = 0 := hz
    rw [hz, iterGrowValue_zero]
    exact ⟨E, log, h⟩
  . change s.findKey key ∈ E at hx
    generalize s.findKey key = x at hx hsound hok ⊢
    obtain ⟨e, he, _⟩ := h.rep.elems x hx
    have hgrow := hok e he
    have hcases := iterGrowValue_cases h.rep hx he n front (hsound e he)
    dsimp only at hcases hgrow
    rcases hcases with ⟨_, heq⟩ | ⟨_, _, heq⟩ | ⟨h0, hj, h₁, hs₁, _, hs₂, _, hroom, hkeys, heq⟩
    . rw [heq]
      exact ⟨E, log, h.withShm (Shm.grows_alloc2 _ _)⟩
    . rw [heq]
      exact ⟨E, log, (h.withShm (Shm.grows_alloc2 _ _)).lruOnly (lruOnly_rebuild _)⟩
    . rw [heq]
      obtain ⟨ha, hlinks⟩ := hgrow h0 hj
      have h₂ := (h.withElem h₁ hs₁.notMem).erase hx ha
      exact ⟨_, _, h₂.linkEnter hs₂ hkeys hroom hlinks⟩

theorem TidOk.eraseKey (h : TidOk s E log) (ha : s.findKey key ≠ 0 → s.EraseTid)
    : ∃ E' log', TidOk (s.eraseIteratorHelper (s.findKey key)) E' log' := by
  rcases h.rep.lookup.find2_cases key with ⟨hz, _⟩ | ⟨hx, _⟩
  . have hz : s.findKey key = 0 := hz
    rw [hz]
    exact ⟨E, log, h⟩
  . exact ⟨_, _, h.erase hx (ha (h.rep.ne_zero hx))⟩

theorem TidOk.touchLru (h : TidOk s E log) (off : Nat) : TidOk (s.touchLru off) E log := by
  unfold LsShmHash.touchLru
  split
  . exact h
  . split
    . exact h.lruOnly (lruOnly_rebuild s)
    . exact h.lruOnly (lruOnly_linkSetTop s off)

theorem TidOk.replaceKey (h : TidOk s E log) {pTid : Nat}
    (hok : s.findKey key ≠ 0 → s.EraseTid ∧
      (s.toLsShmTidMgr.unlinkTid (s.tidLink (s.findKey key))).Links pTid)
    : ∃ log', TidOk (s.step (.tidReplaceTid key pTid)) E log' := by
  unfold LsShmHash.step
  dsimp only
  split
  . next hc =>
    rcases h.rep.lookup.find2_cases key with ⟨hz, _⟩ | ⟨hx, _⟩
    . exact absurd hz hc.2
    . obtain ⟨ha, hlinks⟩ := hok hc.2
      exact ⟨_, h.tidReplaceTid hx ha hlinks⟩
  . exact ⟨log, h⟩

theorem TidOk.clear (h : TidOk s E log) (ha : s.isTidMaster = true → s.resetTidTbl.Assigns 0)
    : ∃ log', TidOk s.clear [] log' := by
  obtain ⟨xs, _, heq, hrep⟩ := clear_spec h.rep
  have hr := releaseList_spec s xs
  rw [heq]
  generalize hs₁ : (s.releaseList xs).setTable clearTable = s₁ at hrep ⊢
  have hflag : s₁.flagTid = true := by
    rw [← hs₁, hr.rest]
    exact h.flag
  have htid : s₁.toLsShmTidMgr = { s.toLsShmTidMgr with shm := s₁.shm } := by
    rw [← hs₁]
    exact hr.tid
  have hlink : s₁.tidLink = s.tidLink := by
    rw [← hs₁, hr.rest]
    rfl
  have hl := TidLinked.of_mgr h.linked hrep htid (fun _ _ => by rw [hlink])
  have hq := quiet_clearCbs s₁
  have hcbs : (s₁.clearCbs).toLsShmTidMgr = s₁.toLsShmTidMgr.clrTidTbl ∧
      s₁.clearCbs.tidLink = s₁.tidLink := by
    cases hlru : s₁.flagLru <;> simp [clearCbs, hlru, hflag, LsShmHash.setLru, onTid]
  have hend := hl.clrTidTbl (by
    intro hm
    rw [htid] at hm ⊢
    exact ha hm)
  rw [← hcbs.1, ← hcbs.2] at hend
  exact ⟨_, hq.flagTid.trans hflag, hrep.quiet hq, hend⟩

section Trim

variable {act : Nat → LsShmHElem → TrimAct} {cost : LsShmHElem → Int} {st : TrimState}

/--
The condition on an iteration that is made: the walk along the LRU list has come to an element of
the table, and the next id can be assigned.
-/
def IterTid (st : TrimState) (_ : Unit) : Prop :=
  st.offElem ≠ 0 → 0 < st.left → st.hash.Assigns 0 ∧ st.hash.InTable st.offElem

instance (st : TrimState) (u : Unit) : Decidable (IterTid st u) :=
  inferInstanceAs (Decidable (_ → _ → _ ∧ _))

theorem TidOk.checkTidTbl (h : TidOk s E log) (ha : s.Assigns 0)
    : TidOk (s.onTid (·.checkTidTbl)) E log :=
  ⟨h.flag, h.rep.quiet (quiet_checkTidTbl s), h.linked.checkTidTbl ha⟩

theorem trimIter_tidOk (h : ∃ E log, TidOk st.hash E log) (hok : IterTid st ())
    : ∃ E log, TidOk (trimIter act cost st).hash E log := by
  obtain ⟨E, log, h⟩ := h
  unfold trimIter
  split
  . exact ⟨E, log, h⟩
  next hgo =>
  push Not at hgo
  obtain ⟨ha, hin⟩ := hok hgo.1 (by omega)
  have hx := h.rep.mem_of_inTable hin hgo.1
  have h₁ := h.checkTidTbl ha
  have ha₁ := checkTidTbl_assigns h.rep.blks ha
  rw [if_pos h.flag]
  obtain ⟨e, _, hiter, _⟩ := h₁.rep.lookup.elem_some hx
  dsimp only
  rw [hiter]
  dsimp only
  split
  . exact ⟨E, log, h₁⟩
  . exact ⟨E, log, h₁⟩
  . exact ⟨E, log, h₁.lruOnly (lruOnly_linkSetTop _ _)⟩
  . exact ⟨_, _, (h₁.erase hx (fun _ => ha₁)).lruOnly rfl⟩

def TrimTid (s : LsShmHash) (act : Nat → LsShmHElem → TrimAct) (cost : LsShmHElem → Int)
    (left : Int) (fuel : Nat) : Prop :=
  s.flagLru = true → Run.Meets (fun st (_ : Unit) => trimIter act cost st) IterTid (s.trimStart left)
    (List.replicate fuel ())

instance (s : LsShmHash) (act : Nat → LsShmHElem → TrimAct) (cost : LsShmHElem → Int)
    (left : Int) (fuel : Nat) : Decidable (s.TrimTid act cost left fuel) :=
  inferInstanceAs (Decidable (s.flagLru = true → Run.Meets (fun st (_ : Unit) => trimIter act cost st)
    IterTid (s.trimStart left) (List.replicate fuel ())))

theorem TidOk.trimLoop (h : TidOk s E log) {left : Int} {fuel : Nat}
    (hok : s.TrimTid act cost left fuel)
    : ∃ E' log', TidOk (s.trimLoop act cost left fuel).1 E' log' := by
  unfold LsShmHash.trimLoop
  split
  . exact ⟨E, log, h⟩
  . next hlru =>
    obtain ⟨E', log', hend⟩ := Run.exec_invariant (fun st : TrimState => ∃ E log, TidOk st.hash E log)
      (fun st u hinv hiter => trimIter_tidOk hinv hiter)
      (show ∃ E log, TidOk (s.trimStart left).hash E log from ⟨E, log, h⟩)
      (hok (by simpa using hlru))
    exact ⟨E', log', hend.lruOnly rfl⟩

end Trim

end LsShmHash

namespace TidHashRun

open LsShmHash

/--
Each id that an operation assigns lies in a block of the table or in the one that comes next, and
each element that it makes gets an entry: neither the memory for the element nor that for the entry
is missing alone. Elements are not taken for damaged.
-/
def Ok (s : LsShmHash) : LsShmHashOp → Prop
  | .time _ => True
  | .doInsert key val => s.Sound key.length val.len ∧
      (s.findKey key = 0 → checkSize val.len = true → s.InsertTid ⟨key, val⟩)
  | .doSet key val => s.Sound key.length val.len ∧ s.SetTid (s.findKey key) ⟨key, val⟩
  | .doUpdate key val => s.Sound key.length val.len ∧
      (s.findKey key ≠ 0 → s.SetTid (s.findKey key) ⟨key, val⟩)
  | .iterGrowValue key n front => s.GrowSound (s.findKey key) n ∧ s.GrowTid (s.findKey key) n front
  | .eraseIterator key => s.findKey key ≠ 0 → s.EraseTid
  | .touchLru _ => True
  | .tidReplaceTid key pTid => s.findKey key ≠ 0 → s.EraseTid ∧
      (s.toLsShmTidMgr.unlinkTid (s.tidLink (s.findKey key))).Links pTid
  | .rehash => True
  | .trim tmCutoff func fuel => s.TrimTid (trimAct tmCutoff func) (fun _ => 0) 1 fuel
  | .trimsize need func fuel =>
    s.TrimTid (fun _ e => .erase (trimRet func e)) (fun e => e.x_iLen) need fuel
  | .trimByCb maxCnt func fuel => s.TrimTid (trimByCbAct func) (fun _ => 1) maxCnt fuel
  | .clear => s.isTidMaster = true → s.resetTidTbl.Assigns 0

instance (s : LsShmHash) (op : LsShmHashOp) : Decidable (Ok s op) :=
  match op with
  | .time _ => .isTrue trivial
  | .doInsert _ _ => inferInstanceAs (Decidable (_ ∧ (_ → _ → _)))
  | .doSet _ _ => inferInstanceAs (Decidable (_ ∧ _))
  | .doUpdate _ _ => inferInstanceAs (Decidable (_ ∧ (_ → _)))
  | .iterGrowValue _ _ _ => inferInstanceAs (Decidable (_ ∧ _))
  | .eraseIterator _ => inferInstanceAs (Decidable (_ → _))
  | .touchLru _ => .isTrue trivial
  | .tidReplaceTid _ _ => inferInstanceAs (Decidable (_ → _ ∧ _))
  | .rehash => .isTrue trivial
  | .trim _ _ _ => inferInstanceAs (Decidable (TrimTid _ _ _ _ _))
  | .trimsize _ _ _ => inferInstanceAs (Decidable (TrimTid _ _ _ _ _))
  | .trimByCb _ _ _ => inferInstanceAs (Decidable (TrimTid _ _ _ _ _))
  | .clear => inferInstanceAs (Decidable (_ → _))

theorem step_tidOk (s : LsShmHash) (op : LsShmHashOp) (h : ∃ E log, TidOk s E log) (hok : Ok s op)
    : ∃ E log, TidOk (s.step op) E log := by
  obtain ⟨E, log, h⟩ := h
  cases op with
  | time now =>
    have hrep : Rep { s with now := now } E :=
      h.rep.quiet ⟨rfl, rfl, rfl, rfl, fun h => ⟨h, LsShmTidMgr.Frame.refl _⟩⟩
    exact ⟨E, log, h.flag, hrep, h.linked⟩
  | doInsert key val => exact h.doInsert hok.1 hok.2
  | doSet key val => exact h.doSet hok.1 hok.2
  | doUpdate key val => exact h.doUpdate hok.1 hok.2
  | iterGrowValue key n front => exact h.iterGrowValue hok.1 hok.2
  | eraseIterator key => exact h.eraseKey hok
  | touchLru key => exact ⟨E, log, h.touchLru _⟩
  | tidReplaceTid key pTid =>
    obtain ⟨log', h'⟩ := h.replaceKey hok
    exact ⟨E, log', h'⟩
  | rehash =>
    obtain ⟨hrep, hk, _⟩ := rehash_spec h.rep
    exact ⟨E, log, h.kept hrep hk⟩
  | trim tmCutoff func fuel => exact h.trimLoop hok
  | trimsize need func fuel => exact h.trimLoop hok
  | trimByCb maxCnt func fuel => exact h.trimLoop hok
  | clear =>
    obtain ⟨log', h'⟩ := h.clear hok
    exact ⟨[], log', h'⟩

def tidTblEnt (t : LsShmTidMgr) (tid : Nat) : Option Nat :=
  (t.tid2tblBlk tid).map fun off => (t.blk off).x_iTidVals (tid % TIDTBLBLK_MAXSZ)

/--
The elements in the buckets and the entries of the table that refer to an element are in one to one
correspondence. An entry is given by its block and its place there.
-/
structure OneToOne (s : LsShmHash) : Prop where
  elements : ∃ E : List Nat, E.Nodup ∧ E.length = s.size ∧
    Linked.Buckets s.table.next 0 (s.table.hIdx s.table.x_iHIdx) s.table.getIndex s.capacity
      (· ∈ E) ∧
    (∀ x ∈ E, tidTblEnt s.toLsShmTidMgr (s.tidLink x) = some (iterOff2tidVal x)) ∧
    (∀ x ∈ E, ∀ y ∈ E, s.tidLink x = s.tidLink y → x = y) ∧
    ∀ i < s.x_iBlkCnt, ∀ j < TIDTBLBLK_MAXSZ,
      isTidValIterOff ((s.blk (s.blkAt i)).x_iTidVals j) = true →
        tidVal2iterOff ((s.blk (s.blkAt i)).x_iTidVals j) ∈ E ∧
        s.tidLink (tidVal2iterOff ((s.blk (s.blkAt i)).x_iTidVals j)) =
          (s.blk (s.blkAt i)).x_tidBase + j

theorem oneToOne_of_tidOk {s : LsShmHash} {E : List Nat} {log : TidLog} (h : TidOk s E log)
    : OneToOne s := by
  have hI := h.linked.indexed
  have hlook := TidRun.lookupExact_of_indexed hI
  refine ⟨E, h.rep.nodup, h.rep.size.symm, h.rep.buckets, ?_, ?_, ?_⟩
  . intro x hx
    obtain ⟨off, hoff, _, _, hval⟩ := hlook.tblBlk _ _ (h.linked.carries x hx)
    unfold tidTblEnt
    rw [hoff, Option.map_some, hval]
  . intro x hx y hy heq
    exact h.linked.tid_inj hx hy (h.rep.lt_of_mem hx) (h.rep.lt_of_mem hy) heq
  . intro i hi j hj hval
    rw [hI.base i hi]
    rw [hI.entries i hi j hj] at hval ⊢
    cases hl : log ((s.firstBlk + i) * TIDTBLBLK_MAXSZ + j) with
    | none =>
      rw [hl] at hval
      exact absurd hval (by decide)
    | some v =>
      rw [hl] at hval
      exact h.linked.names _ v hl hval

theorem allocHTable_tidOk {m : Shm} {parm : HashParm} {init_size : Nat} {s : LsShmHash}
    (h : allocHTable m parm init_size = some s) (hn : init_size ≤ MAX_INIT_SIZE)
    (hflag : parm.flagTid = true) : TidOk s [] (fun _ => none) := by
  have hrep := allocHTable_rep h hn
  unfold allocHTable at h
  dsimp only at h
  split at h
  . cases h
  split at h
  . cases h
  cases h
  refine ⟨hflag, hrep, TidRun.init_indexed _ parm.slave parm.blkIdx parm.blk, ?_, by simp, by simp⟩
  exact (by decide : 0 < TIDDEL_MAGIC_NUMBER)

/--
In every run in which no id skips a block and no entry is stored or missed alone, elements and
entries are in one to one correspondence in every state.
-/
theorem oneToOne_exec (m : Shm) (parm : HashParm) (init_size : Nat) (s : LsShmHash)
    (h : allocHTable m parm init_size = some s) (hn : init_size ≤ MAX_INIT_SIZE)
    (hflag : parm.flagTid = true) (ops : List LsShmHashOp)
    (hok : Run.Meets LsShmHash.step Ok s ops) : OneToOne (Run.exec LsShmHash.step s ops) := by
  obtain ⟨E, log, hend⟩ := Run.exec_invariant (fun s => ∃ E log, TidOk s E log) step_tidOk
    ⟨[], _, allocHTable_tidOk h hn hflag⟩ hok
  exact oneToOne_of_tidOk hend

def sample : Option LsShmHash :=
  allocHTable (Shm.empty [Answer.clean 0x400 320, Answer.clean 0x800 64, Answer.clean 0x1000 48,
    Answer.clean 0x8000 9216, Answer.clean 0xc000 1024, Answer.clean 0x1100 48])
    (HashParm.clean false true) 7

theorem sample_isSome : sample.isSome = true := by decide

def sampleOps : List LsShmHashOp :=
  [.doInsert [1] (ValParm.ofBytes [10]), .doSet [2] (ValParm.ofBytes [20]),
    .doSet [1] (ValParm.ofBytes [11]), .eraseIterator [2], .tidReplaceTid [1] 9]

theorem oneToOne_exec_sample
    : OneToOne (Run.exec LsShmHash.step (sample.get sample_isSome) sampleOps) ∧
      (Run.exec LsShmHash.step (sample.get sample_isSome) sampleOps).tidLink 0x1000 = 9 :=
  ⟨oneToOne_exec _ _ 7 _ (Option.some_get sample_isSome).symm (by decide) rfl sampleOps
    (by decide +kernel), by decide +kernel⟩

def sampleNoMem : Option LsShmHash :=
  allocHTable (Shm.empty [Answer.clean 0x400 320, Answer.clean 0x800 64, Answer.clean 0 0,
    Answer.clean 0x8000 9216, Answer.clean 0xc000 1024]) (HashParm.clean false true) 7

theorem sampleNoMem_isSome : sampleNoMem.isSome = true := by decide

/--
`insert2` calls `insertIterCb` with the offset 0 that `insertCopy2` has returned, so that an entry
of the table refers to the offset 0.
-/
theorem not_oneToOne_noMem
    : ¬ OneToOne (Run.exec LsShmHash.step (sampleNoMem.get sampleNoMem_isSome)
        [.doInsert [1] (ValParm.ofBytes [10])]) := by
  intro ⟨E, _, hlen, _, _, _, hnames⟩
  have hE : E = [] := List.length_eq_zero_iff.mp (hlen.trans (by decide))
  subst hE
  have hmem := (hnames 0 (by decide +kernel) 1 (by decide) (by decide +kernel)).1
  cases hmem

end TidHashRun

end Lsmcd
