import Lsmcd.Memcache.TidSend

/-!
The receiving side of the replication stream: the packets change the elements of a slave as the entries
that they carry change a replica of a journal.
-/

namespace Lsmcd

open LsShmTidMgr LsShmHTable
open Journal (Chain)

abbrev HashReplica := Replica (List UInt8) (List UInt8)

namespace LsShmHash

def replica (s : LsShmHash) (log : TidLog) : HashReplica :=
  Journal.adds (s.journal log)

structure Mirror (s : LsShmHash) (E : List Nat) (log : TidLog) : Prop extends TidOk s E log where
  slave : s.slave = true

variable {s s' : LsShmHash} {E E' : List Nat} {log log' : TidLog} {x t tid : Nat}
  {elem elem' : Nat → Option LsShmHElem}

theorem Mirror.isTidMaster (h : Mirror s E log) : s.isTidMaster = false := by
  unfold LsShmTidMgr.isTidMaster
  rw [h.slave]
  rfl

theorem adds_eq_some {J : HashJournal} {kv : List UInt8 × List UInt8}
    : Journal.adds J t = some kv ↔ J t = some (.add kv.1 kv.2) := by
  unfold Journal.adds
  constructor
  . intro h
    split at h
    . next heq =>
      cases h
      exact heq
    . cases h
  . intro h
    rw [h]

theorem replica_of_mem (h : TidOk s E log) (hx : x ∈ E) {e : LsShmHElem} (he : s.table.elem x = some e)
    : s.replica log (s.tidLink x) = some (e.key, e.getVal) := by
  apply adds_eq_some.mpr
  unfold journal
  rw [journalOf_of_some (h.linked.carries x hx), tidEntry_iterOff (h.rep.lt_of_mem hx) he]

theorem mem_of_replica (h : TidOk s E log) {kv : List UInt8 × List UInt8}
    (hr : s.replica log t = some kv)
    : ∃ x ∈ E, s.tidLink x = t ∧ ∃ e, s.table.elem x = some e ∧ (e.key, e.getVal) = kv := by
  obtain ⟨v, hv, hev⟩ := journalOf_eq_some (adds_eq_some.mp hr)
  obtain ⟨hiter, e, he, hk, hval⟩ := tidEntry_eq_add hev
  obtain ⟨hx, hlink⟩ := h.linked.names t v hv hiter
  exact ⟨_, hx, hlink, e, he, Prod.ext hk hval⟩

section Journal

variable {m : LsShmTidMgr} {link : Nat → Nat} {pTid : Nat}

theorem adds_record (h : TidLinked m link E log) (hlinks : m.Links pTid) {v : Nat}
    (hv : isTidValIterOff v = false)
    : Journal.adds (journalOf elem (m.logAfter log v pTid)) = Journal.adds (journalOf elem log) := by
  obtain ⟨tid, hnew, hlog, _⟩ := logAfter_links h.indexed.blks hlinks log v
  obtain ⟨_, hnone⟩ := h.log_newTid hnew
  rw [hlog]
  funext t
  by_cases ht : t = tid
  . subst ht
    have hentry : ∀ k w, tidEntry elem v ≠ some (.add k w) := by
      intro k w hc
      rw [(tidEntry_eq_add hc).1] at hv
      cases hv
    unfold Journal.adds
    rw [journalOf_of_some (Function.update_self _ _ _), journalOf_of_none hnone]
    split
    . next hc => exact absurd hc (hentry _ _)
    . rfl
  . unfold Journal.adds journalOf
    rw [Function.update_of_ne ht]

theorem adds_link (h : TidLinked m link E log) (hx : x < 2 ^ 32) (hlinks : m.Links pTid)
    (hnew : m.newTid pTid = some tid) {e : LsShmHElem} (he : elem' x = some e)
    (helem : ∀ y ∈ E, elem' y = elem y)
    : Journal.adds (journalOf elem' (m.logAfter log (iterOff2tidVal x) pTid)) = fun t =>
        if t = tid then some (e.key, e.getVal) else Journal.adds (journalOf elem log) t := by
  obtain ⟨tid', hnew', hlog, _⟩ := logAfter_links h.indexed.blks hlinks log (iterOff2tidVal x)
  obtain rfl : tid' = tid := Option.some.inj (hnew'.symm.trans hnew)
  rw [hlog]
  funext t
  by_cases ht : t = tid'
  . subst ht
    rw [if_pos rfl]
    apply adds_eq_some.mpr
    rw [journalOf_of_some (Function.update_self _ _ _), tidEntry_iterOff hx he]
  . rw [if_neg ht]
    unfold Journal.adds
    rw [← h.journal_congr helem t]
    unfold journalOf
    rw [Function.update_of_ne ht]

theorem adds_unlink (h : TidLinked m link E log) (hx : x ∈ E)
    (helem : ∀ y ∈ E, y ≠ x → elem' y = elem y)
    : Journal.adds (journalOf elem' (clrLog log (link x))) =
        Function.update (Journal.adds (journalOf elem log)) (link x) none := by
  funext t
  by_cases ht : t = link x
  . subst ht
    rw [Function.update_self]
    have hclr : clrLog log (link x) (link x) = some 0 := by
      unfold clrLog
      rw [Function.update_self, h.carries x hx]
      rfl
    unfold Journal.adds
    rw [journalOf_of_some hclr, tidEntry_zero]
  . rw [Function.update_of_ne ht]
    have hsame : clrLog log (link x) t = log t := Function.update_of_ne ht _ _
    unfold Journal.adds
    cases hv : log t with
    | none => rw [journalOf_of_none hv, journalOf_of_none (hsame.trans hv)]
    | some v =>
      have hentry : tidEntry elem' v = tidEntry elem v := by
        apply tidEntry_congr
        intro hiter
        obtain ⟨hE, hl⟩ := h.names t v hv hiter
        apply helem _ hE
        intro heq
        rw [heq] at hl
        exact ht hl.symm
      rw [journalOf_of_some hv, journalOf_of_some (hsame.trans hv), hentry]

end Journal

def without (S : HashReplica) (key : List UInt8) : HashReplica :=
  fun t => (S t).filter fun kv => kv.1 ≠ key

theorem without_of_notMem (h : TidOk s E log) {key : List UInt8}
    (hkey : ∀ y ∈ E, s.table.keyOf y ≠ key) : without (s.replica log) key = s.replica log := by
  funext t
  unfold without
  cases hr : s.replica log t with
  | none => rfl
  | some kv =>
    obtain ⟨x, hx, _, e, he, rfl⟩ := mem_of_replica h hr
    have hk := hkey x hx
    simp only [LsShmHTable.keyOf, he] at hk
    have hne : e.key ≠ key := hk
    simp [Option.filter, hne]

theorem without_of_mem (h : TidOk s E log) {key : List UInt8} (hx : x ∈ E)
    (hkx : s.table.keyOf x = key)
    : without (s.replica log) key = Function.update (s.replica log) (s.tidLink x) none := by
  funext t
  unfold without
  cases hr : s.replica log t with
  | none =>
    by_cases ht : t = s.tidLink x
    . rw [ht, Function.update_self]
      rfl
    . rw [Function.update_of_ne ht, hr]
      rfl
  | some kv =>
    obtain ⟨y, hy, hly, e, he, rfl⟩ := mem_of_replica h hr
    by_cases ht : t = s.tidLink x
    . obtain rfl : y = x := h.linked.tid_inj hy hx (h.rep.lt_of_mem hy) (h.rep.lt_of_mem hx)
        (hly.trans ht)
      simp only [LsShmHTable.keyOf, he] at hkx
      have heq : e.key = key := hkx
      rw [ht, Function.update_self]
      simp [Option.filter, heq]
    . have hne : e.key ≠ key := by
        intro hk
        apply ht
        rw [← hly, h.rep.keys y hy x hx]
        rw [hkx]
        simp only [LsShmHTable.keyOf, he]
        exact hk
      rw [Function.update_of_ne ht, hr]
      simp [Option.filter, hne]

theorem storeTidTblEnt_pre {m : LsShmTidMgr} (hb : Blks m) (v tid : Nat)
    : (m.storeTidTblEnt v tid).1.x_lastTidPreClear = m.x_lastTidPreClear := by
  unfold storeTidTblEnt
  dsimp only
  split
  . rcases growTidTbl_cases hb (tid - tid % TIDTBLBLK_MAXSZ) _ rfl with ⟨hz, _, heq, _⟩ | ⟨hne, hg⟩
    . rw [if_pos hz, heq]
    . rw [if_neg hne]
      split
      . exact hg.pre
      . exact hg.pre
  . rfl

theorem setTidTblEnt_pre {m : LsShmTidMgr} (hb : Blks m) (v pTid : Nat)
    : (m.setTidTblEnt v pTid).1.x_lastTidPreClear = m.x_lastTidPreClear := by
  cases hnew : m.newTid pTid with
  | none =>
    unfold setTidTblEnt
    rw [hnew]
  | some tid =>
    rw [setTidTblEnt_of_newTid hnew]
    exact storeTidTblEnt_pre (hb.withTid tid) v tid

theorem newTid_of_lt {m : LsShmTidMgr} {pTid : Nat} (hnew : m.x_tid < pTid)
    : m.newTid pTid = some pTid := by
  unfold newTid
  rw [if_neg (by omega), if_pos hnew]

/--
An entry of the stream has been carried out.
-/
structure Took (s : LsShmHash) (log : TidLog) (tid : Nat) (e : HashEntry) (s' : LsShmHash)
    (E' : List Nat) (log' : TidLog) : Prop where
  mirror : Mirror s' E' log'
  replica : s'.replica log' = Journal.apply (s.replica log) tid e
  tid : s'.x_tid = tid
  pre : s'.x_lastTidPreClear =
    match e with
    | .flush => s.x_tid
    | _ => s.x_lastTidPreClear

section Add

variable {E₁ : List Nat} {log₁ : TidLog} {key val : List UInt8}

theorem took_linkTid (hrep : Rep s' E') (hflag : s'.flagTid = true) (hslave : s'.slave = true)
    (hpre : s'.x_lastTidPreClear = s.x_lastTidPreClear)
    (hl : TidLinked s'.toLsShmTidMgr s'.tidLink E₁ log₁) (hx : x ∉ E₁)
    (hmem : ∀ y, y ∈ E' ↔ y ∈ x :: E₁) {e : LsShmHElem} (he : s'.table.elem x = some e)
    (hkey : e.key = key) (hval : e.getVal = val)
    (hS : Journal.adds (journalOf s'.table.elem log₁) = without (s.replica log) key)
    (hlinks : s'.Links tid) (hnew : s'.x_tid < tid)
    : ∃ log', Took s log tid (.add key val) (s'.linkTid x tid) E' log' := by
  have hq := quiet_linkTid s' x tid
  have hx32 : x < 2 ^ 32 := hrep.lt_of_mem ((hmem x).mpr List.mem_cons_self)
  obtain ⟨htid, hslave'⟩ := setTidTblEnt_new (t := s'.toLsShmTidMgr) (iterOff2tidVal x) hnew
  refine ⟨s'.linkLog log₁ x tid, ⟨TidOk.linkTid hflag hrep hl hx hmem hlinks, ?_⟩, ?_, ?_, ?_⟩
  . rw [linkTid_mgr]
    exact hslave'.trans hslave
  . unfold LsShmHash.replica journal linkLog
    rw [hq.table, adds_link hl hx32 hlinks (newTid_of_lt hnew) he (fun _ _ => rfl), hS, hkey, hval]
    rfl
  . rw [linkTid_mgr]
    exact htid
  . rw [linkTid_mgr, setTidTblEnt_pre hrep.blks]
    exact hpre

theorem getVal_setVal (e : LsShmHElem) (bs : List UInt8) : (e.setVal (.ofBytes bs)).getVal = bs :=
  Value.storedIn_ofBytes.mp (Value.storedIn_setVal (.ofBytes bs) e)

theorem Mirror.insert (h : Mirror s E log) {s₀ : LsShmHash} {log₀ : TidLog}
    (hS : s.replica log = without (s₀.replica log₀) key)
    (hpre : s.x_lastTidPreClear = s₀.x_lastTidPreClear)
    (hkeys : ∀ y ∈ E, s.table.keyOf y ≠ key) (hsound : s.Sound key.length val.length)
    (hok : (s.insertCopy2 (s.m_hf key) ⟨key, ValParm.ofBytes val⟩).2 ≠ 0)
    (hlinks : (s.insertCopy2 (s.m_hf key) ⟨key, ValParm.ofBytes val⟩).1.Links tid)
    (hnew : s.x_tid < tid)
    : ∃ E' log', Took s₀ log₀ tid (.add key val)
        ((s.insertCopy2 (s.m_hf key) ⟨key, ValParm.ofBytes val⟩).1.linkTid
          (s.insertCopy2 (s.m_hf key) ⟨key, ValParm.ofBytes val⟩).2 tid) E' log' := by
  obtain ⟨helem, hmgr, hcases⟩ := h.toTidOk.insertCopy2 ⟨key, ValParm.ofBytes val⟩ hkeys hsound
  dsimp only at helem hmgr hcases
  generalize s.insertCopy2 (s.m_hf key) ⟨key, ValParm.ofBytes val⟩ = q at *
  rcases hcases with ⟨hz, _⟩ | ⟨_, _, hx, hflag, hrep, hl, junk, he⟩
  . exact absurd hz hok
  . have hadds : Journal.adds (journalOf q.1.table.elem log) = without (s₀.replica log₀) key := by
      rw [← hS]
      funext t
      unfold LsShmHash.replica journal Journal.adds
      rw [hl.journal_congr helem t]
    obtain ⟨log', htook⟩ := took_linkTid hrep hflag (by rw [hmgr]; exact h.slave)
      (by rw [hmgr]; exact hpre) hl hx (fun _ => Iff.rfl) he rfl (getVal_setVal _ val) hadds hlinks
      (by rw [hmgr]; exact hnew)
    exact ⟨_, log', htook⟩

/--
An addition finds memory, and its id a place in the transaction table.
-/
structure AddOk (s : LsShmHash) (key val : List UInt8) (tid : Nat) : Prop where
  sound : s.Sound key.length val.length
  stored : (s.tidDoSet ⟨key, ValParm.ofBytes val⟩).2 ≠ 0
  links : (s.tidDoSet ⟨key, ValParm.ofBytes val⟩).1.Links tid

instance (s : LsShmHash) (key val : List UInt8) (tid : Nat) : Decidable (s.AddOk key val tid) :=
  decidable_of_iff (s.Sound key.length val.length ∧
      (s.tidDoSet ⟨key, ValParm.ofBytes val⟩).2 ≠ 0 ∧
      (s.tidDoSet ⟨key, ValParm.ofBytes val⟩).1.Links tid)
    ⟨fun ⟨h₁, h₂, h₃⟩ => ⟨h₁, h₂, h₃⟩, fun ⟨h₁, h₂, h₃⟩ => ⟨h₁, h₂, h₃⟩⟩

theorem Mirror.unlinkLog_eq (h : Mirror s E log) (x : Nat) : s.unlinkLog log x = clrLog log (s.tidLink x) := by
  unfold unlinkLog
  rw [h.isTidMaster]
  rfl

theorem Mirror.unlinkTid (h : Mirror s E log) (hx : x ∈ E)
    : TidLinked (s.toLsShmTidMgr.unlinkTid (s.tidLink x)) s.tidLink (E.erase x)
          (clrLog log (s.tidLink x)) ∧
        (s.toLsShmTidMgr.unlinkTid (s.tidLink x)).x_lastTidPreClear = s.x_lastTidPreClear := by
  have hl := h.toTidOk.unlinkTid hx (fun hm => by rw [h.isTidMaster] at hm; cases hm)
  rw [h.unlinkLog_eq] at hl
  refine ⟨hl, ?_⟩
  have hmaster : (s.clrTidTblEnt (s.tidLink x)).isTidMaster = false := by
    rw [clrTidTblEnt_eq]
    exact h.isTidMaster
  unfold LsShmTidMgr.unlinkTid
  dsimp only
  rw [hmaster, if_neg (by decide), clrTidTblEnt_eq]

theorem Mirror.erase (h : Mirror s E log) (hx : x ∈ E)
    : Mirror (s.eraseIteratorHelper x) (E.erase x) (clrLog log (s.tidLink x)) ∧
        (s.eraseIteratorHelper x).replica (clrLog log (s.tidLink x)) =
          Function.update (s.replica log) (s.tidLink x) none ∧
        (s.eraseIteratorHelper x).x_tid = s.x_tid ∧
        (s.eraseIteratorHelper x).x_lastTidPreClear = s.x_lastTidPreClear := by
  obtain ⟨e, he, _⟩ := h.rep.elems x hx
  obtain ⟨_, hd⟩ := eraseIteratorHelper_spec h.rep hx he
  obtain ⟨_, hothers, _⟩ := erase_others h.rep hx rfl
  have hid := sameId_eraseIteratorHelper h.slave x
  have hok := h.toTidOk.erase hx (fun hm => by rw [h.isTidMaster] at hm; cases hm)
  rw [h.unlinkLog_eq] at hok
  refine ⟨⟨hok, hid.slave.trans h.slave⟩, ?_, hid.tid, ?_⟩
  . exact adds_unlink h.linked hx (fun y _ hyx => hothers y hyx)
  . rw [hd.tid]
    show (s.eraseCbs x).x_lastTidPreClear = _
    rw [h.toTidOk.eraseCbs_mgr hx]
    exact (h.unlinkTid hx).2

theorem Mirror.setIter (h : Mirror s E log) (hok : s.AddOk key val tid) (hnew : s.x_tid < tid)
    : ∃ E' log', Took s log tid (.add key val) (s.setIter ⟨key, ValParm.ofBytes val⟩ tid).1 E' log' := by
  obtain ⟨hsound, hstored, hlinks⟩ := hok
  unfold LsShmHash.setIter
  dsimp only
  rw [if_pos hstored]
  unfold tidDoSet at hstored hlinks ⊢
  dsimp only at hstored hlinks ⊢
  rcases h.rep.lookup.find2_cases key with ⟨hz, hnone⟩ | ⟨hx, hkx⟩
  . rw [if_pos hz] at hstored hlinks ⊢
    exact h.insert (without_of_notMem h.toTidOk hnone).symm rfl hnone hsound hstored hlinks hnew
  . generalize s.find2 (s.m_hf key) key = x at *
    obtain ⟨e, he, hel⟩ := h.rep.elems x hx
    have hwithout := without_of_mem h.toTidOk hx hkx
    rw [if_neg (h.rep.ne_zero hx), he] at hstored hlinks ⊢
    dsimp only at hstored hlinks ⊢
    by_cases hshort : (ValParm.ofBytes val).len < e.valLen
    . -- the value is written in its place
      rw [if_pos hshort] at hlinks ⊢
      have hfit : (ValParm.ofBytes val).len ≤ e.realValLen := by
        obtain ⟨room, hlen, hroom⟩ := hel.len
        unfold LsShmHElem.realValLen
        omega
      have hrep := h.rep.setElem (x := x) (o := some (e.setVal (ValParm.ofBytes val)))
        (fun _ => ⟨e, _, he, rfl, rfl, setVal_ok hel hfit⟩)
      have hat : (s.setTable (·.setElem x (some (e.setVal (ValParm.ofBytes val))))).table.elem x =
          some (e.setVal (ValParm.ofBytes val)) := Function.update_self _ _ _
      have hothers : ∀ y ∈ E, y ≠ x →
          (s.setTable (·.setElem x (some (e.setVal (ValParm.ofBytes val))))).table.elem y =
            s.table.elem y := fun y _ hyx => setElem_of_ne hyx _ _
      obtain ⟨hl, hpre⟩ := h.unlinkTid hx
      have hid := sameId_unlinkTid h.slave (s.tidLink x)
      have hadds := adds_unlink h.linked hx hothers
      have hke : (e.setVal (ValParm.ofBytes val)).key = key := by
        simp only [LsShmHTable.keyOf, he] at hkx
        exact hkx
      obtain ⟨log', htook⟩ := took_linkTid (hrep.quiet (quiet_unlinkTid _ (s.tidLink x))) h.flag
        (hid.slave.trans h.slave) hpre hl (fun hin => (h.rep.nodup.mem_erase_iff.mp hin).1 rfl)
        (mem_cons_erase h.rep.nodup hx) hat hke (getVal_setVal e val) (hadds.trans hwithout.symm)
        hlinks (Nat.lt_of_le_of_lt (Nat.le_of_eq hid.tid) hnew)
      exact ⟨E, log', htook⟩
    . rw [if_neg hshort] at hstored hlinks ⊢
      obtain ⟨h₁, hS, htid, hpre⟩ := h.erase hx
      obtain ⟨hparm, _, hkeys⟩ := erase_others h.rep hx hkx
      rw [← hparm.hf] at hstored hlinks ⊢
      exact h₁.insert (hS.trans hwithout.symm) hpre hkeys (hparm.sound hsound) hstored hlinks
        (by rw [htid]; exact hnew)

end Add

section Del

variable {mem : Mem} {p d : Nat}

theorem Mirror.setTidTblDel (h : Mirror s E log) {v : Nat} (hv : isTidValIterOff v = false)
    (hlinks : s.Links tid) (hnew : s.x_tid < tid)
    : Mirror (s.setTidTblDel v tid).1 E (s.logAfter log v tid) ∧
        (s.setTidTblDel v tid).1.replica (s.logAfter log v tid) = s.replica log ∧
        (s.setTidTblDel v tid).1.x_tid = tid ∧
        (s.setTidTblDel v tid).1.x_lastTidPreClear = s.x_lastTidPreClear := by
  obtain ⟨htid, hslave⟩ := setTidTblEnt_new (t := s.toLsShmTidMgr) v hnew
  have hrep := h.rep.quiet (quiet_onTid s (f := fun _ => (s.toLsShmTidMgr.setTidTblEnt v tid).1)
    (fun hb => setTidTblEnt_blks hb _ _))
  exact ⟨⟨⟨h.flag, hrep, h.linked.record hv hlinks.assigns⟩, hslave.trans h.slave⟩,
    adds_record h.linked hlinks hv, htid, setTidTblEnt_pre h.rep.blks v tid⟩

theorem Mirror.clear (h : Mirror s E log)
    : ∃ log', Mirror s.clear [] log' ∧ (s.clear.replica log' = fun _ => none) ∧
        s.clear.x_tid = s.x_tid ∧ s.clear.x_lastTidPreClear = s.x_tid := by
  have hid := sameId_clear h.slave
  obtain ⟨log', hok⟩ := h.toTidOk.clear (fun hm => by rw [h.isTidMaster] at hm; cases hm)
  obtain ⟨m, hb, _, _, _, hmgr⟩ := h.toTidOk.clear_mgr
  refine ⟨log', ⟨hok, hid.slave.trans h.slave⟩, ?_, hid.tid, ?_⟩
  . funext t
    cases hr : s.clear.replica log' t with
    | none => rfl
    | some kv =>
      obtain ⟨x, hx, _⟩ := mem_of_replica hok hr
      cases hx
  . obtain ⟨m', heq, _⟩ := releaseTidTbl_eq hb
    have hmaster : (resetTidTbl { s.toLsShmTidMgr with shm := m' }).isTidMaster = false :=
      h.isTidMaster
    rw [hmgr]
    unfold LsShmTidMgr.clrTidTbl
    dsimp only
    rw [heq]
    dsimp only
    rw [if_pos rfl, hmaster, if_neg (by decide)]
    rfl

theorem Mirror.took_flush (h : Mirror s E log) {v : Nat} (hv : isTidValIterOff v = false)
    (hlinks : s.clear.Links tid) (hnew : s.x_tid < tid)
    : ∃ log', Took s log tid .flush (s.clear.setTidTblDel v tid).1 [] log' := by
  obtain ⟨log₁, h₁, hnone, htid₁, hpre₁⟩ := h.clear
  obtain ⟨h₂, hS, htid₂, hpre₂⟩ := h₁.setTidTblDel hv hlinks (by rw [htid₁]; exact hnew)
  exact ⟨_, h₂, hS.trans hnone, htid₂, hpre₂.trans hpre₁⟩

theorem Mirror.took_none (h : Mirror s E log) (hd : isTidValIterOff d = false)
    (hlinks : s.Links tid) (hnew : s.x_tid < tid) (hnone : s.replica log d = none)
    : Took s log tid (.del d) (s.setTidTblDel d tid).1 E (s.logAfter log d tid) := by
  obtain ⟨h₂, hS, htid₂, hpre₂⟩ := h.setTidTblDel hd hlinks hnew
  refine ⟨h₂, hS.trans ?_, htid₂, hpre₂⟩
  rw [Journal.apply, ← hnone, Function.update_eq_self]

theorem Mirror.took_erase (h : Mirror s E log) (hx : x ∈ E) (hd : isTidValIterOff d = false)
    (hlink : s.tidLink x = d) (hlinks : (s.eraseIteratorHelper x).Links tid) (hnew : s.x_tid < tid)
    : ∃ log', Took s log tid (.del d) ((s.eraseIteratorHelper x).setTidTblDel d tid).1 (E.erase x)
        log' := by
  obtain ⟨h₁, hS₁, htid₁, hpre₁⟩ := h.erase hx
  obtain ⟨h₂, hS, htid₂, hpre₂⟩ := h₁.setTidTblDel hd hlinks (by rw [htid₁]; exact hnew)
  refine ⟨_, h₂, ?_, htid₂, hpre₂.trans hpre₁⟩
  rw [hS, hS₁, hlink, Journal.apply]

theorem tid2iterOff_cases (h : TidOk s E log) (hpre : s.x_lastTidPreClear ≤ d)
    : (s.tid2iterOff d = 0 ∧ s.replica log d = none) ∨
      ∃ x ∈ E, s.tidLink x = d ∧ s.tid2iterOff d = x := by
  have hval : s.tid2iterOff d =
      if isTidValIterOff ((log d).getD 0) then tidVal2iterOff ((log d).getD 0) else 0 := by
    unfold LsShmTidMgr.tid2iterOff
    by_cases hlt : d / TIDTBLBLK_MAXSZ < s.firstBlk + s.x_iBlkCnt
    . have hfirst : s.firstBlk ≤ d / TIDTBLBLK_MAXSZ := Nat.div_le_div_right hpre
      rw [h.linked.indexed.tid2tblBlk_eq hpre hlt]
      dsimp only
      rw [h.linked.indexed.entries _ (by omega) _ (Nat.mod_lt _ (by decide)),
        Nat.add_sub_cancel' hfirst, Nat.div_add_mod']
    . rw [tid2tblBlk_none hpre (Nat.le_of_not_lt hlt)]
      cases hv : log d with
      | none => rfl
      | some v =>
        have hl := (h.linked.indexed.log_lt d v hv).2.2
        exact absurd hl hlt
  rw [hval]
  cases hv : log d with
  | none =>
    refine .inl ⟨rfl, ?_⟩
    unfold replica Journal.adds journal
    rw [journalOf_of_none hv]
  | some v =>
    rw [Option.getD_some]
    by_cases hiter : isTidValIterOff v = true
    . obtain ⟨hx, hl⟩ := h.linked.names d v hv hiter
      exact .inr ⟨_, hx, hl, if_pos hiter⟩
    . refine .inl ⟨if_neg hiter, ?_⟩
      cases hr : s.replica log d with
      | none => rfl
      | some kv =>
        obtain ⟨w, hw, hew⟩ := journalOf_eq_some (adds_eq_some.mp hr)
        cases hv.symm.trans hw
        exact absurd (tidEntry_eq_add hew).1 hiter

theorem doomed_cases (h : TidOk s E log) (hdel : delTid mem p = d) (hne : d ≠ TIDDEL_FLUSHALL)
    (hpre : s.x_lastTidPreClear ≤ d)
    : (doomed s mem p = none ∧ s.replica log d = none) ∨
      ∃ x ∈ E, ∃ e, doomed s mem p = some e ∧ s.tid2iterOff d = x ∧ s.tidLink x = d ∧
        s.replica log d = some (e.key, e.getVal) := by
  unfold doomed
  rw [hdel]
  rcases tid2iterOff_cases h hpre with ⟨hz, hnone⟩ | ⟨x, hx, hlink, hoff⟩
  . exact .inl ⟨if_pos (.inr hz), hnone⟩
  . obtain ⟨e, he, hiter, _⟩ := h.rep.lookup.elem_some hx
    have hgo : ¬ (d = TIDDEL_FLUSHALL ∨ s.tid2iterOff d = 0) := by
      rw [hoff]
      exact not_or.mpr ⟨hne, h.rep.ne_zero hx⟩
    refine .inr ⟨x, hx, e, ?_, hoff, hlink, ?_⟩
    . rw [if_neg hgo, hoff, hiter]
    . rw [← hlink]
      exact replica_of_mem h hx he

end Del

end LsShmHash

section Stream

open LsShmHash

variable {s : LsShmHash} {E : List Nat} {log : TidLog} {mem : Mem} {p tid b q c : Nat} {rest : List Nat}

/--
What a deletion leaves behind before its own entry is made.
-/
def delBase (s : LsShmHash) (mem : Mem) (p : Nat) (rest : List Nat) : LsShmHash :=
  if delTid mem p = TIDDEL_FLUSHALL then s.clear
  else match doomed s mem p with
    | none => s
    | some e => if nextAdds mem rest e.key then s else s.delIter (s.tid2iterOff (delTid mem p))

theorem applyPkt_del (rest : List Nat) (hdel : pktType mem p ≠ LSSHM_PKTADD)
    : applyPkt s mem p rest = ((delBase s mem p rest).setTidTblDel (delTid mem p) (pktTid mem p)).1 := by
  unfold delBase
  by_cases hflush : delTid mem p = TIDDEL_FLUSHALL
  . rw [if_pos hflush, applyPkt_flush rest hdel hflush]
  . rw [if_neg hflush]
    cases hd : doomed s mem p with
    | none => rw [applyPkt_none rest hdel hflush hd]
    | some e => rw [applyPkt_some rest hdel hflush hd]

def PktOk (s : LsShmHash) (mem : Mem) (p : Nat) (rest : List Nat) : Prop :=
  if pktType mem p = LSSHM_PKTADD then
    s.AddOk (getMem mem (addData p) (pktKeySz mem p))
      (getMem mem (addData p + pktKeySz mem p) (addValSz mem p)) (pktTid mem p)
  else (delBase s mem p rest).Links (pktTid mem p)

instance (s : LsShmHash) (mem : Mem) (p : Nat) (rest : List Nat) : Decidable (PktOk s mem p rest) := by
  unfold PktOk
  exact inferInstance

def PktsOk (mem : Mem) : LsShmHash → List Nat → Prop
  | _, [] => True
  | s, p :: rest => PktOk s mem p rest ∧ PktsOk mem (applyPkt s mem p rest) rest

instance decidablePktsOk (mem : Mem) : ∀ s l, Decidable (PktsOk mem s l)
  | _, [] => isTrue trivial
  | s, p :: rest =>
    have := decidablePktsOk mem (applyPkt s mem p rest) rest
    inferInstanceAs (Decidable (_ ∧ _))

def pktEntries (mem : Mem) (l : List Nat) : List (Nat × HashEntry) :=
  l.map fun p => (pktTid mem p, pktEntry mem p)

def Plain (es : List (Nat × HashEntry)) : Prop :=
  ∀ t d, (t, .del d) ∈ es → isTidValIterOff d = false

theorem pktEntry_add (h : pktType mem p = LSSHM_PKTADD)
    : pktEntry mem p = .add (getMem mem (addData p) (pktKeySz mem p))
        (getMem mem (addData p + pktKeySz mem p) (addValSz mem p)) := by
  unfold pktEntry
  rw [if_pos h]

theorem apply_add_of_nextAdds {S : HashReplica} {key val : List UInt8} {d : Nat}
    (hS : S d = some (key, val)) (hnext : nextAdds mem rest key = true)
    : Journal.replay (Journal.apply S tid (.del d)) (pktEntries mem rest) =
        Journal.replay S (pktEntries mem rest) := by
  cases rest with
  | nil => cases hnext
  | cons q rest =>
    simp only [nextAdds, Bool.and_eq_true, decide_eq_true_eq] at hnext
    have hsame : ∀ u w, Journal.apply (Journal.apply S tid (.del d)) u (.add key w) =
        Journal.apply S u (.add key w) := by
      intro u w
      funext t
      simp only [Journal.apply]
      by_cases ht : t = d
      . subst ht
        rw [Function.update_self, hS]
        simp [Option.filter]
      . rw [Function.update_of_ne ht]
    have hentries : pktEntries mem (q :: rest) =
        (pktTid mem q, pktEntry mem q) :: pktEntries mem rest := rfl
    rw [hentries, pktEntry_add hnext.1, hnext.2, Journal.replay_cons, Journal.replay_cons, hsame]

theorem pktEntry_flush (hdel : pktType mem p ≠ LSSHM_PKTADD) (h : delTid mem p = TIDDEL_FLUSHALL)
    : pktEntry mem p = .flush := by
  unfold pktEntry
  rw [if_neg hdel, if_pos h]

theorem pktEntry_del (hdel : pktType mem p ≠ LSSHM_PKTADD) (h : delTid mem p ≠ TIDDEL_FLUSHALL)
    : pktEntry mem p = .del (delTid mem p) := by
  unfold pktEntry
  rw [if_neg hdel, if_neg h]

structure Applied (s : LsShmHash) (log : TidLog) (e : Nat × HashEntry) (es : List (Nat × HashEntry))
    (q c : Nat) (s' : LsShmHash) (E' : List Nat) (log' : TidLog) (b' : Nat) : Prop where
  mirror : Mirror s' E' log'
  replica : Journal.replay (s'.replica log') es = Journal.replay (s.replica log) (e :: es)
  pre : s'.x_lastTidPreClear ≤ b'
  chain : Chain s'.x_tid b' es q c

theorem Applied.of_took {s' : LsShmHash} {E' : List Nat} {log' : TidLog} {e : HashEntry}
    {es : List (Nat × HashEntry)} (h : Took s log tid e s' E' log')
    (hpre : s'.x_lastTidPreClear ≤ b) (hc : Chain tid b es q c)
    : Applied s log (tid, e) es q c s' E' log' b where
  mirror := h.mirror
  replica := congrArg (fun S => Journal.replay S es) h.replica
  pre := hpre
  chain := by
    rw [h.tid]
    exact hc

theorem mirror_applyPkt (h : Mirror s E log) (hok : PktOk s mem p rest)
    (hc : Chain s.x_tid b (pktEntries mem (p :: rest)) q c) (hb : s.x_lastTidPreClear ≤ b)
    (hplain : Plain (pktEntries mem (p :: rest)))
    : ∃ E' log' b', Applied s log (pktTid mem p, pktEntry mem p) (pktEntries mem rest) q c
        (applyPkt s mem p rest) E' log' b' := by
  change Chain _ _ ((pktTid mem p, pktEntry mem p) :: pktEntries mem rest) q c at hc
  have hmem : (pktTid mem p, pktEntry mem p) ∈ pktEntries mem (p :: rest) := List.mem_cons_self
  unfold PktOk at hok
  by_cases hadd : pktType mem p = LSSHM_PKTADD
  . rw [if_pos hadd] at hok
    rw [pktEntry_add hadd] at hc ⊢
    rw [applyPkt_add rest hadd]
    unfold setTidItem
    dsimp only
    obtain ⟨hlt, hes⟩ := hc.of_add
    obtain ⟨E', log', htook⟩ := h.setIter hok hlt
    exact ⟨E', log', b, .of_took htook (by rw [htook.pre]; exact hb) hes⟩
  rw [if_neg hadd] at hok
  rw [applyPkt_del rest hadd]
  unfold delBase at hok ⊢
  by_cases hflush : delTid mem p = TIDDEL_FLUSHALL
  . rw [pktEntry_flush hadd hflush] at hc ⊢
    rw [if_pos hflush] at hok ⊢
    obtain ⟨hlt, hes⟩ := hc.of_flush
    obtain ⟨log', htook⟩ := h.took_flush (v := delTid mem p) (by rw [hflush]; decide) hok hlt
    exact ⟨[], log', s.x_tid, .of_took htook (Nat.le_of_eq htook.pre) hes⟩
  . rw [pktEntry_del hadd hflush] at hc hmem ⊢
    rw [if_neg hflush] at hok ⊢
    have hiter := hplain _ _ hmem
    obtain ⟨hlt, hbd, hes⟩ := hc.of_del
    rcases doomed_cases h.toTidOk rfl hflush (Nat.le_trans hb (Nat.le_of_lt hbd)) with
      ⟨hd, hnone⟩ | ⟨x, hx, e, hd, hoff, hlink, hsome⟩
    . rw [hd] at hok ⊢
      have htook := h.took_none hiter hok hlt hnone
      exact ⟨E, _, b, .of_took htook (by rw [htook.pre]; exact hb) hes⟩
    . rw [hd] at hok ⊢
      dsimp only at hok ⊢
      by_cases hkeep : nextAdds mem rest e.key = true
      . -- the packet behind it replaces the element
        rw [if_pos hkeep] at hok ⊢
        obtain ⟨h₂, hS, htid₂, hpre₂⟩ := h.setTidTblDel hiter hok hlt
        refine ⟨E, _, b, h₂, ?_, by rw [hpre₂]; exact hb, by rw [htid₂]; exact hes⟩
        rw [hS]
        exact (apply_add_of_nextAdds hsome hkeep).symm
      . rw [if_neg hkeep] at hok ⊢
        unfold LsShmHash.delIter at hok ⊢
        rw [hoff] at hok ⊢
        obtain ⟨log', htook⟩ := h.took_erase hx hiter hlink hok hlt
        exact ⟨_, log', b, .of_took htook (by rw [htook.pre]; exact hb) hes⟩

/--
The packets that are applied change the elements of a slave as their entries change a replica.
-/
theorem mirror_applyAll {l : List Nat} (h : Mirror s E log) (hok : PktsOk mem s l)
    (hc : Chain s.x_tid b (pktEntries mem l) q c) (hb : s.x_lastTidPreClear ≤ b)
    (hplain : Plain (pktEntries mem l))
    : ∃ E' log', Mirror (applyAll mem s l) E' log' ∧
        (applyAll mem s l).replica log' = Journal.replay (s.replica log) (pktEntries mem l) ∧
        (applyAll mem s l).x_tid = q ∧ (applyAll mem s l).x_lastTidPreClear ≤ c := by
  induction l generalizing s E log b with
  | nil =>
    cases hc
    exact ⟨E, log, h, rfl, rfl, hb⟩
  | cons p rest ih =>
    obtain ⟨E₁, log₁, b₁, h₁⟩ := mirror_applyPkt h hok.1 hc hb hplain
    obtain ⟨E', log', h', hS', htid, hpre⟩ := ih h₁.mirror hok.2 h₁.chain h₁.pre
      (fun t d hmem => hplain t d (List.mem_cons_of_mem _ hmem))
    exact ⟨E', log', h', hS'.trans h₁.replica, htid, hpre⟩

end Stream

end Lsmcd
