import Lsmcd.Lib.Journal
import Lsmcd.Shm.TidHash

/-!
The transaction table of a master as the journal of its hash.

The entries that can be read from the table are those of `Journal`: an entry that refers to an element
is its addition, an id stands for the deletion of the element that had it. Every operation makes the
journal a later one, provided that its deletions find room in the table.
-/

namespace Lsmcd

open LsShmTidMgr

abbrev HashEntry := Journal.Entry (List UInt8) (List UInt8)

abbrev HashJournal := Journal (List UInt8) (List UInt8)

def tidEntry (elem : Nat → Option LsShmHElem) (v : Nat) : Option HashEntry :=
  if v = 0 then none
  else if isTidValIterOff v then (elem (tidVal2iterOff v)).map fun e => .add e.key e.getVal
  else if v = TIDDEL_FLUSHALL then some .flush
  else some (.del v)

def journalOf (elem : Nat → Option LsShmHElem) (log : TidLog) : HashJournal := fun tid =>
  (log tid).bind (tidEntry elem)

def LsShmHash.journal (s : LsShmHash) (log : TidLog) : HashJournal :=
  journalOf s.table.elem log

variable {elem elem' : Nat → Option LsShmHElem} {v t : Nat}

theorem iterOff2tidVal_ne_zero (x : Nat) : iterOff2tidVal x ≠ 0 := by
  intro hz
  have hiter := isTidValIterOff_iterOff2tidVal x
  rw [hz] at hiter
  exact absurd hiter (by decide)

@[simp]
theorem tidEntry_zero (elem : Nat → Option LsShmHElem) : tidEntry elem 0 = none := rfl

theorem tidEntry_iterOff {x : Nat} (hx : x < 2 ^ 32) {e : LsShmHElem} (he : elem x = some e)
    : tidEntry elem (iterOff2tidVal x) = some (.add e.key e.getVal) := by
  unfold tidEntry
  rw [if_neg (iterOff2tidVal_ne_zero x), isTidValIterOff_iterOff2tidVal, if_pos rfl,
    tidVal2iterOff_iterOff2tidVal hx, he]
  rfl

theorem tidEntry_flush : tidEntry elem TIDDEL_FLUSHALL = some .flush := by
  unfold tidEntry
  rw [if_neg (by decide), if_neg (by decide), if_pos rfl]

theorem tidEntry_del (hpos : t ≠ 0) (hlt : t < TIDDEL_FLUSHALL) : tidEntry elem t = some (.del t) := by
  have hiter : isTidValIterOff t = false :=
    isTidValIterOff_of_lt (Nat.lt_trans hlt (by decide))
  unfold tidEntry
  rw [if_neg hpos, hiter, if_neg (by decide), if_neg (Nat.ne_of_lt hlt)]

theorem tidEntry_congr (h : isTidValIterOff v = true → elem' (tidVal2iterOff v) = elem (tidVal2iterOff v))
    : tidEntry elem' v = tidEntry elem v := by
  unfold tidEntry
  split
  . rfl
  . split
    . next hiter => rw [h hiter]
    . rfl

theorem tidEntry_eq_add {k w : List UInt8} (h : tidEntry elem v = some (.add k w))
    : isTidValIterOff v = true ∧ ∃ e, elem (tidVal2iterOff v) = some e ∧ e.key = k ∧ e.getVal = w := by
  unfold tidEntry at h
  split at h
  . cases h
  . split at h
    . next hiter =>
      obtain ⟨e, he, heq⟩ := Option.map_eq_some_iff.mp h
      cases heq
      exact ⟨hiter, e, he, rfl, rfl⟩
    . split at h <;> cases h

theorem tidEntry_eq_del (h : tidEntry elem v = some (.del t))
    : v = t ∧ t ≠ 0 ∧ isTidValIterOff t = false ∧ t ≠ TIDDEL_FLUSHALL := by
  unfold tidEntry at h
  split at h
  . cases h
  . next hz =>
    split at h
    . obtain ⟨e, _, heq⟩ := Option.map_eq_some_iff.mp h
      cases heq
    . next hiter =>
      split at h
      . cases h
      . next hflush =>
        cases h
        exact ⟨rfl, hz, by simpa using hiter, hflush⟩

theorem tidEntry_eq_flush (h : tidEntry elem v = some .flush) : v = TIDDEL_FLUSHALL := by
  unfold tidEntry at h
  split at h
  . cases h
  . split at h
    . obtain ⟨e, _, heq⟩ := Option.map_eq_some_iff.mp h
      cases heq
    . split at h
      . assumption
      . cases h

/--
An id that a deletion names has a cleared entry, and nothing is left from before a flush.
-/
structure LogOk (log : TidLog) : Prop where
  dead : ∀ u t, log u = some t → t ≠ 0 → isTidValIterOff t = false → t ≠ TIDDEL_FLUSHALL →
    log t = some 0
  flushed : ∀ f, log f = some TIDDEL_FLUSHALL → ∀ t < f, log t = none

variable {log log' : TidLog}

theorem journalOf_eq_some {e : HashEntry} (h : journalOf elem log t = some e)
    : ∃ v, log t = some v ∧ tidEntry elem v = some e :=
  Option.bind_eq_some_iff.mp h

theorem journalOf_of_some (hv : log t = some v) : journalOf elem log t = tidEntry elem v := by
  unfold journalOf
  rw [hv, Option.bind_some]

theorem journalOf_of_none (hv : log t = none) : journalOf elem log t = none := by
  unfold journalOf
  rw [hv, Option.bind_none]

theorem LogOk.update (hok : LogOk log) {tid v : Nat} (hnone : log tid = none)
    (hdead : v ≠ 0 → isTidValIterOff v = false → v ≠ TIDDEL_FLUSHALL → log v = some 0)
    (hflush : v ≠ TIDDEL_FLUSHALL) (hlast : ∀ u w, log u = some w → u < tid)
    : LogOk (Function.update log tid (some v)) where
  dead := by
    intro u t hu hz hiter hfl
    have hold : log t = some 0 → Function.update log tid (some v) t = some 0 := by
      intro ht
      rw [Function.update_of_ne]
      . exact ht
      . rintro rfl
        rw [hnone] at ht
        cases ht
    by_cases hut : u = tid
    . subst hut
      rw [Function.update_self] at hu
      cases hu
      exact hold (hdead hz hiter hfl)
    . rw [Function.update_of_ne hut] at hu
      exact hold (hok.dead u t hu hz hiter hfl)
  flushed := by
    intro f hf t htf
    by_cases hft : f = tid
    . subst hft
      rw [Function.update_self] at hf
      exact absurd (Option.some.inj hf) hflush
    . rw [Function.update_of_ne hft] at hf
      have htt : t ≠ tid := by
        have hlt := hlast f _ hf
        omega
      rw [Function.update_of_ne htt]
      exact hok.flushed f hf t htf

namespace LsShmTidMgr

variable {m : LsShmTidMgr} {link : Nat → Nat} {E : List Nat} {x : Nat}

theorem TidLinked.journal_congr (h : TidLinked m link E log) (helem : ∀ y ∈ E, elem' y = elem y)
    (t : Nat) : journalOf elem' log t = journalOf elem log t := by
  cases hv : log t with
  | none => rw [journalOf_of_none hv, journalOf_of_none hv]
  | some v =>
    rw [journalOf_of_some hv, journalOf_of_some hv]
    exact tidEntry_congr fun hiter => helem _ (h.names t v hv hiter).1

theorem TidLinked.journal_le (h : TidLinked m link E log) (elem : Nat → Option LsShmHElem) (t : Nat)
    (hne : journalOf elem log t ≠ none) : t ≤ m.x_tid := by
  obtain ⟨e, he⟩ := Option.ne_none_iff_exists'.mp hne
  obtain ⟨v, hv, _⟩ := journalOf_eq_some he
  exact (h.indexed.log_lt t v hv).2.1

theorem TidLinked.well (h : TidLinked m link E log) (hok : LogOk log)
    (hkeys : ∀ x ∈ E, ∀ y ∈ E, ∀ e d, elem x = some e → elem y = some d → e.key = d.key → x = y)
    : Journal.Well (journalOf elem log) m.x_tid where
  le := by
    intro t hne
    refine ⟨?_, h.journal_le elem t hne⟩
    obtain ⟨e, he⟩ := Option.ne_none_iff_exists'.mp hne
    obtain ⟨v, hv, _⟩ := journalOf_eq_some he
    exact Nat.lt_of_le_of_lt (Nat.zero_le _) (h.indexed.log_lt t v hv).1
  keys := by
    intro t u k v w ht hu
    obtain ⟨a, ha, hea⟩ := journalOf_eq_some ht
    obtain ⟨b, hb, heb⟩ := journalOf_eq_some hu
    obtain ⟨hai, e, he, hek, _⟩ := tidEntry_eq_add hea
    obtain ⟨hbi, d, hd, hdk, _⟩ := tidEntry_eq_add heb
    obtain ⟨haE, hal⟩ := h.names t a ha hai
    obtain ⟨hbE, hbl⟩ := h.names u b hb hbi
    rw [← hal, ← hbl, hkeys _ haE _ hbE e d he hd (hek.trans hdk.symm)]
  dead := by
    intro u t hu
    obtain ⟨v, hv, hev⟩ := journalOf_eq_some hu
    obtain ⟨rfl, hz, hiter, hflush⟩ := tidEntry_eq_del hev
    rw [journalOf_of_some (hok.dead u v hv hz hiter hflush), tidEntry_zero]
  flushed := by
    intro f hf t htf
    obtain ⟨v, hv, hev⟩ := journalOf_eq_some hf
    rw [tidEntry_eq_flush hev] at hv
    exact journalOf_of_none (hok.flushed f hv t htf)
  after := by
    intro f u t hf hu
    obtain ⟨w, hw, hew⟩ := journalOf_eq_some hf
    rw [tidEntry_eq_flush hew] at hw
    obtain ⟨v, hv, hev⟩ := journalOf_eq_some hu
    obtain ⟨rfl, hz, hiter, hflush⟩ := tidEntry_eq_del hev
    have hdead := hok.dead u v hv hz hiter hflush
    rcases Nat.lt_trichotomy v f with hlt | rfl | hgt
    . rw [hok.flushed f hw v hlt] at hdead
      cases hdead
    . rw [hw] at hdead
      exact absurd hdead (by decide)
    . exact hgt

theorem logAfter_links (hb : Blks m) {pTid : Nat} (h : m.Links pTid) (log : TidLog) (v : Nat)
    : ∃ tid, m.newTid pTid = some tid ∧ m.logAfter log v pTid = Function.update log tid (some v) ∧
        (m.setTidTblEnt v pTid).1.x_tid = tid := by
  obtain ⟨tid, hnew, hst⟩ := h.stored hb v
  refine ⟨tid, hnew, ?_, ?_⟩
  . unfold logAfter
    rw [hst]
    rfl
  . rw [setTidTblEnt_of_newTid hnew]
    exact storeTidTblEnt_tid (hb.withTid tid) v tid

theorem TidLinked.log_newTid (h : TidLinked m link E log) {pTid tid : Nat}
    (hnew : m.newTid pTid = some tid) : m.x_tid < tid ∧ log tid = none := by
  have hgt := h.indexed.newTid_gt hnew
  refine ⟨hgt, ?_⟩
  cases hl : log tid with
  | none => rfl
  | some v =>
    have hle := (h.indexed.log_lt tid v hl).2.1
    omega

theorem TidLinked.journal_link (h : TidLinked m link E log) (hok : LogOk log) (hx : x < 2 ^ 32)
    {pTid : Nat} (hlinks : m.Links pTid) {e : LsShmHElem} (he : elem' x = some e)
    (helem : ∀ y ∈ E, elem' y = elem y)
    : LogOk (m.logAfter log (iterOff2tidVal x) pTid) ∧
        Journal.Later (journalOf elem log) m.x_tid
          (journalOf elem' (m.logAfter log (iterOff2tidVal x) pTid))
          (m.setTidTblEnt (iterOff2tidVal x) pTid).1.x_tid := by
  obtain ⟨tid, hnew, hlog, htid⟩ := logAfter_links h.indexed.blks hlinks log (iterOff2tidVal x)
  obtain ⟨hgt, hnone⟩ := h.log_newTid hnew
  have hiter := isTidValIterOff_iterOff2tidVal x
  rw [hlog, htid]
  refine ⟨hok.update hnone ?_ ?_ ?_, ?_⟩
  . intro _ hni
    rw [hiter] at hni
    cases hni
  . intro hfl
    rw [hfl] at hiter
    exact absurd hiter (by decide)
  . intro u w hu
    exact Nat.lt_of_le_of_lt (h.indexed.log_lt u w hu).2.1 hgt
  . apply Journal.Later.of_add (h.journal_le elem) hgt (k := e.key) (v := e.getVal)
    . rw [journalOf_of_some (Function.update_self _ _ _), tidEntry_iterOff hx he]
    . intro t ht
      rw [← h.journal_congr helem t]
      unfold journalOf
      rw [Function.update_of_ne ht]

/--
A deletion can be recorded: the id it gets finds room, and no id has reached the one that stands for a
flush.
-/
def Unlinks (m : LsShmTidMgr) (tid : Nat) : Prop :=
  m.x_tid < TIDDEL_FLUSHALL ∧ (m.clrTidTblEnt tid).Links 0

instance (m : LsShmTidMgr) (tid : Nat) : Decidable (m.Unlinks tid) :=
  inferInstanceAs (Decidable (_ ∧ _))

theorem clrTidTblEnt_eq (m : LsShmTidMgr) (tid : Nat)
    : m.clrTidTblEnt tid = { m with blk := (m.clrTidTblEnt tid).blk } := by
  unfold clrTidTblEnt
  split <;> rfl

theorem Unlinks.assigns {tid : Nat} (h : m.Unlinks tid) : m.Assigns 0 := by
  have ha := h.2.assigns
  rw [clrTidTblEnt_eq] at ha
  exact ha

def unlinked (log : TidLog) (tid last : Nat) : TidLog :=
  Function.update (clrLog log tid) (last + 1) (some tid)

theorem TidLinked.unlinked_eq (h : TidLinked m link E log) (hnd : E.Nodup) (hx : x ∈ E)
    (h32 : ∀ y ∈ E, y < 2 ^ 32) (hm : m.isTidMaster = true) (hu : m.Unlinks (link x))
    : TidLinked (m.unlinkTid (link x)) link (E.erase x) (unlinked log (link x) m.x_tid) ∧
        (m.unlinkTid (link x)).x_tid = m.x_tid + 1 ∧
        (if m.isTidMaster then (m.clrTidTblEnt (link x)).logAfter (clrLog log (link x)) (link x) 0
          else clrLog log (link x)) = unlinked log (link x) m.x_tid := by
  have hlinked := h.unlinkTid hnd hx h32 (fun _ => hu.assigns)
  have hclr := h.clr hnd hx h32
  obtain ⟨tid, hnew, hlog, htid⟩ :=
    logAfter_links hclr.indexed.blks hu.2 (clrLog log (link x)) (link x)
  have hxtid : (m.clrTidTblEnt (link x)).x_tid = m.x_tid := by rw [clrTidTblEnt_eq]
  have hgt := (hclr.log_newTid hnew).1
  have htid' : tid = m.x_tid + 1 := by
    unfold newTid at hnew
    rw [if_pos rfl, hxtid, Nat.mod_eq_of_lt] at hnew
    . exact (Option.some.inj hnew).symm
    . have hlt := h.indexed.tid_lt
      unfold TIDTBLBLK_MAXSZ at hlt
      omega
  subst htid'
  have hmaster : (m.clrTidTblEnt (link x)).isTidMaster = true := by
    rw [clrTidTblEnt_eq]
    exact hm
  rw [hm, if_pos rfl, hlog] at hlinked ⊢
  refine ⟨hlinked, ?_, rfl⟩
  unfold LsShmTidMgr.unlinkTid
  dsimp only
  rw [hmaster, if_pos rfl]
  exact htid

theorem TidLinked.journal_unlinked_ne (h : TidLinked m link E log)
    (helem : ∀ y ∈ E, y ≠ x → elem' y = elem y) (htx : t ≠ link x) (htn : t ≠ m.x_tid + 1)
    : journalOf elem' (unlinked log (link x) m.x_tid) t = journalOf elem log t := by
  have hsame : unlinked log (link x) m.x_tid t = log t :=
    (Function.update_of_ne htn _ _).trans (Function.update_of_ne htx _ _)
  cases hv : log t with
  | none => rw [journalOf_of_none hv, journalOf_of_none (hsame.trans hv)]
  | some v =>
    rw [journalOf_of_some hv, journalOf_of_some (hsame.trans hv)]
    apply tidEntry_congr
    intro hiter
    obtain ⟨hE, hl⟩ := h.names t v hv hiter
    apply helem _ hE
    intro heq
    rw [heq] at hl
    exact htx hl.symm

theorem TidLinked.journal_unlink (h : TidLinked m link E log) (hok : LogOk log) (hx : x ∈ E)
    (h32 : ∀ y ∈ E, y < 2 ^ 32) (hu : m.Unlinks (link x)) {e : LsShmHElem}
    (he : elem x = some e) (helem : ∀ y ∈ E, y ≠ x → elem' y = elem y)
    : LogOk (unlinked log (link x) m.x_tid) ∧
        Journal.Later (journalOf elem log) m.x_tid
          (journalOf elem' (unlinked log (link x) m.x_tid)) (m.x_tid + 1) := by
  have hc := h.carries x hx
  have hlog := h.indexed.log_lt
  obtain ⟨hpre, hle, _⟩ := hlog _ _ hc
  have hclr : clrLog log (link x) (link x) = some 0 := by
    unfold clrLog
    rw [Function.update_self, hc]
    rfl
  have hother : ∀ t, t ≠ link x → clrLog log (link x) t = log t :=
    fun t ht => Function.update_of_ne ht _ _
  have hnew : clrLog log (link x) (m.x_tid + 1) = none := by
    rw [hother _ (by omega)]
    cases hl : log (m.x_tid + 1) with
    | none => rfl
    | some v =>
      have := (hlog _ v hl).2.1
      omega
  have hclrOk : LogOk (clrLog log (link x)) := by
    constructor
    . intro u t hu hz hiter hfl
      have hux : u ≠ link x := by
        rintro rfl
        rw [hclr] at hu
        cases hu
        exact hz rfl
      rw [hother u hux] at hu
      by_cases htx : t = link x
      . rw [htx]
        exact hclr
      . rw [hother t htx]
        exact hok.dead u t hu hz hiter hfl
    . intro f hf t htf
      have hfx : f ≠ link x := by
        rintro rfl
        rw [hclr] at hf
        exact absurd (Option.some.inj hf) (by decide)
      rw [hother f hfx] at hf
      have hnone := hok.flushed f hf t htf
      have htx : t ≠ link x := by
        rintro rfl
        rw [hc] at hnone
        cases hnone
      rw [hother t htx]
      exact hnone
  have hat : unlinked log (link x) m.x_tid (link x) = some 0 := by
    have hne : link x ≠ m.x_tid + 1 := by omega
    exact (Function.update_of_ne hne _ _).trans hclr
  have hend : unlinked log (link x) m.x_tid (m.x_tid + 1) = some (link x) :=
    Function.update_self _ _ _
  refine ⟨hclrOk.update hnew (fun _ _ _ => hclr) ?_ ?_, ?_⟩
  . have := hu.1
    omega
  . intro u w hw
    by_cases hux : u = link x
    . omega
    . rw [hother u hux] at hw
      have := (hlog u w hw).2.1
      omega
  . apply Journal.Later.of_del (h.journal_le elem) (Nat.lt_succ_self _) (d := link x) (k := e.key)
      (v := e.getVal)
    . rw [journalOf_of_some hc, tidEntry_iterOff (h32 x hx) he]
    . rw [journalOf_of_some hat, tidEntry_zero]
    . have hlt := hu.1
      rw [journalOf_of_some hend, tidEntry_del (by omega) (by omega)]
    . exact fun t htx htn => h.journal_unlinked_ne helem htx htn

theorem not_links_blkCnt (hb : Blks m) {pTid : Nat} (ha : m.Assigns pTid) (h : ¬ m.Links pTid) (v : Nat)
    : (m.setTidTblEnt v pTid).1.x_iBlkCnt = m.x_iBlkCnt := by
  cases hnew : m.newTid pTid with
  | none =>
    unfold setTidTblEnt
    rw [hnew]
  | some tid =>
    have hroom : ¬ HasRoom { m with x_tid := tid } tid :=
      fun hroom => h ⟨tid, hnew, (ha tid hnew).1, (ha tid hnew).2, hroom⟩
    unfold HasRoom at hroom
    push Not at hroom
    obtain ⟨hneeds, hz⟩ := hroom
    rw [setTidTblEnt_of_newTid hnew]
    unfold storeTidTblEnt
    dsimp only
    rw [if_pos hneeds, if_pos hz]
    rcases growTidTbl_cases (hb.withTid tid) (tid - tid % TIDTBLBLK_MAXSZ) _ rfl with
      ⟨_, sh, heq, _⟩ | ⟨hne, _⟩
    . rw [heq]
    . exact absurd hz hne

theorem TidLinked.journal_clear (h : TidLinked m link E log) (hm : m.isTidMaster = true)
    (ha : m.resetTidTbl.Assigns 0) (hcnt : m.clrTidTbl.x_iBlkCnt ≠ 0)
    (elem elem' : Nat → Option LsShmHElem)
    : ∃ log', TidLinked m.clrTidTbl link [] log' ∧ LogOk log' ∧
        Journal.Later (journalOf elem log) m.x_tid (journalOf elem' log') m.clrTidTbl.x_tid := by
  have hclear := h.clrTidTbl (fun _ => ha)
  refine ⟨_, hclear, ?_⟩
  obtain ⟨sh, heq, _⟩ := releaseTidTbl_eq h.indexed.blks
  have hclr : m.clrTidTbl = ((resetTidTbl { m with shm := sh }).setTidTblEnt TIDDEL_FLUSHALL 0).1 := by
    unfold LsShmTidMgr.clrTidTbl
    rw [heq]
    dsimp only
    rw [if_pos rfl, show (resetTidTbl { m with shm := sh }).isTidMaster = true from hm, if_pos rfl]
  have hb := resetTidTbl_blks { m with shm := sh }
  rw [hclr] at hcnt ⊢
  rw [if_pos hm, heq]
  dsimp only
  have ha' : (resetTidTbl { m with shm := sh }).Assigns 0 := ha
  have hlinks : (resetTidTbl { m with shm := sh }).Links 0 := by
    by_contra hno
    rw [not_links_blkCnt hb ha' hno] at hcnt
    exact hcnt rfl
  obtain ⟨tid, hnew, hlog, htid⟩ := logAfter_links hb hlinks (fun _ => none) TIDDEL_FLUSHALL
  have hgt := (resetTidTbl_indexed h.indexed (m := sh)).newTid_gt hnew
  rw [hlog, htid]
  refine ⟨⟨?_, ?_⟩, ?_⟩
  . intro u t hu _ _ hfl
    by_cases hut : u = tid
    . subst hut
      rw [Function.update_self] at hu
      exact absurd (Option.some.inj hu).symm hfl
    . rw [Function.update_of_ne hut] at hu
      cases hu
  . intro f hf t htf
    have hft : f = tid := by
      by_contra hne
      rw [Function.update_of_ne hne] at hf
      cases hf
    exact Function.update_of_ne (by omega) _ _
  . apply Journal.Later.of_flush hgt
    . rw [journalOf_of_some (Function.update_self _ _ _), tidEntry_flush]
    . intro t ht
      exact journalOf_of_none (Function.update_of_ne ht _ _)

theorem NextStored.of_lo {lo : Nat} {r : Option (Nat × Nat)} (h : NextStored m log lo t r)
    (hlo : ∀ w, t < w → w < lo → (log w).getD 0 = 0) : NextStored m log 0 t r := by
  refine ⟨?_, ?_⟩
  . intro u off hr
    obtain ⟨htu, hne, hblk, hmin⟩ := h.found u off hr
    refine ⟨htu, hne, hblk, ?_⟩
    intro w htw _ hwu
    by_cases hw : w < lo
    . exact hlo w htw hw
    . exact hmin w htw (by omega) hwu
  . intro hr w htw _
    by_cases hw : w < lo
    . exact hlo w htw hw
    . exact h.absent hr w htw (by omega)

theorem Indexed.nxtTidTblVal_any (h : Indexed m log) (tid : Nat)
    : NextStored m log 0 tid (m.nxtTidTblVal tid 0) := by
  have hlive := h.blks.cnt_le_live (fun i hi => ⟨_, h.blks.owns i hi⟩)
  -- entries lie behind `x_lastTidPreClear`, in the blocks of the table
  have hlog : ∀ w, w ≤ m.x_lastTidPreClear ∨ m.firstBlk + m.x_iBlkCnt ≤ w / TIDTBLBLK_MAXSZ →
      (log w).getD 0 = 0 := by
    intro w hw
    cases hv : log w with
    | none => rfl
    | some v =>
      have hl := h.log_lt w v hv
      omega
  have hfrom : ∀ i < m.x_iBlkCnt, (m.firstBlk + i) * TIDTBLBLK_MAXSZ ≤ max tid m.x_lastTidPreClear →
      m.tid2tblBlk tid = some (m.blkAt i) → NextStored m log 0 tid (m.nxtTidTblVal tid 0) := by
    intro i hi hlo hblk
    unfold nxtTidTblVal
    rw [if_neg (not_not.mpr rfl), hblk]
    dsimp only
    apply NextStored.of_lo (nxtTidTblValLoop_next h tid hi (by omega))
    intro w htw hw
    exact hlog w (.inl (by omega))
  by_cases hpre : tid < m.x_lastTidPreClear
  . have hclamp : m.tid2tblBlk tid = m.tid2tblBlk m.x_lastTidPreClear := by
      unfold tid2tblBlk
      simp only [if_pos hpre, if_neg (Nat.lt_irrefl _)]
    by_cases hcnt : 0 < m.x_iBlkCnt
    . apply hfrom 0 hcnt
      . have hdiv := Nat.div_mul_le_self m.x_lastTidPreClear TIDTBLBLK_MAXSZ
        have hfirst : m.firstBlk * TIDTBLBLK_MAXSZ ≤ m.x_lastTidPreClear := hdiv
        rw [Nat.add_zero]
        omega
      . rw [hclamp, h.tid2tblBlk_eq (Nat.le_refl _) (show m.firstBlk < _ by omega)]
        congr 2
        exact Nat.sub_self m.firstBlk
    . unfold nxtTidTblVal
      rw [if_neg (not_not.mpr rfl), hclamp, tid2tblBlk_none (Nat.le_refl _)
        (show _ ≤ m.firstBlk by omega)]
      refine ⟨fun u off hr => (nomatch hr), fun _ w htw _ => hlog w ?_⟩
      by_cases hw : w ≤ m.x_lastTidPreClear
      . exact .inl hw
      . have hdiv : m.firstBlk ≤ w / TIDTBLBLK_MAXSZ := Nat.div_le_div_right (by omega)
        exact .inr (by omega)
  . have hpre : m.x_lastTidPreClear ≤ tid := Nat.le_of_not_lt hpre
    have hfirst : m.firstBlk ≤ tid / TIDTBLBLK_MAXSZ := Nat.div_le_div_right hpre
    by_cases hlt : tid / TIDTBLBLK_MAXSZ < m.firstBlk + m.x_iBlkCnt
    . apply hfrom (tid / TIDTBLBLK_MAXSZ - m.firstBlk) (by omega)
      . rw [Nat.add_sub_cancel' hfirst]
        have hdiv := Nat.div_mul_le_self tid TIDTBLBLK_MAXSZ
        omega
      . exact h.tid2tblBlk_eq hpre hlt
    . unfold nxtTidTblVal
      rw [if_neg (not_not.mpr rfl), tid2tblBlk_none hpre (Nat.le_of_not_lt hlt)]
      refine ⟨fun u off hr => (nomatch hr), fun _ w htw _ => hlog w (.inr ?_)⟩
      have hdiv : tid / TIDTBLBLK_MAXSZ ≤ w / TIDTBLBLK_MAXSZ :=
        Nat.div_le_div_right (Nat.le_of_lt htw)
      omega

end LsShmTidMgr

end Lsmcd
