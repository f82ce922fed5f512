import Lsmcd.Shm.Alarm
import Lsmcd.Shm.TidLink

/-!
What an update that fails leaves behind.
-/

namespace Lsmcd

open LsShmHTable

namespace LsShmHash

variable {s s' : LsShmHash} {E E' : List Nat} {x : Nat} {key : List UInt8} {v : ValParm}

def valueOf (s : LsShmHash) (key : List UInt8) : Option (List UInt8) :=
  if s.findKey key = 0 then none else (s.table.elem (s.findKey key)).map LsShmHElem.getVal

/--
Every key maps to what it did before, and the size, the LRU list and the transaction table are the
same. No alarm was raised.
-/
structure Unchanged (s s' : LsShmHash) : Prop where
  value : ∀ key, s'.valueOf key = s.valueOf key
  size : s'.size = s.size
  lru : s'.lru = s.lru
  tid : s'.toLsShmTidMgr = { s.toLsShmTidMgr with shm := s'.shm }
  tidLink : s'.tidLink = s.tidLink
  rebuilt : s'.rebuilt = s.rebuilt

theorem Unchanged.refl (s : LsShmHash) : Unchanged s s :=
  ⟨fun _ => rfl, rfl, rfl, rfl, rfl, rfl⟩

theorem Rep.valueOf_of_mem (h : Rep s E) (hx : x ∈ E) {e : LsShmHElem} (he : s.table.elem x = some e)
    : s.valueOf e.key = some e.getVal := by
  have hfind : s.findKey e.key = x := h.lookup.find2_eq hx (by simp [keyOf, he])
  unfold valueOf
  rw [hfind, if_neg (h.ne_zero hx), he]
  rfl

theorem Rep.valueOf_none (h : Rep s E) (hnone : ∀ x ∈ E, s.table.keyOf x ≠ key)
    : s.valueOf key = none := by
  have hz : s.findKey key = 0 := h.lookup.find2_eq_zero_iff.mpr hnone
  unfold valueOf
  rw [if_pos hz]

theorem Rep.valueOf_congr (h : Rep s E) (h' : Rep s' E)
    (he : ∀ x ∈ E, s'.table.elem x = s.table.elem x) (key : List UInt8)
    : s'.valueOf key = s.valueOf key := by
  have hkey : ∀ x ∈ E, s'.table.keyOf x = s.table.keyOf x := by
    intro x hx
    simp only [keyOf, he x hx]
  rcases h.lookup.find2_cases key with ⟨_, hnone⟩ | ⟨hx, hkx⟩
  . rw [h.valueOf_none hnone, h'.valueOf_none]
    intro x hx
    rw [hkey x hx]
    exact hnone x hx
  . obtain ⟨e, hel, _⟩ := h.elems _ hx
    have hek : e.key = key := by simpa [keyOf, hel] using hkx
    subst hek
    rw [h.valueOf_of_mem hx hel, h'.valueOf_of_mem hx ((he _ hx).trans hel)]

theorem insertCopy2_stopped (h : Rep s E) (hkey : Nat) (parms : StrPair)
    (hno : ¬ s.Placed parms.key.length parms.val.len)
    : ∃ m, Shm.Grows s.rehashed.1.shm m ∧
        s.insertCopy2 hkey parms = ({ s.rehashed.1 with shm := m }, 0) := by
  have hsize := elementSize_kept (Kept.rehashed h) parms.key.length parms.val.len
  unfold insertCopy2
  dsimp only
  rw [← rehashed]
  by_cases hfull : s.rehashed.2 = false ∧ s.rehashed.1.size = s.rehashed.1.capacity
  . rw [if_pos hfull]
    exact ⟨_, Shm.Grows.refl _, rfl⟩
  . have h0 : (s.rehashed.1.shm.alloc2 (s.elementSize parms.key.length parms.val.len)).2 = 0 := by
      by_contra h0
      exact hno ⟨hfull, h0⟩
    rw [if_neg hfull]
    refine ⟨_, Shm.grows_alloc2 s.rehashed.1.shm (s.elementSize parms.key.length parms.val.len), ?_⟩
    have hfail : s.rehashed.1.allocIter parms.key.length parms.val.len = ({ s.rehashed.1 with
        shm := (s.rehashed.1.shm.alloc2 (s.elementSize parms.key.length parms.val.len)).1 }, 0) := by
      unfold allocIter
      dsimp only
      rw [hsize, if_pos h0]
    rw [hfail]
    rfl

theorem insert2_eq_zero_iff (h : Rep s E) (hkey : Nat) (parms : StrPair)
    : (s.insert2 hkey parms).2 = 0 ↔ ¬ s.Placed parms.key.length parms.val.len := by
  rw [insert2_eq]
  constructor
  . exact fun h0 hplaced => insertCopy2_placed h hkey parms hplaced h0
  . intro hno
    obtain ⟨m, _, heq⟩ := insertCopy2_stopped h hkey parms hno
    exact congrArg Prod.snd heq

theorem unchanged_stopped (h : Rep s E) {m : Shm} (hg : Shm.Grows s.rehashed.1.shm m)
    : Unchanged s { s.rehashed.1 with shm := m } := by
  obtain ⟨h₁, hk, _⟩ := rehashed_spec h
  have h₂ := h₁.withShm hg
  constructor
  case value => exact h.valueOf_congr h₂ (fun x _ => congrFun hk.elem x)
  case size => exact h₂.size.trans h.size.symm
  case lru => exact hk.lru
  case tid =>
    show { s.rehashed.1.toLsShmTidMgr with shm := m } = _
    rw [hk.tid]
  case tidLink => exact hk.tidLink
  case rebuilt => exact hk.rebuilt

theorem insertCb_tid (h : Rep s E) (hflag : s.flagTid = true) (off : Nat)
    : (s.insertCb off).x_tid = (s.x_tid + 1) % 2 ^ 64 := by
  have hnew : s.toLsShmTidMgr.newTid 0 = some ((s.x_tid + 1) % 2 ^ 64) := by
    simp [LsShmTidMgr.newTid]
  have hset : (s.toLsShmTidMgr.setTidTblEnt (iterOff2tidVal off) 0).1.x_tid = (s.x_tid + 1) % 2 ^ 64 := by
    rw [LsShmTidMgr.setTidTblEnt_of_newTid hnew]
    exact LsShmTidMgr.storeTidTblEnt_tid (h.blks.withTid _) _ _
  unfold insertCb insertIterCb linkTid
  rw [if_pos hflag]
  dsimp only
  split
  . exact hset
  . split <;> exact hset

theorem insert2_unchanged_iff (h : Rep s E) (hkey : Nat) (parms : StrPair)
    (hno : ¬ s.Placed parms.key.length parms.val.len)
    : Unchanged s (s.insert2 hkey parms).1 ↔ s.flagTid = false := by
  obtain ⟨m, hg, heq⟩ := insertCopy2_stopped h hkey parms hno
  have hk := Kept.rehashed h
  have h₂ := (rehashed_spec h).1.withShm hg
  have hflag : ({ s.rehashed.1 with shm := m } : LsShmHash).flagTid = s.flagTid := hk.flagTid
  have htid : ({ s.rehashed.1 with shm := m } : LsShmHash).x_tid = s.x_tid := by
    show s.rehashed.1.toLsShmTidMgr.x_tid = s.x_tid
    rw [hk.tid]
  have hun := unchanged_stopped h hg
  rw [insert2_eq, heq]
  generalize ({ s.rehashed.1 with shm := m } : LsShmHash) = t at h₂ hflag htid hun
  dsimp only
  constructor
  . intro hsame
    by_contra ht
    have hnew := insertCb_tid h₂ (hflag.trans (by simpa using ht)) 0
    have hold : (t.insertCb 0).x_tid = s.x_tid := by
      rw [hsame.tid]
    rw [htid] at hnew
    omega
  . intro ht
    rw [insertCb_zero (hflag.trans ht)]
    exact hun

theorem insert2_failed_value (h : Rep s E) (hkey : Nat) {v : ValParm}
    (hno : ¬ s.Placed key.length v.len) (hkeys : ∀ x ∈ E, s.table.keyOf x ≠ key)
    : (s.insert2 hkey ⟨key, v⟩).1.valueOf key = none := by
  obtain ⟨m, hg, heq⟩ := insertCopy2_stopped h hkey ⟨key, v⟩ hno
  obtain ⟨h₁, hk, _⟩ := rehashed_spec h
  have h₂ := h₁.withShm hg
  have hq := quiet_insertCb ({ s.rehashed.1 with shm := m } : LsShmHash) 0
  rw [insert2_eq, heq]
  apply (h₂.quiet hq).valueOf_none
  intro x hx
  rw [hq.table]
  exact fun hkx => hkeys x hx ((keyOf_kept hk x).symm.trans hkx)

/--
The state is what it was before, or what it is without the element that is there, where this may be
removed.
-/
def Restored (s s' : LsShmHash) (x : Nat) (gone : Bool) : Prop :=
  Unchanged s s' ∨ gone = true ∧ Unchanged (s.eraseIteratorHelper x) s'

/--
When `doSet` fails harmlessly: a new element gets its memory or no transaction is recorded for it; one
that has to make room for a longer value gets it, or is one that may be removed.
-/
def SetKept (s : LsShmHash) (key : List UInt8) (v : ValParm) (gone : LsShmHElem → Bool) : Prop :=
  checkSize v.len = true →
    (s.findKey key = 0 → s.flagTid = true → s.Placed key.length v.len) ∧
    (s.findKey key ≠ 0 → ∀ e ∈ s.table.elem (s.findKey key), ¬ v.len ≤ e.realValLen →
      (s.eraseIteratorHelper (s.findKey key)).Placed key.length v.len ∨
        gone e = true ∧ s.flagTid = false)

instance (s : LsShmHash) (key : List UInt8) (v : ValParm) (gone : LsShmHElem → Bool)
    : Decidable (s.SetKept key v gone) :=
  inferInstanceAs (Decidable (_ → (_ → _ → _) ∧ (_ → ∀ e ∈ s.table.elem (s.findKey key), _ → _)))

theorem doSet_absent_iff (h : Rep s E) (hz : s.findKey key = 0) (gone : LsShmHElem → Bool)
    : ((s.doSet (s.findKey key) (s.m_hf key) ⟨key, v⟩).2 = 0 →
        Unchanged s (s.doSet (s.findKey key) (s.m_hf key) ⟨key, v⟩).1) ↔ s.SetKept key v gone := by
  unfold SetKept LsShmHash.doSet
  cases hsz : checkSize v.len with
  | false => simp [Unchanged.refl]
  | true =>
    rw [if_pos hz]
    simp only [Bool.not_true, Bool.false_eq_true, if_false, ne_eq, hz, not_true_eq_false,
      false_implies, and_true, true_implies]
    rw [insert2_eq_zero_iff h]
    constructor
    . intro hkeep ht
      by_contra hno
      have hflag := (insert2_unchanged_iff h _ ⟨key, v⟩ hno).mp (hkeep hno)
      rw [ht] at hflag
      cases hflag
    . intro hplaced hno
      apply (insert2_unchanged_iff h _ ⟨key, v⟩ hno).mpr
      by_contra ht
      exact hno (hplaced (by simpa using ht))

theorem doSet_present_iff (h : Rep s E) (hx : s.findKey key ∈ E) {e : LsShmHElem}
    (he : s.table.elem (s.findKey key) = some e) (gone : LsShmHElem → Bool)
    : ((s.doSet (s.findKey key) (s.m_hf key) ⟨key, v⟩).2 = 0 →
        Restored s (s.doSet (s.findKey key) (s.m_hf key) ⟨key, v⟩).1 (s.findKey key) (gone e)) ↔
      s.SetKept key v gone := by
  have hne := h.ne_zero hx
  have hkx : s.table.keyOf (s.findKey key) = key :=
    ((h.lookup.find2_cases key).resolve_left fun hnone => hne hnone.1).2
  unfold SetKept
  rw [he]
  cases hsz : checkSize v.len with
  | false =>
    unfold LsShmHash.doSet
    rw [if_pos (by simp [hsz])]
    simp only [true_implies, Bool.false_eq_true, false_implies, iff_true]
    exact Or.inl (Unchanged.refl s)
  | true =>
    obtain ⟨e', he', hiter, _⟩ := h.lookup.elem_some hx
    cases he.symm.trans he'
    unfold LsShmHash.doSet
    rw [if_neg (by simp [hsz]), if_neg hne, hiter]
    generalize s.findKey key = x at *
    simp only [true_implies, hne, ne_eq, not_false_eq_true, Option.mem_def, Option.some.injEq,
      forall_eq', false_implies, true_and]
    by_cases hfit : v.len ≤ e.realValLen
    . -- the value is written in place, which does not fail
      rw [if_pos hfit]
      simp [hne, hfit]
    . rw [if_neg hfit]
      obtain ⟨hparm, _, hkeys⟩ := erase_others h hx hkx
      have h₁ := (eraseIteratorHelper_spec h hx he).1
      simp only [hfit, not_false_eq_true, true_implies]
      rw [insert2_eq_zero_iff h₁]
      by_cases hplaced : (s.eraseIteratorHelper x).Placed key.length v.len
      . simp [hplaced]
      . have hun := insert2_unchanged_iff h₁ (s.m_hf key) ⟨key, v⟩ hplaced
        rw [hparm.flagTid] at hun
        have hlost : ¬ Unchanged s ((s.eraseIteratorHelper x).insert2 (s.m_hf key) ⟨key, v⟩).1 := by
          intro hsame
          have hstill := insert2_failed_value h₁ (s.m_hf key) hplaced hkeys
          have hek : e.key = key := by simpa [keyOf, he] using hkx
          have hold := h.valueOf_of_mem hx he
          rw [hek] at hold
          rw [hsame.value key, hold] at hstill
          cases hstill
        unfold Restored
        simp only [hplaced, not_false_eq_true, true_implies, hlost, false_or, hun]

/--
When `iterGrowValue` fails harmlessly: it gets no block, or one that passes for an element, and a
longer copy that is looked at again is not too large.
-/
def GrowKept (s : LsShmHash) (off n : Nat) (again : Bool) : Prop :=
  ∀ e ∈ s.table.elem off,
    let q := s.shm.alloc2 (e.x_iLen + round4 n)
    q.2 ≠ 0 → LsShmHElem.iterOk q.1 q.2 (q.1.junk q.2).x_iLen (q.1.junk q.2).x_iValOff = true ∧
      (again = true → e.x_iValOff < 32 ∨ e.x_iLen + round4 n ≤ VALIDATE_MAXLEN)

instance (s : LsShmHash) (off n : Nat) (again : Bool) : Decidable (s.GrowKept off n again) :=
  inferInstanceAs (Decidable (∀ e ∈ s.table.elem off,
    let q := s.shm.alloc2 (e.x_iLen + round4 n)
    q.2 ≠ 0 → LsShmHElem.iterOk q.1 q.2 (q.1.junk q.2).x_iLen (q.1.junk q.2).x_iValOff = true ∧
      (again = true → e.x_iValOff < 32 ∨ e.x_iLen + round4 n ≤ VALIDATE_MAXLEN)))

theorem unchanged_withShm (h : Rep s E) {m : Shm} (hg : Shm.Grows s.shm m)
    : Unchanged s { s with shm := m } :=
  ⟨h.valueOf_congr (h.withShm hg) (fun _ _ => rfl), rfl, rfl, rfl, rfl, rfl⟩

theorem iterGrowValue_unchanged_iff (h : Rep s E) (hcalm : s.rebuilt = false) (hx : x ∈ E) (n : Nat)
    (front : Bool)
    : ((s.iterGrowValue x n front).2 = 0 → Unchanged s (s.iterGrowValue x n front).1) ↔
      s.GrowKept x n s.flagTid := by
  obtain ⟨e, he, hok⟩ := h.elems x hx
  have hloud : ∀ t : LsShmHash, ¬ Unchanged s t.rebuild := by
    intro t hsame
    have hset : t.rebuild.rebuilt = false := hsame.rebuilt.trans hcalm
    cases hset
  have hout := iterGrowValue_outcome h hx he n front
  unfold GrowKept
  rw [he]
  simp only [Option.mem_def, Option.some.injEq, forall_eq'] at hout ⊢
  rcases hout with ⟨h0, heq⟩ | ⟨hne, hbad, heq⟩ | ⟨hne, hgood, t, _, hflag, hnew, heq⟩
  . rw [heq, h0]
    simp [unchanged_withShm h (Shm.grows_alloc2 s.shm (e.x_iLen + round4 n))]
  . rw [heq, hbad]
    simp [hne, hloud]
  . rw [heq, hflag, hgood]
    simp only [ne_eq, hne, not_false_eq_true, true_and, true_implies]
    cases ht : s.flagTid with
    | false => simp [hne]
    | true =>
      simp only [Bool.true_and, true_implies]
      by_cases hs : e.x_iValOff < 32 ∨ e.x_iLen + round4 n ≤ VALIDATE_MAXLEN
      . -- the copy is an element of a table in order
        have hcases := iterGrowValue_cases h hx he n front hs
        dsimp only at hcases
        rcases hcases with ⟨hz, _⟩ | ⟨_, hbad, _⟩ | ⟨_, _, _, _, _, _, _, _, _, hdone⟩
        . exact absurd hz hne
        . rw [hgood] at hbad
          cases hbad
        . rw [heq, hflag, ht] at hdone
          simp only [Bool.true_and] at hdone
          rw [hdone]
          simp [hne, hs]
      . have hnone : t.offset2iterator (s.shm.alloc2 (e.x_iLen + round4 n)).2 = none := by
          rw [not_or, not_lt, not_le] at hs
          exact offset2iterator_of_long hnew hs.1 hs.2
        rw [hnone]
        simp [hs, hloud]

theorem growKept_of_failed (h : Rep s E) (hx : x ∈ E) {n : Nat} {front : Bool}
    (h0 : (s.iterGrowValue x n front).2 = 0) (again : Bool)
    : s.GrowKept x n (s.flagTid || again) ↔ s.GrowKept x n s.flagTid := by
  obtain ⟨e, he, _⟩ := h.elems x hx
  have hout := iterGrowValue_outcome h hx he n front
  unfold GrowKept
  rw [he]
  simp only [Option.mem_def, Option.some.injEq, forall_eq'] at hout ⊢
  rcases hout with ⟨hz, _⟩ | ⟨_, hbad, _⟩ | ⟨hne, hgood, t, _, hflag, hnew, heq⟩
  . simp [hz]
  . simp [hbad]
  . rw [heq, hflag] at h0
    cases ht : s.flagTid with
    | true => simp
    | false =>
      rw [ht] at h0
      exact absurd h0 hne

theorem growKept_of_done (h : Rep s E) {n : Nat} {front : Bool}
    (h0 : (s.iterGrowValue (s.findKey key) n front).2 ≠ 0) (again : Bool)
    : s.GrowKept (s.findKey key) n again ↔ (again = true →
        ((s.iterGrowValue (s.findKey key) n front).1.offset2iterator
          (s.iterGrowValue (s.findKey key) n front).2).isSome = true) := by
  rw [iterGrowValue_isSome h h0]
  rcases h.lookup.find2_cases key with ⟨hz, _⟩ | ⟨hx, _⟩
  . rw [show s.findKey key = 0 from hz, iterGrowValue_zero] at h0
    exact absurd rfl h0
  change s.findKey key ∈ E at hx
  generalize s.findKey key = x at *
  obtain ⟨e, he, _⟩ := h.elems x hx
  have hout := iterGrowValue_outcome h hx he n front
  unfold GrowKept GrowSound
  rw [he]
  simp only [Option.mem_def, Option.some.injEq, forall_eq'] at hout ⊢
  rcases hout with ⟨_, heq⟩ | ⟨_, _, heq⟩ | ⟨hne, hgood, _⟩
  . rw [heq] at h0
    exact absurd rfl h0
  . rw [heq] at h0
    exact absurd rfl h0
  . simp [hne, hgood]

theorem valueOf_enterBucket {off : Nat} {e : LsShmHElem} (hoff : off ≠ 0)
    (he : s.table.elem off = some e) (hkey : e.x_hkey = s.m_hf e.key)
    : (s.enterBucket off e.x_hkey).valueOf e.key = none ∨
      (s.enterBucket off e.x_hkey).valueOf e.key = some e.getVal := by
  have helem : (s.enterBucket off e.x_hkey).table.elem off = some e := by
    rw [elem_enterBucket]
    exact he
  have hhead : (s.enterBucket off e.x_hkey).table.getBitMapEnt (e.x_hkey % s.capacity) = true ∧
      (s.enterBucket off e.x_hkey).table.hIdx (s.enterBucket off e.x_hkey).table.x_iHIdx
        (e.x_hkey % s.capacity) = off ∧ (s.enterBucket off e.x_hkey).capacity = s.capacity := by
    by_cases hz : s.table.x_iBitMapSz = 0 <;>
      simp [enterBucket, LsShmHash.setTable, getBitMapEnt, setBitMapEnt, putBitMapEnt, setHIdx, setNext,
        capacity, hz]
  obtain ⟨hbit, hhead, hcap⟩ := hhead
  have hhf : (s.enterBucket off e.x_hkey).m_hf e.key = e.x_hkey := hkey.symm
  generalize s.enterBucket off e.x_hkey = t at helem hbit hhead hcap hhf
  have hfind : t.findKey e.key = if t.shm.offset2ptr off then off else 0 := by
    unfold findKey find2
    dsimp only
    rw [hhf, hcap, hbit, hhead]
    unfold fuel Linked.seek
    simp [hoff, helem]
  unfold valueOf
  rw [hfind]
  cases t.shm.offset2ptr off with
  | false => exact Or.inl rfl
  | true =>
    right
    rw [if_pos rfl, if_neg hoff, helem]
    rfl

theorem iterGrowValue_refused (h : Rep s E) {n : Nat} {front : Bool}
    (h0 : (s.iterGrowValue (s.findKey key) n front).2 ≠ 0)
    (hnone : (s.iterGrowValue (s.findKey key) n front).1.offset2iterator
      (s.iterGrowValue (s.findKey key) n front).2 = none)
    : ¬ Unchanged s (s.iterGrowValue (s.findKey key) n front).1 := by
  have hunsound : ¬ s.GrowSound (s.findKey key) n := by
    rw [← iterGrowValue_isSome h h0, hnone]
    simp
  rcases h.lookup.find2_cases key with ⟨hz, _⟩ | ⟨hx, _⟩
  . rw [show s.findKey key = 0 from hz, iterGrowValue_zero] at h0
    exact absurd rfl h0
  change s.findKey key ∈ E at hx
  generalize s.findKey key = x at *
  obtain ⟨e, he, hok⟩ := h.elems x hx
  have hn : n ≠ 0 := by
    rintro rfl
    apply hunsound
    intro e' he'
    cases he.symm.trans he'
    exact hok.sound
  have hout := iterGrowValue_outcome h hx he n front
  dsimp only at hout
  rcases hout with ⟨_, heq⟩ | ⟨_, _, heq⟩ | ⟨hne, _, t, ht, _, hnew, heq⟩
  . rw [heq] at h0
    exact absurd rfl h0
  . rw [heq] at h0
    exact absurd rfl h0
  . rw [heq] at h0 ⊢
    split at h0
    . exact absurd rfl h0
    next hlast =>
    rw [if_neg hlast]
    intro hsame
    have hlen : ∀ e' : LsShmHElem, e'.getVal.length = e'.valLen := by
      intro e'
      simp [LsShmHElem.getVal]
    have hval := hsame.value e.key
    rw [h.valueOf_of_mem hx he] at hval
    generalize s.shm.alloc2 (e.x_iLen + round4 n) = q at *
    rcases valueOf_enterBucket hne hnew (hok.hkey.trans (congrFun ht.2.symm _)) with hcase | hcase
    . cases hval.symm.trans hcase
    . have hgrown : (growElem e (q.1.junk q.2) n front).valLen = e.valLen := by
        rw [← hlen, ← hlen e]
        exact congrArg List.length (Option.some.inj (hcase.symm.trans hval))
      have hgrown : e.valLen + n = e.valLen := hgrown
      omega

end LsShmHash

end Lsmcd
