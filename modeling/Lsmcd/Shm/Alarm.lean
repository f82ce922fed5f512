import Lsmcd.Shm.Accounting
import Lsmcd.Shm.Handed

/-!
When `rebuild` is called.

An element of the table passes `offset2iterator`, so that an operation raises the alarm only where it
follows a link of the LRU list out of the table, where it looks at a block before it has written to
it, or where it passes the offset 0 of an insertion that failed to the transaction table.
-/

namespace Lsmcd

open LsShmHTable

namespace LsShmHash

variable {s s' : LsShmHash} {E : List Nat} {x : Nat} {key : List UInt8}

def Seen (s : LsShmHash) (off : Nat) : Prop :=
  (s.offset2iterator off).isSome = true

theorem Rep.seen (h : Rep s E) (hx : x ∈ E) : s.Seen x := by
  obtain ⟨e, _, hiter, _⟩ := h.lookup.elem_some hx
  unfold Seen
  rw [hiter]
  rfl

theorem Rep.seen_of_inTable (h : Rep s E) (hin : s.InTable x) (hx : x ≠ 0) : s.Seen x :=
  h.seen (h.mem_of_inTable hin hx)

theorem setLink_rebuilt {value : Nat} {f : LsHashLruInfo → LsHashLruInfo} (h : value ≠ 0 → s.Seen x)
    : (s.setLink x value f).1.rebuilt = s.rebuilt := by
  unfold setLink
  split
  . next hv =>
    have hseen := h hv
    unfold Seen at hseen
    split
    . next hnone =>
      rw [hnone] at hseen
      cases hseen
    . split <;> rfl
  . rfl

theorem setLink_cases (s : LsShmHash) (x value : Nat) (f : LsHashLruInfo → LsHashLruInfo)
    : (s.setLink x value f).1.lru = s.lru ∨ (s.setLink x value f).1.lru = f s.lru := by
  unfold setLink
  split
  . split
    . exact Or.inl rfl
    . split
      . exact Or.inr rfl
      . exact Or.inl rfl
  . exact Or.inl rfl

theorem setLink_linkFirst {s : LsShmHash} {x value : Nat} {f : LsHashLruInfo → LsHashLruInfo}
    (hf : (f s.lru).linkFirst = s.lru.linkFirst)
    : (s.setLink x value f).1.lru.linkFirst = s.lru.linkFirst := by
  rcases setLink_cases s x value f with heq | heq
  . rw [heq]
  . rw [heq, hf]

theorem setLink_seen {value y : Nat} {f : LsHashLruInfo → LsHashLruInfo} (h : s.Seen y)
    : (s.setLink x value f).1.Seen y := by
  rw [show (s.setLink x value f).1 = _ from lruOnly_setLink s x value f]
  exact h

theorem linkHElem_rebuilt (h : s.lru.linkFirst ≠ 0 → s.Seen s.lru.linkFirst)
    : (s.linkHElem x).rebuilt = s.rebuilt := by
  unfold linkHElem
  split
  . rfl
  . split
    . next hfirst =>
      have hset : (s.set_linkNext s.lru.linkFirst x).1.rebuilt = s.rebuilt :=
        setLink_rebuilt (fun _ => h hfirst)
      dsimp only
      split
      . exact hset
      . exact hset
    . rfl

theorem unlinkHElem_rebuilt (h : s.getLruLinkPtr x = true → s.lru.linkNext x ≠ 0 →
      s.lru.linkPrev x ≠ 0 → s.Seen (s.lru.linkNext x) ∧ s.Seen (s.lru.linkPrev x))
    : (s.unlinkHElem x).rebuilt = s.rebuilt := by
  unfold unlinkHElem
  split
  . rfl
  next hptr =>
  have hptr : s.getLruLinkPtr x = true := by simpa using hptr
  dsimp only
  by_cases hn : s.lru.linkNext x = 0
  . -- the predecessor is stored with a link of 0, which is no store
    rw [if_neg (not_not.mpr hn), if_neg (by simp)]
    dsimp only
    split
    . split
      . exact setLink_rebuilt (fun hv => absurd hn hv)
      . exact setLink_rebuilt (fun hv => absurd hn hv)
    . rw [if_neg (by simp)]
      rfl
  . rw [if_pos hn]
    by_cases hp : s.lru.linkPrev x = 0
    . have hset : s.set_linkPrev (s.lru.linkNext x) (s.lru.linkPrev x) = (s, false) := by
        unfold set_linkPrev setLink
        rw [if_neg (not_not.mpr hp)]
      rw [hset, if_neg (by simp)]
      dsimp only
      rw [if_neg (not_not.mpr hp), if_neg (by simp)]
      rfl
    . obtain ⟨hnext, hprev⟩ := h hptr hn hp
      have hset : (s.set_linkPrev (s.lru.linkNext x) (s.lru.linkPrev x)).1.rebuilt = s.rebuilt :=
        setLink_rebuilt (fun _ => hnext)
      have hkept : (s.set_linkPrev (s.lru.linkNext x) (s.lru.linkPrev x)).1.lru.linkPrev x =
          s.lru.linkPrev x := by
        rcases setLink_cases s (s.lru.linkNext x) (s.lru.linkPrev x)
          (·.setPrev (s.lru.linkNext x) (s.lru.linkPrev x)) with heq | heq
        . exact congrFun (congrArg LsHashLruInfo.linkPrev heq) x
        . refine (congrFun (congrArg LsHashLruInfo.linkPrev heq) x).trans ?_
          show Function.update s.lru.linkPrev _ _ x = _
          by_cases hxn : x = s.lru.linkNext x
          . rw [← hxn, Function.update_self]
          . rw [Function.update_of_ne hxn]
      have hseen : (s.set_linkPrev (s.lru.linkNext x) (s.lru.linkPrev x)).1.Seen (s.lru.linkPrev x) :=
        setLink_seen hprev
      generalize s.set_linkPrev (s.lru.linkNext x) (s.lru.linkPrev x) = r at hset hkept hseen
      split
      . exact hset
      . rw [hkept, if_pos hp]
        have hset₂ : (r.1.set_linkNext (s.lru.linkPrev x) (r.1.lru.linkNext x)).1.rebuilt = s.rebuilt :=
          (setLink_rebuilt (fun _ => hseen)).trans hset
        split
        . exact hset₂
        . exact hset₂

theorem linkSetTop_rebuilt (h : s.getLruLinkPtr x = true → s.lru.linkNext x ≠ 0 →
      s.Seen s.lru.linkFirst ∧
        (s.lru.linkPrev x ≠ 0 → s.Seen (s.lru.linkPrev x) ∧ s.Seen (s.lru.linkNext x)))
    : (s.linkSetTop x).rebuilt = s.rebuilt := by
  unfold linkSetTop
  split
  . rfl
  next hptr =>
  have hptr : s.getLruLinkPtr x = true := by simpa using hptr
  dsimp only
  split
  case isFalse => rfl
  case isTrue hn =>
    obtain ⟨hfirst, hmid⟩ := h hptr hn
    generalize hr : (if s.lru.linkPrev x = 0 then
      (s.setLru fun l => { l with linkLast := s.lru.linkNext x }, false)
      else s.set_linkNext (s.lru.linkPrev x) (s.lru.linkNext x)) = r
    have hr₁ : r.1.rebuilt = s.rebuilt ∧ r.1.lru.linkFirst = s.lru.linkFirst ∧
        ∀ y, s.Seen y → r.1.Seen y := by
      rw [← hr]
      split
      . exact ⟨rfl, rfl, fun _ hy => hy⟩
      . next hp =>
        exact ⟨setLink_rebuilt (fun _ => (hmid hp).1), setLink_linkFirst rfl,
          fun _ hy => setLink_seen hy⟩
    obtain ⟨hrebuilt, hfirst₁, hseen⟩ := hr₁
    split
    . exact hrebuilt
    . have hq : (r.1.set_linkPrev (s.lru.linkNext x) (s.lru.linkPrev x)).1.rebuilt = s.rebuilt :=
        (setLink_rebuilt (fun hp => hseen _ (hmid hp).2)).trans hrebuilt
      have hq₁ : (r.1.set_linkPrev (s.lru.linkNext x) (s.lru.linkPrev x)).1.lru.linkFirst =
          s.lru.linkFirst :=
        (setLink_linkFirst rfl).trans hfirst₁
      have hqs : (r.1.set_linkPrev (s.lru.linkNext x) (s.lru.linkPrev x)).1.Seen s.lru.linkFirst :=
        setLink_seen (hseen _ hfirst)
      generalize r.1.set_linkPrev (s.lru.linkNext x) (s.lru.linkPrev x) = q at hq hq₁ hqs
      split
      . exact hq
      . generalize hp : q.1.setLru (fun l => (l.setNext x 0).setPrev x l.linkFirst) = t
        have ht : t.rebuilt = s.rebuilt ∧ t.lru.linkFirst = s.lru.linkFirst ∧ t.Seen s.lru.linkFirst := by
          rw [← hp]
          exact ⟨hq, hq₁, hqs⟩
        have hset : (t.set_linkNext t.lru.linkFirst x).1.rebuilt = s.rebuilt := by
          rw [← ht.1, ht.2.1]
          exact setLink_rebuilt (fun _ => ht.2.2)
        split
        . exact hset
        . exact hset

def UnlinkIn (s : LsShmHash) (x : Nat) : Prop :=
  s.flagLru = true → s.getLruLinkPtr x = true → s.lru.linkNext x ≠ 0 → s.lru.linkPrev x ≠ 0 →
    s.InTable (s.lru.linkNext x) ∧ s.InTable (s.lru.linkPrev x)

def TopIn (s : LsShmHash) (x : Nat) : Prop :=
  s.getLruLinkPtr x = true → s.lru.linkNext x ≠ 0 →
    (s.lru.linkFirst ≠ 0 ∧ s.InTable s.lru.linkFirst) ∧
      (s.lru.linkPrev x ≠ 0 → s.InTable (s.lru.linkPrev x) ∧ s.InTable (s.lru.linkNext x))

def FirstIn (s : LsShmHash) : Prop :=
  s.flagLru = true → s.lru.linkFirst ≠ 0 → s.InTable s.lru.linkFirst

instance (s : LsShmHash) (x : Nat) : Decidable (s.UnlinkIn x) :=
  inferInstanceAs (Decidable (_ → _ → _ → _ → _))

instance (s : LsShmHash) (x : Nat) : Decidable (s.TopIn x) :=
  inferInstanceAs (Decidable (_ → _ → _))

instance (s : LsShmHash) : Decidable s.FirstIn := inferInstanceAs (Decidable (_ → _ → _))

theorem eraseIterCb_rebuilt (s : LsShmHash) (x : Nat) : (s.eraseIterCb x).rebuilt = s.rebuilt := by
  unfold eraseIterCb
  dsimp only
  split <;> rfl

theorem linkTid_rebuilt {pTid : Nat}
    (h : (s.onTid fun _ => (s.toLsShmTidMgr.setTidTblEnt (iterOff2tidVal x) pTid).1).Seen x)
    : (s.linkTid x pTid).rebuilt = s.rebuilt := by
  unfold linkTid
  dsimp only
  split
  . rfl
  . split
    . next hnone =>
      unfold Seen at h
      rw [hnone] at h
      cases h
    . rfl

theorem Rep.linkTid_rebuilt (h : Rep s E) (hx : x ∈ E) (pTid : Nat)
    : (s.linkTid x pTid).rebuilt = s.rebuilt :=
  LsShmHash.linkTid_rebuilt
    ((h.quiet (quiet_onTid s (fun hb => LsShmTidMgr.setTidTblEnt_blks hb _ _))).seen hx)

theorem Rep.linkSetTop_rebuilt (h : Rep s E) (hin : s.TopIn x) (hrep : Rep s' E)
    (hs : s'.lru = s.lru) (hptr : s'.getLruLinkPtr x = true → s.getLruLinkPtr x = true)
    : (s'.linkSetTop x).rebuilt = s'.rebuilt := by
  apply LsShmHash.linkSetTop_rebuilt
  rw [hs]
  intro hp hn
  obtain ⟨hfirst, hmid⟩ := hin (hptr hp) hn
  refine ⟨hrep.seen (h.mem_of_inTable hfirst.2 hfirst.1), ?_⟩
  intro hprev
  exact ⟨hrep.seen (h.mem_of_inTable (hmid hprev).1 hprev),
    hrep.seen (h.mem_of_inTable (hmid hprev).2 hn)⟩

theorem Rep.eraseCbs_rebuilt (h : Rep s E) (hin : s.UnlinkIn x)
    : (s.eraseCbs x).rebuilt = s.rebuilt := by
  have hunlink : (if s.flagLru then s.unlinkHElem x else s).rebuilt = s.rebuilt := by
    split
    . next hflag =>
      apply unlinkHElem_rebuilt
      intro hptr hn hp
      obtain ⟨hnext, hprev⟩ := hin hflag hptr hn hp
      exact ⟨h.seen_of_inTable hnext hn, h.seen_of_inTable hprev hp⟩
    . rfl
  unfold eraseCbs
  generalize (if s.flagLru then s.unlinkHElem x else s) = t at hunlink
  dsimp only
  split
  . exact (eraseIterCb_rebuilt t x).trans hunlink
  . exact hunlink

theorem leaveBucket_rebuilt (s : LsShmHash) (iterOff hashIndx offset next : Nat)
    : (s.leaveBucket iterOff hashIndx offset next).rebuilt = s.rebuilt := by
  unfold leaveBucket
  dsimp only
  split
  . rfl
  . split <;> rfl

theorem Rep.erase_rebuilt (h : Rep s E) (hx : x ∈ E) (hin : s.UnlinkIn x)
    : (s.eraseIteratorHelper x).rebuilt = s.rebuilt := by
  obtain ⟨e, he, _⟩ := h.elems x hx
  rw [eraseIteratorHelper_eq h hx he]
  exact (leaveBucket_rebuilt _ _ _ _ _).trans (h.eraseCbs_rebuilt hin)

theorem Rep.linkCb_rebuilt (h : Rep s E) (hin : s.FirstIn) (off : Nat)
    (hrep : Rep s' E) (hs : s'.lru = s.lru) (hflag : s'.flagLru = s.flagLru)
    : (s'.linkCb off).rebuilt = s'.rebuilt := by
  unfold linkCb
  split
  . next hlru =>
    apply linkHElem_rebuilt
    rw [hs]
    intro hfirst
    exact hrep.seen (h.mem_of_inTable (hin (hflag ▸ hlru) hfirst) hfirst)
  . rfl

def Placed (s : LsShmHash) (keyLen valLen : Nat) : Prop :=
  ¬ s.Full ∧ (s.rehashed.1.shm.alloc2 (s.elementSize keyLen valLen)).2 ≠ 0

instance (s : LsShmHash) (keyLen valLen : Nat) : Decidable (s.Placed keyLen valLen) :=
  inferInstanceAs (Decidable (_ ∧ _))

def InsertIn (s : LsShmHash) (keyLen valLen : Nat) : Prop :=
  s.FirstIn ∧ (s.flagTid = true → s.Placed keyLen valLen)

instance (s : LsShmHash) (keyLen valLen : Nat) : Decidable (s.InsertIn keyLen valLen) :=
  inferInstanceAs (Decidable (_ ∧ _))

theorem Kept.rehashed (h : Rep s E) : Kept s s.rehashed.1 := (rehashed_spec h).2.1

theorem insertCb_zero {s : LsShmHash} (h : s.flagTid = false) (off : Nat) : s.insertCb off = s := by
  unfold insertCb
  rw [if_neg (by simp [h])]

theorem Rep.insertCb_rebuilt (h : Rep s E) (hx : x ∈ E) : (s.insertCb x).rebuilt = s.rebuilt := by
  unfold insertCb
  split
  . exact h.linkTid_rebuilt hx 0
  . rfl

theorem insert2_rebuilt (h : Rep s E) (parms : StrPair)
    (hkey : ∀ x ∈ E, s.table.keyOf x ≠ parms.key)
    (hsound : s.Sound parms.key.length parms.val.len)
    (hin : s.InsertIn parms.key.length parms.val.len)
    : (s.insert2 (s.m_hf parms.key) parms).1.rebuilt = s.rebuilt := by
  obtain ⟨hfirst, hplaced⟩ := hin
  have hk := Kept.rehashed h
  rw [insert2_eq]
  dsimp only
  have hcases := insertCopy2_cases h hkey hsound
  dsimp only at hcases
  rcases hcases with ⟨hfull, heq⟩ | ⟨h0, heq⟩ | ⟨_, h0, h₂, hs₂, hroom, hkeys, heq⟩
  . have hflag : s.flagTid = false := by
      by_contra ht
      exact (hplaced (by simpa using ht)).1 hfull
    rw [heq]
    exact (congrArg rebuilt (insertCb_zero (hk.flagTid.trans hflag) 0)).trans hk.rebuilt
  . have hflag : s.flagTid = false := by
      by_contra ht
      exact (hplaced (by simpa using ht)).2 h0
    have hfail : ({ s.rehashed.1 with
        shm := (s.rehashed.1.shm.alloc2 (s.elementSize parms.key.length parms.val.len)).1 } :
        LsShmHash).flagTid = false :=
      hk.flagTid.trans hflag
    rw [heq]
    exact (congrArg rebuilt (insertCb_zero hfail 0)).trans hk.rebuilt
  . rw [heq]
    dsimp only
    have hlink := h.linkCb_rebuilt hfirst (s.rehashed.1.shm.alloc2
      (s.elementSize parms.key.length parms.val.len)).2 h₂ hk.lru hk.flagLru
    generalize hs : s.rehashed.1.withElem _ _ _ = s₂ at h₂ hs₂ hroom hkeys hlink ⊢
    have hcb := quiet_linkCb s₂ (s.rehashed.1.shm.alloc2
      (s.elementSize parms.key.length parms.val.len)).2
    obtain ⟨hrep, _⟩ := enterBucket_spec (h₂.quiet hcb) (hs₂.quiet h₂ hcb)
      (by rw [hcb.table]; exact hkeys) (by unfold capacity; rw [hcb.table]; exact hroom)
    have hsame : s₂.rebuilt = s.rebuilt := by
      rw [← hs]
      exact hk.rebuilt
    exact (hrep.insertCb_rebuilt (List.mem_cons_self ..)).trans (hlink.trans hsame)

theorem insertCopy2_placed (h : Rep s E) (hkey : Nat) (parms : StrPair)
    (hplaced : s.Placed parms.key.length parms.val.len) : (s.insertCopy2 hkey parms).2 ≠ 0 := by
  obtain ⟨hfull, h0⟩ := hplaced
  unfold Full at hfull
  have hsize := elementSize_kept (Kept.rehashed h) parms.key.length parms.val.len
  have hptr := (Shm.fresh_alloc2 _ _ h0).owns.offset2ptr
  unfold insertCopy2
  dsimp only
  rw [← rehashed, if_neg hfull]
  unfold allocIter
  dsimp only
  rw [hsize, if_neg h0]
  dsimp only
  rw [if_neg h0, if_neg (by rw [Bool.not_eq_true', Bool.not_eq_false]; exact hptr)]
  exact h0

def SetIn (s : LsShmHash) (key : List UInt8) (v : ValParm) : Prop :=
  checkSize v.len = true →
    (s.findKey key = 0 → s.InsertIn key.length v.len) ∧
    (s.findKey key ≠ 0 → ∀ e ∈ s.table.elem (s.findKey key),
      (v.len ≤ e.realValLen → s.flagLru = true → s.TopIn (s.findKey key)) ∧
      (¬ v.len ≤ e.realValLen → s.UnlinkIn (s.findKey key) ∧
        (s.eraseIteratorHelper (s.findKey key)).InsertIn key.length v.len))

instance (s : LsShmHash) (key : List UInt8) (v : ValParm) : Decidable (s.SetIn key v) :=
  inferInstanceAs (Decidable (_ → _ ∧ (_ → ∀ e ∈ s.table.elem (s.findKey key), _ ∧ _)))

variable {v : ValParm}

theorem updateCbs_rebuilt (h : Rep s E) (hx : x ∈ E)
    (htop : s.flagLru = true → (s.linkSetTop x).rebuilt = s.rebuilt)
    : (s.updateCbs x).rebuilt = s.rebuilt := by
  unfold updateCbs
  have htop : (if s.flagLru then s.linkSetTop x else s).rebuilt = s.rebuilt := by
    split
    . next hflag => exact htop hflag
    . rfl
  have hq : Quiet s (if s.flagLru then s.linkSetTop x else s) :=
    quiet_ite (fun _ => quiet_linkSetTop s x)
  generalize (if s.flagLru then s.linkSetTop x else s) = t at htop hq
  dsimp only
  split
  . have hrep := (h.quiet hq).quiet (quiet_eraseIterCb t x)
    exact (hrep.linkTid_rebuilt hx 0).trans ((eraseIterCb_rebuilt t x).trans htop)
  . exact htop

theorem doSet_rebuilt (h : Rep s E) (hsound : s.Sound key.length v.len) (hin : s.SetIn key v)
    : (s.doSet (s.findKey key) (s.m_hf key) ⟨key, v⟩).1.rebuilt = s.rebuilt := by
  unfold LsShmHash.doSet
  split
  . rfl
  next hsz =>
  have hsz : checkSize v.len = true := by simpa using hsz
  obtain ⟨hnew, hold⟩ := hin hsz
  rcases h.lookup.find2_cases key with ⟨hz, hnone⟩ | ⟨hx, hkx⟩
  . have hz : s.findKey key = 0 := hz
    rw [if_pos hz]
    exact insert2_rebuilt h ⟨key, v⟩ hnone hsound (hnew hz)
  . change s.findKey key ∈ E at hx
    change s.table.keyOf (s.findKey key) = key at hkx
    generalize s.findKey key = x at hx hkx hold ⊢
    obtain ⟨e, he, hiter, _⟩ := h.lookup.elem_some hx
    obtain ⟨e', he', hok⟩ := h.elems x hx
    cases he.symm.trans he'
    obtain ⟨htop, hunlink⟩ := hold (h.ne_zero hx) e he
    rw [if_neg (h.ne_zero hx), hiter]
    dsimp only
    split
    . next hfit =>
      have hrep := h.setElem (x := x) (o := some (e.setVal v))
        (fun _ => ⟨e, _, he, rfl, rfl, setVal_ok hok hfit⟩)
      have hself : (s.setTable (·.setElem x (some (e.setVal v)))).table.elem x = some (e.setVal v) :=
        Function.update_self ..
      apply updateCbs_rebuilt hrep hx
      intro hflag
      apply h.linkSetTop_rebuilt (htop hfit hflag) hrep rfl
      unfold getLruLinkPtr
      rw [hself, he]
      exact id
    . next hfit =>
      obtain ⟨hout, hins⟩ := hunlink hfit
      obtain ⟨hparm, _, hkeys⟩ := erase_others h hx hkx
      have h₁ := (eraseIteratorHelper_spec h hx he).1
      have hnew := insert2_rebuilt h₁ ⟨key, v⟩ hkeys (hparm.sound hsound) hins
      rw [hparm.hf] at hnew
      exact hnew.trans (h.erase_rebuilt hx hout)

/--
The state in which `iterGrowValue` has made the longer copy, the old element being still there.
-/
def copied (s : LsShmHash) (e : LsShmHElem) (n : Nat) (front : Bool) : LsShmHash :=
  let q := s.shm.alloc2 (e.x_iLen + round4 n)
  s.withElem q.1 q.2 (growElem e (q.1.junk q.2) n front)

def GrowIn (s : LsShmHash) (off n : Nat) (front : Bool) : Prop :=
  off ≠ 0 → ∀ e ∈ s.table.elem off, (s.shm.alloc2 (e.x_iLen + round4 n)).2 ≠ 0 →
    (s.copied e n front).UnlinkIn off ∧ ((s.copied e n front).eraseIteratorHelper off).FirstIn

instance (s : LsShmHash) (off n : Nat) (front : Bool) : Decidable (s.GrowIn off n front) :=
  inferInstanceAs (Decidable (_ → ∀ e ∈ s.table.elem off, _ → _ ∧ _))

theorem iterGrowValue_rebuilt (h : Rep s E) {n : Nat} {front : Bool}
    (hsound : s.GrowSound (s.findKey key) n) (hjunk : s.GrowJunk (s.findKey key) n)
    (hin : s.GrowIn (s.findKey key) n front)
    : (s.iterGrowValue (s.findKey key) n front).1.rebuilt = s.rebuilt := by
  rcases h.lookup.find2_cases key with ⟨hz, _⟩ | ⟨hx, _⟩
  . have hz : s.findKey key = 0 := hz
    rw [hz, iterGrowValue_zero]
  . change s.findKey key ∈ E at hx
    generalize s.findKey key = x at hx hsound hjunk hin ⊢
    obtain ⟨e, he, _⟩ := h.elems x hx
    have hj := hjunk e he
    have hin := hin (h.ne_zero hx) e he
    have hcases := iterGrowValue_cases h hx he n front (hsound e he)
    unfold copied at hin
    dsimp only at hcases hj hin
    rcases hcases with ⟨_, heq⟩ | ⟨h0, hbad, _⟩ | ⟨h0, _, h₁, hs₁, h₂, hs₂, _, hroom, hkeys, heq⟩
    . rw [heq]
    . rw [hj h0] at hbad
      cases hbad
    . rw [heq]
      obtain ⟨hout, hfirst⟩ := hin h0
      have hsame : (s.withElem (s.shm.alloc2 (e.x_iLen + round4 n)).1
          (s.shm.alloc2 (e.x_iLen + round4 n)).2 (growElem e ((s.shm.alloc2
          (e.x_iLen + round4 n)).1.junk (s.shm.alloc2 (e.x_iLen + round4 n)).2) n front)).rebuilt =
          s.rebuilt := rfl
      generalize s.withElem _ _ _ = s₁ at h₁ hs₁ h₂ hs₂ hroom hkeys hout hfirst hsame ⊢
      generalize (s.shm.alloc2 (e.x_iLen + round4 n)).2 = off at h₁ hs₁ h₂ hs₂ hroom hkeys hout hfirst ⊢
      have herase := (h₁.erase_rebuilt hx hout).trans hsame
      have hlink := h₂.linkCb_rebuilt hfirst off h₂ rfl rfl
      have hq := quiet_linkCb (s₁.eraseIteratorHelper x) off
      have hq₂ : Quiet ((s₁.eraseIteratorHelper x).linkCb off) (((s₁.eraseIteratorHelper x).linkCb off).onTid
          fun _ => (((s₁.eraseIteratorHelper x).linkCb off).toLsShmTidMgr.setTidTblEnt
            (iterOff2tidVal off) 0).1) :=
        quiet_onTid _ (fun hb => LsShmTidMgr.setTidTblEnt_blks hb _ _)
      -- the copy is in no bucket yet, but it is whole
      have hspare := hs₂.quiet h₂ (hq.trans hq₂)
      have hseen := hspare.ok.offset2iterator hspare.elem
      have hins : (((s₁.eraseIteratorHelper x).linkCb off).insertCb off).rebuilt =
          ((s₁.eraseIteratorHelper x).linkCb off).rebuilt := by
        unfold insertCb
        split
        . apply linkTid_rebuilt
          unfold Seen
          rw [hseen]
          rfl
        . rfl
      exact hins.trans (hlink.trans herase)

theorem eraseKey_rebuilt (h : Rep s E) (hin : s.findKey key ≠ 0 → s.UnlinkIn (s.findKey key))
    : (s.eraseIteratorHelper (s.findKey key)).rebuilt = s.rebuilt := by
  rcases h.lookup.find2_cases key with ⟨hz, _⟩ | ⟨hx, _⟩
  . have hz : s.findKey key = 0 := hz
    rw [hz]
    rfl
  . exact h.erase_rebuilt hx (hin (h.ne_zero hx))

theorem clear_rebuilt (h : Rep s E) : s.clear.rebuilt = s.rebuilt := by
  obtain ⟨xs, _, heq, _⟩ := clear_spec h
  have hr := releaseList_spec s xs
  have hlist : (s.releaseList xs).rebuilt = s.rebuilt := by
    rw [hr.rest]
  have hcbs : ∀ t : LsShmHash, t.clearCbs.rebuilt = t.rebuilt := by
    intro t
    unfold clearCbs
    dsimp only
    split <;> split <;> rfl
  rw [heq, hcbs]
  exact hlist

section Trim

variable {act : Nat → LsShmHElem → TrimAct} {cost : LsShmHElem → Int} {st : TrimState}

def grownTid (s : LsShmHash) : LsShmHash :=
  if s.flagTid then s.onTid (·.checkTidTbl) else s

def ActIn (s : LsShmHash) (off : Nat) : TrimAct → Prop
  | .stop => True
  | .skip => True
  | .top => s.TopIn off
  | .erase _ => s.UnlinkIn off

instance (s : LsShmHash) (off : Nat) (act : TrimAct) : Decidable (s.ActIn off act) :=
  match act with
  | .stop => .isTrue trivial
  | .skip => .isTrue trivial
  | .top => inferInstanceAs (Decidable (s.TopIn off))
  | .erase _ => inferInstanceAs (Decidable (s.UnlinkIn off))

def IterActIn (act : Nat → LsShmHElem → TrimAct) (st : TrimState) (_ : Unit) : Prop :=
  st.offElem ≠ 0 → 0 < st.left → ∀ e ∈ st.hash.table.elem st.offElem,
    st.hash.grownTid.ActIn st.offElem (act (st.hash.grownTid.getLruLasttime st.offElem) e)

instance (act : Nat → LsShmHElem → TrimAct) (st : TrimState) (u : Unit)
    : Decidable (IterActIn act st u) :=
  inferInstanceAs (Decidable (st.offElem ≠ 0 → 0 < st.left → ∀ e ∈ st.hash.table.elem st.offElem, _))

theorem trimIter_rebuilt (h : Rep st.hash E) (hok : IterIn st ()) (hact : IterActIn act st ())
    : (trimIter act cost st).hash.rebuilt = st.hash.rebuilt := by
  unfold trimIter
  split
  . rfl
  next hgo =>
  push Not at hgo
  have hx := h.mem_of_inTable (hok hgo.1 (by omega)) hgo.1
  rw [← grownTid]
  have hq : Quiet st.hash st.hash.grownTid := quiet_ite (fun _ => quiet_checkTidTbl st.hash)
  have hsame : st.hash.grownTid.rebuilt = st.hash.rebuilt := by
    unfold grownTid
    split <;> rfl
  have h₁ := h.quiet hq
  obtain ⟨e, he, hiter, _⟩ := h₁.lookup.elem_some hx
  have hact := hact hgo.1 (by omega) e (by rw [← hq.table]; exact he)
  dsimp only
  rw [hiter]
  dsimp only
  generalize act (st.hash.grownTid.getLruLasttime st.offElem) e = a at hact
  cases a with
  | stop => exact hsame
  | skip => exact hsame
  | top => exact (h₁.linkSetTop_rebuilt hact h₁ rfl id).trans hsame
  | erase ret => exact (h₁.erase_rebuilt hx hact).trans hsame

def TrimFollows (s : LsShmHash) (act : Nat → LsShmHElem → TrimAct) (cost : LsShmHElem → Int)
    (left : Int) (fuel : Nat) : Prop :=
  s.flagLru = true → Run.Meets (fun st (_ : Unit) => trimIter act cost st) (IterActIn act)
    (s.trimStart left) (List.replicate fuel ())

instance (s : LsShmHash) (act : Nat → LsShmHElem → TrimAct) (cost : LsShmHElem → Int)
    (left : Int) (fuel : Nat) : Decidable (s.TrimFollows act cost left fuel) :=
  inferInstanceAs (Decidable (s.flagLru = true →
    Run.Meets (fun st (_ : Unit) => trimIter act cost st) (IterActIn act) (s.trimStart left)
      (List.replicate fuel ())))

theorem trimLoop_rebuilt (h : Rep s E) {left : Int} {fuel : Nat} (hok : s.TrimIn act cost left fuel)
    (hact : s.TrimFollows act cost left fuel)
    : (s.trimLoop act cost left fuel).1.rebuilt = s.rebuilt := by
  unfold trimLoop
  split
  . rfl
  next hlru =>
  have hlru : s.flagLru = true := by simpa using hlru
  have hend := Run.exec_invariant
    (fun st : TrimState => (∃ E', Rep st.hash E') ∧ st.hash.rebuilt = s.rebuilt)
    (fun st u hinv hiter => by
      obtain ⟨⟨E', hrep⟩, hsame⟩ := hinv
      have hpaid : Paid st.hash (trimIter act cost st).hash E' := trimIter_paid hrep hiter.1
      obtain ⟨E'', hrep', _⟩ := hpaid
      exact ⟨⟨E'', hrep'⟩, (trimIter_rebuilt hrep hiter.1 hiter.2).trans hsame⟩)
    (show (∃ E', Rep (s.trimStart left).hash E') ∧ (s.trimStart left).hash.rebuilt = s.rebuilt from
      ⟨⟨E, h⟩, rfl⟩) ((hok hlru).and (hact hlru))
  exact hend.2

end Trim

end LsShmHash

namespace AlarmRun

open LsShmHash

/--
The links that an operation follows lead to elements of the table, and no insertion that the
transaction table is told about fails.
-/
def Follows (s : LsShmHash) : LsShmHashOp → Prop
  | .time _ => True
  | .doInsert key val => s.findKey key = 0 → checkSize val.len = true → s.InsertIn key.length val.len
  | .doSet key val => s.SetIn key val
  | .doUpdate key val => s.findKey key ≠ 0 → s.SetIn key val
  | .iterGrowValue key n front => s.GrowIn (s.findKey key) n front
  | .eraseIterator key => s.findKey key ≠ 0 → s.UnlinkIn (s.findKey key)
  | .touchLru key => s.flagLru = true → s.findKey key ≠ 0 ∧ s.TopIn (s.findKey key)
  | .tidReplaceTid _ _ => True
  | .rehash => True
  | .trim tmCutoff func fuel => s.TrimFollows (trimAct tmCutoff func) (fun _ => 0) 1 fuel
  | .trimsize need func fuel =>
    s.TrimFollows (fun _ e => .erase (trimRet func e)) (fun e => e.x_iLen) need fuel
  | .trimByCb maxCnt func fuel => s.TrimFollows (trimByCbAct func) (fun _ => 1) maxCnt fuel
  | .clear => True

instance (s : LsShmHash) (op : LsShmHashOp) : Decidable (Follows s op) :=
  match op with
  | .time _ => .isTrue trivial
  | .doInsert _ _ => inferInstanceAs (Decidable (_ → _ → _))
  | .doSet key val => inferInstanceAs (Decidable (s.SetIn key val))
  | .doUpdate _ _ => inferInstanceAs (Decidable (_ → _))
  | .iterGrowValue key n front => inferInstanceAs (Decidable (s.GrowIn (s.findKey key) n front))
  | .eraseIterator _ => inferInstanceAs (Decidable (_ → _))
  | .touchLru _ => inferInstanceAs (Decidable (_ → _ ∧ _))
  | .tidReplaceTid _ _ => .isTrue trivial
  | .rehash => .isTrue trivial
  | .trim _ _ _ => inferInstanceAs (Decidable (TrimFollows _ _ _ _ _))
  | .trimsize _ _ _ => inferInstanceAs (Decidable (TrimFollows _ _ _ _ _))
  | .trimByCb _ _ _ => inferInstanceAs (Decidable (TrimFollows _ _ _ _ _))
  | .clear => .isTrue trivial

/--
The condition on a step: the elements are not too large, and the block for a longer copy holds
nothing that `validate` refuses.
-/
def Ok (s : LsShmHash) (op : LsShmHashOp) : Prop :=
  AccountRun.Ok s op ∧ Follows s op

instance (s : LsShmHash) (op : LsShmHashOp) : Decidable (Ok s op) :=
  inferInstanceAs (Decidable (_ ∧ _))

theorem step_rebuilt {s : LsShmHash} {E : List Nat} (h : Rep s E) (op : LsShmHashOp) (hok : Ok s op)
    : (s.step op).rebuilt = s.rebuilt := by
  obtain ⟨hsize, hin⟩ := hok
  cases op with
  | time now => rfl
  | doInsert key val =>
    unfold LsShmHash.step LsShmHash.doInsert
    dsimp only
    split
    . rfl
    . next hz =>
      have hz : s.findKey key = 0 := not_not.mp hz
      split
      . rfl
      . next hsz =>
        exact insert2_rebuilt h ⟨key, val⟩ (h.lookup.find2_eq_zero_iff.mp hz) hsize
          (hin hz (by simpa using hsz))
  | doSet key val => exact doSet_rebuilt h hsize hin
  | doUpdate key val =>
    unfold LsShmHash.step LsShmHash.doUpdate
    dsimp only
    split
    . rfl
    . next hz => exact doSet_rebuilt h hsize (hin hz)
  | iterGrowValue key n front => exact iterGrowValue_rebuilt h hsize.1 hsize.2 hin
  | eraseIterator key => exact eraseKey_rebuilt h hin
  | touchLru key =>
    unfold LsShmHash.step LsShmHash.touchLru
    dsimp only
    split
    . rfl
    . next hlru =>
      obtain ⟨hne, htop⟩ := hin (by simpa using hlru)
      have hx := ((h.lookup.find2_cases key).resolve_left fun hnone => hne hnone.1).1
      obtain ⟨e, _, hiter, _⟩ := h.lookup.elem_some hx
      change s.offset2iterator (s.findKey key) = some e at hiter
      rw [hiter]
      exact h.linkSetTop_rebuilt htop h rfl id
  | tidReplaceTid key pTid =>
    unfold LsShmHash.step
    dsimp only
    split
    . next hkey =>
      have hx := ((h.lookup.find2_cases key).resolve_left fun hnone => hkey.2 hnone.1).1
      exact (h.quiet (quiet_unlinkTid s _)).linkTid_rebuilt hx pTid
    . rfl
  | rehash => exact (rehash_spec h).2.1.rebuilt
  | trim tmCutoff func fuel => exact trimLoop_rebuilt h hsize hin
  | trimsize need func fuel => exact trimLoop_rebuilt h hsize hin
  | trimByCb maxCnt func fuel => exact trimLoop_rebuilt h hsize hin
  | clear => exact clear_rebuilt h

/--
No alarm was raised, every element that is found passes `offset2iterator`, and an insertion that gets
its memory succeeds.
-/
structure NoAlarm (s : LsShmHash) : Prop where
  rebuilt : s.rebuilt = false
  found : ∀ key, s.findKey key ≠ 0 → s.Seen (s.findKey key)
  insert : ∀ key val, s.Placed key.length val.len → (s.insertCopy2 (s.m_hf key) ⟨key, val⟩).2 ≠ 0

def Succeeds (s : LsShmHash) : LsShmHashOp → Prop
  | .iterGrowValue key n front => s.findKey key ≠ 0 → ∀ e ∈ s.table.elem (s.findKey key),
    (s.shm.alloc2 (e.x_iLen + round4 n)).2 ≠ 0 → (s.iterGrowValue (s.findKey key) n front).2 ≠ 0
  | _ => True

theorem noAlarm_of_rep {s : LsShmHash} {E : List Nat} (h : Rep s E) (hsame : s.rebuilt = false)
    : NoAlarm s where
  rebuilt := hsame
  found := by
    intro key hne
    exact h.seen ((h.lookup.find2_cases key).resolve_left fun hnone => hne hnone.1).1
  insert := fun key val hplaced => insertCopy2_placed h _ ⟨key, val⟩ hplaced

theorem succeeds_of_rep {s : LsShmHash} {E : List Nat} (h : Rep s E) (op : LsShmHashOp)
    (hok : Ok s op) : Succeeds s op := by
  cases op with
  | iterGrowValue key n front =>
    intro hne e he h0
    have hx := ((h.lookup.find2_cases key).resolve_left fun hnone => hne hnone.1).1
    have hcases := iterGrowValue_cases h hx he n front (hok.1.1 e he)
    have hjunk := hok.1.2 e he
    change s.findKey key ∈ E at hx
    dsimp only at hcases hjunk
    rcases hcases with ⟨hz, _⟩ | ⟨_, hbad, _⟩ | ⟨_, _, _, _, _, _, _, _, _, heq⟩
    . exact absurd hz h0
    . rw [hjunk h0] at hbad
      cases hbad
    . exact fun hfail => h0 ((congrArg Prod.snd heq).symm.trans hfail)
  | _ => trivial

/--
In every run whose steps meet the condition no alarm is raised, and no operation that gets its memory
fails.
-/
theorem noAlarm_exec (m : Shm) (parm : HashParm) (init_size : Nat) (s : LsShmHash)
    (h : allocHTable m parm init_size = some s) (hn : init_size ≤ MAX_INIT_SIZE)
    (ops : List LsShmHashOp) (hok : Run.Meets LsShmHash.step Ok s ops)
    : NoAlarm (Run.exec LsShmHash.step s ops) ∧ Run.Meets LsShmHash.step Succeeds s ops := by
  have hinit : (∃ E, Rep s E) ∧ s.rebuilt = false := by
    refine ⟨⟨[], allocHTable_rep h hn⟩, ?_⟩
    unfold allocHTable at h
    dsimp only at h
    split at h
    . cases h
    split at h
    . cases h
    cases h
    rfl
  have hstep : ∀ s op, ((∃ E, Rep s E) ∧ s.rebuilt = false) → Ok s op →
      ((∃ E, Rep (s.step op) E) ∧ (s.step op).rebuilt = false) := by
    rintro s op ⟨⟨E, hrep⟩, hsame⟩ hop
    obtain ⟨E', hrep', _⟩ := AccountRun.step_paid hrep op hop.1
    exact ⟨⟨E', hrep'⟩, (step_rebuilt hrep op hop).trans hsame⟩
  constructor
  . obtain ⟨⟨E, hrep⟩, hsame⟩ := Run.exec_invariant _ hstep hinit hok
    exact noAlarm_of_rep hrep hsame
  . apply Run.Meets.of_invariant _ hstep _ hinit hok
    rintro s op ⟨⟨E, hrep⟩, _⟩ hop
    exact succeeds_of_rep hrep op hop

def sample : Option LsShmHash :=
  allocHTable (Shm.empty [Answer.clean 0x400 320, Answer.clean 0x800 64, Answer.clean 0x1000 64,
    Answer.clean 0x8000 9216, Answer.clean 0xc000 1024, Answer.clean 0x1100 64,
    Answer.clean 0x1200 64, Answer.clean 0x1300 64, Answer.clean 0x1400 64])
    (HashParm.clean true true) 7

theorem sample_isSome : sample.isSome = true := by decide

def sampleOps : List LsShmHashOp :=
  [.doInsert [1] (ValParm.ofBytes [10]), .doSet [2] (ValParm.ofBytes [20]),
    .doSet [3] (ValParm.ofBytes [30]), .iterGrowValue [2] 4 false, .touchLru [1], .trim 5 none 1]

theorem noAlarm_exec_sample
    : NoAlarm (Run.exec LsShmHash.step (sample.get sample_isSome) sampleOps) ∧
      Run.Meets LsShmHash.step Succeeds (sample.get sample_isSome) sampleOps :=
  noAlarm_exec _ _ 7 _ (Option.some_get sample_isSome).symm (by decide) sampleOps (by decide +kernel)

def sampleJunk : Option LsShmHash :=
  allocHTable (Shm.empty [Answer.clean 0x400 320, Answer.clean 0x800 64, Answer.clean 0x1000 32,
    { Answer.clean 0x2000 48 with
      junk := { x_iLen := 0xffffffff, x_iValOff := 0xffffffff, x_tid := 0, x_data := fun _ => 0xff } }])
    (HashParm.clean false false) 7

theorem sampleJunk_isSome : sampleJunk.isSome = true := by decide

/--
There is memory for the copy, but the operation fails and raises the alarm.
-/
theorem not_noAlarm_junk
    : ¬ (NoAlarm (Run.exec LsShmHash.step (sampleJunk.get sampleJunk_isSome)
          [.doInsert [1] (ValParm.ofBytes [10]), .iterGrowValue [1] 4 false]) ∧
        Run.Meets LsShmHash.step Succeeds (sampleJunk.get sampleJunk_isSome)
          [.doInsert [1] (ValParm.ofBytes [10]), .iterGrowValue [1] 4 false]) := by
  intro ⟨hcalm, _⟩
  exact absurd hcalm.rebuilt (by decide +kernel)

end AlarmRun

end Lsmcd
