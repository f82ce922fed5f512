import Lsmcd.Shm.HashStep
import Lsmcd.Shm.HashMap

/-!
`m_iHashInUse` against the blocks that the hash has.

Each operation changes the counter by what the blocks after it are going to be released with, less
what those before it were, as long as `alloc2` hands out the size that it is asked for.
-/

namespace Lsmcd

open LsShmHTable

namespace LsShmHash

variable {s s' : LsShmHash} {E L : List Nat} {x : Nat}

def tableCharge (t : LsShmHTable) : Nat :=
  size2roundSize (sz2TableSz t.x_iCapacity + sz2BitMapSz t.x_iCapacity)

def elemCharge (t : LsShmHTable) (E : List Nat) : Nat :=
  (E.map fun x => size2roundSize (lenOf t x)).sum

def charge (s : LsShmHash) (E : List Nat) : Nat :=
  tableCharge s.table + elemCharge s.table E + s.tblCharge

def Foreign (s : LsShmHash) (E : List Nat) (b : Nat) : Prop :=
  b ≠ s.table.x_iBitMap ∧ b ∉ E ∧ ¬ s.Uses b

structure Pays (s s' : LsShmHash) (E E' : List Nat) : Prop where
  charged : Shm.Charged s.shm s'.shm ((s'.charge E' : Int) - s.charge E)
  foreign : ∀ b n, s.shm.Owns b n → s.Foreign E b → s'.shm.Owns b n ∧ s'.Foreign E' b

theorem Pays.trans {s₁ s₂ s₃ : LsShmHash} {E₁ E₂ E₃ : List Nat} (h₁ : Pays s₁ s₂ E₁ E₂)
    (h₂ : Pays s₂ s₃ E₂ E₃) : Pays s₁ s₃ E₁ E₃ where
  charged := h₁.charged.trans h₂.charged (by omega)
  foreign := fun b n ho hb =>
    have hb₂ := h₁.foreign b n ho hb
    h₂.foreign b n hb₂.1 hb₂.2

theorem lenOf_congr {t t' : LsShmHTable} (h : t'.elem x = t.elem x) : lenOf t' x = lenOf t x := by
  unfold lenOf
  rw [h]

theorem elemCharge_congr {t t' : LsShmHTable} (h : ∀ x ∈ L, lenOf t' x = lenOf t x)
    : elemCharge t' L = elemCharge t L := by
  unfold elemCharge
  congr 1
  apply List.map_congr_left
  intro x hx
  rw [h x hx]

theorem elemCharge_cons (t : LsShmHTable) (x : Nat) (L : List Nat)
    : elemCharge t (x :: L) = size2roundSize (lenOf t x) + elemCharge t L := by
  simp [elemCharge]

theorem elemCharge_perm (t : LsShmHTable) {L L' : List Nat} (h : L.Perm L')
    : elemCharge t L = elemCharge t L' :=
  (h.map _).sum_eq

theorem elemCharge_erase (t : LsShmHTable) (hx : x ∈ L)
    : elemCharge t L = size2roundSize (lenOf t x) + elemCharge t (L.erase x) := by
  rw [elemCharge_perm t (List.perm_cons_erase hx), elemCharge_cons]

theorem pays_quiet (hb : LsShmTidMgr.Blks s.toLsShmTidMgr) (hq : Quiet s s') (L : List Nat)
    : Pays s s' L L := by
  obtain ⟨_, hf⟩ := hq.tid hb
  refine ⟨?_, ?_⟩
  . have heq : (s'.charge L : Int) - s.charge L = (s'.tblCharge : Int) - s.tblCharge := by
      unfold charge
      rw [hq.table]
      push_cast
      ring
    rw [heq]
    exact hf.charged
  . intro b n ho hfor
    refine ⟨hf.owns b n ho hfor.2.2, ?_, hfor.2.1, hf.uses b n ho hfor.2.2⟩
    rw [hq.table]
    exact hfor.1

theorem pays_of_same (htid : s'.toLsShmTidMgr = { s.toLsShmTidMgr with shm := s'.shm })
    (hcap : s'.table.x_iCapacity = s.table.x_iCapacity)
    (hbm : s'.table.x_iBitMap = s.table.x_iBitMap)
    (helem : ∀ x ∈ L, lenOf s'.table x = lenOf s.table x)
    (hch : Shm.Charged s.shm s'.shm 0) (hown : ∀ b n, s.shm.Owns b n → s'.shm.Owns b n)
    : Pays s s' L L := by
  have huses : ∀ b, s'.Uses b ↔ s.Uses b := by
    intro b
    rw [htid]
    exact Iff.rfl
  have hcnt : s'.tblCharge = s.tblCharge := by
    rw [htid]
    rfl
  refine ⟨?_, ?_⟩
  . have heq : s'.charge L = s.charge L := by
      unfold charge tableCharge
      rw [hcap, elemCharge_congr helem, hcnt]
    rw [heq, Int.sub_self]
    exact hch
  . intro b n ho hfor
    exact ⟨hown b n ho, by rw [hbm]; exact hfor.1, hfor.2.1, fun hu => hfor.2.2 ((huses b).mp hu)⟩

theorem pays_withShm {m : Shm} (hg : Shm.Grows s.shm m) (hch : Shm.Charged s.shm m 0)
    (L : List Nat) : Pays s { s with shm := m } L L :=
  pays_of_same rfl rfl rfl (fun _ _ => rfl) hch (fun _ _ ho => ho.grows hg)

theorem pays_entered (h : Entered s s') (L : List Nat) : Pays s s' L L := by
  have hshm : s'.shm = s.shm := congrArg LsShmTidMgr.shm h.tid
  apply pays_of_same _ h.capacity h.bitMap (fun x _ => lenOf_congr (by rw [h.elem]))
  . rw [hshm]
    exact Shm.Charged.refl _
  . intro b n ho
    rw [hshm]
    exact ho
  . rw [h.tid]

theorem pays_withElem {n : Nat} (h : Rep s E) (hne : (s.shm.alloc2 n).2 ≠ 0) {e : LsShmHElem}
    (hlen : e.x_iLen = n)
    : Pays s (s.withElem (s.shm.alloc2 n).1 (s.shm.alloc2 n).2 e) E ((s.shm.alloc2 n).2 :: E) := by
  have hch := Shm.charged_alloc2_of_ne hne
  have hg := Shm.grows_alloc2 s.shm n
  have hfresh := Shm.fresh_alloc2 _ _ hne
  have hpos := size2roundSize_pos (Shm.alloc2_size _ _ hne).1
  obtain ⟨hoffE, _⟩ := h.fresh hfresh hpos
  generalize (s.shm.alloc2 n).1 = m at hch hg hfresh ⊢
  generalize (s.shm.alloc2 n).2 = off at hfresh hoffE ⊢
  have hself : lenOf (s.withElem m off e).table off = n := by
    have hup : (s.withElem m off e).table.elem off = some e := Function.update_self _ _ _
    simp only [lenOf, hup, hlen]
  have hother : elemCharge (s.withElem m off e).table E = elemCharge s.table E := by
    apply elemCharge_congr
    intro y hy
    apply lenOf_congr
    apply setElem_of_ne
    rintro rfl
    exact hoffE hy
  refine ⟨?_, ?_⟩
  . have heq : ((s.withElem m off e).charge (off :: E) : Int) - s.charge E = size2roundSize n := by
      unfold charge
      rw [elemCharge_cons, hself, hother, show (s.withElem m off e).tblCharge = s.tblCharge from rfl,
        show tableCharge (s.withElem m off e).table = tableCharge s.table from rfl]
      push_cast
      ring
    rw [heq]
    exact hch
  . intro b k ho hfor
    refine ⟨ho.grows hg, hfor.1, ?_, hfor.2.2⟩
    rw [List.mem_cons, not_or]
    refine ⟨?_, hfor.2.1⟩
    rintro rfl
    exact hfresh.not_owns hpos ho

theorem pays_dropped {e : LsShmHElem} (hnd : L.Nodup) (hx : x ∈ L) (he : s.table.elem x = some e)
    (hd : Dropped s s' x e) : Pays s s' L (L.erase x) := by
  have hshm : s'.shm = s.shm.release2 x e.x_iLen := congrArg LsShmTidMgr.shm hd.tid
  have hlen : lenOf s.table x = e.x_iLen := by simp only [lenOf, he]
  have hother : elemCharge s'.table (L.erase x) = elemCharge s.table (L.erase x) := by
    apply elemCharge_congr
    intro y hy
    apply lenOf_congr
    rw [hd.elem, Function.update_of_ne (hnd.mem_erase_iff.mp hy).1]
  have hcnt : s'.tblCharge = s.tblCharge := by
    rw [hd.tid]
    rfl
  refine ⟨?_, ?_⟩
  . have heq : (s'.charge (L.erase x) : Int) - s.charge L = -(size2roundSize e.x_iLen : Int) := by
      have hcap : s'.table.x_iCapacity = s.table.x_iCapacity := hd.capacity
      unfold charge tableCharge
      rw [hother, hcnt, hcap, elemCharge_erase s.table hx, hlen]
      push_cast
      ring
    rw [heq, hshm]
    exact Shm.charged_release2 _ _ _
  . intro b n ho hfor
    have hbx : b ≠ x := by
      rintro rfl
      exact hfor.2.1 hx
    refine ⟨?_, ?_, fun hin => hfor.2.1 (List.mem_of_mem_erase hin), ?_⟩
    . rw [hshm]
      exact Shm.owns_release2.mpr ⟨ho, hbx⟩
    . rw [hd.bitMap]
      exact hfor.1
    . rw [hd.tid]
      exact hfor.2.2

theorem pays_erase (h : Rep s E) (hx : x ∈ E) (hnd : L.Nodup) (hxL : x ∈ L)
    : Pays s (s.eraseIteratorHelper x) L (L.erase x) := by
  obtain ⟨e, he, _⟩ := h.elems x hx
  obtain ⟨_, hd⟩ := eraseIteratorHelper_spec h hx he
  have hq := quiet_eraseCbs s x
  exact (pays_quiet h.blks hq L).trans (pays_dropped hnd hxL (by rw [hq.table]; exact he) hd)

theorem pays_rehash (h : Rep s E) : Pays s s.rehash.1 E E := by
  rcases rehash_cases h with ⟨h0, heq⟩ | ⟨h0, _, s', heq, hmoved, hrep⟩
  . rw [heq]
    exact pays_withShm (Shm.grows_alloc2 _ _) (Shm.charged_alloc2_of_eq h0) E
  . rw [heq]
    have hch := Shm.charged_alloc2_of_ne h0
    have hg := Shm.grows_alloc2 s.shm (sz2TableSz s.grownCapacity + sz2BitMapSz s.grownCapacity)
    have hfresh := Shm.fresh_alloc2 _ _ h0
    have hpos := size2roundSize_pos (Shm.alloc2_size _ _ h0).1
    generalize s.shm.alloc2 (sz2TableSz s.grownCapacity + sz2BitMapSz s.grownCapacity) = r
      at hch hg hfresh hmoved
    have hrest := hmoved.rest
    have hblk : oldBlk s'.table = s.table.x_iBitMap := by
      rw [← oldBlk_eq h]
      unfold oldBlk
      rw [hmoved.hdr.hIdx, hmoved.hdr.capacity]
      rfl
    have hcap : s'.capacity = s.capacity := hmoved.hdr.capacity
    have hshm : s'.switched.shm =
        r.1.release2 s.table.x_iBitMap (sz2TableSz s.capacity + sz2BitMapSz s.capacity) := by
      show s'.shm.release2 (oldBlk s'.table) (sz2TableSz s'.capacity + sz2BitMapSz s'.capacity) = _
      rw [hblk, hcap, hrest]
      rfl
    have htid : s'.switched.toLsShmTidMgr = { s.toLsShmTidMgr with shm := s'.switched.shm } := by
      show { s'.toLsShmTidMgr with shm := s'.switched.shm } = _
      rw [hrest]
      rfl
    have hnew : s'.switched.table.x_iCapacity = s.grownCapacity := hmoved.hdr.capacityNew
    have hbm : s'.switched.table.x_iBitMap = r.2 := hmoved.hdr.bitMap
    have helem : s'.switched.table.elem = s.table.elem := hmoved.hdr.elem
    generalize s'.switched = s₂ at hshm htid hnew hbm helem ⊢
    dsimp only
    refine ⟨?_, ?_⟩
    . have hcnt : s₂.tblCharge = s.tblCharge := by
        rw [htid]
        rfl
      have helems : elemCharge s₂.table E = elemCharge s.table E :=
        elemCharge_congr (fun x _ => lenOf_congr (by rw [helem]))
      have heqc : (s₂.charge E : Int) - s.charge E =
          size2roundSize (sz2TableSz s.grownCapacity + sz2BitMapSz s.grownCapacity) +
            -(size2roundSize (sz2TableSz s.capacity + sz2BitMapSz s.capacity) : Int) := by
        unfold charge tableCharge capacity
        rw [hnew, hcnt, helems]
        push_cast
        ring
      rw [heqc, hshm]
      exact hch.trans (Shm.charged_release2 _ _ _) rfl
    . intro b n ho hfor
      refine ⟨?_, ?_, hfor.2.1, ?_⟩
      . rw [hshm]
        exact Shm.owns_release2.mpr ⟨ho.grows hg, hfor.1⟩
      . rw [hbm]
        rintro rfl
        exact hfresh.not_owns hpos ho
      . rw [htid]
        exact hfor.2.2

theorem pays_rehashed (h : Rep s E) : Pays s s.rehashed.1 E E := by
  unfold rehashed
  split
  . exact pays_rehash h
  . exact pays_quiet h.blks (Quiet.refl s) E

def Paid (s s' : LsShmHash) (E : List Nat) : Prop :=
  ∃ E', Rep s' E' ∧ Pays s s' E E'

theorem Rep.paid (h : Rep s E) : Paid s s E := ⟨E, h, pays_quiet h.blks (Quiet.refl s) E⟩

theorem Rep.paid_quiet (h : Rep s E) (hq : Quiet s s') : Paid s s' E :=
  ⟨E, h.quiet hq, pays_quiet h.blks hq E⟩

theorem Paid.quiet (h : Paid s s' E) {s'' : LsShmHash} (hq : Quiet s' s'') : Paid s s'' E := by
  obtain ⟨E', hrep, hp⟩ := h
  exact ⟨E', hrep.quiet hq, hp.trans (pays_quiet hrep.blks hq E')⟩

theorem insert2_paid (h : Rep s E) (parms : StrPair)
    (hkey : ∀ x ∈ E, s.table.keyOf x ≠ parms.key)
    (hsound : s.Sound parms.key.length parms.val.len)
    : Paid s (s.insert2 (s.m_hf parms.key) parms).1 E := by
  rw [insert2_eq]
  dsimp only
  obtain ⟨h₁, _⟩ := rehashed_spec h
  have hp₁ := pays_rehashed h
  have hcases := insertCopy2_cases h hkey hsound
  dsimp only at hcases
  rcases hcases with ⟨_, heq⟩ | ⟨h0, heq⟩ | ⟨_, h0, h₂, hs₂, hroom, hkeys, heq⟩
  . rw [heq]
    exact Paid.quiet ⟨E, h₁, hp₁⟩ (quiet_insertCb _ 0)
  . rw [heq]
    have hg := Shm.grows_alloc2 s.rehashed.1.shm (s.elementSize parms.key.length parms.val.len)
    apply Paid.quiet _ (quiet_insertCb _ 0)
    exact ⟨E, h₁.withShm hg, hp₁.trans (pays_withShm hg (Shm.charged_alloc2_of_eq h0) E)⟩
  . rw [heq]
    have hp₂ := hp₁.trans (pays_withElem h₁ h0
      (e := s.newElem (s.m_hf parms.key) parms ((s.rehashed.1.shm.alloc2
        (s.elementSize parms.key.length parms.val.len)).1.junk (s.rehashed.1.shm.alloc2
        (s.elementSize parms.key.length parms.val.len)).2)) rfl)
    apply Paid.quiet _ (quiet_insertCb _ _)
    generalize hs : s.rehashed.1.withElem _ _ _ = s₂ at h₂ hs₂ hroom hkeys hp₂ ⊢
    have hcb := quiet_linkCb s₂ (s.rehashed.1.shm.alloc2
      (s.elementSize parms.key.length parms.val.len)).2
    obtain ⟨hrep, hent⟩ := enterBucket_spec (h₂.quiet hcb) (hs₂.quiet h₂ hcb)
      (by rw [hcb.table]; exact hkeys) (by unfold capacity; rw [hcb.table]; exact hroom)
    exact ⟨_, hrep, (hp₂.trans (pays_quiet h₂.blks hcb _)).trans (pays_entered hent _)⟩

variable {key : List UInt8} {v : ValParm}

theorem doSet_paid (h : Rep s E) (hsound : s.Sound key.length v.len)
    : Paid s (s.doSet (s.findKey key) (s.m_hf key) ⟨key, v⟩).1 E := by
  unfold LsShmHash.doSet
  split
  . exact h.paid
  rcases h.lookup.find2_cases key with ⟨hz, hnone⟩ | ⟨hx, hkx⟩
  . have hz : s.findKey key = 0 := hz
    rw [if_pos hz]
    exact insert2_paid h ⟨key, v⟩ hnone hsound
  . change s.findKey key ∈ E at hx
    change s.table.keyOf (s.findKey key) = key at hkx
    generalize s.findKey key = x at hx hkx ⊢
    obtain ⟨e, he, hiter, _⟩ := h.lookup.elem_some hx
    obtain ⟨e', he', hok⟩ := h.elems x hx
    cases he.symm.trans he'
    rw [if_neg (h.ne_zero hx), hiter]
    dsimp only
    split
    . next hfit =>
      have hrep := h.setElem (x := x) (o := some (e.setVal v))
        (fun _ => ⟨e, _, he, rfl, rfl, setVal_ok hok hfit⟩)
      apply Paid.quiet _ (quiet_updateCbs _ x)
      refine ⟨E, hrep, pays_of_same rfl rfl rfl ?_ (Shm.Charged.refl _) (fun _ _ ho => ho)⟩
      intro y _
      by_cases hyx : y = x
      . subst hyx
        have hnew : (s.table.setElem y (some (e.setVal v))).elem y = some (e.setVal v) :=
          Function.update_self _ _ _
        show lenOf (s.table.setElem y (some (e.setVal v))) y = lenOf s.table y
        simp only [lenOf, hnew, he]
        rfl
      . exact lenOf_congr (setElem_of_ne hyx _ _)
    . obtain ⟨hparm, _, hkeys⟩ := erase_others h hx hkx
      have h₁ := (eraseIteratorHelper_spec h hx he).1
      obtain ⟨E', hrep, hp⟩ := insert2_paid h₁ ⟨key, v⟩ hkeys (hparm.sound hsound)
      rw [hparm.hf] at hrep hp
      exact ⟨E', hrep, (pays_erase h hx h.nodup hx).trans hp⟩

theorem doInsert_paid (h : Rep s E) (hsound : s.Sound key.length v.len)
    : Paid s (s.doInsert (s.findKey key) (s.m_hf key) ⟨key, v⟩).1 E := by
  unfold LsShmHash.doInsert
  split
  . exact h.paid
  . next hz =>
    split
    . exact h.paid
    . exact insert2_paid h ⟨key, v⟩ (h.lookup.find2_eq_zero_iff.mp (not_not.mp hz)) hsound

theorem doUpdate_paid (h : Rep s E) (hsound : s.Sound key.length v.len)
    : Paid s (s.doUpdate (s.findKey key) (s.m_hf key) ⟨key, v⟩).1 E := by
  unfold LsShmHash.doUpdate
  split
  . exact h.paid
  . exact doSet_paid h hsound

def GrowJunk (s : LsShmHash) (off n : Nat) : Prop :=
  ∀ e ∈ s.table.elem off,
    let q := s.shm.alloc2 (e.x_iLen + round4 n)
    q.2 ≠ 0 → LsShmHElem.iterOk q.1 q.2 (q.1.junk q.2).x_iLen (q.1.junk q.2).x_iValOff = true

instance (s : LsShmHash) (off n : Nat) : Decidable (s.GrowJunk off n) :=
  inferInstanceAs (Decidable (∀ e ∈ s.table.elem off,
    let q := s.shm.alloc2 (e.x_iLen + round4 n)
    q.2 ≠ 0 → LsShmHElem.iterOk q.1 q.2 (q.1.junk q.2).x_iLen (q.1.junk q.2).x_iValOff = true))

theorem iterGrowValue_paid (h : Rep s E) {n : Nat} {front : Bool}
    (hsound : s.GrowSound (s.findKey key) n) (hjunk : s.GrowJunk (s.findKey key) n)
    : Paid s (s.iterGrowValue (s.findKey key) n front).1 E := by
  rcases h.lookup.find2_cases key with ⟨hz, _⟩ | ⟨hx, _⟩
  . have hz : s.findKey key = 0 := hz
    rw [hz, iterGrowValue_zero]
    exact h.paid
  . change s.findKey key ∈ E at hx
    generalize s.findKey key = x at hx hsound hjunk ⊢
    obtain ⟨e, he, _⟩ := h.elems x hx
    have hj := hjunk e he
    have hcases := iterGrowValue_cases h hx he n front (hsound e he)
    dsimp only at hcases hj
    rcases hcases with ⟨h0, heq⟩ | ⟨h0, hbad, heq⟩ | ⟨h0, _, h₁, hs₁, h₂, hs₂, _, hroom, hkeys, heq⟩
    . rw [heq]
      have hg := Shm.grows_alloc2 s.shm (e.x_iLen + round4 n)
      exact ⟨E, h.withShm hg, pays_withShm hg (Shm.charged_alloc2_of_eq h0) E⟩
    . rw [hj h0] at hbad
      cases hbad
    . rw [heq]
      have hp₁ := pays_withElem h h0 (e := growElem e ((s.shm.alloc2 (e.x_iLen + round4 n)).1.junk
        (s.shm.alloc2 (e.x_iLen + round4 n)).2) n front) rfl
      generalize s.withElem _ _ _ = s₁ at h₁ hs₁ h₂ hs₂ hroom hkeys hp₁ ⊢
      generalize (s.shm.alloc2 (e.x_iLen + round4 n)).2 = off at h₁ hs₁ h₂ hs₂ hroom hkeys hp₁ ⊢
      have hxo : ¬ off = x := by
        rintro rfl
        exact hs₁.notMem hx
      have hp₂ := hp₁.trans (pays_erase h₁ hx (List.nodup_cons.mpr ⟨hs₁.notMem, h.nodup⟩)
        (List.mem_cons_of_mem off hx))
      rw [List.erase_cons_tail (by simpa using hxo)] at hp₂
      have hq := (quiet_linkCb (s₁.eraseIteratorHelper x) off).trans (quiet_insertCb _ off)
      obtain ⟨hrep, hent⟩ := enterBucket_spec (h₂.quiet hq) (hs₂.quiet h₂ hq)
        (by rw [hq.table]; exact hkeys) (by unfold capacity; rw [hq.table]; exact hroom)
      exact ⟨_, hrep, (hp₂.trans (pays_quiet h₂.blks hq _)).trans (pays_entered hent _)⟩

theorem eraseKey_paid (h : Rep s E) : Paid s (s.eraseIteratorHelper (s.findKey key)) E := by
  rcases h.lookup.find2_cases key with ⟨hz, _⟩ | ⟨hx, _⟩
  . have hz : s.findKey key = 0 := hz
    rw [hz]
    exact h.paid
  . obtain ⟨e, he, _⟩ := h.elems _ hx
    exact ⟨_, (eraseIteratorHelper_spec h hx he).1, pays_erase h hx h.nodup hx⟩

theorem charged_releaseList (hnd : L.Nodup)
    : Shm.Charged s.shm (s.releaseList L).shm (-(elemCharge s.table L : Int)) := by
  induction L generalizing s with
  | nil => exact Shm.Charged.refl s.shm
  | cons x L ih =>
    rw [List.nodup_cons] at hnd
    have htail := ih (s := s.releaseElem x (lenOf s.table x)) hnd.2
    have hother : elemCharge (s.releaseElem x (lenOf s.table x)).table L = elemCharge s.table L := by
      apply elemCharge_congr
      intro y hy
      apply lenOf_congr
      apply setElem_of_ne
      rintro rfl
      exact hnd.1 hy
    rw [hother] at htail
    apply (Shm.charged_release2 s.shm x (lenOf s.table x)).trans htail
    rw [elemCharge_cons]
    push_cast
    ring

theorem clear_paid (h : Rep s E) : Paid s s.clear E := by
  obtain ⟨xs, hperm, heq, hrep⟩ := clear_spec h
  have hr := releaseList_spec s xs
  have hch := charged_releaseList (s := s) (hperm.nodup_iff.mpr h.nodup)
  rw [heq]
  apply Paid.quiet _ (quiet_clearCbs _)
  refine ⟨[], hrep, ?_⟩
  generalize hs₁ : s.releaseList xs = s₁ at hr hch ⊢
  have hcap : (s₁.setTable clearTable).table.x_iCapacity = s.table.x_iCapacity := by
    show s₁.table.x_iCapacity = _
    rw [hr.table]
  have hbm : (s₁.setTable clearTable).table.x_iBitMap = s.table.x_iBitMap := by
    show s₁.table.x_iBitMap = _
    rw [hr.table]
  have hcnt : (s₁.setTable clearTable).tblCharge = s.tblCharge := by
    show s₁.tblCharge = _
    rw [hr.tid]
    rfl
  refine ⟨?_, ?_⟩
  . have heqc : ((s₁.setTable clearTable).charge [] : Int) - s.charge E =
        -(elemCharge s.table xs : Int) := by
      unfold charge tableCharge
      rw [hcap, hcnt, elemCharge_perm s.table hperm]
      simp only [elemCharge, List.map_nil, List.sum_nil]
      push_cast
      ring
    rw [heqc]
    exact hch
  . intro b n ho hfor
    refine ⟨?_, ?_, by simp, ?_⟩
    . exact (hr.owns b n).mpr ⟨ho, fun hin => hfor.2.1 (hperm.mem_iff.mp hin)⟩
    . rw [hbm]
      exact hfor.1
    . show ¬ s₁.Uses b
      rw [hr.tid]
      exact hfor.2.2

section Trim

variable {act : Nat → LsShmHElem → TrimAct} {cost : LsShmHElem → Int} {st : TrimState}

def IterIn (st : TrimState) (_ : Unit) : Prop :=
  st.offElem ≠ 0 → 0 < st.left → st.hash.InTable st.offElem

instance (st : TrimState) (u : Unit) : Decidable (IterIn st u) :=
  inferInstanceAs (Decidable (_ → _ → _))

theorem trimIter_paid (h : Rep st.hash E) (hok : IterIn st ())
    : Paid st.hash (trimIter act cost st).hash E := by
  unfold trimIter
  split
  . exact h.paid
  next hgo =>
  push Not at hgo
  have hx := h.mem_of_inTable (hok hgo.1 (by omega)) hgo.1
  generalize hs : (if st.hash.flagTid then st.hash.onTid (·.checkTidTbl) else st.hash) = s
  have hq : Quiet st.hash s := hs ▸ quiet_ite (fun _ => quiet_checkTidTbl st.hash)
  have h₁ := h.quiet hq
  have hp := h.paid_quiet hq
  obtain ⟨e, he, hiter, _⟩ := h₁.lookup.elem_some hx
  dsimp only
  rw [hiter]
  dsimp only
  split
  . exact hp
  . exact hp
  . exact hp.quiet (quiet_linkSetTop s _)
  . have herase : Paid st.hash (s.eraseIteratorHelper st.offElem) E :=
      ⟨_, (eraseIteratorHelper_spec h₁ hx he).1,
        (pays_quiet h.blks hq E).trans (pays_erase h₁ hx h.nodup hx)⟩
    dsimp only
    exact herase.quiet (quiet_setLru _ _)

theorem Paid.trans (h : Paid s s' E) {s'' : LsShmHash} (h' : ∀ E', Rep s' E' → Paid s' s'' E')
    : Paid s s'' E := by
  obtain ⟨E', hrep, hp⟩ := h
  obtain ⟨E'', hrep', hp'⟩ := h' E' hrep
  exact ⟨E'', hrep', hp.trans hp'⟩

def TrimIn (s : LsShmHash) (act : Nat → LsShmHElem → TrimAct) (cost : LsShmHElem → Int)
    (left : Int) (fuel : Nat) : Prop :=
  s.flagLru = true → Run.Meets (fun st (_ : Unit) => trimIter act cost st) IterIn (s.trimStart left)
    (List.replicate fuel ())

instance (s : LsShmHash) (act : Nat → LsShmHElem → TrimAct) (cost : LsShmHElem → Int)
    (left : Int) (fuel : Nat) : Decidable (s.TrimIn act cost left fuel) :=
  inferInstanceAs (Decidable (s.flagLru = true → Run.Meets (fun st (_ : Unit) => trimIter act cost st)
    IterIn (s.trimStart left) (List.replicate fuel ())))

theorem trimLoop_paid (h : Rep s E) {left : Int} {fuel : Nat} (hok : s.TrimIn act cost left fuel)
    : Paid s (s.trimLoop act cost left fuel).1 E := by
  unfold trimLoop
  split
  . exact h.paid
  . next hlru =>
    have hend := Run.exec_invariant (fun st : TrimState => Paid s st.hash E)
      (fun st u hinv hiter => hinv.trans (fun E' hrep => trimIter_paid hrep hiter))
      (show Paid s (s.trimStart left).hash E from h.paid) (hok (by simpa using hlru))
    dsimp only
    exact hend.quiet (quiet_setLru _ _)

end Trim

structure Books (s : LsShmHash) (E : List Nat) (hdr : Nat) : Prop where
  rep : Rep s E
  owns : s.shm.Owns hdr (size2roundSize sizeofHTable)
  foreign : s.Foreign E hdr
  whole : s.shm.Whole
  inUse : (s.shm.m_iHashInUse : Int) % 2 ^ 32 =
    (size2roundSize sizeofHTable + s.charge E : Int) % 2 ^ 32
  lt : s.shm.m_iHashInUse < 2 ^ 32

variable {hdr : Nat}

theorem Books.paid (h : Books s E hdr) (hp : Paid s s' E) : ∃ E', Books s' E' hdr := by
  obtain ⟨E', hrep, hpay⟩ := hp
  obtain ⟨howns, hfor⟩ := hpay.foreign _ _ h.owns h.foreign
  refine ⟨E', hrep, howns, hfor, hpay.charged.whole h.whole, ?_, hpay.charged.lt h.lt⟩
  have hch := hpay.charged.inUse h.whole
  have hin := h.inUse
  omega

/--
The blocks of the transaction table, each with the size that it will be released with.
-/
def tidBlocks (t : LsShmTidMgr) : List (Nat × Nat) :=
  (List.range t.x_iBlkCnt).map (fun i => (t.blkAt i, size2roundSize sizeofTidTblBlk)) ++
    if t.x_iBlkCnt = 0 then [] else [(t.x_iBlkIdxOff, LsShmTidMgr.idxCharge t.x_iBlkCnt)]

theorem tidBlocks_sum (t : LsShmTidMgr) : ((tidBlocks t).map Prod.snd).sum = t.tblCharge := by
  unfold tidBlocks LsShmTidMgr.tblCharge
  split
  . next hz => simp [hz, LsShmTidMgr.idxCharge]
  . simp [Function.comp_def]

theorem tidBlocks_uses {t : LsShmTidMgr} {b : Nat × Nat} (hb : b ∈ tidBlocks t) : t.Uses b.1 := by
  unfold tidBlocks at hb
  rcases List.mem_append.mp hb with hb | hb
  . obtain ⟨i, hi, rfl⟩ := List.mem_map.mp hb
    rw [List.mem_range] at hi
    exact ⟨by omega, Or.inr ⟨i, hi, rfl⟩⟩
  . split at hb
    . cases hb
    . next hc =>
      rw [List.mem_singleton] at hb
      subst hb
      exact ⟨hc, Or.inl rfl⟩

theorem tidBlocks_owns {t : LsShmTidMgr} (h : LsShmTidMgr.Blks t) {b : Nat × Nat}
    (hb : b ∈ tidBlocks t) : t.shm.Owns b.1 b.2 := by
  unfold tidBlocks at hb
  rcases List.mem_append.mp hb with hb | hb
  . obtain ⟨i, hi, rfl⟩ := List.mem_map.mp hb
    exact h.owns i (List.mem_range.mp hi)
  . split at hb
    . cases hb
    . next hc =>
      rw [List.mem_singleton] at hb
      subst hb
      have ho := h.idx_owns hc
      unfold LsShmTidMgr.idxCharge
      rw [if_neg hc]
      exact ho

theorem tidBlocks_nodup {t : LsShmTidMgr} (h : LsShmTidMgr.Blks t)
    : ((tidBlocks t).map Prod.fst).Nodup := by
  unfold tidBlocks
  rw [List.map_append, List.nodup_append, List.map_map]
  refine ⟨?_, ?_, ?_⟩
  . apply List.Nodup.map_on _ List.nodup_range
    intro i hi j hj heq
    exact h.inj i (List.mem_range.mp hi) j (List.mem_range.mp hj) heq
  . split <;> simp
  . intro a ha b hb
    obtain ⟨i, hi, rfl⟩ := List.mem_map.mp ha
    split at hb
    . cases hb
    . simp only [List.map_cons, List.map_nil, List.mem_singleton] at hb
      subst hb
      exact h.idx_ne i (List.mem_range.mp hi)

def blocks (s : LsShmHash) (E : List Nat) (hdr : Nat) : List (Nat × Nat) :=
  (hdr, size2roundSize sizeofHTable) :: (s.table.x_iBitMap, tableCharge s.table) ::
    (E.map (fun x => (x, size2roundSize (lenOf s.table x))) ++ tidBlocks s.toLsShmTidMgr)

theorem blocks_sum (s : LsShmHash) (E : List Nat) (hdr : Nat)
    : ((s.blocks E hdr).map Prod.snd).sum = size2roundSize sizeofHTable + s.charge E := by
  have htid := tidBlocks_sum s.toLsShmTidMgr
  unfold blocks charge elemCharge
  simp only [List.map_cons, List.sum_cons, List.map_append, List.sum_append, List.map_map,
    Function.comp_def, htid]
  omega

theorem Books.charge_le (h : Books s E hdr)
    : size2roundSize sizeofHTable + s.charge E ≤ s.shm.m_iFileSize := by
  rw [← blocks_sum s E hdr]
  have hrep := h.rep
  have helems : ∀ x ∈ E, s.shm.Owns x (size2roundSize (lenOf s.table x)) := by
    intro x hx
    obtain ⟨e, he, hok⟩ := hrep.elems x hx
    have hlen : lenOf s.table x = e.x_iLen := by simp only [lenOf, he]
    rw [hlen]
    exact hok.owns
  have hfst : (E.map fun x => (x, size2roundSize (lenOf s.table x))).map Prod.fst = E := by
    rw [List.map_map]
    exact List.map_id E
  have huses : ∀ b ∈ (tidBlocks s.toLsShmTidMgr).map Prod.fst, s.Uses b := by
    intro b hb
    obtain ⟨p, hp, rfl⟩ := List.mem_map.mp hb
    exact tidBlocks_uses hp
  apply Shm.sum_le_fileSize
  . unfold blocks
    simp only [List.map_cons, List.map_append, hfst]
    rw [List.nodup_cons, List.nodup_cons, List.nodup_append]
    refine ⟨?_, ?_, hrep.nodup, tidBlocks_nodup hrep.blks, ?_⟩
    . simp only [List.mem_cons, List.mem_append, not_or]
      exact ⟨h.foreign.1, h.foreign.2.1, fun hin => h.foreign.2.2 (huses _ hin)⟩
    . simp only [List.mem_append, not_or]
      exact ⟨hrep.table_notMem, fun hin => hrep.unused _ (Or.inl rfl) (huses _ hin)⟩
    . rintro a ha b hb rfl
      exact hrep.unused a (Or.inr ha) (huses a hb)
  . intro b hb
    unfold blocks at hb
    simp only [List.mem_cons, List.mem_append, List.mem_map] at hb
    rcases hb with rfl | rfl | ⟨x, hx, rfl⟩ | hb
    . exact h.owns
    . exact hrep.tableOk.owns
    . exact helems x hx
    . exact tidBlocks_owns hrep.blks hb

theorem Books.inUse_eq (h : Books s E hdr)
    : s.shm.m_iHashInUse = size2roundSize sizeofHTable + s.charge E := by
  have hle := h.charge_le
  have hfs := s.shm.fileSize_lt
  have hin := h.inUse
  have hlt := h.lt
  omega

end LsShmHash

namespace AccountRun

open LsShmHash

/--
No element is taken for damaged, the block for a longer copy passes for an element, and evictions
walk along elements of the table.
-/
def Ok (s : LsShmHash) : LsShmHashOp → Prop
  | .doInsert key val => s.Sound key.length val.len
  | .doSet key val => s.Sound key.length val.len
  | .doUpdate key val => s.Sound key.length val.len
  | .iterGrowValue key n _ => s.GrowSound (s.findKey key) n ∧ s.GrowJunk (s.findKey key) n
  | .trim tmCutoff func fuel => s.TrimIn (trimAct tmCutoff func) (fun _ => 0) 1 fuel
  | .trimsize need func fuel =>
    s.TrimIn (fun _ e => .erase (trimRet func e)) (fun e => e.x_iLen) need fuel
  | .trimByCb maxCnt func fuel => s.TrimIn (trimByCbAct func) (fun _ => 1) maxCnt fuel
  | .time _ => True
  | .eraseIterator _ => True
  | .touchLru _ => True
  | .tidReplaceTid _ _ => True
  | .rehash => True
  | .clear => True

instance (s : LsShmHash) (op : LsShmHashOp) : Decidable (Ok s op) :=
  match op with
  | .doInsert key val => inferInstanceAs (Decidable (s.Sound key.length val.len))
  | .doSet key val => inferInstanceAs (Decidable (s.Sound key.length val.len))
  | .doUpdate key val => inferInstanceAs (Decidable (s.Sound key.length val.len))
  | .iterGrowValue _ _ _ => inferInstanceAs (Decidable (_ ∧ _))
  | .trim _ _ _ => inferInstanceAs (Decidable (TrimIn _ _ _ _ _))
  | .trimsize _ _ _ => inferInstanceAs (Decidable (TrimIn _ _ _ _ _))
  | .trimByCb _ _ _ => inferInstanceAs (Decidable (TrimIn _ _ _ _ _))
  | .time _ => .isTrue trivial
  | .eraseIterator _ => .isTrue trivial
  | .touchLru _ => .isTrue trivial
  | .tidReplaceTid _ _ => .isTrue trivial
  | .rehash => .isTrue trivial
  | .clear => .isTrue trivial

theorem step_paid {s : LsShmHash} {E : List Nat} (h : Rep s E) (op : LsShmHashOp) (hok : Ok s op)
    : Paid s (s.step op) E := by
  cases op with
  | time now => exact h.paid_quiet ⟨rfl, rfl, rfl, rfl, fun h => ⟨h, LsShmTidMgr.Frame.refl _⟩⟩
  | doInsert key val => exact doInsert_paid h hok
  | doSet key val => exact doSet_paid h hok
  | doUpdate key val => exact doUpdate_paid h hok
  | iterGrowValue key n front => exact iterGrowValue_paid h hok.1 hok.2
  | eraseIterator key => exact eraseKey_paid h
  | touchLru key =>
    unfold LsShmHash.step LsShmHash.touchLru
    dsimp only
    split
    . exact h.paid
    . split
      . exact h.paid_quiet (quiet_rebuild s)
      . exact h.paid_quiet (quiet_linkSetTop s _)
  | tidReplaceTid key pTid =>
    unfold LsShmHash.step
    dsimp only
    split
    . exact h.paid_quiet (quiet_tidReplaceTid s _ pTid)
    . exact h.paid
  | rehash => exact ⟨E, (rehash_spec h).1, pays_rehash h⟩
  | trim tmCutoff func fuel => exact trimLoop_paid h hok
  | trimsize need func fuel => exact trimLoop_paid h hok
  | trimByCb maxCnt func fuel => exact trimLoop_paid h hok
  | clear => exact clear_paid h

theorem allocHTable_books {m : Shm} {parm : HashParm} {init_size : Nat} {s : LsShmHash}
    (h : allocHTable m parm init_size = some s) (hn : init_size ≤ MAX_INIT_SIZE) (hw : m.Whole)
    : ∃ hdr, Books s [] hdr := by
  have hrep := allocHTable_rep h hn
  unfold allocHTable at h
  dsimp only at h
  have hw₁ := hw.poolAlloc2 sizeofHTable
  have hfresh₁ := Shm.fresh_poolAlloc2 m sizeofHTable
  generalize (m.poolAlloc2 sizeofHTable) = r at h hw₁ hfresh₁
  split at h
  . cases h
  next hr0 =>
  have hw₂ := hw₁.poolAlloc2 (sz2TableSz (roundUp init_size) + sz2BitMapSz (roundUp init_size))
  have hg := r.1.grows_poolAlloc2 (sz2TableSz (roundUp init_size) + sz2BitMapSz (roundUp init_size))
  have hfresh₂ := Shm.fresh_poolAlloc2 r.1
    (sz2TableSz (roundUp init_size) + sz2BitMapSz (roundUp init_size))
  have hsz := Shm.poolAlloc2_size r.1
    (sz2TableSz (roundUp init_size) + sz2BitMapSz (roundUp init_size))
  generalize r.1.poolAlloc2 (sz2TableSz (roundUp init_size) + sz2BitMapSz (roundUp init_size)) =
    q at h hw₂ hg hfresh₂ hsz
  split at h
  . cases h
  next hq0 =>
  cases h
  have howns := (hfresh₁ hr0).owns
  have hne : r.2.1 ≠ q.2.1 := by
    intro heq
    exact (hfresh₂ hq0).not_owns (size2roundSize_pos (hsz hq0).1) (heq ▸ howns)
  refine ⟨r.2.1, hrep, howns.grows ⟨hg.live, hg.fileSize⟩, ⟨hne, by simp, fun hu => hu.1 rfl⟩, hw₂, ?_, ?_⟩
  . simp [charge, tableCharge, elemCharge, LsShmTidMgr.tblCharge, LsShmTidMgr.init,
      LsShmTidMgr.idxCharge]
  . have hle := (hsz hq0).2
    have hround : size2roundSize (sz2TableSz (roundUp init_size) + sz2BitMapSz (roundUp init_size)) ≤
        size2roundSize LSSHM_MAXSIZE := size2roundSize_mono hle
    have hmax : size2roundSize sizeofHTable + size2roundSize LSSHM_MAXSIZE < 2 ^ 32 := by decide
    exact Nat.lt_of_le_of_lt (Nat.add_le_add_left hround _) hmax

/--
The counter is what the header, the table, the elements in the buckets and the blocks of the
transaction table are going to be released with.
-/
structure InUseExact (s : LsShmHash) : Prop where
  elements : ∃ E : List Nat, E.Nodup ∧ E.length = s.size ∧
    Linked.Buckets s.table.next 0 (s.table.hIdx s.table.x_iHIdx) s.table.getIndex s.capacity
      (· ∈ E) ∧
    s.shm.m_iHashInUse = size2roundSize sizeofHTable + tableCharge s.table +
      (E.map fun x => size2roundSize (lenOf s.table x)).sum + s.tblCharge

/--
In every run in which `alloc2Ex` gives no small block across two large pages the counter is exact in
every state, and after `clear` it is the charge of the table and of what the transaction table has
taken since.
-/
theorem inUseExact_exec (m : Shm) (parm : HashParm) (init_size : Nat) (s : LsShmHash)
    (h : allocHTable m parm init_size = some s) (hn : init_size ≤ MAX_INIT_SIZE) (hw : m.Whole)
    (ops : List LsShmHashOp) (hok : Run.Meets LsShmHash.step Ok s ops)
    : InUseExact (Run.exec LsShmHash.step s ops) ∧
      (Run.exec LsShmHash.step s ops).clear.shm.m_iHashInUse = size2roundSize sizeofHTable +
        tableCharge (Run.exec LsShmHash.step s ops).clear.table +
        (Run.exec LsShmHash.step s ops).clear.tblCharge := by
  obtain ⟨hdr, hinit⟩ := allocHTable_books h hn hw
  obtain ⟨E, hend⟩ := Run.exec_invariant (fun s => ∃ E, Books s E hdr)
    (fun s op ⟨E, hs⟩ hop => hs.paid (step_paid hs.rep op hop)) ⟨[], hinit⟩ hok
  generalize Run.exec LsShmHash.step s ops = s' at hend
  refine ⟨⟨E, hend.rep.nodup, hend.rep.size.symm, hend.rep.buckets, ?_⟩, ?_⟩
  . rw [hend.inUse_eq]
    unfold charge elemCharge
    omega
  . obtain ⟨E', hclear⟩ := hend.paid (clear_paid hend.rep)
    obtain ⟨xs, _, heq, hrep⟩ := clear_spec hend.rep
    have hsize : s'.clear.table.x_iSize = 0 := by
      rw [heq]
      exact (hrep.quiet (quiet_clearCbs _)).size
    have hnil : E' = [] := List.length_eq_zero_iff.mp (hclear.rep.size.symm.trans hsize)
    rw [hclear.inUse_eq, hnil]
    unfold charge elemCharge
    simp only [List.map_nil, List.sum_nil]
    omega

def sample : Option LsShmHash :=
  allocHTable (Shm.empty [Answer.clean 0x400 320, Answer.clean 0x800 64, Answer.clean 0x1000 48,
    Answer.clean 0x8000 9216, Answer.clean 0xc000 1024, Answer.clean 0x1100 48])
    (HashParm.clean false true) 7

theorem sample_isSome : sample.isSome = true := by decide

def sampleOps : List LsShmHashOp :=
  [.doInsert [1] (ValParm.ofBytes [10]), .doSet [2] (ValParm.ofBytes [20]), .eraseIterator [1]]

theorem inUseExact_exec_sample
    : InUseExact (Run.exec LsShmHash.step (sample.get sample_isSome) sampleOps) ∧
      (Run.exec LsShmHash.step (sample.get sample_isSome) sampleOps).shm.m_iHashInUse = 10672 :=
  ⟨(inUseExact_exec _ _ 7 _ (Option.some_get sample_isSome).symm (by decide) (by decide) sampleOps
    (by decide +kernel)).1, by decide +kernel⟩

def sampleStraddle : Option LsShmHash :=
  allocHTable (Shm.empty [Answer.clean 0x400 320, Answer.clean 0x800 64,
    { Answer.clean 0xffff0 32 with fileSize := 0x300000 },
    { Answer.clean 0x200000 0x100000 with fileSize := 0x300000 }]) (HashParm.clean false false) 7

theorem sampleStraddle_isSome : sampleStraddle.isSome = true := by decide

/--
The large page is charged, the size of the element is refunded.
-/
theorem not_inUseExact_straddle
    : ¬ InUseExact (Run.exec LsShmHash.step (sampleStraddle.get sampleStraddle_isSome)
        [.doInsert [1] (ValParm.ofBytes [10]), .eraseIterator [1]]) := by
  intro ⟨E, _, hlen, _, hin⟩
  have hE : E = [] := List.length_eq_zero_iff.mp (hlen.trans (by decide))
  subst hE
  exact absurd hin (by decide +kernel)

end AccountRun

end Lsmcd
