import Lsmcd.Shm.LruLemmas
import Lsmcd.Shm.HashStep

/-!
The LRU list over all runs of the operations that rewire it.
-/

namespace Lsmcd

open LsShmHTable

namespace LsShmHash

def Linkable (e : LsShmHElem) : Prop :=
  sizeofVardata + sizeofHElemLink < e.x_iValOff ∧ e.x_iLen ≤ VALIDATE_MAXLEN

structure LruOk (s : LsShmHash) (xs : List Nat) : Prop where
  flag : s.flagLru = true
  rep : Rep s xs
  list : LruList s.lru xs
  linkable : ∀ x ∈ xs, ∀ e, s.table.elem x = some e → Linkable e

variable {s s' : LsShmHash} {xs ys : List Nat} {x : Nat}

theorem Rep.perm (h : Rep s xs) (hp : ys.Perm xs) : Rep s ys where
  nodup := hp.nodup_iff.mpr h.nodup
  size := h.size.trans hp.length_eq.symm
  size_le := hp.length_eq ▸ h.size_le
  elems := fun x hx => h.elems x (hp.mem_iff.mp hx)
  keys := fun x hx y hy => h.keys x (hp.mem_iff.mp hx) y (hp.mem_iff.mp hy)
  buckets := h.buckets.congr (fun _ _ => rfl) (fun _ _ => rfl) (fun _ _ => rfl) (fun _ => hp.mem_iff)
  bits := h.bits
  tableOk := h.tableOk
  table_notMem := fun hin => h.table_notMem (hp.mem_iff.mp hin)
  blks := h.blks
  unused := fun x hx => h.unused x (hx.imp_right hp.mem_iff.mp)

theorem ElemOk.hasLink {e : LsShmHElem} (h : ElemOk s x e) (he : s.table.elem x = some e)
    (hl : Linkable e) : s.HasLink x := by
  have ho := h.owns.mono (le_size2roundSize e.x_iLen)
  refine ⟨?_, e, h.offset2iterator he⟩
  unfold LsShmHash.getLruLinkPtr
  rw [he]
  exact validate_of_owns ho h.len_ge hl.2 (by simpa using hl.1)

theorem LruOk.hasLink (h : LruOk s xs) (hx : x ∈ xs) : s.HasLink x := by
  obtain ⟨e, he, hok⟩ := h.rep.elems x hx
  exact hok.hasLink he (h.linkable x hx e he)

theorem LruOk.quiet (h : LruOk s xs) (hq : Quiet s s') (hl : LruList s'.lru xs) : LruOk s' xs :=
  ⟨hq.flagLru.trans h.flag, h.rep.quiet hq, hl, by rw [hq.table]; exact h.linkable⟩

@[simp]
theorem linkTid_lru (s : LsShmHash) (off pTid : Nat) : (s.linkTid off pTid).lru = s.lru := by
  unfold linkTid
  dsimp only
  split
  . rfl
  . split <;> rfl

@[simp]
theorem eraseIterCb_lru (s : LsShmHash) (off : Nat) : (s.eraseIterCb off).lru = s.lru := by
  unfold eraseIterCb
  dsimp only
  split <;> rfl

@[simp]
theorem updateIterCb_lru (s : LsShmHash) (off : Nat) : (s.updateIterCb off).lru = s.lru := by
  simp [updateIterCb]

@[simp]
theorem insertCb_lru (s : LsShmHash) (off : Nat) : (s.insertCb off).lru = s.lru := by
  unfold insertCb insertIterCb
  split
  . exact linkTid_lru s off 0
  . rfl

theorem LruOk.insertCb (h : LruOk s xs) (off : Nat) : LruOk (s.insertCb off) xs :=
  h.quiet (quiet_insertCb s off) (by rw [insertCb_lru]; exact h.list)

theorem eraseCbs_list (h : LruOk s xs) (hx : x ∈ xs) (hok : s.UnlinkOk x)
    : LruList (s.eraseCbs x).lru (xs.erase x) := by
  have hu := unlinkHElem_list h.list (fun y hy => h.hasLink hy) hx hok
  unfold eraseCbs
  rw [if_pos h.flag]
  dsimp only
  split
  . rw [eraseIterCb_lru]
    exact hu
  . exact hu

theorem LruOk.erase (h : LruOk s xs) (hx : x ∈ xs) (hok : s.UnlinkOk x)
    : LruOk (s.eraseIteratorHelper x) (xs.erase x) := by
  obtain ⟨e, he, _⟩ := h.rep.elems x hx
  obtain ⟨hrep, hd⟩ := eraseIteratorHelper_spec h.rep hx he
  have hq := quiet_eraseCbs s x
  refine ⟨(hd.flagLru.trans hq.flagLru).trans h.flag, hrep, ?_, ?_⟩
  . rw [hd.lru]
    exact eraseCbs_list h hx hok
  . intro y hy e' he'
    rw [h.rep.nodup.mem_erase_iff] at hy
    rw [hd.elem, Function.update_of_ne hy.1, hq.table] at he'
    exact h.linkable y hy.2 e' he'

theorem LruOk.enter (h : LruOk s xs) {off : Nat} {e : LsShmHElem} (hs : Spare s xs off e)
    (hl : Linkable e) (hkeys : ∀ x ∈ xs, s.table.keyOf x ≠ e.key) (hroom : xs.length < s.capacity)
    (hq : Quiet (s.linkCb off) s') (hlru : s'.lru = (s.linkCb off).lru)
    : LruOk (s'.enterBucket off e.x_hkey) (xs ++ [off]) := by
  have hq' := (quiet_linkCb s off).trans hq
  have hcap : s'.capacity = s.capacity := by
    unfold capacity
    rw [hq'.table]
  obtain ⟨hrep, hent⟩ := enterBucket_spec (h.rep.quiet hq') (hs.quiet h.rep hq')
    (by rw [hq'.table]; exact hkeys) (by rw [hcap]; exact hroom)
  refine ⟨(hent.flagLru.trans hq'.flagLru).trans h.flag,
    hrep.perm (List.perm_append_singleton off xs), ?_, ?_⟩
  . rw [hent.lru, hlru, linkCb, if_pos h.flag]
    exact linkHElem_list h.list (fun y hy => h.hasLink hy) hs.notMem hs.ok.owns.ne_zero
      (hs.ok.hasLink hs.elem hl)
  . intro y hy e' he'
    rw [hent.elem, hq'.table] at he'
    rw [List.mem_append, List.mem_singleton] at hy
    rcases hy with hy | rfl
    . exact h.linkable y hy e' he'
    . cases hs.elem.symm.trans he'
      exact hl

theorem LruOk.withElem (h : LruOk s xs) {m : Shm} {off : Nat} {e : LsShmHElem}
    (hrep : Rep (s.withElem m off e) xs) (hoff : off ∉ xs) : LruOk (s.withElem m off e) xs := by
  refine ⟨h.flag, hrep, h.list, ?_⟩
  intro x hx e' he'
  have hxo : x ≠ off := by
    rintro rfl
    exact hoff hx
  exact h.linkable x hx e' ((setElem_of_ne hxo _ _).symm.trans he')

theorem LruOk.withShm (h : LruOk s xs) {m : Shm} (hg : Shm.Grows s.shm m)
    : LruOk { s with shm := m } xs :=
  ⟨h.flag, h.rep.withShm hg, h.list, h.linkable⟩

theorem LruOk.kept (h : LruOk s xs) (hrep : Rep s' xs) (hk : Kept s s') : LruOk s' xs := by
  refine ⟨hk.flagLru.trans h.flag, hrep, ?_, ?_⟩
  . rw [hk.lru]
    exact h.list
  . rw [hk.elem]
    exact h.linkable

theorem LruOk.rehash (h : LruOk s xs) : LruOk s.rehash.1 xs := by
  obtain ⟨hrep, hk, _⟩ := rehash_spec h.rep
  exact h.kept hrep hk

theorem LruOk.rehashed (h : LruOk s xs) : LruOk s.rehashed.1 xs := by
  obtain ⟨hrep, hk, _⟩ := rehashed_spec h.rep
  exact h.kept hrep hk

def LinkOk (s : LsShmHash) (keyLen valLen : Nat) : Prop :=
  sizeofVardata + sizeofHElemLink < s.valueOff keyLen ∧ s.elementSize keyLen valLen ≤ VALIDATE_MAXLEN

instance (s : LsShmHash) (keyLen valLen : Nat) : Decidable (s.LinkOk keyLen valLen) :=
  inferInstanceAs (Decidable (_ ∧ _))

theorem SameParm.linkOk (h : SameParm s s') {keyLen valLen : Nat} (hs : s.LinkOk keyLen valLen)
    : s'.LinkOk keyLen valLen := by
  have hv := valueOff_congr h.flagLru h.flagTid keyLen
  unfold LinkOk elementSize at hs ⊢
  rw [hv]
  exact hs

theorem LruOk.insert2 (h : LruOk s xs) (parms : StrPair)
    (hkey : ∀ x ∈ xs, s.table.keyOf x ≠ parms.key) (hok : s.LinkOk parms.key.length parms.val.len)
    : ∃ ys, LruOk (s.insert2 (s.m_hf parms.key) parms).1 ys := by
  rw [insert2_eq]
  dsimp only
  have hcases := insertCopy2_cases h.rep hkey (Or.inr hok.2)
  dsimp only at hcases
  rcases hcases with ⟨_, heq⟩ | ⟨_, heq⟩ | ⟨_, _, h₂, hs₂, hroom, hkeys, heq⟩
  . rw [heq]
    exact ⟨xs, h.rehashed.insertCb 0⟩
  . rw [heq]
    exact ⟨xs, (h.rehashed.withShm (Shm.grows_alloc2 _ _)).insertCb 0⟩
  . rw [heq]
    have hent := (h.rehashed.withElem h₂ hs₂.notMem).enter hs₂ hok hkeys hroom (Quiet.refl _) rfl
    exact ⟨_, hent.insertCb _⟩

theorem LruOk.linkSetTop (h : LruOk s xs) (hx : x ∈ xs) (hok : s.TopOk x)
    : ∃ ys, ys.Perm xs ∧ LruOk (s.linkSetTop x) ys := by
  obtain ⟨ys, hp, hl⟩ := linkSetTop_list h.list (fun y hy => h.hasLink hy) hx hok
  have hq := quiet_linkSetTop s x
  refine ⟨ys, hp, hq.flagLru.trans h.flag, (h.rep.quiet hq).perm hp, hl, ?_⟩
  rw [hq.table]
  exact fun y hy => h.linkable y (hp.mem_iff.mp hy)

def SetOk (s : LsShmHash) (off : Nat) (val : ValParm) : Prop :=
  ∀ e ∈ s.table.elem off, off ≠ 0 → checkSize val.len = true →
    (val.len ≤ e.realValLen → s.TopOk off) ∧ (¬ val.len ≤ e.realValLen → s.UnlinkOk off)

instance (s : LsShmHash) (off : Nat) (val : ValParm) : Decidable (s.SetOk off val) :=
  inferInstanceAs (Decidable (∀ e ∈ s.table.elem off, off ≠ 0 → checkSize val.len = true →
    (val.len ≤ e.realValLen → s.TopOk off) ∧ (¬ val.len ≤ e.realValLen → s.UnlinkOk off)))

theorem LruOk.doSet (h : LruOk s xs) {key : List UInt8} {v : ValParm}
    (hlink : s.LinkOk key.length v.len) (hset : s.SetOk (s.findKey key) v)
    : ∃ ys, LruOk (s.doSet (s.findKey key) (s.m_hf key) ⟨key, v⟩).1 ys := by
  unfold LsShmHash.doSet
  split
  . exact ⟨xs, h⟩
  next hsz =>
  have hsz : checkSize v.len = true := by simpa using hsz
  rcases h.rep.lookup.find2_cases key with ⟨hz, hnone⟩ | ⟨hx, hkx⟩
  . have hz : s.findKey key = 0 := hz
    rw [if_pos hz]
    exact h.insert2 ⟨key, v⟩ hnone hlink
  . change s.findKey key ∈ xs at hx
    change s.table.keyOf (s.findKey key) = key at hkx
    generalize s.findKey key = x at hx hkx hset ⊢
    obtain ⟨e, he, hiter, _⟩ := h.rep.lookup.elem_some hx
    obtain ⟨e', he', hok⟩ := h.rep.elems x hx
    cases he.symm.trans he'
    have hx0 := h.rep.ne_zero hx
    obtain ⟨htop, hunlink⟩ := hset e he hx0 hsz
    rw [if_neg hx0, hiter]
    dsimp only
    split
    . next hfit =>
      -- the value is overwritten in place
      have hrep := h.rep.setElem (x := x) (o := some (e.setVal v))
        (fun _ => ⟨e, _, he, rfl, rfl, setVal_ok hok hfit⟩)
      have h₁ : LruOk (s.setTable (·.setElem x (some (e.setVal v)))) xs := by
        refine ⟨h.flag, hrep, h.list, ?_⟩
        intro y hy e' he'
        by_cases hyx : y = x
        . subst hyx
          have hnew : Function.update s.table.elem y (some (e.setVal v)) y = some e' := he'
          rw [Function.update_self] at hnew
          cases hnew
          exact h.linkable y hy e he
        . exact h.linkable y hy e' ((setElem_of_ne hyx _ _).symm.trans he')
      obtain ⟨ys, _, h₂⟩ := h₁.linkSetTop hx (htop hfit)
      refine ⟨ys, ?_⟩
      rw [if_pos h₁.flag]
      split
      . exact h₂.quiet (quiet_updateIterCb _ x) (by rw [updateIterCb_lru]; exact h₂.list)
      . exact h₂
    . next hfit =>
      have h₁ := h.erase hx (hunlink hfit)
      obtain ⟨hparm, _, hkeys⟩ := erase_others h.rep hx hkx
      have hins := h₁.insert2 ⟨key, v⟩ hkeys (hparm.linkOk hlink)
      rw [hparm.hf] at hins
      exact hins

theorem LruOk.doInsert (h : LruOk s xs) {key : List UInt8} {v : ValParm}
    (hlink : s.LinkOk key.length v.len)
    : ∃ ys, LruOk (s.doInsert (s.findKey key) (s.m_hf key) ⟨key, v⟩).1 ys := by
  unfold LsShmHash.doInsert
  split
  . exact ⟨xs, h⟩
  . next hz =>
    split
    . exact ⟨xs, h⟩
    . exact h.insert2 ⟨key, v⟩ (h.rep.lookup.find2_eq_zero_iff.mp (not_not.mp hz)) hlink

theorem LruOk.doUpdate (h : LruOk s xs) {key : List UInt8} {v : ValParm}
    (hlink : s.LinkOk key.length v.len) (hset : s.SetOk (s.findKey key) v)
    : ∃ ys, LruOk (s.doUpdate (s.findKey key) (s.m_hf key) ⟨key, v⟩).1 ys := by
  unfold LsShmHash.doUpdate
  split
  . exact ⟨xs, h⟩
  . exact h.doSet hlink hset

def GrowOk (s : LsShmHash) (off n : Nat) : Prop :=
  ∀ e ∈ s.table.elem off, e.x_iLen + round4 n ≤ VALIDATE_MAXLEN ∧ s.UnlinkOk off

instance (s : LsShmHash) (off n : Nat) : Decidable (s.GrowOk off n) :=
  inferInstanceAs (Decidable (∀ e ∈ s.table.elem off,
    e.x_iLen + round4 n ≤ VALIDATE_MAXLEN ∧ s.UnlinkOk off))

theorem LruOk.iterGrowValue (h : LruOk s xs) {key : List UInt8} {n : Nat} {front : Bool}
    (hok : s.GrowOk (s.findKey key) n)
    : ∃ ys, LruOk (s.iterGrowValue (s.findKey key) n front).1 ys := by
  rcases h.rep.lookup.find2_cases key with ⟨hz, _⟩ | ⟨hx, _⟩
  . have hz : s.findKey key = 0 := hz
    rw [hz, iterGrowValue_zero]
    exact ⟨xs, h⟩
  . change s.findKey key ∈ xs at hx
    generalize s.findKey key = x at hx hok ⊢
    obtain ⟨e, he, _⟩ := h.rep.elems x hx
    obtain ⟨hlen, hunlink⟩ := hok e he
    have hcases := iterGrowValue_cases h.rep hx he n front (Or.inr hlen)
    dsimp only at hcases
    rcases hcases with ⟨_, heq⟩ | ⟨_, _, heq⟩ | ⟨_, _, h₁, hs₁, _, hs₂, _, hroom, hkeys, heq⟩
    . rw [heq]
      exact ⟨xs, h.withShm (Shm.grows_alloc2 _ _)⟩
    . rw [heq]
      exact ⟨xs, (h.withShm (Shm.grows_alloc2 _ _)).quiet (quiet_rebuild _) h.list⟩
    . rw [heq]
      have hl := h.linkable x hx e he
      have h₂ := (h.withElem h₁ hs₁.notMem).erase hx hunlink
      exact ⟨_, h₂.enter hs₂ ⟨hl.1, hlen⟩ hkeys hroom (quiet_insertCb _ _) (insertCb_lru _ _)⟩

theorem LruOk.eraseKey (h : LruOk s xs) {key : List UInt8}
    (hok : s.findKey key ≠ 0 → s.UnlinkOk (s.findKey key))
    : ∃ ys, LruOk (s.eraseIteratorHelper (s.findKey key)) ys := by
  rcases h.rep.lookup.find2_cases key with ⟨hz, _⟩ | ⟨hx, _⟩
  . have hz : s.findKey key = 0 := hz
    rw [hz]
    exact ⟨xs, h⟩
  . exact ⟨_, h.erase hx (hok (h.rep.ne_zero hx))⟩

theorem LruOk.touchLru (h : LruOk s xs) {key : List UInt8}
    (hok : s.findKey key ≠ 0 → s.TopOk (s.findKey key))
    : ∃ ys, LruOk (s.touchLru (s.findKey key)) ys := by
  unfold LsShmHash.touchLru
  rw [if_neg (by simp [h.flag])]
  split
  . exact ⟨xs, h.quiet (quiet_rebuild s) h.list⟩
  . next e he =>
    rcases h.rep.lookup.find2_cases key with ⟨hz, _⟩ | ⟨hx, _⟩
    . have hz : s.findKey key = 0 := hz
      rw [hz, offset2iterator_zero] at he
      cases he
    . obtain ⟨ys, _, h'⟩ := h.linkSetTop hx (hok (h.rep.ne_zero hx))
      exact ⟨ys, h'⟩

theorem LruOk.tidReplaceTid (h : LruOk s xs) (key : List UInt8) (pTid : Nat)
    : LruOk (s.step (.tidReplaceTid key pTid)) xs := by
  unfold LsShmHash.step
  dsimp only
  split
  . apply h.quiet (quiet_tidReplaceTid s _ pTid)
    unfold LsShmHash.tidReplaceTid
    rw [linkTid_lru]
    exact h.list
  . exact h

theorem LruOk.clear (h : LruOk s xs) : LruOk s.clear [] := by
  obtain ⟨zs, _, heq, hrep⟩ := clear_spec h.rep
  have hr := releaseList_spec s zs
  have hq := quiet_clearCbs ((s.releaseList zs).setTable clearTable)
  have hflag : ((s.releaseList zs).setTable clearTable).flagLru = true := by
    rw [hr.rest]
    exact h.flag
  rw [heq]
  refine ⟨hq.flagLru.trans hflag, hrep.quiet hq, ?_, by simp⟩
  unfold clearCbs
  rw [if_pos hflag]
  dsimp only
  split
  . exact ⟨Linked.DList.empty, rfl⟩
  . exact ⟨Linked.DList.empty, rfl⟩

section Trim

def ActOk (s : LsShmHash) (off : Nat) : TrimAct → Prop
  | .stop => True
  | .skip => True
  | .top => s.TopOk off
  | .erase _ => s.UnlinkOk off

instance (s : LsShmHash) (off : Nat) (act : TrimAct) : Decidable (s.ActOk off act) :=
  match act with
  | .stop => .isTrue trivial
  | .skip => .isTrue trivial
  | .top => inferInstanceAs (Decidable (s.TopOk off))
  | .erase _ => inferInstanceAs (Decidable (s.UnlinkOk off))

variable {act : Nat → LsShmHElem → TrimAct} {cost : LsShmHElem → Int} {st : TrimState}

def IterOk (act : Nat → LsShmHElem → TrimAct) (st : TrimState) (_ : Unit) : Prop :=
  st.offElem ≠ 0 → 0 < st.left → ∀ e ∈ st.hash.table.elem st.offElem,
    st.hash.ActOk st.offElem (act (st.hash.lru.lasttime st.offElem) e)

instance (act : Nat → LsShmHElem → TrimAct) (st : TrimState) (u : Unit)
    : Decidable (IterOk act st u) :=
  inferInstanceAs (Decidable (st.offElem ≠ 0 → 0 < st.left → ∀ e ∈ st.hash.table.elem st.offElem,
    st.hash.ActOk st.offElem (act (st.hash.lru.lasttime st.offElem) e)))

def TrimInv (st : TrimState) : Prop :=
  ∃ xs, LruOk st.hash xs ∧ (st.offElem = 0 ∨ st.offElem ∈ xs)

theorem LruOk.setLru (h : LruOk s xs) {f : LsHashLruInfo → LsHashLruInfo}
    (hl : LruList (f s.lru) xs) : LruOk (s.setLru f) xs :=
  h.quiet (quiet_setLru s f) hl

theorem trimIter_inv (h : TrimInv st) (hok : IterOk act st ()) : TrimInv (trimIter act cost st) := by
  obtain ⟨xs, hlru, hoff⟩ := h
  unfold trimIter
  split
  . exact ⟨xs, hlru, hoff⟩
  next hgo =>
  push Not at hgo
  have hx := hoff.resolve_left hgo.1
  -- growing the transaction table changes neither the list nor the elements
  generalize hs : (if st.hash.flagTid then st.hash.onTid (·.checkTidTbl) else st.hash) = s
  have hq : Quiet st.hash s := hs ▸ quiet_ite (fun _ => quiet_checkTidTbl st.hash)
  have hl : s.lru = st.hash.lru := by
    rw [← hs]
    split <;> rfl
  have h₁ : LruOk s xs := hlru.quiet hq (by rw [hl]; exact hlru.list)
  obtain ⟨e, he, hiter, _⟩ := h₁.rep.lookup.elem_some hx
  have hlink := h₁.hasLink hx
  have hact := hok hgo.1 (by omega) e (by rw [← hq.table]; exact he)
  dsimp only
  rw [hiter]
  dsimp only
  rw [getLruLinkNext, if_pos hlink.ptr, getLruLasttime, if_pos hlink.ptr, hl]
  have hnext : st.hash.lru.linkNext st.offElem = 0 ∨ (st.hash.lru.linkNext st.offElem ∈ xs ∧
      st.hash.lru.linkNext st.offElem ≠ st.offElem) := by
    by_cases hn : st.hash.lru.linkNext st.offElem = 0
    . exact Or.inl hn
    . exact Or.inr (hlru.list.list.next_mem hx hn)
  cases hact' : act (st.hash.lru.lasttime st.offElem) e with
  | stop => exact ⟨xs, h₁, Or.inl rfl⟩
  | skip => exact ⟨xs, h₁, hnext.imp_right And.left⟩
  | top =>
    rw [hact'] at hact
    have htop : s.TopOk st.offElem := by
      unfold TopOk
      rw [hl]
      exact hact
    obtain ⟨ys, hp, h₂⟩ := h₁.linkSetTop hx htop
    exact ⟨ys, h₂, hnext.imp_right (fun hn => hp.mem_iff.mpr hn.1)⟩
  | erase ret =>
    rw [hact'] at hact
    have hunlink : s.UnlinkOk st.offElem := by
      unfold UnlinkOk
      rw [hl]
      exact hact
    have h₂ := h₁.erase hx hunlink
    have h₃ : ∀ ret, LruOk ((s.eraseIteratorHelper st.offElem).setLru fun l =>
        { l with ndataexp := l.ndataexp + ret, ndataset := l.ndataset - ret })
        (xs.erase st.offElem) :=
      fun _ => h₂.setLru ⟨h₂.list.list, h₂.list.nvalset⟩
    refine ⟨_, h₃ ret, ?_⟩
    exact hnext.imp_right (fun hn => h₁.rep.nodup.mem_erase_iff.mpr ⟨hn.2, hn.1⟩)

def TrimOk (s : LsShmHash) (act : Nat → LsShmHElem → TrimAct) (cost : LsShmHElem → Int)
    (left : Int) (fuel : Nat) : Prop :=
  Run.Meets (fun st (_ : Unit) => trimIter act cost st) (IterOk act) (s.trimStart left)
    (List.replicate fuel ())

instance (s : LsShmHash) (act : Nat → LsShmHElem → TrimAct) (cost : LsShmHElem → Int)
    (left : Int) (fuel : Nat) : Decidable (s.TrimOk act cost left fuel) :=
  Run.Meets.decidable _ _

theorem LruOk.trimLoop (h : LruOk s xs) {left : Int} {fuel : Nat}
    (hok : s.TrimOk act cost left fuel) : ∃ ys, LruOk (s.trimLoop act cost left fuel).1 ys := by
  have hstart : TrimInv (s.trimStart left) := by
    refine ⟨xs, h, ?_⟩
    by_cases h0 : s.lru.linkLast = 0
    . exact Or.inl h0
    . exact Or.inr (h.list.list.last_mem h0)
  obtain ⟨ys, hend, _⟩ := Run.exec_invariant TrimInv
    (fun st u hinv hiter => trimIter_inv hinv hiter) hstart hok
  unfold LsShmHash.trimLoop
  rw [if_neg (by simp [h.flag])]
  refine ⟨ys, ?_⟩
  dsimp only
  apply hend.setLru
  exact ⟨hend.list.list, hend.list.nvalset⟩

end Trim

end LsShmHash

namespace LruRun

open LsShmHash

/--
An element that is taken out of the list has two neighbours or is the only one, an element that is
moved to the top is not the last one of several, and new elements can be linked.
-/
def Ok (s : LsShmHash) : LsShmHashOp → Prop
  | .time _ => True
  | .doInsert key val => s.LinkOk key.length val.len
  | .doSet key val => s.LinkOk key.length val.len ∧ s.SetOk (s.findKey key) val
  | .doUpdate key val => s.LinkOk key.length val.len ∧ s.SetOk (s.findKey key) val
  | .iterGrowValue key n _ => s.GrowOk (s.findKey key) n
  | .eraseIterator key => s.findKey key ≠ 0 → s.UnlinkOk (s.findKey key)
  | .touchLru key => s.findKey key ≠ 0 → s.TopOk (s.findKey key)
  | .tidReplaceTid _ _ => True
  | .rehash => True
  | .trim tmCutoff func fuel => s.TrimOk (trimAct tmCutoff func) (fun _ => 0) 1 fuel
  | .trimsize need func fuel =>
    s.TrimOk (fun _ e => .erase (trimRet func e)) (fun e => e.x_iLen) need fuel
  | .trimByCb maxCnt func fuel => s.TrimOk (trimByCbAct func) (fun _ => 1) maxCnt fuel
  | .clear => True

instance (s : LsShmHash) (op : LsShmHashOp) : Decidable (Ok s op) :=
  match op with
  | .time _ => .isTrue trivial
  | .doInsert key val => inferInstanceAs (Decidable (s.LinkOk key.length val.len))
  | .doSet _ _ => inferInstanceAs (Decidable (_ ∧ _))
  | .doUpdate _ _ => inferInstanceAs (Decidable (_ ∧ _))
  | .iterGrowValue key n _ => inferInstanceAs (Decidable (s.GrowOk (s.findKey key) n))
  | .eraseIterator _ => inferInstanceAs (Decidable (_ → _))
  | .touchLru _ => inferInstanceAs (Decidable (_ → _))
  | .tidReplaceTid _ _ => .isTrue trivial
  | .rehash => .isTrue trivial
  | .trim _ _ _ => inferInstanceAs (Decidable (TrimOk _ _ _ _ _))
  | .trimsize _ _ _ => inferInstanceAs (Decidable (TrimOk _ _ _ _ _))
  | .trimByCb _ _ _ => inferInstanceAs (Decidable (TrimOk _ _ _ _ _))
  | .clear => .isTrue trivial

/--
The list goes from `linkLast` to `linkFirst` and back through exactly the elements in the buckets.
-/
structure ListExact (s : LsShmHash) : Prop where
  elements : ∃ xs, Linked.Chain s.lru.linkNext 0 s.lru.linkLast xs ∧
    Linked.Chain s.lru.linkPrev 0 s.lru.linkFirst xs.reverse ∧ xs.Nodup ∧
    Linked.Buckets s.table.next 0 (s.table.hIdx s.table.x_iHIdx) s.table.getIndex s.capacity
      (· ∈ xs) ∧
    ∀ x ∈ xs, (s.lru.linkNext x = 0 ∨ s.lru.linkNext x ∈ xs) ∧
      (s.lru.linkPrev x = 0 ∨ s.lru.linkPrev x ∈ xs)
  nvalset : s.lru.nvalset = s.size

theorem step_lruOk (s : LsShmHash) (op : LsShmHashOp) (h : ∃ xs, LruOk s xs) (hok : Ok s op)
    : ∃ xs, LruOk (s.step op) xs := by
  obtain ⟨xs, h⟩ := h
  cases op with
  | time now =>
    have hq : Quiet s { s with now := now } :=
      ⟨rfl, rfl, rfl, rfl, fun h => ⟨h, LsShmTidMgr.Frame.refl _⟩⟩
    exact ⟨xs, h.quiet hq h.list⟩
  | doInsert key val => exact h.doInsert hok
  | doSet key val => exact h.doSet hok.1 hok.2
  | doUpdate key val => exact h.doUpdate hok.1 hok.2
  | iterGrowValue key n front => exact h.iterGrowValue hok
  | eraseIterator key => exact h.eraseKey hok
  | touchLru key => exact h.touchLru hok
  | tidReplaceTid key pTid => exact ⟨xs, h.tidReplaceTid key pTid⟩
  | rehash => exact ⟨xs, h.rehash⟩
  | trim tmCutoff func fuel => exact h.trimLoop hok
  | trimsize need func fuel => exact h.trimLoop hok
  | trimByCb maxCnt func fuel => exact h.trimLoop hok
  | clear => exact ⟨[], h.clear⟩

theorem listExact_of_lruOk {s : LsShmHash} {xs : List Nat} (h : LruOk s xs) : ListExact s := by
  refine ⟨⟨xs, h.list.list.up, h.list.list.down, h.rep.nodup, h.rep.buckets, ?_⟩, ?_⟩
  . intro x hx
    constructor
    . by_cases hn : s.lru.linkNext x = 0
      . exact Or.inl hn
      . exact Or.inr (h.list.list.next_mem hx hn).1
    . by_cases hp : s.lru.linkPrev x = 0
      . exact Or.inl hp
      . exact Or.inr (h.list.list.prev_mem hx hp)
  . rw [h.list.nvalset]
    exact congrArg Nat.cast h.rep.size.symm

theorem allocHTable_lruOk {m : Shm} {parm : HashParm} {init_size : Nat} {s : LsShmHash}
    (h : allocHTable m parm init_size = some s) (hn : init_size ≤ MAX_INIT_SIZE)
    (hflag : parm.flagLru = true) : LruOk s [] := by
  have hrep := allocHTable_rep h hn
  unfold allocHTable at h
  dsimp only at h
  split at h
  . cases h
  split at h
  . cases h
  cases h
  exact ⟨hflag, hrep, ⟨Linked.DList.empty, rfl⟩, by simp⟩

/--
In every run in which no element becomes an end of the list by the removal of its neighbour, the
list is exact in every state.
-/
theorem listExact_exec (m : Shm) (parm : HashParm) (init_size : Nat) (s : LsShmHash)
    (h : allocHTable m parm init_size = some s) (hn : init_size ≤ MAX_INIT_SIZE)
    (hflag : parm.flagLru = true) (ops : List LsShmHashOp) (hok : Run.Meets LsShmHash.step Ok s ops)
    : ListExact (Run.exec LsShmHash.step s ops) := by
  obtain ⟨xs, hend⟩ := Run.exec_invariant (fun s => ∃ xs, LruOk s xs) step_lruOk
    ⟨[], allocHTable_lruOk h hn hflag⟩ hok
  exact listExact_of_lruOk hend

def sample : Option LsShmHash :=
  allocHTable (Shm.empty [Answer.clean 0x400 320, Answer.clean 0x800 64, Answer.clean 0x1000 48,
    Answer.clean 0x1100 48, Answer.clean 0x1200 48, Answer.clean 0x1300 48])
    (HashParm.clean true false) 7

theorem sample_isSome : sample.isSome = true := by decide

def sampleOps : List LsShmHashOp :=
  [.doSet [1] (ValParm.ofBytes [10]), .trim 5 none 3, .doSet [2] (ValParm.ofBytes [20]),
    .doSet [3] (ValParm.ofBytes [30]), .doInsert [4] (ValParm.ofBytes [40]), .touchLru [3],
    .eraseIterator [4]]

theorem listExact_exec_sample
    : ListExact (Run.exec LsShmHash.step (sample.get sample_isSome) sampleOps) ∧
      (Run.exec LsShmHash.step (sample.get sample_isSome) sampleOps).lru.linkFirst = 0x1200 :=
  ⟨listExact_exec _ _ 7 _ (Option.some_get sample_isSome).symm (by decide) rfl sampleOps
    (by decide +kernel), by decide +kernel⟩

def sampleEndOps : List LsShmHashOp :=
  [.doSet [1] (ValParm.ofBytes [10]), .doSet [2] (ValParm.ofBytes [20]), .eraseIterator [2]]

/--
`set_linkNext` does not store 0: the element that is left still points to the released one.
-/
theorem not_listExact_erase_first
    : ¬ ListExact (Run.exec LsShmHash.step (sample.get sample_isSome) sampleEndOps) := by
  intro ⟨⟨xs, _, hdown, _, _, hlinks⟩, _⟩
  have hone : Linked.Chain (Run.exec LsShmHash.step (sample.get sample_isSome) sampleEndOps).lru.linkPrev 0
      (Run.exec LsShmHash.step (sample.get sample_isSome) sampleEndOps).lru.linkFirst [0x1000] :=
    ⟨by decide, by decide, Linked.chain_nil_iff.mpr (by decide)⟩
  have hxs : xs = [0x1000] := List.reverse_eq_iff.mp (hdown.unique hone)
  subst hxs
  exact absurd (hlinks 0x1000 (by decide)).1 (by decide)

end LruRun

end Lsmcd
