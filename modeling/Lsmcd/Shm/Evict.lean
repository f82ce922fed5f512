import Lsmcd.Shm.Alarm
import Lsmcd.Shm.LruTime

/-!
What one eviction does to the LRU list, and what `check` says of it.

The element that becomes the last one keeps its link to the one below, which was taken out or moved to
the top. From `linkLast` on the list is right all the same, and `check` goes only that way.
-/

namespace Lsmcd

def SHMLRU_CHECKOK : Int := 0
def SHMLRU_BADINIT : Int := -1
def SHMLRU_BADVALCNT : Int := -3
def SHMLRU_BADDATACNT : Int := -4

namespace LsShmHash

def checkLoop (s : LsShmHash) (chkdata : Option (List UInt8 → Int))
    : Nat → Nat → Int → Int → Option (LsShmHash × Except Int (Int × Int))
  | 0, _, _, _ => none
  | fuel + 1, offElem, valcnt, datacnt =>
    if offElem = 0 then some (s, .ok (valcnt, datacnt))
    else match s.offset2iterator offElem with
      | none => some (s.rebuild, .ok (valcnt, datacnt))
      | some pElem =>
        match chkdata with
        | none => checkLoop s chkdata fuel (s.getLruLinkNext offElem) (valcnt + 1) datacnt
        | some f =>
          let ret := f pElem.getVal
          if ret < 0 then some (s, .error ret)
          else checkLoop s chkdata fuel (s.getLruLinkNext offElem) (valcnt + 1) (datacnt + ret)

/--
`chkdata` is the method of the add-on, if there is one. A list that leads back to itself uses up any
number of steps.
-/
def check (s : LsShmHash) (chkdata : Option (List UInt8 → Int)) (fuel : Nat)
    : Option (LsShmHash × Int) :=
  if !s.flagLru then some (s, SHMLRU_BADINIT)
  else match s.checkLoop chkdata fuel s.lru.linkLast 0 0 with
    | none => none
    | some (s', .error ret) => some (s', ret)
    | some (s', .ok (valcnt, datacnt)) =>
      some (s', if valcnt ≠ s.lru.nvalset then SHMLRU_BADVALCNT
        else if datacnt ≠ s.lru.ndataset then SHMLRU_BADDATACNT
        else SHMLRU_CHECKOK)

def Checked (s : LsShmHash) : Prop :=
  ∃ fuel, (s.check none fuel).map Prod.snd = some SHMLRU_CHECKOK

end LsShmHash

/--
The list from `linkLast` to `linkFirst`, whatever the link of the last element to the one below is.
-/
structure UpList (l : LsHashLruInfo) (xs : List Nat) : Prop where
  list : Linked.DList l.linkNext (Function.update l.linkPrev l.linkLast 0) 0 l.linkFirst l.linkLast xs
  nvalset : l.nvalset = xs.length

theorem LruList.upList {l : LsHashLruInfo} {xs : List Nat} (h : LruList l xs) : UpList l xs := by
  refine ⟨?_, h.nvalset⟩
  apply h.list.congr (fun _ _ => rfl)
  intro y hy
  by_cases hyl : y = l.linkLast
  . subst hyl
    rw [Function.update_self, h.list.prev_last (h.list.ne_nil hy)]
  . rw [Function.update_of_ne hyl]

theorem UpList.first_ne {l : LsHashLruInfo} {xs : List Nat} {x : Nat} (h : UpList l xs) (hx : x ∈ xs)
    : l.linkFirst ≠ 0 := by
  intro hf
  rw [h.list.first_eq_nil_iff.mp hf] at hx
  contradiction

theorem LruList.pop_last {l : LsHashLruInfo} {x y : Nat} {ys : List Nat} (h : LruList l (x :: y :: ys))
    : Linked.DList l.linkNext (Function.update l.linkPrev y 0) 0 l.linkFirst y (y :: ys) := by
  have hlast := h.list.bottom.1
  have hlist := h.list
  rw [hlast] at hlist
  exact hlist.pop_bottom

namespace LsShmHash

open LsShmHTable

variable {s s' : LsShmHash} {xs ys : List Nat} {x y : Nat}

structure UpOk (s : LsShmHash) (xs : List Nat) : Prop where
  flag : s.flagLru = true
  rep : Rep s xs
  list : UpList s.lru xs
  linkable : ∀ x ∈ xs, ∀ e, s.table.elem x = some e → Linkable e

theorem LruOk.upOk (h : LruOk s xs) : UpOk s xs := ⟨h.flag, h.rep, h.list.upList, h.linkable⟩

theorem UpOk.hasLink (h : UpOk s xs) (hx : x ∈ xs) : s.HasLink x := by
  obtain ⟨e, he, hok⟩ := h.rep.elems x hx
  exact hok.hasLink he (h.linkable x hx e he)

theorem UpOk.up (h : UpOk s xs) : Linked.Chain s.lru.linkNext 0 s.lru.linkLast xs := h.list.list.up

theorem UpOk.relinked (h : UpOk s xs) (hq : Quiet s s') (hp : ys.Perm xs) (hl : UpList s'.lru ys)
    : UpOk s' ys := by
  refine ⟨hq.flagLru.trans h.flag, (h.rep.quiet hq).perm hp, hl, ?_⟩
  rw [hq.table]
  exact fun x hx => h.linkable x (hp.mem_iff.mp hx)

theorem UpOk.setLru (h : UpOk s xs) {f : LsHashLruInfo → LsHashLruInfo} (hl : UpList (f s.lru) xs)
    : UpOk (s.setLru f) xs :=
  h.relinked (quiet_setLru s f) (List.Perm.refl _) hl

section Check

theorem getLruLinkNext_eq (h : s.HasLink x) : s.getLruLinkNext x = s.lru.linkNext x := by
  unfold getLruLinkNext
  rw [if_pos h.ptr]

theorem checkLoop_eq {off fuel : Nat} {valcnt datacnt : Int}
    (hc : Linked.Chain s.lru.linkNext 0 off xs) (hlinks : ∀ y ∈ xs, s.HasLink y)
    : s.checkLoop none fuel off valcnt datacnt =
        if xs.length < fuel then some (s, .ok (valcnt + xs.length, datacnt)) else none := by
  induction fuel generalizing off valcnt xs with
  | zero => rfl
  | succ fuel ih =>
    rw [checkLoop]
    cases xs with
    | nil =>
      rw [if_pos (Linked.chain_nil_iff.mp hc), if_pos (by simp)]
      simp
    | cons x xs =>
      obtain ⟨rfl, hx0, hc⟩ := hc
      have hlink := hlinks off List.mem_cons_self
      obtain ⟨e, he⟩ := hlink.iter
      rw [if_neg hx0, he]
      dsimp only
      rw [getLruLinkNext_eq hlink, ih hc (fun y hy => hlinks y (List.mem_cons_of_mem _ hy))]
      by_cases hlt : xs.length < fuel
      . rw [if_pos hlt, if_pos (show (off :: xs).length < fuel + 1 from Nat.succ_lt_succ hlt), List.length_cons]
        congr 4
        push_cast
        omega
      . rw [if_neg hlt, if_neg (show ¬ (off :: xs).length < fuel + 1 from mt Nat.lt_of_succ_lt_succ hlt)]

theorem UpOk.checked_iff (h : UpOk s xs) : s.Checked ↔ s.lru.ndataset = 0 := by
  have hloop := fun fuel => @checkLoop_eq s xs s.lru.linkLast fuel 0 0 h.up (fun y hy => h.hasLink hy)
  have hret : ∀ fuel, s.check none fuel = if xs.length < fuel then
      some (s, if 0 ≠ s.lru.ndataset then SHMLRU_BADDATACNT else SHMLRU_CHECKOK) else none := by
    intro fuel
    unfold check
    rw [if_neg (by simp [h.flag]), hloop]
    by_cases hlt : xs.length < fuel
    . rw [if_pos hlt, if_pos hlt]
      simp [h.list.nvalset]
    . rw [if_neg hlt, if_neg hlt]
  unfold Checked
  constructor
  . intro ⟨fuel, hok⟩
    rw [hret] at hok
    by_contra hne
    split at hok
    . rw [if_pos (Ne.symm hne)] at hok
      simp [SHMLRU_BADDATACNT, SHMLRU_CHECKOK] at hok
    . simp at hok
  . intro hz
    refine ⟨xs.length + 1, ?_⟩
    rw [hret, if_pos (Nat.lt_succ_self _), if_neg (by simp [hz])]
    rfl

end Check

section Links

theorem erase_lru (hrep : Rep s xs) (hflag : s.flagLru = true) (hx : x ∈ xs)
    : (s.eraseIteratorHelper x).lru = (s.unlinkHElem x).lru := by
  obtain ⟨e, he, _⟩ := hrep.elems x hx
  rw [(eraseIteratorHelper_spec hrep hx he).2.lru]
  unfold eraseCbs
  rw [if_pos hflag]
  dsimp only
  split
  . rw [eraseIterCb_lru]
  . rfl

theorem UpOk.erase (h : UpOk s xs) (hx : x ∈ xs) (hl : UpList (s.unlinkHElem x).lru (xs.erase x))
    : UpOk (s.eraseIteratorHelper x) (xs.erase x) := by
  obtain ⟨e, he, _⟩ := h.rep.elems x hx
  obtain ⟨hrep, hd⟩ := eraseIteratorHelper_spec h.rep hx he
  have hq := quiet_eraseCbs s x
  refine ⟨(hd.flagLru.trans hq.flagLru).trans h.flag, hrep, ?_, ?_⟩
  . rw [erase_lru h.rep h.flag hx]
    exact hl
  . intro y hy e' he'
    rw [h.rep.nodup.mem_erase_iff] at hy
    rw [hd.elem, Function.update_of_ne hy.1, hq.table] at he'
    exact h.linkable y hy.2 e' he'

theorem unlinkHElem_last (hlink : s.HasLink x) (hp : s.lru.linkPrev x = 0) (hn : s.lru.linkNext x ≠ 0)
    : (s.unlinkHElem x).lru =
        { s.lru with linkLast := s.lru.linkNext x, nvalset := s.lru.nvalset - 1 } := by
  unfold unlinkHElem
  rw [if_neg (by simp [hlink.ptr])]
  dsimp only
  rw [if_pos hn, hp, set_linkPrev, setLink_zero]
  simp only [Bool.false_eq_true, if_false, hp, ne_eq, not_true_eq_false, setLru]

theorem unlinkHElem_mid (hlink : s.HasLink x) (hprev : s.HasLink (s.lru.linkPrev x))
    (hnext : s.HasLink (s.lru.linkNext x)) (hp : s.lru.linkPrev x ≠ 0) (hn : s.lru.linkNext x ≠ 0)
    (hxn : x ≠ s.lru.linkNext x)
    : (s.unlinkHElem x).lru =
        { (s.lru.setPrev (s.lru.linkNext x) (s.lru.linkPrev x)).setNext (s.lru.linkPrev x)
            (s.lru.linkNext x) with nvalset := s.lru.nvalset - 1 } := by
  unfold unlinkHElem
  rw [if_neg (by simp [hlink.ptr])]
  dsimp only
  rw [if_pos hn, set_linkPrev, setLink_eq hnext hp]
  have hp' : (s.setLru (·.setPrev (s.lru.linkNext x) (s.lru.linkPrev x))).lru.linkPrev x =
      s.lru.linkPrev x := Function.update_of_ne hxn _ _
  have hn' : (s.setLru (·.setPrev (s.lru.linkNext x) (s.lru.linkPrev x))).lru.linkNext x =
      s.lru.linkNext x := rfl
  simp only [hp', hn', ne_eq, hp, not_false_eq_true, if_true, set_linkNext]
  rw [setLink_eq (HasLink.setLru hprev) hn]
  rfl

theorem LruOk.erase_last (h : LruOk s (x :: ys))
    : UpOk (s.eraseIteratorHelper x) ys ∧
      (s.eraseIteratorHelper x).lru.ndataset = s.lru.ndataset := by
  have hx : x ∈ x :: ys := List.mem_cons_self
  have hlru := erase_lru h.rep h.flag hx
  have hlist := h.list.list
  obtain ⟨hlast, hp⟩ := hlist.bottom
  have herase : (x :: ys).erase x = ys := List.erase_cons_head x ys
  cases ys with
  | nil =>
    have hn : s.lru.linkNext x = 0 := hlist.up.2.2
    have hok : s.UnlinkOk x := iff_of_true hn hp
    refine ⟨herase ▸ (h.erase hx hok).upOk, ?_⟩
    rw [hlru]
    unfold unlinkHElem
    rw [if_neg (by simp [(h.hasLink hx).ptr])]
    simp [hn, hp, LsShmHash.setLru]
  | cons y ys =>
    obtain ⟨hn, hy0, _⟩ := hlist.up.2.2
    have heq := unlinkHElem_last (h.hasLink hx) hp (hn ▸ hy0)
    refine ⟨herase ▸ h.upOk.erase hx ?_, ?_⟩
    . rw [heq, herase, hn]
      refine ⟨h.list.pop_last, ?_⟩
      show s.lru.nvalset - 1 = _
      rw [h.list.nvalset]
      simp
    . rw [hlru, heq]

theorem UpOk.erase_mid (h : UpOk s xs) (hx : x ∈ xs) (hlast : x ≠ s.lru.linkLast)
    (hn : s.lru.linkNext x ≠ 0)
    : UpOk (s.eraseIteratorHelper x) (xs.erase x) ∧
      (s.eraseIteratorHelper x).lru.ndataset = s.lru.ndataset := by
  have hlist := h.list.list
  have hpv : Function.update s.lru.linkPrev s.lru.linkLast 0 x = s.lru.linkPrev x :=
    Function.update_of_ne hlast _ _
  have hp : s.lru.linkPrev x ≠ 0 := by
    intro hp
    exact hlast (hlist.reverse.eq_first_of_next (List.mem_reverse.mpr hx) (hpv.trans hp))
  obtain ⟨hnmem, hpmem, hxn, hmid⟩ := hlist.erase_mid hx hn (by rw [hpv]; exact hp)
  rw [hpv] at hpmem hmid
  have heq := unlinkHElem_mid (h.hasLink hx) (h.hasLink hpmem) (h.hasLink hnmem) hp hn hxn
  refine ⟨h.erase hx ?_, by rw [erase_lru h.rep h.flag hx, heq]; rfl⟩
  rw [heq]
  refine ⟨?_, ?_⟩
  . have hnl : s.lru.linkNext x ≠ s.lru.linkLast := hlist.next_ne_last hx
    rw [Function.update_comm hnl.symm] at hmid
    exact hmid
  . show s.lru.nvalset - 1 = _
    have hpos := List.length_pos_of_mem hx
    rw [h.list.nvalset, List.length_erase_of_mem hx]
    omega

theorem linkSetTop_last (hx0 : x ≠ 0) (hlink : s.HasLink x) (hfirst : s.HasLink s.lru.linkFirst)
    (hp : s.lru.linkPrev x = 0) (hn : s.lru.linkNext x ≠ 0)
    : (s.linkSetTop x).lru =
        { (((s.lru.setNext x 0).setPrev x s.lru.linkFirst).setNext s.lru.linkFirst x).setTime x s.now with
          linkLast := s.lru.linkNext x
          linkFirst := x } := by
  unfold linkSetTop
  rw [if_neg (by simp [hlink.ptr])]
  dsimp only
  rw [if_pos hn, if_pos hp, hp, set_linkPrev, setLink_zero]
  simp only [Bool.false_eq_true, if_false]
  generalize hs₃ : (s.setLru _).setLru _ = s₃
  have hfirst₃ : s₃.HasLink s₃.lru.linkFirst := by
    rw [← hs₃]
    exact HasLink.setLru (HasLink.setLru hfirst)
  rw [set_linkNext, setLink_eq hfirst₃ hx0, if_neg (by simp), ← hs₃]
  rfl

theorem LruOk.top_last (h : LruOk s (x :: ys))
    : UpOk (s.linkSetTop x) (ys ++ [x]) ∧ (s.linkSetTop x).lru.linkFirst = x ∧
      (s.linkSetTop x).lru.ndataset = s.lru.ndataset ∧
      ∀ y, y ≠ x → (s.linkSetTop x).lru.lasttime y = s.lru.lasttime y := by
  have hx : x ∈ x :: ys := List.mem_cons_self
  have hlist := h.list.list
  have hx0 := hlist.ne_nil hx
  have hf := h.list.upList.first_ne hx
  obtain ⟨hlast, hp⟩ := hlist.bottom
  have hperm : (ys ++ [x]).Perm (x :: ys) := List.perm_append_singleton x ys
  cases ys with
  | nil =>
    have hn : s.lru.linkNext x = 0 := hlist.up.2.2
    have hfirst := hlist.eq_first_of_next hx hn
    have heq : s.linkSetTop x = s.setLru (·.setTime x s.now) :=
      linkSetTop_top ⟨h.list, fun y hy => h.hasLink hy⟩ hx hn
    rw [heq]
    exact ⟨h.upOk.setLru ⟨h.list.upList.list, h.list.nvalset⟩, hfirst.symm, rfl,
      fun z hz => Function.update_of_ne hz _ _⟩
  | cons y ys =>
    obtain ⟨hn, hy0, _⟩ := hlist.up.2.2
    have hfmem := hlist.first_mem hf
    have heq := linkSetTop_last hx0 (h.hasLink hx) (h.hasLink hfmem) hp (hn ▸ hy0)
    have hxys : x ∉ y :: ys := (List.nodup_cons.mp h.rep.nodup).1
    have hfx : s.lru.linkFirst ≠ x := by
      intro hfx
      have hnf := hlist.next_first hf
      rw [hfx, hn] at hnf
      exact hy0 hnf
    have hpush := h.list.pop_last.push_top hxys hx0 hf
    have hxy : x ≠ y := fun hxy => hxys (hxy ▸ List.mem_cons_self)
    refine ⟨h.upOk.relinked (quiet_linkSetTop s x) hperm ?_, ?_, ?_, ?_⟩
    . rw [heq]
      refine ⟨?_, ?_⟩
      . show Linked.DList (Function.update (Function.update s.lru.linkNext x 0) s.lru.linkFirst x)
          (Function.update (Function.update s.lru.linkPrev x s.lru.linkFirst) (s.lru.linkNext x) 0) 0
          x (s.lru.linkNext x) _
        rw [hn, Function.update_comm hxy, Function.update_comm hfx.symm]
        exact hpush
      . show s.lru.nvalset = _
        rw [h.list.nvalset, hperm.length_eq]
    . rw [heq]
    . rw [heq]
      rfl
    . rw [heq]
      exact fun z hz => Function.update_of_ne hz _ _

theorem UpOk.top_single (h : UpOk s [x])
    : UpOk (s.linkSetTop x) [x] ∧ (s.linkSetTop x).lru.linkFirst = x ∧
      (s.linkSetTop x).lru.ndataset = s.lru.ndataset := by
  have hx : x ∈ [x] := List.mem_singleton_self x
  have hn : s.lru.linkNext x = 0 := h.up.2.2
  have heq : s.linkSetTop x = s.setLru (·.setTime x s.now) := by
    unfold linkSetTop
    rw [if_neg (by simp [(h.hasLink hx).ptr])]
    simp only [hn, ne_eq, not_true_eq_false, if_false]
  rw [heq]
  exact ⟨h.setLru ⟨h.list.list, h.list.nvalset⟩, (h.list.list.eq_first_of_next hx hn).symm, rfl⟩

end Links

end LsShmHash

end Lsmcd
