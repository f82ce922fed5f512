import Lsmcd.Shm.LruRun

/-!
The times of the LRU list: `linkSetTopTime` and `linkMvTopTime`, and when the list is in the order of
the times.
-/

namespace Lsmcd

namespace LsShmHash

def linkSetTopTime (s : LsShmHash) (offset lasttime : Nat) : LsShmHash × Bool :=
  if !s.flagLru then (s, true)
  else if !s.getLruLinkPtr offset || s.lru.linkNext offset ≠ 0 || s.now < lasttime then (s, false)
  else
    let prev := s.lru.linkPrev offset
    if prev ≠ 0 then
      if !s.getLruLinkPtr prev then (s, false)
      else if lasttime < s.lru.lasttime prev then
        (s.setLru (·.setTime offset (s.lru.lasttime prev)), true)
      else (s.setLru (·.setTime offset lasttime), true)
    else (s.setLru (·.setTime offset lasttime), true)

/--
The loop of `linkMvTopTime`: `prev` is later than the element, which is not in the list meanwhile.
-/
def linkMvDown : Nat → LsShmHash → Nat → Nat → Nat → LsShmHash × Bool
  | 0, s, _, _, _ => (s, false)
  | fuel + 1, s, offset, lasttime, prev =>
    let next := prev
    let prev := s.lru.linkPrev next
    if prev = 0 then
      (s.setLru fun l =>
        { ((l.setPrev next offset).setNext offset next).setPrev offset 0 with
          linkLast := offset }, true)
    else if !s.getLruLinkPtr prev then (s, false)
    else if s.lru.lasttime prev ≤ lasttime then
      let s := s.setLru fun l =>
        ((l.setNext offset (l.linkNext prev)).setPrev offset prev).setNext prev offset
      let r := s.set_linkPrev (s.lru.linkNext offset) offset
      (r.1, !r.2)
    else linkMvDown fuel s offset lasttime prev

/--
The loop goes round for each element below the topmost one at most.
-/
def linkMvTopTime (s : LsShmHash) (offset lasttime : Nat) : LsShmHash × Bool :=
  if !s.flagLru then (s, true)
  else if !s.getLruLinkPtr offset || s.lru.linkNext offset ≠ 0 || lasttime = 0 then (s, false)
  else
    let s := s.setLru (·.setTime offset lasttime)
    let prev := s.lru.linkPrev offset
    if prev = 0 then (s, true)
    else if !s.getLruLinkPtr prev then (s, false)
    else if s.lru.lasttime prev ≤ lasttime then (s, true)
    else
      let s := s.setLru fun l => { l.setNext prev 0 with linkFirst := prev }
      linkMvDown s.lru.nvalset.toNat s offset lasttime prev

structure LruWell (s : LsShmHash) (xs : List Nat) : Prop where
  list : LruList s.lru xs
  links : ∀ y ∈ xs, s.HasLink y

def TimeOrdered (s : LsShmHash) : Prop :=
  ∃ xs, Linked.Chain s.lru.linkNext 0 s.lru.linkLast xs ∧ Linked.Rising s.lru.lasttime xs

variable {s : LsShmHash} {xs : List Nat} {x : Nat}

theorem timeOrdered_iff_of_chain (h : Linked.Chain s.lru.linkNext 0 s.lru.linkLast xs)
    : s.TimeOrdered ↔ Linked.Rising s.lru.lasttime xs := by
  constructor
  . intro ⟨ys, hys, hrising⟩
    rw [h.unique hys]
    exact hrising
  . intro hrising
    exact ⟨xs, h, hrising⟩

theorem LruWell.timeOrdered_iff (h : s.LruWell xs)
    : s.TimeOrdered ↔ Linked.Rising s.lru.lasttime xs :=
  timeOrdered_iff_of_chain h.list.list.up

theorem LruWell.next_first (h : s.LruWell xs) (hx : x ∈ xs) (hn : s.lru.linkNext x = 0)
    : ∃ ys, xs = ys ++ [x] := by
  have hfirst := h.list.list.eq_first_of_next hx hn
  have hne := h.list.list.ne_nil hx
  rw [hfirst] at hne
  obtain ⟨ys, hys⟩ := h.list.list.eq_concat_first hne
  exact ⟨ys, by rw [hfirst]; exact hys⟩

theorem LruWell.prev_concat {ys : List Nat} (h : s.LruWell (ys ++ [x]))
    : (s.lru.linkPrev x = 0 ∧ ys = []) ∨
      (s.lru.linkPrev x ≠ 0 ∧ ∃ zs, ys = zs ++ [s.lru.linkPrev x]) := by
  have hd := h.list.list.down
  rw [List.reverse_append, List.reverse_singleton, List.singleton_append] at hd
  have hc := hd.2.2
  rcases List.eq_nil_or_concat ys with rfl | ⟨zs, p, rfl⟩
  . exact .inl ⟨hc, rfl⟩
  . rw [List.concat_eq_append, List.reverse_append, List.reverse_singleton,
      List.singleton_append] at hc
    obtain ⟨hp, hne, _⟩ := hc
    rw [hp, List.concat_eq_append]
    exact .inr ⟨hne, zs, rfl⟩

theorem setLink_zero (s : LsShmHash) (y : Nat) (f : LsHashLruInfo → LsHashLruInfo)
    : s.setLink y 0 f = (s, false) := by
  unfold setLink
  rw [if_neg (not_not.mpr rfl)]

theorem setLink_lasttime (s : LsShmHash) (y v : Nat) {f : LsHashLruInfo → LsHashLruInfo}
    (hf : ∀ l, (f l).lasttime = l.lasttime) : (s.setLink y v f).1.lru.lasttime = s.lru.lasttime := by
  unfold setLink
  split
  . split
    . rfl
    . split
      . exact hf _
      . rfl
  . rfl

theorem unlinkHElem_lasttime (s : LsShmHash) (x : Nat)
    : (s.unlinkHElem x).lru.lasttime = s.lru.lasttime := by
  unfold unlinkHElem
  split
  . rfl
  . dsimp only
    generalize hr : (if s.lru.linkNext x ≠ 0 then _ else _) = r
    have hrt : r.1.lru.lasttime = s.lru.lasttime := by
      rw [← hr]
      split
      . exact setLink_lasttime _ _ _ fun _ => rfl
      . rfl
    split
    . exact hrt
    . generalize hq : (if r.1.lru.linkPrev x ≠ 0 then _ else _) = q
      have hqt : q.1.lru.lasttime = s.lru.lasttime := by
        rw [← hq]
        split
        . refine Eq.trans ?_ hrt
          apply setLink_lasttime
          intro _
          rfl
        . exact hrt
      split
      . exact hqt
      . exact hqt

section Stamp

variable (h : s.LruWell xs)
include h

theorem linkHElem_lasttime (hx0 : x ≠ 0) (hlink : s.HasLink x)
    : (s.linkHElem x).lru.lasttime = Function.update s.lru.lasttime x s.now := by
  unfold linkHElem
  rw [if_neg (by simp [hlink.ptr])]
  by_cases hf : s.lru.linkFirst = 0
  . rw [if_neg (not_not.mpr hf)]
    rfl
  . rw [if_pos hf]
    dsimp only
    rw [set_linkNext, setLink_eq (h.links _ (h.list.list.first_mem hf)) hx0]
    rfl

theorem linkSetTop_top (hx : x ∈ xs) (hn : s.lru.linkNext x = 0)
    : s.linkSetTop x = s.setLru (·.setTime x s.now) := by
  unfold linkSetTop
  rw [if_neg (by simp [(h.links x hx).ptr])]
  simp only [hn, ne_eq, not_true_eq_false, if_false]

theorem linkFirst_ne (hx : x ∈ xs) : s.lru.linkFirst ≠ 0 := by
  intro hf
  rw [h.list.list.first_eq_nil_iff.mp hf] at hx
  contradiction

theorem linkSetTop_lru (hx : x ∈ xs) (hn : s.lru.linkNext x ≠ 0)
    : (s.linkSetTop x).lru.linkNext = Function.update (Function.update
        (if s.lru.linkPrev x = 0 then s.lru.linkNext
          else Function.update s.lru.linkNext (s.lru.linkPrev x) (s.lru.linkNext x)) x 0)
        s.lru.linkFirst x ∧
      (s.linkSetTop x).lru.linkLast
        = (if s.lru.linkPrev x = 0 then s.lru.linkNext x else s.lru.linkLast) ∧
      (s.linkSetTop x).lru.lasttime = Function.update s.lru.lasttime x s.now := by
  have hx0 := h.list.list.ne_nil hx
  have hfirst := h.links _ (h.list.list.first_mem (linkFirst_ne h hx))
  have hnext := h.links _ (h.list.list.next_mem hx hn).1
  unfold linkSetTop
  rw [if_neg (by simp [(h.links x hx).ptr])]
  dsimp only
  rw [if_pos hn]
  by_cases hp : s.lru.linkPrev x = 0
  . rw [if_pos hp, if_pos hp, if_pos hp, hp, set_linkPrev, setLink_zero]
    simp only [Bool.false_eq_true, if_false]
    generalize hs₃ : (s.setLru _).setLru _ = s₃
    have hfirst₃ : s₃.HasLink s₃.lru.linkFirst := by
      rw [← hs₃]
      exact HasLink.setLru (HasLink.setLru hfirst)
    have hf₃ : s₃.lru.linkFirst = s.lru.linkFirst := by rw [← hs₃]; rfl
    have hn₃ : s₃.lru.linkNext = Function.update s.lru.linkNext x 0 := by rw [← hs₃]; rfl
    have hl₃ : s₃.lru.linkLast = s.lru.linkNext x := by rw [← hs₃]; rfl
    have ht₃ : s₃.lru.lasttime = s.lru.lasttime := by rw [← hs₃]; rfl
    have hnow₃ : s₃.now = s.now := by rw [← hs₃]; rfl
    rw [set_linkNext, setLink_eq hfirst₃ hx0, ← hf₃, ← hn₃, ← hl₃, ← ht₃, ← hnow₃]
    exact ⟨rfl, rfl, rfl⟩
  . have hprev := h.links _ (h.list.list.prev_mem hx hp)
    rw [if_neg hp, if_neg hp, if_neg hp, set_linkNext, setLink_eq hprev hn]
    simp only [Bool.false_eq_true, if_false]
    rw [set_linkPrev, setLink_eq (HasLink.setLru hnext) hp]
    simp only [Bool.false_eq_true, if_false]
    generalize hs₃ : ((s.setLru _).setLru _).setLru _ = s₃
    have hfirst₃ : s₃.HasLink s₃.lru.linkFirst := by
      rw [← hs₃]
      exact HasLink.setLru (HasLink.setLru (HasLink.setLru hfirst))
    have hf₃ : s₃.lru.linkFirst = s.lru.linkFirst := by rw [← hs₃]; rfl
    have hn₃ : s₃.lru.linkNext = Function.update (Function.update s.lru.linkNext
      (s.lru.linkPrev x) (s.lru.linkNext x)) x 0 := by rw [← hs₃]; rfl
    have hl₃ : s₃.lru.linkLast = s.lru.linkLast := by rw [← hs₃]; rfl
    have ht₃ : s₃.lru.lasttime = s.lru.lasttime := by rw [← hs₃]; rfl
    have hnow₃ : s₃.now = s.now := by rw [← hs₃]; rfl
    rw [set_linkNext, setLink_eq hfirst₃ hx0, ← hf₃, ← hn₃, ← hl₃, ← ht₃, ← hnow₃]
    exact ⟨rfl, rfl, rfl⟩

theorem eq_cons_of_prev (hx : x ∈ xs) (hp : s.lru.linkPrev x = 0)
    : ∃ ys, xs = x :: ys ∧ Linked.Chain s.lru.linkNext 0 (s.lru.linkNext x) ys := by
  have hlast := h.list.list.reverse.eq_first_of_next (List.mem_reverse.mpr hx) hp
  have hup := h.list.list.up
  cases xs with
  | nil => contradiction
  | cons y ys =>
    obtain ⟨hy, _, hc⟩ := hup
    rw [← hy, ← hlast] at hc ⊢
    exact ⟨ys, rfl, hc⟩

theorem linkFirst_ne_of_next (hx : x ∈ xs) (hn : s.lru.linkNext x ≠ 0) : s.lru.linkFirst ≠ x := by
  intro heq
  have hnf := h.list.list.next_first (linkFirst_ne h hx)
  rw [heq] at hnf
  exact hn hnf

theorem erase_concat_first (hx : x ∈ xs) (hn : s.lru.linkNext x ≠ 0)
    : ∃ ys, xs.erase x = ys ++ [s.lru.linkFirst] := by
  have hfx := linkFirst_ne_of_next h hx hn
  obtain ⟨ys, hys⟩ := h.list.list.eq_concat_first (linkFirst_ne h hx)
  have hmem : x ∈ ys := by
    rw [hys] at hx
    exact (List.mem_append.mp hx).resolve_right fun hin => hfx (List.mem_singleton.mp hin).symm
  refine ⟨ys.erase x, ?_⟩
  conv => lhs; rw [hys]
  exact List.erase_append_left _ hmem

theorem linkSetTop_chain (hx : x ∈ xs) (hn : s.lru.linkNext x ≠ 0)
    : Linked.Chain (s.linkSetTop x).lru.linkNext 0 (s.linkSetTop x).lru.linkLast
        (xs.erase x ++ [x]) := by
  have hx0 := h.list.list.ne_nil hx
  have hfx := linkFirst_ne_of_next h hx hn
  have hnot : x ∉ xs.erase x := h.list.list.nodup.not_mem_erase
  obtain ⟨hnext, hlast, _⟩ := linkSetTop_lru h hx hn
  obtain ⟨ys, herase⟩ := erase_concat_first h hx hn
  rw [hnext, hlast]
  rw [herase] at hnot ⊢
  rw [Function.update_comm hfx.symm]
  apply Linked.Chain.snoc _ hnot hx0
  rw [← herase]
  by_cases hp : s.lru.linkPrev x = 0
  . obtain ⟨zs, hzs, hc⟩ := eq_cons_of_prev h hx hp
    rw [if_pos hp, if_pos hp, hzs, List.erase_cons_head]
    exact hc
  . rw [if_neg hp, if_neg hp]
    exact (exists_mid h.list hx hn hp).2.2.2.up

theorem unlinkHElem_chain (hx : x ∈ xs)
    : ∃ ys, ys.Sublist xs ∧
        Linked.Chain (s.unlinkHElem x).lru.linkNext 0 (s.unlinkHElem x).lru.linkLast ys := by
  have hptr : ¬ (!s.getLruLinkPtr x) = true := by simp [(h.links x hx).ptr]
  by_cases hn : s.lru.linkNext x = 0
  . by_cases hp : s.lru.linkPrev x = 0
    . refine ⟨[], List.nil_sublist _, ?_⟩
      unfold unlinkHElem
      rw [if_neg hptr]
      simp only [hn, hp, ne_eq, not_true_eq_false, if_false, setLru]
      rfl
    . -- The element below keeps its link to the one that was taken out.
      refine ⟨xs, List.Sublist.refl _, ?_⟩
      unfold unlinkHElem
      rw [if_neg hptr]
      simp only [hn, ne_eq, not_true_eq_false, if_false, setLru, hp, not_false_eq_true, if_true,
        set_linkNext, setLink_zero]
      exact h.list.list.up
  . have hnext := h.links _ (h.list.list.next_mem hx hn).1
    by_cases hp : s.lru.linkPrev x = 0
    . obtain ⟨ys, hys, hc⟩ := eq_cons_of_prev h hx hp
      refine ⟨ys, hys ▸ List.sublist_cons_self .., ?_⟩
      unfold unlinkHElem
      rw [if_neg hptr]
      simp only [hn, ne_eq, not_false_eq_true, if_true, hp, set_linkPrev, setLink_zero,
        Bool.false_eq_true, not_true_eq_false, if_false, setLru]
      exact hc
    . have hlist := unlinkHElem_list h.list h.links hx (iff_of_false hn hp)
      exact ⟨xs.erase x, List.erase_sublist, hlist.list.up⟩

end Stamp

theorem LruWell.setTime (h : s.LruWell xs) (y t : Nat) : (s.setLru (·.setTime y t)).LruWell xs :=
  ⟨⟨h.list.list, h.list.nvalset⟩, fun z hz => HasLink.setLru (h.links z hz)⟩

theorem linkSetTopTime_well (h : s.LruWell xs) (hx : x ∈ xs) (t : Nat)
    : (s.linkSetTopTime x t).1.LruWell xs ∧
      (Linked.Rising s.lru.lasttime xs → Linked.Rising (s.linkSetTopTime x t).1.lru.lasttime xs) := by
  unfold linkSetTopTime
  split
  . exact ⟨h, id⟩
  . split
    . exact ⟨h, id⟩
    . rename_i hguard
      simp only [Bool.or_eq_true, Bool.not_eq_true', decide_eq_true_eq, not_or] at hguard
      obtain ⟨ys, rfl⟩ := h.next_first hx (not_not.mp hguard.1.2)
      have hnot : x ∉ ys := by
        have hnd := h.list.list.nodup
        rw [List.nodup_append] at hnd
        exact fun hin => hnd.2.2 x hin x (List.mem_singleton_self x) rfl
      -- The stamp is in order when the time below is not later.
      have hstamp : ∀ v, (s.lru.linkPrev x ≠ 0 → s.lru.lasttime (s.lru.linkPrev x) ≤ v) →
          Linked.Rising s.lru.lasttime (ys ++ [x]) →
          Linked.Rising (s.setLru (·.setTime x v)).lru.lasttime (ys ++ [x]) := by
        intro v hv hrising
        have hys := (Linked.rising_concat_iff.mp hrising).1
        apply (Linked.rising_stamp_iff hys hnot).mpr
        rcases h.prev_concat with ⟨_, rfl⟩ | ⟨hp, zs, hzs⟩
        . exact fun _ hin => by contradiction
        . rw [hzs] at hys ⊢
          exact hys.le_iff.mpr (hv hp)
      dsimp only
      split
      . split
        . exact ⟨h, id⟩
        . split
          . exact ⟨h.setTime .., hstamp _ fun _ => Nat.le_refl _⟩
          . rename_i hle
            exact ⟨h.setTime .., hstamp _ fun _ => Nat.le_of_not_lt hle⟩
      . rename_i hp
        exact ⟨h.setTime .., hstamp _ fun hne => absurd hne hp⟩

structure Sunk (s s' : LsShmHash) (x t : Nat) (zs : List Nat) : Prop where
  split : ∃ cs ds, zs = cs ++ ds ∧ ds ≠ [] ∧
    Linked.DList s'.lru.linkNext s'.lru.linkPrev 0 s'.lru.linkFirst s'.lru.linkLast
      (cs ++ x :: ds) ∧
    (∀ d ∈ ds, t < s.lru.lasttime d) ∧ ∀ bs c, cs = bs ++ [c] → s.lru.lasttime c ≤ t
  lasttime : s'.lru.lasttime = s.lru.lasttime
  nvalset : s'.lru.nvalset = s.lru.nvalset
  links : ∀ y, s.HasLink y → s'.HasLink y

theorem linkMvDown_sunk {zs as bs : List Nat} {prev t fuel : Nat}
    (hlist : Linked.DList s.lru.linkNext s.lru.linkPrev 0 s.lru.linkFirst s.lru.linkLast zs)
    (hlinks : ∀ y ∈ zs, s.HasLink y) (hx : x ∉ zs) (hx0 : x ≠ 0) (hzs : zs = as ++ prev :: bs)
    (hlater : ∀ d ∈ prev :: bs, t < s.lru.lasttime d) (hfuel : as.length < fuel)
    : (linkMvDown fuel s x t prev).2 = true ∧
      Sunk s (linkMvDown fuel s x t prev).1 x t zs := by
  induction fuel generalizing as bs prev with
  | zero => contradiction
  | succ fuel ih =>
    rw [linkMvDown]
    dsimp only
    rcases List.eq_nil_or_concat as with rfl | ⟨as, p, rfl⟩
    . -- All elements are later.
      rw [List.nil_append] at hzs
      rw [hzs] at hlist hx
      obtain ⟨hlast, hp⟩ := hlist.bottom
      have hne : s.lru.linkLast ≠ 0 := by
        rw [hlast]
        exact hlist.ne_nil List.mem_cons_self
      have hpush := hlist.push_bottom hx hx0 hne
      rw [if_pos hp]
      refine ⟨rfl, ⟨[], zs, rfl, ?_, ?_, ?_, ?_⟩, rfl, rfl, fun _ hy => ⟨hy.ptr, hy.iter⟩⟩
      . rw [hzs]
        exact List.cons_ne_nil _ _
      . rw [hzs]
        rw [hlast] at hpush
        exact hpush
      . rw [hzs]
        exact hlater
      . intro cs c hc
        exact absurd hc.symm (List.concat_ne_nil _ _)
    . rw [List.concat_eq_append, List.append_assoc, List.singleton_append] at hzs
      rw [List.concat_eq_append, List.length_append, List.length_singleton] at hfuel
      rw [hzs] at hlist hx hlinks
      obtain ⟨hnext, hprev, hp0⟩ := hlist.adjacent
      have hlink := hlinks p (by simp)
      rw [hprev, if_neg hp0, if_neg (by simp [hlink.ptr])]
      split
      . rename_i hle
        have hins := hlist.insert_mid hx hx0
        have hprevLink := hlinks prev (by simp)
        have hxp : x ≠ p := by
          rintro rfl
          exact hx (by simp)
        generalize hs₁ : s.setLru _ = s₁
        have hn₁ : s₁.lru.linkNext x = prev := by
          rw [← hs₁, ← hnext]
          exact (Function.update_of_ne hxp ..).trans (Function.update_self ..)
        have hlink₁ : s₁.HasLink prev := by
          rw [← hs₁]
          exact HasLink.setLru hprevLink
        rw [set_linkPrev, hn₁, setLink_eq hlink₁ hx0]
        refine ⟨rfl, ⟨as ++ [p], prev :: bs, ?_, List.cons_ne_nil _ _, ?_, hlater, ?_⟩, ?_, ?_, ?_⟩
        . rw [hzs, List.append_assoc, List.singleton_append]
        . rw [List.append_assoc, List.singleton_append, ← hs₁]
          rw [← hnext] at hins ⊢
          exact hins
        . intro cs c hc
          have hpc : p = c := List.singleton_inj.mp (List.append_inj' hc rfl).2
          rw [← hpc]
          exact hle
        . rw [← hs₁]
          rfl
        . rw [← hs₁]
          rfl
        . intro y hy
          rw [← hs₁]
          exact ⟨hy.ptr, hy.iter⟩
      . rename_i hle
        apply @ih as (prev :: bs) p hzs _ (by omega)
        intro d hd
        rcases List.mem_cons.mp hd with rfl | hd
        . exact Nat.lt_of_not_le hle
        . exact hlater d hd

theorem Sunk.exists_list {s s' : LsShmHash} {x t : Nat} {zs : List Nat} (h : Sunk s s' x t zs)
    (ht : s.lru.lasttime x = t)
    : ∃ ys, ys.Perm (x :: zs) ∧
        Linked.DList s'.lru.linkNext s'.lru.linkPrev 0 s'.lru.linkFirst s'.lru.linkLast ys ∧
        (Linked.Rising s.lru.lasttime zs → Linked.Rising s'.lru.lasttime ys) := by
  obtain ⟨cs, ds, rfl, _, hlist, hds, hcs⟩ := h.split
  refine ⟨cs ++ x :: ds, List.perm_middle, hlist, ?_⟩
  intro hrising
  obtain ⟨hc, hd, hcd⟩ := List.pairwise_append.mp hrising
  have hcx : ∀ c ∈ cs, s.lru.lasttime c ≤ t := by
    rcases List.eq_nil_or_concat cs with rfl | ⟨bs, c, rfl⟩
    . exact fun _ hin => by contradiction
    . rw [List.concat_eq_append] at hc hcs ⊢
      exact Linked.Rising.le_iff hc |>.mpr (hcs bs c rfl)
  rw [h.lasttime]
  refine List.pairwise_append.mpr ⟨hc, List.pairwise_cons.mpr ⟨?_, hd⟩, ?_⟩
  . intro d hin
    rw [ht]
    exact Nat.le_of_lt (hds d hin)
  . intro c hin b hb
    rcases List.mem_cons.mp hb with rfl | hb
    . rw [ht]
      exact hcx c hin
    . exact hcd c hin b hb

theorem linkMvTopTime_well (h : s.LruWell xs) (hx : x ∈ xs) (t : Nat)
    : ∃ ys, ys.Perm xs ∧ (s.linkMvTopTime x t).1.LruWell ys ∧
        (Linked.Rising s.lru.lasttime xs →
          Linked.Rising (s.linkMvTopTime x t).1.lru.lasttime ys) := by
  unfold linkMvTopTime
  split
  . exact ⟨xs, List.Perm.refl xs, h, id⟩
  split
  . exact ⟨xs, List.Perm.refl xs, h, id⟩
  rename_i hguard
  simp only [Bool.or_eq_true, Bool.not_eq_true', decide_eq_true_eq, not_or] at hguard
  obtain ⟨ys, rfl⟩ := h.next_first hx (not_not.mp hguard.1.2)
  have hnot : x ∉ ys := by
    have hnd := h.list.list.nodup
    rw [List.nodup_append] at hnd
    exact fun hin => hnd.2.2 x hin x (List.mem_singleton_self x) rfl
  have hset := h.setTime x t
  dsimp only
  generalize hs₁ : s.setLru (·.setTime x t) = s₁ at hset ⊢
  have hprev₁ : s₁.lru.linkPrev = s.lru.linkPrev := by rw [← hs₁]; rfl
  have htime₁ : s₁.lru.lasttime = Function.update s.lru.lasttime x t := by rw [← hs₁]; rfl
  rw [hprev₁]
  rcases h.prev_concat with ⟨hp, rfl⟩ | ⟨hp, zs, hzs⟩
  . rw [if_pos hp]
    exact ⟨[x], List.Perm.refl _, hset, fun _ => Linked.rising_singleton x⟩
  have hpmem : s.lru.linkPrev x ∈ ys := by
    rw [hzs]
    exact List.mem_append_right _ (List.mem_singleton_self _)
  have hpx : s.lru.linkPrev x ≠ x := fun heq => hnot (heq ▸ hpmem)
  have htimep : s₁.lru.lasttime (s.lru.linkPrev x) = s.lru.lasttime (s.lru.linkPrev x) := by
    rw [htime₁, Function.update_of_ne hpx]
  have hlink := hset.links _ (List.mem_append_left _ hpmem)
  rw [if_neg hp, if_neg (by simp [hlink.ptr]), htimep]
  split
  . rename_i hle
    refine ⟨ys ++ [x], List.Perm.refl _, hset, ?_⟩
    intro hrising
    have hys := (Linked.rising_concat_iff.mp hrising).1
    rw [htime₁]
    apply (Linked.rising_stamp_iff hys hnot).mpr
    rw [hzs] at hys ⊢
    exact hys.le_iff.mpr hle
  . rename_i hle
    -- Below the element, the list is a list of its own.
    have hpop : Linked.DList (Function.update s.lru.linkNext (s.lru.linkPrev x) 0) s.lru.linkPrev 0
        (s.lru.linkPrev x) s.lru.linkLast ys := by
      have hlist := h.list.list
      have hfirst := hlist.eq_first_of_next hx (not_not.mp hguard.1.2)
      rw [← hfirst, hzs] at hlist
      conv => arg 6; rw [hzs]
      exact hlist.pop_top
    generalize hs₂ : s₁.setLru _ = s₂
    have hlist₂ : Linked.DList s₂.lru.linkNext s₂.lru.linkPrev 0 s₂.lru.linkFirst s₂.lru.linkLast
        ys := by
      rw [← hs₂, ← hs₁]
      exact hpop
    have htime₂ : s₂.lru.lasttime = s₁.lru.lasttime := by rw [← hs₂]; rfl
    have hcount₂ : s₂.lru.nvalset = ((ys ++ [x]).length : Int) := by
      rw [← hset.list.nvalset, ← hs₂]
      rfl
    have hlinks₂ : ∀ y ∈ ys ++ [x], s₂.HasLink y := by
      intro y hy
      have hy₁ := hset.links y hy
      rw [← hs₂]
      exact ⟨hy₁.ptr, hy₁.iter⟩
    have hlater : ∀ d ∈ [s.lru.linkPrev x], t < s₂.lru.lasttime d := by
      intro d hd
      rw [List.mem_singleton.mp hd, htime₂, htimep]
      exact Nat.lt_of_not_le hle
    have hfuel : zs.length < s₂.lru.nvalset.toNat := by
      rw [hcount₂, hzs]
      simp only [List.length_append, List.length_singleton, Int.toNat_natCast]
      omega
    have hsunk := (linkMvDown_sunk hlist₂ (fun y hy => hlinks₂ y (List.mem_append_left _ hy)) hnot
      (h.list.list.ne_nil hx) hzs hlater hfuel).2
    have hx₂ : s₂.lru.lasttime x = t := by
      rw [htime₂, htime₁, Function.update_self]
    obtain ⟨us, hperm, hlist, hrising⟩ := hsunk.exists_list hx₂
    have hperm' : us.Perm (ys ++ [x]) := hperm.trans (List.perm_append_singleton x ys).symm
    refine ⟨us, hperm', ⟨⟨hlist, ?_⟩, ?_⟩, ?_⟩
    . rw [hsunk.nvalset, hcount₂, hperm'.length_eq]
    . intro y hy
      exact hsunk.links y (hlinks₂ y (hperm'.mem_iff.mp hy))
    . intro hall
      apply hrising
      rw [htime₂, htime₁]
      apply (Linked.rising_concat_iff.mp hall).1.congr
      intro y hy
      apply Function.update_of_ne
      rintro rfl
      exact hnot hy

end LsShmHash

inductive LruOp
  | time (now : Nat)
  | linkHElem (offElem : Nat)
  | unlinkHElem (offElem : Nat)
  | linkSetTop (offElem : Nat)
  | linkSetTopTime (offset lasttime : Nat)
  | linkMvTopTime (offset lasttime : Nat)

namespace LruTime

open LsShmHash

def step (s : LsShmHash) : LruOp → LsShmHash
  | .time now => { s with now := now }
  | .linkHElem off => s.linkHElem off
  | .unlinkHElem off => s.unlinkHElem off
  | .linkSetTop off => s.linkSetTop off
  | .linkSetTopTime off t => (s.linkSetTopTime off t).1
  | .linkMvTopTime off t => (s.linkMvTopTime off t).1

def Target (s : LsShmHash) (xs : List Nat) : LruOp → Prop
  | .time now => s.now ≤ now
  | .linkHElem off => off ∉ xs ∧ off ≠ 0 ∧ s.HasLink off
  | .unlinkHElem off => off ∈ xs
  | .linkSetTop off => off ∈ xs
  | .linkSetTopTime off _ => off ∈ xs
  | .linkMvTopTime off t => off ∈ xs ∧ 0 < t

/--
The operation is applied to an element of a list that is in order, or adds one to it, and the clock
does not go back.
-/
def Applies (s : LsShmHash) (op : LruOp) : Prop :=
  ∃ xs, s.LruWell xs ∧ Target s xs op

def below (s : LsShmHash) : LruOp → Nat
  | .linkHElem _ => s.lru.linkFirst
  | .linkSetTop off => if s.lru.linkNext off = 0 then s.lru.linkPrev off else s.lru.linkFirst
  | _ => 0

/--
The clock has reached the time of the element below.
-/
def InTime (s : LsShmHash) (op : LruOp) : Prop :=
  below s op ≠ 0 → s.lru.lasttime (below s op) ≤ s.now

instance (s : LsShmHash) (op : LruOp) : Decidable (InTime s op) :=
  inferInstanceAs (Decidable (_ → _))

variable {s : LsShmHash} {xs : List Nat} {x : Nat}

theorem linkHElem_iff (h : s.LruWell xs) (hs : s.TimeOrdered) (hx : x ∉ xs) (hx0 : x ≠ 0)
    (hlink : s.HasLink x) : (s.linkHElem x).TimeOrdered ↔ InTime s (.linkHElem x) := by
  have hrising := h.timeOrdered_iff.mp hs
  have hlist := linkHElem_list h.list h.links hx hx0 hlink
  rw [timeOrdered_iff_of_chain hlist.list.up, linkHElem_lasttime h hx0 hlink,
    Linked.rising_stamp_iff hrising hx]
  unfold InTime below
  by_cases hf : s.lru.linkFirst = 0
  . rw [h.list.list.first_eq_nil_iff.mp hf]
    exact iff_of_true (fun _ hin => by contradiction) fun hne => absurd hf hne
  . obtain ⟨ys, hys⟩ := h.list.list.eq_concat_first hf
    rw [hys] at hrising ⊢
    rw [hrising.le_iff]
    exact ⟨fun hle _ => hle, fun hle => hle hf⟩

theorem linkSetTop_iff (h : s.LruWell xs) (hs : s.TimeOrdered) (hx : x ∈ xs)
    : (s.linkSetTop x).TimeOrdered ↔ InTime s (.linkSetTop x) := by
  have hrising := h.timeOrdered_iff.mp hs
  unfold InTime below
  dsimp only
  by_cases hn : s.lru.linkNext x = 0
  . obtain ⟨ys, rfl⟩ := h.next_first hx hn
    have hnot : x ∉ ys := by
      have hnd := h.list.list.nodup
      rw [List.nodup_append] at hnd
      exact fun hin => hnd.2.2 x hin x (List.mem_singleton_self x) rfl
    have hys := (Linked.rising_concat_iff.mp hrising).1
    have hset := h.setTime x s.now
    rw [if_pos hn, linkSetTop_top h hx hn, hset.timeOrdered_iff]
    refine (Linked.rising_stamp_iff hys hnot).trans ?_
    rcases h.prev_concat with ⟨hp, rfl⟩ | ⟨hp, zs, hzs⟩
    . exact iff_of_true (fun _ hin => by contradiction) fun hne => absurd hp hne
    . rw [hzs] at hys ⊢
      rw [hys.le_iff]
      exact ⟨fun hle _ => hle, fun hle => hle hp⟩
  . have hchain := linkSetTop_chain h hx hn
    have hnot : x ∉ xs.erase x := h.list.list.nodup.not_mem_erase
    have herase : Linked.Rising s.lru.lasttime (xs.erase x) := hrising.sublist List.erase_sublist
    rw [if_neg hn, timeOrdered_iff_of_chain hchain, (linkSetTop_lru h hx hn).2.2,
      Linked.rising_stamp_iff herase hnot]
    obtain ⟨ys, hys⟩ := erase_concat_first h hx hn
    rw [hys] at herase ⊢
    rw [herase.le_iff]
    exact ⟨fun hle _ => hle, fun hle => hle (linkFirst_ne h hx)⟩

theorem step_iff (op : LruOp) (hs : s.TimeOrdered) (happ : Applies s op)
    : (step s op).TimeOrdered ↔ InTime s op := by
  obtain ⟨xs, h, htarget⟩ := happ
  cases op with
  | time now => exact iff_of_true hs fun hne => absurd rfl hne
  | linkHElem off => exact linkHElem_iff h hs htarget.1 htarget.2.1 htarget.2.2
  | unlinkHElem off =>
    obtain ⟨ys, hsub, hchain⟩ := unlinkHElem_chain h htarget
    refine iff_of_true ⟨ys, hchain, ?_⟩ fun hne => absurd rfl hne
    change Linked.Rising (s.unlinkHElem off).lru.lasttime ys
    rw [unlinkHElem_lasttime]
    exact (h.timeOrdered_iff.mp hs).sublist hsub
  | linkSetTop off => exact linkSetTop_iff h hs htarget
  | linkSetTopTime off t =>
    obtain ⟨hwell, hrising⟩ := linkSetTopTime_well h htarget t
    have hordered := hwell.timeOrdered_iff.mpr (hrising (h.timeOrdered_iff.mp hs))
    exact iff_of_true hordered fun hne => absurd rfl hne
  | linkMvTopTime off t =>
    obtain ⟨ys, _, hwell, hrising⟩ := linkMvTopTime_well h htarget.1 t
    have hordered := hwell.timeOrdered_iff.mpr (hrising (h.timeOrdered_iff.mp hs))
    exact iff_of_true hordered fun hne => absurd rfl hne

/--
The two operations that set a time keep the list. The list is in the order of the times in every state
of a run exactly when no element is stamped by a clock that is behind the element below, as a time
from a peer may be.
-/
theorem timeOrdered_iff_inTime (s : LsShmHash)
    : (∀ xs x t, s.LruWell xs → x ∈ xs →
        (s.linkSetTopTime x t).1.LruWell xs ∧
        ∃ ys, ys.Perm xs ∧ (s.linkMvTopTime x t).1.LruWell ys) ∧
      ∀ ops, s.TimeOrdered → Run.Meets step Applies s ops →
        ((∀ n, (Run.exec step s (ops.take n)).TimeOrdered) ↔ Run.Meets step InTime s ops) := by
  constructor
  . intro xs x t h hx
    obtain ⟨ys, hperm, hwell, _⟩ := linkMvTopTime_well h hx t
    exact ⟨(linkSetTopTime_well h hx t).1, ys, hperm, hwell⟩
  . intro ops hs happ
    exact Run.always_iff_meets TimeOrdered (fun s op => step_iff op) hs happ

def sampleOps : List LsShmHashOp :=
  [.doSet [1] (ValParm.ofBytes [10]), .doSet [2] (ValParm.ofBytes [20]),
    .doSet [3] (ValParm.ofBytes [30])]

def sample : LsShmHash :=
  Run.exec LsShmHash.step (LruRun.sample.get LruRun.sample_isSome) sampleOps

theorem sample_well : sample.LruWell [0x1000, 0x1100, 0x1200] := by
  have hmeets : Run.Meets LsShmHash.step LruRun.Ok (LruRun.sample.get LruRun.sample_isSome)
      sampleOps := by decide +kernel
  obtain ⟨xs, h⟩ := Run.exec_invariant (fun s => ∃ xs, LruOk s xs) LruRun.step_lruOk
    ⟨[], LruRun.allocHTable_lruOk (Option.some_get LruRun.sample_isSome).symm (by decide) rfl⟩ hmeets
  have hchain : Linked.Chain sample.lru.linkNext 0 sample.lru.linkLast [0x1000, 0x1100, 0x1200] :=
    ⟨by decide +kernel, by decide, by decide +kernel, by decide, by decide +kernel, by decide,
      Linked.chain_nil_iff.mpr (by decide +kernel)⟩
  rw [← h.list.list.up.unique hchain]
  exact ⟨h.list, fun y hy => h.hasLink hy⟩

theorem sample_timeOrdered : sample.TimeOrdered := by
  refine sample_well.timeOrdered_iff.mpr ?_
  unfold Linked.Rising
  decide +kernel

def aheadOps : List LruOp :=
  [.linkMvTopTime 0x1200 50, .linkSetTop 0x1100]

theorem applies_aheadOps : Run.Meets step Applies sample aheadOps := by
  refine ⟨⟨_, sample_well, by decide, by decide⟩, ?_, trivial⟩
  obtain ⟨ys, hperm, hwell, _⟩ := linkMvTopTime_well sample_well (x := 0x1200) (by decide) 50
  exact ⟨ys, hwell, hperm.mem_iff.mpr (by decide)⟩

theorem timeOrdered_sample
    : (sample.linkMvTopTime 0x1200 50).1.lru.lasttime 0x1200 = 50 ∧
      ¬ ∀ n, (Run.exec step sample (aheadOps.take n)).TimeOrdered := by
  have h := (timeOrdered_iff_inTime sample).2 aheadOps sample_timeOrdered applies_aheadOps
  refine ⟨by decide +kernel, ?_⟩
  rw [h]
  decide +kernel

/--
The element that was set by the clock is above the one with the peer's time.
-/
theorem not_timeOrdered_aheadOps
    : Run.Meets step Applies sample aheadOps ∧
      ¬ (Run.exec step sample aheadOps).TimeOrdered := by
  refine ⟨applies_aheadOps, ?_⟩
  have hfirst : (step sample (.linkMvTopTime 0x1200 50)).TimeOrdered :=
    (step_iff _ sample_timeOrdered applies_aheadOps.1).mpr (by decide +kernel)
  intro h
  exact absurd ((step_iff _ hfirst applies_aheadOps.2.1).mp h) (by decide +kernel)

end LruTime

end Lsmcd
