import Lsmcd.Shm.EvictRun
import Lsmcd.Shm.Adds
import Mathlib.Data.List.TakeWhile

/-!
Why the conditions on a call are necessary: once the oldest one of several elements was taken away from
the bottom of the list, `linkLast` stays where it is until the loop ends.
-/

namespace Lsmcd

namespace LsShmHash

/--
No element that is left has an empty link to the one below, so that the list keeps its bottom.
-/
structure Stuck (l : LsHashLruInfo) (live : Nat → Prop) (xs : List Nat) (y : Nat) : Prop where
  last : l.linkLast = y
  first : l.linkFirst ≠ 0
  prev : ∀ x ∈ xs, live x → l.linkPrev x ≠ 0
  next : ∀ x ∈ xs, l.linkNext x = 0 ∨ l.linkNext x ∈ xs

section Stuck

variable {l : LsHashLruInfo} {live live' : Nat → Prop} {xs : List Nat} {x y v : Nat}

theorem Stuck.mono (h : Stuck l live xs y) (hl : ∀ x, live' x → live x) : Stuck l live' xs y :=
  ⟨h.last, h.first, fun x hx hlive => h.prev x hx (hl x hlive), h.next⟩

theorem Stuck.setNext (h : Stuck l live xs y) (p : Nat) (hv : v = 0 ∨ v ∈ xs)
    : Stuck (l.setNext p v) live xs y := by
  refine ⟨h.last, h.first, h.prev, ?_⟩
  intro x hx
  show Function.update l.linkNext p v x = 0 ∨ Function.update l.linkNext p v x ∈ xs
  by_cases hxp : x = p
  . rw [hxp, Function.update_self]
    exact hv
  . rw [Function.update_of_ne hxp]
    exact h.next x hx

theorem Stuck.setPrev (h : Stuck l live xs y) (p : Nat) (hv : v ≠ 0) : Stuck (l.setPrev p v) live xs y := by
  refine ⟨h.last, h.first, ?_, h.next⟩
  intro x hx hlive
  show Function.update l.linkPrev p v x ≠ 0
  by_cases hxp : x = p
  . rw [hxp, Function.update_self]
    exact hv
  . rw [Function.update_of_ne hxp]
    exact h.prev x hx hlive

end Stuck

variable {s : LsShmHash} {live : Nat → Prop} {xs : List Nat} {x y : Nat}

theorem Stuck.set_linkNext (h : Stuck s.lru live xs y) (p : Nat) {v : Nat} (hv : v = 0 ∨ v ∈ xs)
    : Stuck (s.set_linkNext p v).1.lru live xs y := by
  rcases setLink_cases s p v (·.setNext p v) with heq | heq
  . rw [LsShmHash.set_linkNext, heq]
    exact h
  . rw [LsShmHash.set_linkNext, heq]
    exact h.setNext p hv

theorem Stuck.set_linkPrev (h : Stuck s.lru live xs y) (p v : Nat)
    : Stuck (s.set_linkPrev p v).1.lru live xs y := by
  unfold LsShmHash.set_linkPrev
  by_cases hv : v = 0
  . rw [hv, setLink_zero]
    exact h
  . rcases setLink_cases s p v (·.setPrev p v) with heq | heq
    . rw [heq]
      exact h
    . rw [heq]
      exact h.setPrev p hv

theorem Stuck.unlinkHElem (h : Stuck s.lru live xs y) (hx : x ∈ xs) (hlive : live x)
    : Stuck (s.unlinkHElem x).lru live xs y := by
  unfold LsShmHash.unlinkHElem
  split
  . exact h
  . dsimp only
    generalize hr : (if s.lru.linkNext x ≠ 0 then s.set_linkPrev (s.lru.linkNext x) (s.lru.linkPrev x)
      else (s.setLru fun l => { l with linkFirst := l.linkPrev x }, false)) = r
    have hsr : Stuck r.1.lru live xs y := by
      rw [← hr]
      split
      . exact h.set_linkPrev _ _
      . exact ⟨h.last, h.prev x hx hlive, h.prev, h.next⟩
    split
    . exact hsr
    . rw [if_pos (hsr.prev x hx hlive)]
      have hsq := hsr.set_linkNext (r.1.lru.linkPrev x) (hsr.next x hx)
      split
      . exact hsq
      . exact ⟨hsq.last, hsq.first, hsq.prev, hsq.next⟩

theorem Stuck.linkSetTop (h : Stuck s.lru live xs y) (hx : x ∈ xs) (hx0 : x ≠ 0) (hlive : live x)
    : Stuck (s.linkSetTop x).lru live xs y := by
  unfold LsShmHash.linkSetTop
  split
  . exact h
  . dsimp only
    split
    . rw [if_neg (h.prev x hx hlive)]
      have hr := h.set_linkNext (s.lru.linkPrev x) (h.next x hx)
      split
      . exact hr
      . have hq := hr.set_linkPrev (s.lru.linkNext x) (s.lru.linkPrev x)
        split
        . exact hq
        . generalize hp : LsShmHash.setLru _ _ = p
          have hsp : Stuck p.lru live xs y := by
            rw [← hp]
            exact (hq.setNext x (.inl rfl)).setPrev x hq.first
          have ht := hsp.set_linkNext p.lru.linkFirst (.inr hx)
          split
          . exact ht
          . exact ⟨ht.last, hx0, ht.prev, ht.next⟩
    . exact ⟨h.last, h.first, h.prev, h.next⟩

theorem leaveBucket_lru (s : LsShmHash) (iterOff hashIndx offset next : Nat)
    : (s.leaveBucket iterOff hashIndx offset next).lru = s.lru := by
  unfold leaveBucket
  dsimp only
  split
  . rfl
  . split <;> rfl

theorem eraseIteratorHelper_lru (s : LsShmHash) (x : Nat)
    : (s.eraseIteratorHelper x).lru = s.lru ∨ (s.eraseIteratorHelper x).lru = (s.unlinkHElem x).lru := by
  unfold eraseIteratorHelper
  split
  . exact .inl rfl
  . split
    . exact .inl rfl
    . rename_i iter _
      have hcbs : (s.eraseCbs x).lru = s.lru ∨ (s.eraseCbs x).lru = (s.unlinkHElem x).lru := by
        unfold eraseCbs
        dsimp only
        by_cases hl : s.flagLru
        . rw [if_pos hl]
          right
          split
          . exact eraseIterCb_lru _ x
          . rfl
        . rw [if_neg hl]
          left
          split
          . exact eraseIterCb_lru _ x
          . rfl
      have hleave := leaveBucket_lru (s.eraseCbs x) x (iter.x_hkey % s.capacity)
        (s.table.hIdx s.table.x_iHIdx (iter.x_hkey % s.capacity)) (s.table.next x)
      rcases hcbs with heq | heq
      . exact .inl (hleave.trans heq)
      . exact .inr (hleave.trans heq)

def Live (s : LsShmHash) (x : Nat) : Prop := s.table.elem x ≠ none

theorem live_erase (s : LsShmHash) (x : Nat) (h : (s.eraseIteratorHelper x).Live y) : s.Live y := by
  obtain ⟨e, he⟩ := Option.ne_none_iff_exists'.mp h
  rcases @adds_eraseIteratorHelper (fun _ => False) s x y e he with hold | hfalse
  . exact Option.ne_none_iff_exists'.mpr ⟨e, hold⟩
  . exact hfalse.elim

theorem Stuck.trimIter {act : Nat → LsShmHElem → TrimAct} {cost : LsShmHElem → Int} {st : TrimState}
    (h : Stuck st.hash.lru st.hash.Live xs y) (hoff : st.offElem = 0 ∨ st.offElem ∈ xs)
    : Stuck (trimIter act cost st).hash.lru (trimIter act cost st).hash.Live xs y ∧
      ((trimIter act cost st).offElem = 0 ∨ (trimIter act cost st).offElem ∈ xs) := by
  unfold LsShmHash.trimIter
  split
  . exact ⟨h, hoff⟩
  next hgo =>
  push Not at hgo
  have hx := hoff.resolve_left hgo.1
  rw [← LsShmHash.grownTid]
  have hs : Stuck st.hash.grownTid.lru st.hash.grownTid.Live xs y := by
    rw [grownTid_lru]
    apply h.mono
    unfold Live
    rw [(quiet_grownTid st.hash).table]
    exact fun _ hl => hl
  have hnext : st.hash.grownTid.getLruLinkNext st.offElem = 0 ∨
      st.hash.grownTid.getLruLinkNext st.offElem ∈ xs := by
    unfold getLruLinkNext
    split
    . exact hs.next _ hx
    . exact .inl rfl
  dsimp only
  split
  . exact ⟨hs, .inl rfl⟩
  . next e he =>
    have hlive : st.hash.grownTid.Live st.offElem := by
      unfold Live
      rw [elem_of_offset2iterator he]
      exact Option.some_ne_none e
    split
    . exact ⟨hs, .inl rfl⟩
    . exact ⟨hs, hnext⟩
    . refine ⟨?_, hnext⟩
      have htop := hs.linkSetTop hx hgo.1 hlive
      apply htop.mono
      unfold Live
      rw [(quiet_linkSetTop _ _).table]
      exact fun _ hl => hl
    . refine ⟨?_, hnext⟩
      have hlru : Stuck (st.hash.grownTid.eraseIteratorHelper st.offElem).lru st.hash.grownTid.Live xs y := by
        rcases eraseIteratorHelper_lru st.hash.grownTid st.offElem with heq | heq
        . rw [heq]
          exact hs
        . rw [heq]
          exact hs.unlinkHElem hx hlive
      have hmono := hlru.mono (fun _ => live_erase st.hash.grownTid st.offElem)
      exact ⟨hmono.last, hmono.first, hmono.prev, hmono.next⟩

theorem Stuck.trimRun {act : Nat → LsShmHElem → TrimAct} {cost : LsShmHElem → Int} {st : TrimState}
    (h : Stuck st.hash.lru st.hash.Live xs y) (hoff : st.offElem = 0 ∨ st.offElem ∈ xs) (n : Nat)
    : (trimRun act cost st n).hash.lru.linkLast = y := by
  induction n generalizing st with
  | zero => exact h.last
  | succ n ih =>
    obtain ⟨h', hoff'⟩ := @Stuck.trimIter xs y act cost st h hoff
    exact ih h' hoff'

section Bottom

variable {ys : List Nat} (h : LruOk s (x :: y :: ys))
include h

theorem LruOk.bottom_links
    : s.lru.linkPrev x = 0 ∧ s.lru.linkNext x = y ∧ y ≠ 0 ∧
      (∀ z ∈ x :: y :: ys, z ≠ x → s.lru.linkPrev z ≠ 0) ∧
      ∀ z ∈ x :: y :: ys, s.lru.linkNext z = 0 ∨ s.lru.linkNext z ∈ x :: y :: ys := by
  have hlist := h.list.list
  obtain ⟨hlast, hp⟩ := hlist.bottom
  obtain ⟨hn, hy0, _⟩ := hlist.up.2.2
  refine ⟨hp, hn, hy0, ?_, ?_⟩
  . intro z hz hzx hpz
    exact hzx ((hlist.reverse.eq_first_of_next (List.mem_reverse.mpr hz) hpz).trans hlast)
  . intro z hz
    by_cases hnz : s.lru.linkNext z = 0
    . exact .inl hnz
    . exact .inr (hlist.next_mem hz hnz).1

theorem LruOk.stuck_erase
    : Stuck (s.eraseIteratorHelper x).lru (s.eraseIteratorHelper x).Live (x :: y :: ys) y := by
  have hx : x ∈ x :: y :: ys := List.mem_cons_self
  obtain ⟨hp, hn, hy0, hprev, hnext⟩ := h.bottom_links
  obtain ⟨e, he, _⟩ := h.rep.elems x hx
  have hd := (eraseIteratorHelper_spec h.rep hx he).2
  rw [erase_lru h.rep h.flag hx, unlinkHElem_last (h.hasLink hx) hp (hn ▸ hy0)]
  refine ⟨hn, h.list.upList.first_ne hx, ?_, hnext⟩
  intro z hz hlive
  apply hprev z hz
  rintro rfl
  unfold Live at hlive
  rw [hd.elem, Function.update_self] at hlive
  exact hlive rfl

theorem LruOk.stuck_top : Stuck (s.linkSetTop x).lru (s.linkSetTop x).Live (x :: y :: ys) y := by
  have hx : x ∈ x :: y :: ys := List.mem_cons_self
  obtain ⟨hp, hn, hy0, hprev, hnext⟩ := h.bottom_links
  have hx0 := h.list.list.ne_nil hx
  have hf := h.list.upList.first_ne hx
  have hfirst := h.hasLink (h.list.list.first_mem hf)
  rw [linkSetTop_last hx0 (h.hasLink hx) hfirst hp (hn ▸ hy0)]
  refine ⟨hn, hx0, ?_, ?_⟩
  . intro z hz _
    show Function.update s.lru.linkPrev x s.lru.linkFirst z ≠ 0
    by_cases hzx : z = x
    . rw [hzx, Function.update_self]
      exact hf
    . rw [Function.update_of_ne hzx]
      exact hprev z hz hzx
  . intro z hz
    show Function.update (Function.update s.lru.linkNext x 0) s.lru.linkFirst x z = 0 ∨
      Function.update (Function.update s.lru.linkNext x 0) s.lru.linkFirst x z ∈ _
    by_cases hzf : z = s.lru.linkFirst
    . rw [hzf, Function.update_self]
      exact .inr hx
    . rw [Function.update_of_ne hzf]
      by_cases hzx : z = x
      . rw [hzx, Function.update_self]
        exact .inl rfl
      . rw [Function.update_of_ne hzx]
        exact hnext z hz

end Bottom

section Above

theorem set_linkNext_ne {z : Nat} (h : s.lru.linkNext z ≠ 0) (p v : Nat)
    : (s.set_linkNext p v).1.lru.linkNext z ≠ 0 := by
  unfold set_linkNext
  by_cases hv : v = 0
  . rw [hv, setLink_zero]
    exact h
  . rcases setLink_cases s p v (·.setNext p v) with heq | heq
    . rw [heq]
      exact h
    . rw [heq]
      show Function.update s.lru.linkNext p v z ≠ 0
      by_cases hz : z = p
      . rw [hz, Function.update_self]
        exact hv
      . rw [Function.update_of_ne hz]
        exact h

theorem set_linkPrev_next (s : LsShmHash) (p v : Nat) : (s.set_linkPrev p v).1.lru.linkNext = s.lru.linkNext := by
  unfold set_linkPrev
  rcases setLink_cases s p v (·.setPrev p v) with heq | heq <;> rw [heq]
  rfl

theorem unlinkHElem_ne {z : Nat} (h : s.lru.linkNext z ≠ 0) (x : Nat) : (s.unlinkHElem x).lru.linkNext z ≠ 0 := by
  unfold unlinkHElem
  split
  . exact h
  . dsimp only
    generalize hr : (if s.lru.linkNext x ≠ 0 then s.set_linkPrev (s.lru.linkNext x) (s.lru.linkPrev x)
      else (s.setLru fun l => { l with linkFirst := l.linkPrev x }, false)) = r
    have hnr : r.1.lru.linkNext z ≠ 0 := by
      rw [← hr]
      split
      . rw [set_linkPrev_next]
        exact h
      . exact h
    split
    . exact hnr
    . generalize hq : (if r.1.lru.linkPrev x ≠ 0 then r.1.set_linkNext (r.1.lru.linkPrev x) (r.1.lru.linkNext x)
        else (r.1.setLru fun l => { l with linkLast := l.linkNext x }, false)) = q
      have hnq : q.1.lru.linkNext z ≠ 0 := by
        rw [← hq]
        split
        . exact set_linkNext_ne hnr _ _
        . exact hnr
      split
      . exact hnq
      . exact hnq

theorem trimIter_next {act : Nat → LsShmHElem → TrimAct} {cost : LsShmHElem → Int} {st : TrimState} {z : Nat}
    (hact : ∀ t e, act t e ≠ .top) (h : st.hash.lru.linkNext z ≠ 0)
    : (trimIter act cost st).hash.lru.linkNext z ≠ 0 := by
  unfold trimIter
  split
  . exact h
  rw [← grownTid]
  have hg : st.hash.grownTid.lru.linkNext z ≠ 0 := by
    rw [grownTid_lru]
    exact h
  dsimp only
  split
  . exact hg
  . next e _ =>
    split
    . exact hg
    . exact hg
    . next htop => exact absurd htop (hact _ e)
    . show (st.hash.grownTid.eraseIteratorHelper st.offElem).lru.linkNext z ≠ 0
      rcases eraseIteratorHelper_lru st.hash.grownTid st.offElem with heq | heq
      . rw [heq]
        exact hg
      . rw [heq]
        exact unlinkHElem_ne hg _

theorem trimRun_next {act : Nat → LsShmHElem → TrimAct} {cost : LsShmHElem → Int} {st : TrimState} {z : Nat}
    (hact : ∀ t e, act t e ≠ .top) (h : st.hash.lru.linkNext z ≠ 0) (n : Nat)
    : (trimRun act cost st n).hash.lru.linkNext z ≠ 0 := by
  induction n generalizing st with
  | zero => exact h
  | succ n ih => exact ih (trimIter_next hact h)

end Above

end LsShmHash

namespace TrimCall

open LsShmHash LsShmHTable

variable {c : TrimCall} {s : LsShmHash} {xs ys : List Nat} {x y : Nat} {n : Nat}

theorem exec_run (hflag : s.flagLru = true) (n : Nat)
    : c.exec s n = ((c.run s n).hash.setLru fun l => { l with nvalexp := l.nvalexp + (c.run s n).del },
        (c.run s n).del) := by
  rw [exec_eq, trimLoop, if_neg (by simp [hflag])]
  rfl

section Enough

theorem gone_trim {tmCutoff : Nat} {func : Option (LsShmHElem → Int)} (hc : c = trim tmCutoff func)
    : c.gone s xs = xs.filter (fun x => s.lru.lasttime x < tmCutoff ∧ c.ret s x = 1) := by
  rw [hc]
  rfl

theorem erased_sublist {tmCutoff : Nat} {func : Option (LsShmHElem → Int)} (hc : c = trim tmCutoff func)
    : (c.erased s tmCutoff xs).Sublist (c.gone s xs) := by
  have hsame : c.erased s tmCutoff xs =
      (c.acted s tmCutoff xs).filter (fun x => s.lru.lasttime x < tmCutoff ∧ c.ret s x = 1) := by
    apply List.filter_congr
    intro x hx
    have hacted := List.mem_takeWhile_imp hx
    simp only [decide_eq_true_eq] at hacted
    simp [hacted.1]
  rw [gone_trim hc, hsame]
  exact (List.takeWhile_sublist _).filter _

theorem settled (h : LruOk s xs) (hfit : c.LinksFit s xs)
    : ∃ n, Walked c s (c.top s xs) (s.trimStart c.left) xs (c.gone s xs) (c.rest s xs) n := by
  cases hc : c with
  | trim tmCutoff func =>
    rw [← hc]
    have hfit : ((c.acted s tmCutoff xs).length ≤ 1 ∨
        ∃ x y, xs = [x, y] ∧ c.ret s x = 1 ∧ c.ret s y ≠ 1) ∧
        ∀ x ∈ c.gone s xs, x ∈ c.acted s tmCutoff xs := by
      rw [hc] at hfit ⊢
      exact hfit
    have heq : c.erased s tmCutoff xs = c.gone s xs := by
      apply (erased_sublist hc).eq_of_length_le
      have hnd : (c.gone s xs).Nodup := by
        rw [gone_trim hc]
        exact h.rep.nodup.filter _
      apply (hnd.subperm _).length_le
      intro x hx
      have hone := List.of_mem_filter (gone_trim hc ▸ hx)
      simp only [decide_eq_true_eq] at hone
      exact List.mem_filter.mpr ⟨hfit.2 x hx, by simpa using hone.2⟩
    have hn := trim_settled hc h hfit.1
    rw [heq] at hn
    exact hn
  | trimsize need func =>
    rw [← hc]
    have htop : c.top s xs = [] := by rw [hc]; rfl
    have hn := trimsize_settled hc h hfit
    rw [rest, htop]
    simpa using hn
  | trimByCb maxCnt func =>
    rw [← hc]
    have htop : c.top s xs = [] := by rw [hc]; rfl
    have hn := trimByCb_settled hc h hfit
    rw [rest, htop]
    simpa using hn

theorem top_trim {tmCutoff : Nat} {func : Option (LsShmHElem → Int)} (hc : c = trim tmCutoff func)
    : c.top s xs = (c.acted s tmCutoff xs).filter (fun x => c.ret s x ≠ 1) := by
  rw [hc]
  rfl

theorem mem_top (hx : x ∈ c.top s xs) : x ∈ xs ∧ x ∉ c.gone s xs := by
  cases hc : c with
  | trim tmCutoff func =>
    rw [← hc]
    rw [top_trim hc, List.mem_filter] at hx
    refine ⟨(List.takeWhile_sublist _).mem hx.1, ?_⟩
    intro hin
    rw [gone_trim hc, List.mem_filter] at hin
    have hone : c.ret s x = 1 := by
      have hin := hin.2
      simp only [decide_eq_true_eq] at hin
      exact hin.2
    simp [hone] at hx
  | trimsize need func =>
    rw [hc] at hx
    cases hx
  | trimByCb maxCnt func =>
    rw [hc] at hx
    cases hx

theorem mem_rest : x ∈ c.rest s xs ↔ x ∈ xs ∧ x ∉ c.gone s xs := by
  unfold rest
  rw [List.mem_append, List.mem_filter]
  constructor
  . rintro (⟨hx, hstay⟩ | htop)
    . simp only [decide_eq_true_eq] at hstay
      exact ⟨hx, hstay.1⟩
    . exact mem_top htop
  . intro ⟨hx, hstay⟩
    by_cases htop : x ∈ c.top s xs
    . exact .inr htop
    . exact .inl ⟨hx, by simpa using ⟨hstay, htop⟩⟩

theorem trimTrace_length {act : Nat → LsShmHElem → TrimAct} {cost : LsShmHElem → Int}
    (hcost : ∀ e, cost e = 1) (st : TrimState) (n : Nat) : (trimTrace act cost n st).length ≤ st.left.toNat := by
  induction n generalizing st with
  | zero => exact Nat.zero_le _
  | succ n ih =>
    rw [trimTrace]
    split
    . exact Nat.zero_le _
    next hgo =>
    have hleft : 0 < st.left := by
      unfold TrimState.Over at hgo
      omega
    have hnext : (trimIter act cost st).Over ∨ (trimIter act cost st).left = st.left - 1 := by
      have hgo' : ¬ (st.offElem = 0 ∨ st.left ≤ 0) := hgo
      unfold trimIter
      rw [if_neg hgo']
      dsimp only
      split
      . exact .inl (.inl rfl)
      . next e _ =>
        split
        . exact .inl (.inl rfl)
        . exact .inr (by rw [hcost])
        . exact .inr (by rw [hcost])
        . exact .inr (by rw [hcost])
    rw [List.length_cons]
    rcases hnext with hover | hnext
    . rw [trimTrace_over hover]
      simp
      omega
    . have hle := ih (trimIter act cost st)
      rw [hnext] at hle
      omega

theorem Walked.evicts (h : LruOk s xs) {n : Nat}
    (hw : Walked c s (c.top s xs) (s.trimStart c.left) xs (c.gone s xs) (c.rest s xs) n)
    (hsum : s.lru.ndataset = 0 → ((c.gone s xs).map (c.ret s)).sum = 0) : c.Evicts s xs n := by
  have hev : Evicted c s (c.run s n).hash (c.gone s xs) (c.rest s xs) := hw.evicted
  have hok : UpOk (c.exec s n).1 (c.rest s xs) := by
    rw [exec_run h.flag]
    dsimp only
    apply hev.ok.setLru
    exact ⟨hev.ok.list.list, hev.ok.list.nvalset⟩
  have helem : ∀ x ∈ xs, x ∉ c.gone s xs → (c.exec s n).1.table.elem x = s.table.elem x := by
    intro x hx hstay
    rw [exec_run h.flag]
    exact hev.elem x (mem_rest.mpr ⟨hx, hstay⟩)
  have hkey : ∀ x ∈ xs, x ∉ c.gone s xs → (c.exec s n).1.table.keyOf x = s.table.keyOf x := by
    intro x hx hstay
    unfold keyOf
    rw [helem x hx hstay]
  have hhf : (c.exec s n).1.m_hf = s.m_hf := by
    rw [exec_run h.flag]
    exact hev.hf
  constructor
  case ended => exact hw.ended
  case looked => exact hw.looked
  case bound =>
    rintro maxCnt func rfl
    exact trimTrace_length (fun _ => rfl) _ n
  case moved => exact hw.moved
  case del =>
    rw [exec_run h.flag]
    exact hw.del
  case find =>
    intro key
    have hnone : (∀ x ∈ c.rest s xs, (c.exec s n).1.table.keyOf x ≠ key) → (c.exec s n).1.findKey key = 0 := by
      intro hnone
      exact hok.rep.lookup.find2_eq_zero_iff.mpr hnone
    rcases h.rep.lookup.find2_cases key with ⟨hz, hall⟩ | ⟨hx, hkx⟩
    . have hz : s.findKey key = 0 := hz
      rw [hz, ite_self]
      apply hnone
      intro x hx
      obtain ⟨hx, hstay⟩ := mem_rest.mp hx
      rw [hkey x hx hstay]
      exact hall x hx
    . change s.findKey key ∈ xs at hx
      change s.table.keyOf (s.findKey key) = key at hkx
      split
      . next hgone =>
        apply hnone
        intro x hin hkx'
        obtain ⟨hxs, hstay⟩ := mem_rest.mp hin
        rw [hkey x hxs hstay] at hkx'
        rw [h.rep.keys x hxs _ hx (hkx'.trans hkx.symm)] at hstay
        exact hstay hgone
      . next hstay =>
        exact hok.rep.lookup.find2_eq (mem_rest.mpr ⟨hx, hstay⟩) ((hkey _ hx hstay).trans hkx)
  case elem => exact helem
  case order => exact hok.up
  case check =>
    intro hchecked
    rw [hok.checked_iff]
    rw [h.upOk.checked_iff] at hchecked
    rw [exec_run h.flag]
    show (c.run s n).hash.lru.ndataset = 0
    rw [hev.ndataset, hchecked, hsum hchecked]
    rfl

end Enough

section Necessary

variable {e : LsShmHElem}

theorem Evicts.last_eq (hev : c.Evicts s xs n) (hflag : s.flagLru = true)
    : (c.run s n).hash.lru.linkLast = (c.rest s xs).headD 0 := by
  have hhead := hev.order.head_eq
  rw [exec_run hflag] at hhead
  exact hhead

theorem Evicts.head_rest (hev : c.Evicts s (x :: y :: ys) n) (h : LruOk s (x :: y :: ys))
    (he : s.table.elem x = some e) (hleft : 0 < c.left)
    (hact : c.act (s.lru.lasttime x) e = .top ∨ c.act (s.lru.lasttime x) e = .erase (c.ret s x))
    : ∃ zs, c.rest s (x :: y :: ys) = y :: zs := by
  have hgo := first_go h hleft
  have hiter := first_iter h he hleft
  cases n with
  | zero => exact absurd hev.ended hgo
  | succ n =>
    have hlast := hev.last_eq h.flag
    have hstuck : (c.run s (n + 1)).hash.lru.linkLast = y := by
      have hfirst : Stuck (trimIter c.act c.cost (s.trimStart c.left)).hash.lru
          (trimIter c.act c.cost (s.trimStart c.left)).hash.Live (x :: y :: ys) y := by
        rcases hact with hact | hact
        . rw [hiter, hact]
          exact h.grownTid.stuck_top
        . rw [hiter, hact]
          have hs := h.grownTid.stuck_erase
          exact ⟨hs.last, hs.first, hs.prev, hs.next⟩
      have hoff : (trimIter c.act c.cost (s.trimStart c.left)).offElem = y := by
        rw [hiter]
        rcases hact with hact | hact <;> rw [hact] <;> rfl
      exact Stuck.trimRun hfirst (.inr (by rw [hoff]; simp)) n
    rw [hstuck] at hlast
    have hy0 := h.list.list.ne_nil (show y ∈ x :: y :: ys by simp)
    cases hrest : c.rest s (x :: y :: ys) with
    | nil =>
      rw [hrest] at hlast
      exact absurd hlast hy0
    | cons z zs =>
      rw [hrest, List.headD_cons] at hlast
      exact ⟨zs, by rw [hlast]⟩

theorem Evicts.not_gone (hev : c.Evicts s (x :: y :: ys) n) (h : LruOk s (x :: y :: ys))
    (he : s.table.elem x = some e) (hleft : 0 < c.left)
    (hact : c.act (s.lru.lasttime x) e = .top ∨ c.act (s.lru.lasttime x) e = .erase (c.ret s x))
    : y ∉ c.gone s (x :: y :: ys) := by
  obtain ⟨zs, hrest⟩ := hev.head_rest h he hleft hact
  have hmem : y ∈ c.rest s (x :: y :: ys) := by
    rw [hrest]
    exact List.mem_cons_self
  exact (mem_rest.mp hmem).2

theorem oldest_length (len : Nat → Nat) (need : Int) (xs : List Nat) : (oldest len need xs).length ≤ xs.length := by
  induction xs generalizing need with
  | nil => exact Nat.le_refl _
  | cons x xs ih =>
    rw [oldest]
    split
    . exact Nat.zero_le _
    . exact Nat.succ_le_succ (ih _)

theorem trimsize_fits {need : Int} {func : Option (LsShmHElem → Int)} (hc : c = trimsize need func)
    (h : LruOk s xs) (hev : c.Evicts s xs n) : c.LinksFit s xs := by
  have hgone : c.gone s xs = oldest (lenOf s.table) need xs := by rw [hc]; rfl
  have hfit : (c.gone s xs).length ≤ 1 → c.LinksFit s xs := by
    rw [hc]
    exact id
  apply hfit
  by_contra hlen
  rcases xs with _ | ⟨x, _ | ⟨y, ys⟩⟩
  . rw [hgone] at hlen
    exact hlen (Nat.zero_le _)
  . rw [hgone] at hlen
    exact hlen (oldest_length _ _ [x])
  . obtain ⟨e, he, _⟩ := h.rep.elems x List.mem_cons_self
    have hneed : 0 < need := by
      by_contra hneed
      rw [hgone, oldest_eq_nil (by omega)] at hlen
      exact hlen (Nat.zero_le _)
    have hleft : c.left = need := by rw [hc]; rfl
    have hact : c.act (s.lru.lasttime x) e = .erase (c.ret s x) := by
      rw [ret_eq he, hc]
      rfl
    apply hev.not_gone h he (by omega) (.inr hact)
    rw [hgone, oldest, if_neg (by omega)] at hlen ⊢
    rw [oldest] at hlen ⊢
    split
    . next hstop =>
      rw [if_pos hstop] at hlen
      exact absurd (Nat.le_refl 1) hlen
    . simp

theorem trimByCb_fits {maxCnt : Int} {func : Option (LsShmHElem → Int)} (hc : c = trimByCb maxCnt func)
    (h : LruOk s xs) (hev : c.Evicts s xs n) : c.LinksFit s xs := by
  have hgone : c.gone s xs = picked (c.ret s) c.left xs := by rw [hc]; rfl
  have hfit : (xs.length ≤ 1 ∨
      (∃ x ∈ xs.take 2, x ∉ c.gone s xs) ∧ ∀ x ∈ xs.getLast?, x ∉ c.gone s xs) → c.LinksFit s xs := by
    rw [hc]
    exact id
  apply hfit
  rcases xs with _ | ⟨x, _ | ⟨y, ys⟩⟩
  . exact .inl (Nat.zero_le _)
  . exact .inl (Nat.le_refl _)
  right
  have hold : ∃ z ∈ (x :: y :: ys).take 2, z ∉ c.gone s (x :: y :: ys) := by
    by_cases hx : x ∈ c.gone s (x :: y :: ys)
    . refine ⟨y, by simp, ?_⟩
      obtain ⟨e, he, _⟩ := h.rep.elems x List.mem_cons_self
      rw [hgone] at hx
      have hgo : 0 < c.left ∧ 0 ≤ c.ret s x := by
        by_contra hstop
        rw [picked_stop (by omega)] at hx
        cases hx
      have hpos : c.ret s x ≠ 0 := by
        intro hz
        rw [picked_cons hgo.1 hgo.2, if_pos hz] at hx
        exact (List.nodup_cons.mp h.rep.nodup).1 (picked_subset _ _ _ x hx)
      apply hev.not_gone h he hgo.1
      right
      rw [byCb_act hc he, if_neg (by omega), if_neg hpos]
    . exact ⟨x, by simp, hx⟩
  refine ⟨hold, ?_⟩
  -- the link of the newest element that is left still points upwards
  intro f hf hfgone
  have htop : c.top s (x :: y :: ys) = [] := by rw [hc]; rfl
  obtain ⟨z, hz, hzstay⟩ := hold
  have hzrest := mem_rest.mpr ⟨List.mem_of_mem_take hz, hzstay⟩
  obtain ⟨ws, w, hw⟩ : ∃ ws w, c.rest s (x :: y :: ys) = ws ++ [w] := by
    rcases List.eq_nil_or_concat (c.rest s (x :: y :: ys)) with hnil | ⟨ws, w, hw⟩
    . rw [hnil] at hzrest
      cases hzrest
    . exact ⟨ws, w, by rw [hw, List.concat_eq_append]⟩
  have hwmem : w ∈ c.rest s (x :: y :: ys) := by
    rw [hw]
    simp
  obtain ⟨hwxs, hwstay⟩ := mem_rest.mp hwmem
  have hend : (c.run s n).hash.lru.linkNext w = 0 := by
    have horder := hev.order
    rw [exec_run h.flag, hw] at horder
    exact horder.suffix.2.2
  have hnext : s.lru.linkNext w ≠ 0 := by
    intro hz
    have hwf := h.list.list.eq_first_of_next hwxs hz
    obtain ⟨us, hus⟩ := h.list.list.eq_concat_first (h.list.upList.first_ne hwxs)
    have hfw : f = w := by
      rw [hus, List.getLast?_concat] at hf
      rw [hwf]
      exact (Option.some.inj hf).symm
    exact hwstay (hfw ▸ hfgone)
  have hkeep := @trimRun_next c.act c.cost (s.trimStart c.left) w (by
    intro t e
    rw [hc]
    show (if trimRet func e < 0 then TrimAct.stop else if trimRet func e = 0 then .skip else .erase _) ≠ .top
    split
    . exact nofun
    . split <;> exact nofun) hnext n
  exact hkeep hend

theorem linkSetTop_blocked (hn : s.lru.linkNext y ≠ 0) (hp : s.lru.linkPrev y ≠ 0)
    (hnone : s.table.elem (s.lru.linkPrev y) = none) : (s.linkSetTop y).lru = s.lru := by
  have hiter : s.offset2iterator (s.lru.linkPrev y) = none := by
    unfold offset2iterator
    rw [hnone]
  unfold linkSetTop
  split
  . rfl
  . dsimp only
    rw [if_pos hn, if_neg hp, set_linkNext, setLink, if_pos hn, hiter]
    rfl

theorem Evicts.not_blocked {tmCutoff : Nat} {func : Option (LsShmHElem → Int)} {z : Nat}
    (hc : c = trim tmCutoff func) (h : LruOk s (x :: y :: z :: ys))
    (hev : c.Evicts s (x :: y :: z :: ys) n) (hx : s.lru.lasttime x < tmCutoff ∧ c.ret s x = 1)
    (hy : s.lru.lasttime y < tmCutoff ∧ 0 ≤ c.ret s y) (hkeep : c.ret s y ≠ 1)
    (htop : y ∈ c.top s (x :: y :: z :: ys)) : False := by
  have hleft : 0 < c.left := by rw [hc]; exact Int.one_pos
  have hcost : ∀ e, c.cost e = 0 := by rw [hc]; exact fun _ => rfl
  obtain ⟨e, he, _⟩ := h.rep.elems x List.mem_cons_self
  have hact : c.act (s.lru.lasttime x) e = .erase (c.ret s x) := by
    rw [trim_act hc he, if_pos ⟨hx.1, by omega⟩, if_pos hx.2]
  have hgo := first_go h hleft
  have hfirst := first_erase h he hleft hact
  have hiter := first_iter h he hleft
  rw [hact] at hiter
  obtain ⟨hp, hn, hy0, _, _⟩ := h.bottom_links
  have hprev : s.lru.linkPrev y = x := (@Linked.DList.adjacent _ _ _ _ _ _ _ _ [] _ h.list.list).2.1
  obtain ⟨hnext, hz0, _⟩ := h.list.list.up.2.2.2.2
  have hbase := h.grownTid
  have hmem : x ∈ x :: y :: z :: ys := List.mem_cons_self
  have hlru : (s.grownTid.eraseIteratorHelper x).lru =
      { s.lru with linkLast := y, nvalset := s.lru.nvalset - 1 } := by
    rw [erase_lru hbase.rep hbase.flag hmem]
    have hun := @unlinkHElem_last s.grownTid x (hbase.hasLink hmem) (by rw [grownTid_lru]; exact hp)
      (by rw [grownTid_lru, hn]; exact hy0)
    rw [hun, grownTid_lru, hn]
  generalize hst : trimIter c.act c.cost (s.trimStart c.left) = st at hfirst hiter
  have hgo₁ : ¬ st.Over := not_over hfirst.offElem hy0 (by rw [hfirst.left, hcost]; omega)
  obtain ⟨e', he', _⟩ := hfirst.evicted.ok.rep.elems y List.mem_cons_self
  have hiter₁ := @trimIter_eq c.act c.cost st _ e' hfirst.evicted.ok (hfirst.offElem ▸ List.mem_cons_self)
    (by rw [hfirst.left, hcost]; omega) (hfirst.offElem ▸ he')
  rw [hfirst.offElem, List.headD_cons, hfirst.lasttime y List.mem_cons_self,
    trim_act hc ((hfirst.evicted.elem y List.mem_cons_self).symm.trans he'), if_pos hy, if_neg hkeep] at hiter₁
  rcases n with _ | _ | n
  . exact hgo hev.ended
  . have hover := hev.ended
    rw [run, trimRun_succ, hst] at hover
    exact hgo₁ hover
  . have htrace : (y, trimIter c.act c.cost st) ∈ c.trace s (n + 1 + 1) := by
      rw [trace, trimTrace, if_neg hgo, hst, trimTrace, if_neg hgo₁, hfirst.offElem]
      simp
    have hmoved := hev.moved _ htrace htop
    rw [hiter₁] at hmoved
    have hlinks : st.hash.lru.linkNext = s.lru.linkNext ∧ st.hash.lru.linkPrev = s.lru.linkPrev ∧
        st.hash.lru.linkFirst = s.lru.linkFirst := by
      rw [hiter]
      show (s.grownTid.eraseIteratorHelper x).lru.linkNext = _ ∧
        (s.grownTid.eraseIteratorHelper x).lru.linkPrev = _ ∧
        (s.grownTid.eraseIteratorHelper x).lru.linkFirst = _
      rw [hlru]
      exact ⟨rfl, rfl, rfl⟩
    have hnone : st.hash.table.elem x = none := by
      have heq : s.grownTid.table.elem x = some e := by rw [(quiet_grownTid s).table, he]
      rw [hiter]
      show (s.grownTid.eraseIteratorHelper x).table.elem x = none
      rw [(eraseIteratorHelper_spec hbase.rep hmem heq).2.elem, Function.update_self]
    have hsame : (st.hash.grownTid.linkSetTop y).lru = st.hash.lru := by
      rw [← grownTid_lru st.hash]
      apply linkSetTop_blocked
      . rw [grownTid_lru, hlinks.1, hnext]
        exact hz0
      . rw [grownTid_lru, hlinks.2.1, hprev]
        exact h.list.list.ne_nil hmem
      . rw [grownTid_lru, hlinks.2.1, hprev, (quiet_grownTid st.hash).table]
        exact hnone
    have hfirst' : (st.hash.grownTid.linkSetTop y).lru.linkFirst = y := hmoved
    rw [hsame, hlinks.2.2] at hfirst'
    have htopmost := h.list.list.next_first (h.list.upList.first_ne hmem)
    rw [hfirst', hnext] at htopmost
    exact hz0 htopmost

theorem trim_fits {tmCutoff : Nat} {func : Option (LsShmHElem → Int)} (hc : c = trim tmCutoff func)
    (h : LruOk s xs) (hev : c.Evicts s xs n)
    : (c.acted s tmCutoff xs).length ≤ 1 ∨ ∃ x y, xs = [x, y] ∧ c.ret s x = 1 ∧ c.ret s y ≠ 1 := by
  have hleft : 0 < c.left := by rw [hc]; exact Int.one_pos
  rcases xs with _ | ⟨x, _ | ⟨y, ys⟩⟩
  . exact .inl (Nat.zero_le _)
  . exact .inl ((List.takeWhile_sublist _).length_le)
  by_cases hx : s.lru.lasttime x < tmCutoff ∧ 0 ≤ c.ret s x
  . by_cases hy : s.lru.lasttime y < tmCutoff ∧ 0 ≤ c.ret s y
    . -- the first two elements are both handled
      obtain ⟨e, he, _⟩ := h.rep.elems x List.mem_cons_self
      have hact : c.act (s.lru.lasttime x) e = .top ∨ c.act (s.lru.lasttime x) e = .erase (c.ret s x) := by
        rw [trim_act hc he, if_pos hx]
        split
        . exact .inr rfl
        . exact .inl rfl
      have hygone := hev.not_gone h he hleft hact
      obtain ⟨zs, hrest⟩ := hev.head_rest h he hleft hact
      have hxy : x ≠ y := fun heq => (List.nodup_cons.mp h.rep.nodup).1 (heq ▸ List.mem_cons_self)
      have hacted : c.acted s tmCutoff (x :: y :: ys) = x :: y :: c.acted s tmCutoff ys := by
        rw [acted_cons hx, acted_cons hy]
      have hykeep : c.ret s y ≠ 1 := by
        intro hone
        apply hygone
        rw [gone_trim hc, List.mem_filter]
        exact ⟨by simp, by simpa using ⟨hy.1, hone⟩⟩
      have hytop : y ∈ c.top s (x :: y :: ys) := by
        rw [top_trim hc, hacted, List.mem_filter]
        exact ⟨by simp, by simpa using hykeep⟩
      have hxone : c.ret s x = 1 := by
        by_contra hxkeep
        have htop : ∃ us, c.top s (x :: y :: ys) = x :: us := by
          rw [top_trim hc, hacted, List.filter_cons_of_pos (by simpa using hxkeep)]
          exact ⟨_, rfl⟩
        obtain ⟨us, htop⟩ := htop
        rw [rest] at hrest
        cases hfil : (x :: y :: ys).filter
            (fun z => z ∉ c.gone s (x :: y :: ys) ∧ z ∉ c.top s (x :: y :: ys)) with
        | nil =>
          rw [hfil, htop, List.nil_append, List.cons.injEq] at hrest
          exact hxy hrest.1
        | cons z us =>
          rw [hfil, List.cons_append, List.cons.injEq] at hrest
          have hz : z ∈ (x :: y :: ys).filter
              (fun z => z ∉ c.gone s (x :: y :: ys) ∧ z ∉ c.top s (x :: y :: ys)) := by
            rw [hfil]
            exact List.mem_cons_self
          have hnot := List.of_mem_filter hz
          simp only [decide_eq_true_eq] at hnot
          rw [hrest.1] at hnot
          exact hnot.2 hytop
      cases ys with
      | nil => exact .inr ⟨x, y, rfl, hxone, hykeep⟩
      | cons z ys =>
        -- the second element should have gone to the top
        exact (hev.not_blocked hc h ⟨hx.1, hxone⟩ hy hykeep hytop).elim
    . left
      rw [acted_cons hx, acted_stop hy]
      exact Nat.le_refl _
  . left
    rw [acted_stop hx]
    exact Nat.zero_le _

theorem Evicts.fits (h : LruOk s xs) (hev : c.Evicts s xs n) : c.Fits s xs := by
  have hlinks : c.LinksFit s xs := by
    cases hc : c with
    | trim tmCutoff func =>
      rw [← hc]
      have hacted := trim_fits hc h hev
      -- as many were erased as had to go
      obtain ⟨k, hk⟩ := trim_settled hc h hacted
      have hrun : c.run s n = c.run s k := trimRun_unique hev.ended hk.ended
      have hdel := hev.del
      rw [exec_run h.flag, hrun] at hdel
      have hlen : (c.gone s xs).length = (c.erased s tmCutoff xs).length := by
        have hk := hk.del
        have hdel : (c.run s k).del = (c.gone s xs).length := hdel
        exact Int.ofNat.inj (hdel.symm.trans hk)
      have heq := (erased_sublist hc).eq_of_length_le (Nat.le_of_eq hlen)
      have hfit : ((c.acted s tmCutoff xs).length ≤ 1 ∨
          ∃ x y, xs = [x, y] ∧ c.ret s x = 1 ∧ c.ret s y ≠ 1) ∧
          (∀ x ∈ c.gone s xs, x ∈ c.acted s tmCutoff xs) → c.LinksFit s xs := by
        rw [hc]
        exact id
      apply hfit ⟨hacted, ?_⟩
      rw [← heq]
      exact fun x hx => List.mem_of_mem_filter hx
    | trimsize need func =>
      rw [← hc]
      exact trimsize_fits hc h hev
    | trimByCb maxCnt func =>
      rw [← hc]
      exact trimByCb_fits hc h hev
  refine ⟨hlinks, ?_⟩
  intro hzero
  obtain ⟨k, hk⟩ := settled h hlinks
  have hrun : c.run s n = c.run s k := trimRun_unique hev.ended hk.ended
  have hchecked := hev.check (h.upOk.checked_iff.mpr hzero)
  have hok : UpOk (c.exec s n).1 (c.rest s xs) := by
    have hkev : Evicted c s (c.run s k).hash (c.gone s xs) (c.rest s xs) := hk.evicted
    rw [exec_run h.flag, hrun]
    dsimp only
    apply hkev.ok.setLru
    exact ⟨hkev.ok.list.list, hkev.ok.list.nvalset⟩
  rw [hok.checked_iff, exec_run h.flag, hrun] at hchecked
  have hkev : Evicted c s (c.run s k).hash (c.gone s xs) (c.rest s xs) := hk.evicted
  have hcount : (c.run s k).hash.lru.ndataset = 0 := hchecked
  rw [hkev.ndataset, hzero] at hcount
  omega

end Necessary

/--
A call evicts what it has to, and nothing else happens, exactly when the links fit and the callback's
results for the erased elements add up to 0 in a table that `check` finds in order.
-/
theorem evicts_iff (c : TrimCall) (s : LsShmHash) (xs : List Nat) (h : LruOk s xs)
    : (∃ n, c.Evicts s xs n) ↔ c.Fits s xs := by
  constructor
  . intro ⟨n, hev⟩
    exact hev.fits h
  . intro hfits
    obtain ⟨n, hn⟩ := settled h hfits.1
    exact ⟨n, hn.evicts h hfits.2⟩

def sampleTwo : LsShmHash :=
  Run.exec LsShmHash.step (LruRun.sample.get LruRun.sample_isSome)
    [.doSet [1] (ValParm.ofBytes [10]), .time 5, .doSet [2] (ValParm.ofBytes [20])]

theorem lruOk_sampleTwo : LruOk sampleTwo [0x1000, 0x1100] := by
  obtain ⟨xs, h⟩ := Run.exec_invariant (fun s => ∃ xs, LruOk s xs) LruRun.step_lruOk
    ⟨[], LruRun.allocHTable_lruOk (Option.some_get LruRun.sample_isSome).symm (by decide) rfl⟩
    (show Run.Meets LsShmHash.step LruRun.Ok (LruRun.sample.get LruRun.sample_isSome)
      [.doSet [1] (ValParm.ofBytes [10]), .time 5, .doSet [2] (ValParm.ofBytes [20])] by decide +kernel)
  have hxs : xs = [0x1000, 0x1100] := h.list.list.up.unique
    ⟨by decide +kernel, by decide, by decide +kernel, by decide, Linked.chain_nil_iff.mpr (by decide +kernel)⟩
  exact hxs ▸ h

theorem evicts_iff_sample : ∃ n, (trim 3 (some fun _ => 0)).Evicts sampleTwo [0x1000, 0x1100] n :=
  (evicts_iff (trim 3 (some fun _ => 0)) sampleTwo _ lruOk_sampleTwo).mpr
    ⟨⟨.inl (by decide +kernel), by decide +kernel⟩, by decide +kernel⟩

/--
Without a callback each erased element is counted as data, which `check` does not count.
-/
theorem not_evicts_trimsize
    : LruOk sampleTwo [0x1000, 0x1100] ∧
      ¬ ∃ n, (trimsize 1 none).Evicts sampleTwo [0x1000, 0x1100] n := by
  refine ⟨lruOk_sampleTwo, ?_⟩
  intro ⟨n, hev⟩
  have hsum := (hev.fits lruOk_sampleTwo).2 (by decide +kernel)
  exact absurd hsum (by decide +kernel)

end TrimCall

end Lsmcd
