import Lsmcd.Lib.Chain
import Mathlib.Order.Nat

/-!
Doubly linked lists: `xs` runs from the cell `last` along `nx` to the cell `first`, and back along
`pv`.
-/

namespace Linked

universe u

variable {α : Type u}

structure DList (nx pv : α → α) (nil first last : α) (xs : List α) : Prop where
  up : Chain nx nil last xs
  down : Chain pv nil first xs.reverse

variable {nx nx' pv pv' : α → α} {nil first last x : α} {xs : List α}

theorem DList.empty : DList nx pv nil nil nil [] := ⟨rfl, rfl⟩

theorem DList.nodup (h : DList nx pv nil first last xs) : xs.Nodup := h.up.nodup

theorem DList.ne_nil (h : DList nx pv nil first last xs) (hx : x ∈ xs) : x ≠ nil := by
  rintro rfl
  exact h.up.nil_not_mem hx

theorem DList.congr (h : DList nx pv nil first last xs) (hnx : ∀ y ∈ xs, nx' y = nx y)
    (hpv : ∀ y ∈ xs, pv' y = pv y) : DList nx' pv' nil first last xs :=
  ⟨h.up.congr hnx, h.down.congr (fun y hy => hpv y (List.mem_reverse.mp hy))⟩

theorem DList.first_eq_nil_iff (h : DList nx pv nil first last xs) : first = nil ↔ xs = [] := by
  cases hr : xs.reverse with
  | nil =>
    have hxs : xs = [] := by simpa using hr
    have hd := h.down
    rw [hr] at hd
    simp [hxs, chain_nil_iff.mp hd]
  | cons y ys =>
    have hd := h.down
    rw [hr] at hd
    have hne : xs ≠ [] := by
      rintro rfl
      simp at hr
    simp only [hne, iff_false]
    rw [hd.1]
    exact hd.2.1

theorem DList.eq_concat_first (h : DList nx pv nil first last xs) (hne : first ≠ nil)
    : ∃ ys, xs = ys ++ [first] := by
  have hd := h.down
  cases hr : xs.reverse with
  | nil =>
    rw [hr] at hd
    exact absurd hd hne
  | cons y ys =>
    rw [hr] at hd
    refine ⟨ys.reverse, ?_⟩
    rw [hd.1, ← List.reverse_cons, ← hr, List.reverse_reverse]

theorem DList.first_mem (h : DList nx pv nil first last xs) (hne : first ≠ nil) : first ∈ xs := by
  obtain ⟨ys, rfl⟩ := h.eq_concat_first hne
  simp

theorem DList.last_mem (h : DList nx pv nil first last xs) (hne : last ≠ nil) : last ∈ xs := by
  have hu := h.up
  cases xs with
  | nil => exact absurd hu hne
  | cons y ys =>
    rw [hu.1]
    exact List.mem_cons_self

theorem DList.split_mid (h : DList nx pv nil first last xs) (hx : x ∈ xs) (hn : nx x ≠ nil)
    (hp : pv x ≠ nil) : ∃ as bs, xs = as ++ pv x :: x :: nx x :: bs := by
  obtain ⟨s, t, rfl⟩ := List.append_of_mem hx
  have hu := h.up.suffix
  have hd := h.down
  rw [List.reverse_append, List.reverse_cons, List.append_assoc, List.singleton_append] at hd
  have hsuf := hd.suffix
  cases t with
  | nil => exact absurd hu.2.2 hn
  | cons n t =>
    rcases List.eq_nil_or_concat s with rfl | ⟨s, p, rfl⟩
    . exact absurd hsuf.2.2 hp
    . rw [List.concat_eq_append, List.reverse_append] at hsuf
      have hpx : pv x = p := hsuf.2.2.1
      have hnx : nx x = n := hu.2.2.1
      refine ⟨s, t, ?_⟩
      rw [hpx, hnx]
      simp

theorem DList.eq_singleton (h : DList nx pv nil first last xs) (hx : x ∈ xs) (hn : nx x = nil)
    (hp : pv x = nil) : xs = [x] := by
  obtain ⟨s, t, rfl⟩ := List.append_of_mem hx
  have hu := h.up.suffix
  have hd := h.down
  rw [List.reverse_append, List.reverse_cons, List.append_assoc, List.singleton_append] at hd
  have hsuf := hd.suffix
  have ht : t = [] := by
    cases t with
    | nil => rfl
    | cons n t =>
      obtain ⟨hnx, hne, _⟩ := hu.2.2
      exact absurd (hnx.symm.trans hn) hne
  have hs : s.reverse = [] := by
    cases hr : s.reverse with
    | nil => rfl
    | cons p s' =>
      rw [hr] at hsuf
      obtain ⟨hpv, hne, _⟩ := hsuf.2.2
      exact absurd (hpv.symm.trans hp) hne
  rw [ht, List.reverse_eq_nil_iff.mp hs]
  rfl

theorem DList.eq_first_of_next (h : DList nx pv nil first last xs) (hx : x ∈ xs)
    (hn : nx x = nil) : x = first := by
  obtain ⟨s, t, rfl⟩ := List.append_of_mem hx
  have hu := h.up.suffix
  have hd := h.down
  cases t with
  | nil =>
    rw [List.reverse_append] at hd
    exact hd.1.symm
  | cons n t =>
    obtain ⟨hnx, hne, _⟩ := hu.2.2
    exact absurd (hnx.symm.trans hn) hne

theorem DList.next_first (h : DList nx pv nil first last xs) (hne : first ≠ nil)
    : nx first = nil := by
  obtain ⟨ys, rfl⟩ := h.eq_concat_first hne
  exact h.up.suffix.2.2

theorem DList.prev_last (h : DList nx pv nil first last xs) (hne : last ≠ nil)
    : pv last = nil := by
  have hu := h.up
  have hd := h.down
  cases xs with
  | nil => exact absurd hu hne
  | cons y ys =>
    rw [List.reverse_cons] at hd
    rw [hu.1]
    exact hd.suffix.2.2

theorem DList.next_mem (h : DList nx pv nil first last xs) (hx : x ∈ xs) (hn : nx x ≠ nil)
    : nx x ∈ xs ∧ nx x ≠ x := by
  obtain ⟨s, t, rfl⟩ := List.append_of_mem hx
  have hu := h.up.suffix
  have hnd := hu.nodup
  cases t with
  | nil => exact absurd hu.2.2 hn
  | cons n t =>
    have hnx : nx x = n := hu.2.2.1
    rw [hnx]
    refine ⟨by simp, ?_⟩
    rintro rfl
    simp at hnd

theorem DList.reverse (h : DList nx pv nil first last xs) : DList pv nx nil last first xs.reverse :=
  ⟨h.down, by rw [List.reverse_reverse]; exact h.up⟩

theorem DList.prev_mem (h : DList nx pv nil first last xs) (hx : x ∈ xs) (hp : pv x ≠ nil)
    : pv x ∈ xs :=
  List.mem_reverse.mp (h.reverse.next_mem (List.mem_reverse.mpr hx) hp).1

theorem DList.bottom {ys : List α} (h : DList nx pv nil first last (x :: ys))
    : last = x ∧ pv x = nil := by
  have hd := h.down
  rw [List.reverse_cons] at hd
  exact ⟨h.up.1, hd.suffix.2.2⟩

theorem DList.adjacent {p : α} {as bs : List α} (h : DList nx pv nil first last (as ++ p :: x :: bs))
    : nx p = x ∧ pv x = p ∧ p ≠ nil := by
  have hu := h.up.suffix
  have hd := h.down
  rw [show (as ++ p :: x :: bs).reverse = bs.reverse ++ x :: p :: as.reverse by simp] at hd
  exact ⟨hu.2.2.1, hd.suffix.2.2.1, hu.2.1⟩

theorem DList.prev_next (h : DList nx pv nil first last xs) (hx : x ∈ xs) (hn : nx x ≠ nil) : pv (nx x) = x := by
  obtain ⟨as, bs, rfl⟩ := List.append_of_mem hx
  cases bs with
  | nil => exact absurd (h.up.suffix).2.2 hn
  | cons n t =>
    obtain ⟨hnx, hpv, _⟩ := h.adjacent
    rw [hnx]
    exact hpv

theorem DList.next_prev (h : DList nx pv nil first last xs) (hx : x ∈ xs) (hp : pv x ≠ nil) : nx (pv x) = x :=
  h.reverse.prev_next (List.mem_reverse.mpr hx) hp

theorem DList.prev_eq_nil_iff (h : DList nx pv nil first last xs) (hx : x ∈ xs) : pv x = nil ↔ last = x := by
  constructor
  . intro hp
    exact (h.reverse.eq_first_of_next (List.mem_reverse.mpr hx) hp).symm
  . rintro rfl
    exact h.prev_last (h.ne_nil hx)

theorem DList.next_ne_last (h : DList nx pv nil first last xs) (hx : x ∈ xs) : nx x ≠ last := by
  intro heq
  have hu := h.up
  cases xs with
  | nil => cases hx
  | cons y ys =>
    have hnd := hu.nodup
    obtain ⟨rfl, hne, hc⟩ := hu
    obtain ⟨s, t, hst⟩ := List.append_of_mem hx
    have hsuf := h.up
    rw [hst] at hsuf hnd
    cases t with
    | nil => exact hne (heq.symm.trans hsuf.suffix.2.2)
    | cons n t =>
      have hn : last = n := heq.symm.trans hsuf.suffix.2.2.1
      rcases s with _ | ⟨z, s⟩
      . rw [List.nil_append, List.cons.injEq] at hst
        rw [List.nil_append, ← hst.1, hn] at hnd
        simp at hnd
      . rw [List.cons_append, List.cons.injEq] at hst
        rw [List.cons_append, ← hst.1, hn] at hnd
        simp at hnd

section Update

variable [DecidableEq α]

theorem Chain.snoc {a f : α} {ys : List α} (h : Chain nx nil a (ys ++ [f])) (hx : x ∉ ys ++ [f])
    (hne : x ≠ nil)
    : Chain (Function.update (Function.update nx f x) x nil) nil a (ys ++ [f] ++ [x]) := by
  induction ys generalizing a with
  | nil =>
    obtain ⟨rfl, hf, _⟩ := h
    have hax : a ≠ x := fun heq => hx (by simp [heq])
    refine ⟨rfl, hf, ?_⟩
    rw [Function.update_of_ne hax, Function.update_self]
    refine ⟨rfl, hne, ?_⟩
    rw [Function.update_self]
    rfl
  | cons y ys ih =>
    have hnd := h.nodup
    obtain ⟨rfl, hy, hc⟩ := h
    have hax : a ≠ x := fun heq => hx (by simp [heq])
    have haf : a ≠ f := by
      rintro rfl
      simp at hnd
    refine ⟨rfl, hy, ?_⟩
    rw [Function.update_of_ne hax, Function.update_of_ne haf]
    apply ih hc
    intro hin
    exact hx (List.mem_cons_of_mem _ hin)

theorem DList.push_top (h : DList nx pv nil first last xs) (hx : x ∉ xs) (hne : x ≠ nil)
    (hfirst : first ≠ nil)
    : DList (Function.update (Function.update nx first x) x nil) (Function.update pv x first) nil
        x last (xs ++ [x]) := by
  obtain ⟨ys, rfl⟩ := h.eq_concat_first hfirst
  refine ⟨h.up.snoc hx hne, ?_⟩
  rw [List.reverse_append, List.reverse_singleton, List.singleton_append]
  exact h.down.push (mt List.mem_reverse.mp hx) hne

theorem DList.push_empty (hne : x ≠ nil)
    : DList (Function.update nx x nil) (Function.update pv x nil) nil x x [x] := by
  refine ⟨⟨rfl, hne, ?_⟩, ⟨rfl, hne, ?_⟩⟩
  . rw [Function.update_self]
    rfl
  . rw [Function.update_self]
    rfl

theorem DList.unlink_mid {as bs : List α} {p n : α}
    (h : DList nx pv nil first last (as ++ p :: x :: n :: bs))
    : DList (Function.update nx p n) (Function.update pv n p) nil first last
        (as ++ p :: n :: bs) := by
  have hup : Chain nx nil last (as ++ p :: x :: (n :: bs)) := h.up
  have hnx : nx x = n := hup.suffix.2.2.2.2.1
  have hdown := h.down
  rw [show (as ++ p :: x :: n :: bs).reverse = bs.reverse ++ n :: x :: (p :: as.reverse) by simp]
    at hdown
  have hpv : pv x = p := hdown.suffix.2.2.2.2.1
  refine ⟨?_, ?_⟩
  . have hu := hup.unlink
    rw [hnx] at hu
    exact hu
  . have hd := hdown.unlink
    rw [hpv] at hd
    rw [show (as ++ p :: n :: bs).reverse = bs.reverse ++ n :: (p :: as.reverse) by simp]
    exact hd

theorem Chain.pop {a p x : α} {ys : List α} (h : Chain nx nil a (ys ++ [p] ++ [x]))
    : Chain (Function.update nx p nil) nil a (ys ++ [p]) := by
  induction ys generalizing a with
  | nil =>
    obtain ⟨rfl, hne, _⟩ := h
    refine ⟨rfl, hne, ?_⟩
    rw [Function.update_self]
    rfl
  | cons y ys ih =>
    have hnd := h.nodup
    obtain ⟨rfl, hne, hc⟩ := h
    have hap : a ≠ p := by
      rintro rfl
      simp at hnd
    refine ⟨rfl, hne, ?_⟩
    rw [Function.update_of_ne hap]
    exact ih hc

theorem Chain.insert {a p q x : α} {as bs : List α} (h : Chain nx nil a (as ++ p :: q :: bs))
    (hx : x ∉ as ++ p :: q :: bs) (hne : x ≠ nil)
    : Chain (Function.update (Function.update nx x q) p x) nil a (as ++ p :: x :: q :: bs) := by
  induction as generalizing a with
  | nil =>
    have hnd := h.nodup
    obtain ⟨rfl, hp, rfl, hq, hc⟩ := h
    simp only [List.nil_append, List.mem_cons, not_or] at hx
    simp only [List.nil_append, List.nodup_cons, List.mem_cons, not_or] at hnd
    refine ⟨rfl, hp, ?_⟩
    rw [Function.update_self]
    refine ⟨rfl, hne, ?_⟩
    rw [Function.update_of_ne hx.1, Function.update_self]
    refine ⟨rfl, hq, ?_⟩
    rw [Function.update_of_ne (Ne.symm hnd.1.1), Function.update_of_ne (Ne.symm hx.2.1)]
    apply hc.congr
    intro y hy
    have hya : y ≠ a := fun heq => hnd.1.2 (heq ▸ hy)
    have hyx : y ≠ x := fun heq => hx.2.2 (heq ▸ hy)
    rw [Function.update_of_ne hya, Function.update_of_ne hyx]
  | cons y as ih =>
    have hnd := h.nodup
    obtain ⟨rfl, hy, hc⟩ := h
    have hax : a ≠ x := fun heq => hx (by simp [heq])
    have hap : a ≠ p := by
      rintro rfl
      simp at hnd
    refine ⟨rfl, hy, ?_⟩
    rw [Function.update_of_ne hap, Function.update_of_ne hax]
    apply ih hc
    intro hin
    exact hx (List.mem_cons_of_mem _ hin)

theorem DList.pop_top {p : α} {ys : List α} (h : DList nx pv nil x last (ys ++ [p] ++ [x]))
    : DList (Function.update nx p nil) pv nil p last (ys ++ [p]) := by
  refine ⟨h.up.pop, ?_⟩
  have hd := h.down
  rw [List.reverse_append, List.reverse_singleton, List.singleton_append] at hd
  have hc := hd.2.2
  rw [List.reverse_append, List.reverse_singleton, List.singleton_append] at hc ⊢
  exact ⟨rfl, hc.2.1, hc.2.2⟩

theorem DList.pop_bottom {y : α} {ys : List α} (h : DList nx pv nil first x (x :: y :: ys))
    : DList nx (Function.update pv y nil) nil first y (y :: ys) := by
  have hrev := h.reverse
  rw [show (x :: y :: ys).reverse = ys.reverse ++ [y] ++ [x] by simp] at hrev
  have hback := hrev.pop_top.reverse
  rw [show (ys.reverse ++ [y]).reverse = y :: ys by simp] at hback
  exact hback

theorem DList.erase_mid (h : DList nx pv nil first last xs) (hx : x ∈ xs) (hn : nx x ≠ nil)
    (hp : pv x ≠ nil)
    : nx x ∈ xs ∧ pv x ∈ xs ∧ x ≠ nx x ∧
      DList (Function.update nx (pv x) (nx x)) (Function.update pv (nx x) (pv x)) nil first last
        (xs.erase x) := by
  obtain ⟨as, bs, hxs⟩ := h.split_mid hx hn hp
  have hnd := h.nodup
  have hlist := h
  rw [hxs] at hnd hlist
  have hsplit : as ++ pv x :: x :: nx x :: bs = (as ++ [pv x]) ++ (x :: nx x :: bs) := by simp
  have herase : xs.erase x = as ++ pv x :: nx x :: bs := by
    have hxas : x ∉ as ++ [pv x] := by
      intro hin
      rw [hsplit] at hnd
      exact (List.nodup_append.mp hnd).2.2 x hin x List.mem_cons_self rfl
    rw [hxs, hsplit, List.erase_append_right _ hxas, List.erase_cons_head]
    simp
  refine ⟨?_, h.prev_mem hx hp, ?_, ?_⟩
  . rw [hxs]
    simp
  . intro heq
    rw [← heq] at hnd
    have hdup := (List.nodup_append.mp hnd).2.1
    simp at hdup
  . rw [herase]
    exact hlist.unlink_mid

theorem DList.unlink (h : DList nx pv nil first last xs) (hx : x ∈ xs)
    : DList (if pv x = nil then nx else Function.update nx (pv x) (nx x))
        (if nx x = nil then pv else Function.update pv (nx x) (pv x)) nil
        (if nx x = nil then pv x else first) (if pv x = nil then nx x else last) (xs.erase x) := by
  have hnd := h.nodup
  by_cases hn : nx x = nil
  . have hfirst := h.eq_first_of_next hx hn
    subst hfirst
    obtain ⟨ys, hys⟩ := h.eq_concat_first (h.ne_nil hx)
    by_cases hp : pv x = nil
    . rw [if_pos hp, if_pos hn, if_pos hn, if_pos hp, h.eq_singleton hx hn hp, hn, hp, List.erase_cons_head]
      exact .empty
    . rw [if_neg hp, if_pos hn, if_pos hn, if_neg hp, hn]
      have hout : x ∉ ys := by
        rw [hys] at hnd
        exact fun hin => (List.nodup_append.mp hnd).2.2 x hin x List.mem_cons_self rfl
      rw [hys, List.erase_append_right _ hout, List.erase_cons_head, List.append_nil]
      rw [hys] at h
      rcases List.eq_nil_or_concat ys with rfl | ⟨zs, p, rfl⟩
      . exact absurd h.bottom.2 hp
      . rw [List.concat_eq_append] at h ⊢
        have hadj : pv x = p := by
          rw [List.append_assoc] at h
          exact h.adjacent.2.1
        rw [hadj]
        exact h.pop_top
  . by_cases hp : pv x = nil
    . rw [if_pos hp, if_neg hn, if_neg hn, if_pos hp, hp]
      obtain ⟨as, bs, rfl⟩ := List.append_of_mem hx
      rcases List.eq_nil_or_concat as with rfl | ⟨as', p, rfl⟩
      . rw [List.nil_append] at h ⊢
        obtain ⟨rfl, _⟩ := h.bottom
        have hup := h.up
        rw [List.erase_cons_head]
        cases bs with
        | nil => exact absurd hup.2.2 hn
        | cons y ys =>
          rw [show nx last = y from hup.2.2.1]
          exact h.pop_bottom
      . rw [List.concat_eq_append, List.append_assoc] at h
        obtain ⟨_, hpv, hne⟩ := h.adjacent
        exact absurd (hpv.symm.trans hp) hne
    . rw [if_neg hp, if_neg hn, if_neg hn, if_neg hp]
      exact (h.erase_mid hx hn hp).2.2.2

theorem DList.push_bottom (h : DList nx pv nil first last xs) (hx : x ∉ xs) (hne : x ≠ nil)
    (hlast : last ≠ nil)
    : DList (Function.update nx x last) (Function.update (Function.update pv last x) x nil) nil
        first x (x :: xs) := by
  have hrev := h.reverse.push_top (mt List.mem_reverse.mp hx) hne hlast
  have hback := hrev.reverse
  rw [List.reverse_append, List.reverse_singleton, List.reverse_reverse] at hback
  exact hback

theorem DList.push (h : DList nx pv nil first last xs) (hx : x ∉ xs) (hne : x ≠ nil)
    : DList (Function.update nx x last)
        (Function.update (if last = nil then pv else Function.update pv last x) x nil) nil
        (if last = nil then x else first) x (x :: xs) := by
  by_cases hlast : last = nil
  . have hxs : xs = [] := by
      cases xs with
      | nil => rfl
      | cons y ys => exact absurd (h.up.1.symm.trans hlast) h.up.2.1
    rw [if_pos hlast, if_pos hlast, hxs, hlast]
    exact .push_empty hne
  . rw [if_neg hlast, if_neg hlast]
    exact h.push_bottom hx hne hlast

theorem DList.insert_mid {p q : α} {as bs : List α}
    (h : DList nx pv nil first last (as ++ p :: q :: bs)) (hx : x ∉ as ++ p :: q :: bs)
    (hne : x ≠ nil)
    : DList (Function.update (Function.update nx x q) p x)
        (Function.update (Function.update pv x p) q x) nil first last
        (as ++ p :: x :: q :: bs) := by
  refine ⟨h.up.insert hx hne, ?_⟩
  have hd := h.down
  have hrev : (as ++ p :: q :: bs).reverse = bs.reverse ++ q :: p :: as.reverse := by simp
  have hrev' : (as ++ p :: x :: q :: bs).reverse = bs.reverse ++ q :: x :: p :: as.reverse := by
    simp
  rw [hrev] at hd
  rw [hrev']
  apply hd.insert _ hne
  rw [← hrev]
  exact mt List.mem_reverse.mp hx

end Update

section Map

theorem Chain.map {a : α} (h : Chain nx nil a xs) {f : α → α} (hnil : f nil = nil) (hne : ∀ y ∈ xs, f y ≠ nil)
    (hnx : ∀ y ∈ xs, nx' (f y) = f (nx y)) : Chain nx' nil (f a) (xs.map f) := by
  induction xs generalizing a with
  | nil =>
    rw [chain_nil_iff] at h
    rw [h, hnil]
    rfl
  | cons y ys ih =>
    obtain ⟨rfl, _, hc⟩ := h
    refine ⟨rfl, hne a List.mem_cons_self, ?_⟩
    rw [hnx a List.mem_cons_self]
    exact ih hc (fun y hy => hne y (List.mem_cons_of_mem _ hy)) fun y hy => hnx y (List.mem_cons_of_mem _ hy)

theorem DList.map (h : DList nx pv nil first last xs) {f : α → α} (hnil : f nil = nil) (hne : ∀ y ∈ xs, f y ≠ nil)
    (hnx : ∀ y ∈ xs, nx' (f y) = f (nx y)) (hpv : ∀ y ∈ xs, pv' (f y) = f (pv y))
    : DList nx' pv' nil (f first) (f last) (xs.map f) := by
  refine ⟨h.up.map hnil hne hnx, ?_⟩
  rw [← List.map_reverse]
  exact h.down.map hnil (fun y hy => hne y (List.mem_reverse.mp hy)) fun y hy => hpv y (List.mem_reverse.mp hy)

end Map

section Rising

variable {κ : Type u} [Preorder κ]

def Rising (t : α → κ) (xs : List α) : Prop := xs.Pairwise fun a b => t a ≤ t b

variable {t t' : α → κ} {v : κ}

theorem rising_singleton (x : α) : Rising t [x] := List.pairwise_singleton ..

theorem Rising.congr (h : Rising t xs) (heq : ∀ x ∈ xs, t' x = t x) : Rising t' xs := by
  apply List.Pairwise.imp_of_mem _ h
  intro a b ha hb hab
  rw [heq a ha, heq b hb]
  exact hab

theorem rising_concat_iff : Rising t (xs ++ [x]) ↔ Rising t xs ∧ ∀ y ∈ xs, t y ≤ t x := by
  unfold Rising
  rw [List.pairwise_append]
  simp

theorem Rising.le_iff {f : α} {ys : List α} (h : Rising t (ys ++ [f]))
    : (∀ y ∈ ys ++ [f], t y ≤ v) ↔ t f ≤ v := by
  constructor
  . intro hall
    exact hall f (by simp)
  . intro hf y hy
    rcases List.mem_append.mp hy with hy | hy
    . exact le_trans ((rising_concat_iff.mp h).2 y hy) hf
    . rw [List.mem_singleton.mp hy]
      exact hf

theorem rising_stamp_iff [DecidableEq α] (h : Rising t xs) (hx : x ∉ xs)
    : Rising (Function.update t x v) (xs ++ [x]) ↔ ∀ y ∈ xs, t y ≤ v := by
  have hne : ∀ y ∈ xs, Function.update t x v y = t y := by
    intro y hy
    apply Function.update_of_ne
    rintro rfl
    exact hx hy
  rw [rising_concat_iff, Function.update_self]
  constructor
  . intro ⟨_, hle⟩ y hy
    have hyle := hle y hy
    rw [hne y hy] at hyle
    exact hyle
  . intro hle
    refine ⟨h.congr hne, ?_⟩
    intro y hy
    rw [hne y hy]
    exact hle y hy

end Rising

end Linked
