import Mathlib.Algebra.Ring.Nat
import Mathlib.Data.List.Nodup
import Mathlib.Logic.Function.Basic

/-!
Queues of cells that are linked through a field of their own, with a pointer to the first and one to
the last cell.
-/

namespace LinkedQueue

universe u

variable {α : Type u}

def Path (link : α → Option α) : Option α → List α → Prop
  | p, [] => p = none
  | p, x :: xs => p = some x ∧ Path link (link x) xs

structure IsQueue (link : α → Option α) (head tail : Option α) (xs : List α) : Prop where
  path : Path link head xs
  last : tail = xs.getLast?

variable {link link' : α → Option α} {p head tail : Option α} {x : α} {xs ys : List α}

theorem Path.congr (h : Path link p xs) (heq : ∀ x ∈ xs, link' x = link x) : Path link' p xs := by
  induction xs generalizing p with
  | nil => exact h
  | cons x xs ih =>
    obtain ⟨hp, hxs⟩ := h
    refine ⟨hp, ?_⟩
    rw [heq x (by simp)]
    exact ih hxs fun y hy => heq y (by simp [hy])

theorem Path.eq_head? (h : Path link p xs) : p = xs.head? := by
  cases xs with
  | nil => exact h
  | cons x xs => exact h.1

theorem Path.unique (hx : Path link p xs) (hy : Path link p ys) : xs = ys := by
  induction xs generalizing p ys with
  | nil =>
    cases ys with
    | nil => rfl
    | cons y ys => cases hx.symm.trans hy.1
  | cons x xs ih =>
    cases ys with
    | nil => cases hy.symm.trans hx.1
    | cons y ys =>
      have hxy : x = y := Option.some.inj (hx.1.symm.trans hy.1)
      subst hxy
      rw [ih hx.2 hy.2]

theorem Path.suffix (h : Path link p (xs ++ x :: ys)) : Path link (some x) (x :: ys) := by
  induction xs generalizing p with
  | nil => exact ⟨rfl, h.2⟩
  | cons y xs ih => exact ih h.2

theorem Path.nodup (h : Path link p xs) : xs.Nodup := by
  induction xs generalizing p with
  | nil => simp
  | cons x xs ih =>
    rw [List.nodup_cons]
    refine ⟨?_, ih h.2⟩
    intro hmem
    obtain ⟨ys, zs, rfl⟩ := List.append_of_mem hmem
    have hself : Path link (some x) (x :: (ys ++ x :: zs)) := ⟨rfl, h.2⟩
    have heq := Path.unique (Path.suffix h.2) hself
    have hlen := congrArg List.length heq
    simp only [List.length_cons, List.length_append] at hlen
    omega

section Update

variable [DecidableEq α]

theorem Path.update_of_notMem (h : Path link p xs) (hx : x ∉ xs) (v : Option α)
    : Path (Function.update link x v) p xs := by
  apply h.congr
  intro y hy
  rw [Function.update_of_ne]
  rintro rfl
  exact hx hy

theorem Path.append_last (h : Path link p (xs ++ [x])) {y : α} (hy : y ∉ xs ++ [x])
    (hlink : link y = none) : Path (Function.update link x (some y)) p (xs ++ [x] ++ [y]) := by
  have hyx : y ≠ x := by
    rintro rfl
    simp at hy
  induction xs generalizing p with
  | nil =>
    refine ⟨h.1, ?_⟩
    rw [Function.update_self]
    refine ⟨rfl, ?_⟩
    rw [Function.update_of_ne hyx, hlink]
    rfl
  | cons z xs ih =>
    refine ⟨h.1, ?_⟩
    have hzx : z ≠ x := by
      rintro rfl
      have hnodup := h.nodup
      simp at hnodup
    rw [Function.update_of_ne hzx]
    apply ih h.2
    intro hmem
    apply hy
    simp only [List.cons_append, List.mem_cons]
    exact .inr hmem

theorem IsQueue.enqueue_nil (h : IsQueue link none tail xs) (x : α)
    : IsQueue (Function.update link x none) (some x) (some x) [x] ∧ xs = [] := by
  have hxs : xs = [] := Path.unique h.path rfl
  refine ⟨⟨⟨rfl, ?_⟩, rfl⟩, hxs⟩
  rw [Function.update_self]
  rfl

theorem IsQueue.enqueue_cons {y : α} (h : IsQueue link (some y) tail xs) (hx : x ∉ xs)
    : ∃ t ∈ xs, tail = some t ∧
      IsQueue (Function.update (Function.update link x none) t (some x)) (some y) (some x)
        (xs ++ [x]) := by
  obtain rfl | ⟨zs, t, rfl⟩ := xs.eq_nil_or_concat'
  . cases h.path
  . refine ⟨t, by simp, ?_, ?_, ?_⟩
    . rw [h.last]
      simp
    . apply Path.append_last _ hx (Function.update_self x none link)
      exact h.path.update_of_notMem hx none
    . simp

end Update

end LinkedQueue
