import Mathlib.Algebra.Ring.Nat
import Mathlib.Data.List.Nodup
import Mathlib.Logic.Function.Basic

/-!
Singly linked lists in a memory that is a function: `nx a` is the successor stored in the cell `a`
and `nil` ends every list.
-/

namespace Linked

universe u

variable {α : Type u}

def Chain (nx : α → α) (nil : α) : α → List α → Prop
  | a, [] => a = nil
  | a, x :: xs => a = x ∧ x ≠ nil ∧ Chain nx nil (nx x) xs

variable {nx nx' : α → α} {nil a b : α} {xs ys : List α}

theorem chain_nil_iff : Chain nx nil a [] ↔ a = nil := Iff.rfl

theorem chain_cons_iff {x : α}
    : Chain nx nil a (x :: xs) ↔ a = x ∧ x ≠ nil ∧ Chain nx nil (nx x) xs := Iff.rfl

theorem Chain.nil_not_mem (h : Chain nx nil a xs) : nil ∉ xs := by
  induction xs generalizing a with
  | nil => simp
  | cons x xs ih =>
    obtain ⟨_, hne, hc⟩ := h
    simp only [List.mem_cons, not_or]
    exact ⟨hne.symm, ih hc⟩

theorem Chain.unique (hx : Chain nx nil a xs) (hy : Chain nx nil a ys) : xs = ys := by
  induction xs generalizing a ys with
  | nil =>
    cases ys with
    | nil => rfl
    | cons y ys => exact absurd (hy.1.symm.trans hx) hy.2.1
  | cons x xs ih =>
    cases ys with
    | nil => exact absurd (hx.1.symm.trans hy) hx.2.1
    | cons y ys =>
      obtain ⟨rfl, _, hxs⟩ := hx
      obtain ⟨rfl, _, hys⟩ := hy
      rw [ih hxs hys]

theorem Chain.suffix (h : Chain nx nil a (xs ++ b :: ys)) : Chain nx nil b (b :: ys) := by
  induction xs generalizing a with
  | nil =>
    obtain ⟨_, hne, hc⟩ := h
    exact ⟨rfl, hne, hc⟩
  | cons x xs ih => exact ih h.2.2

theorem Chain.nodup (h : Chain nx nil a xs) : xs.Nodup := by
  induction xs generalizing a with
  | nil => simp
  | cons x xs ih =>
    obtain ⟨rfl, hne, hc⟩ := h
    rw [List.nodup_cons]
    refine ⟨?_, ih hc⟩
    intro hmem
    obtain ⟨s, t, rfl⟩ := List.append_of_mem hmem
    have hself : Chain nx nil a (a :: (s ++ a :: t)) := ⟨rfl, hne, hc⟩
    have heq := Chain.unique (Chain.suffix hc) hself
    have hlen := congrArg List.length heq
    simp only [List.length_cons, List.length_append] at hlen
    omega

theorem Chain.congr (h : Chain nx nil a xs) (heq : ∀ x ∈ xs, nx' x = nx x)
    : Chain nx' nil a xs := by
  induction xs generalizing a with
  | nil => exact h
  | cons x xs ih =>
    obtain ⟨hax, hne, hc⟩ := h
    refine ⟨hax, hne, ?_⟩
    rw [heq x (by simp)]
    exact ih hc (fun y hy => heq y (by simp [hy]))

theorem Chain.head_eq (h : Chain nx nil a xs) : a = xs.headD nil := by
  cases xs with
  | nil => exact h
  | cons x xs => exact h.1

section Update

variable [DecidableEq α]

theorem Chain.update_of_notMem (h : Chain nx nil a xs) (hb : b ∉ xs) (v : α)
    : Chain (Function.update nx b v) nil a xs := by
  apply h.congr
  intro x hx
  rw [Function.update_of_ne]
  intro heq
  exact hb (heq ▸ hx)

theorem Chain.push (h : Chain nx nil a xs) (hb : b ∉ xs) (hne : b ≠ nil)
    : Chain (Function.update nx b a) nil b (b :: xs) := by
  refine ⟨rfl, hne, ?_⟩
  rw [Function.update_self]
  exact h.update_of_notMem hb a

theorem Chain.unlink {x y : α} (h : Chain nx nil a (xs ++ x :: y :: ys))
    : Chain (Function.update nx x (nx y)) nil a (xs ++ x :: ys) := by
  induction xs generalizing a with
  | nil =>
    obtain ⟨rfl, hne, rfl, _, hc⟩ := h
    have hnd := (show Chain nx nil a (a :: nx a :: ys) from ⟨rfl, hne, rfl, ‹_›, hc⟩).nodup
    refine ⟨rfl, hne, ?_⟩
    rw [Function.update_self]
    apply hc.update_of_notMem
    simp only [List.nodup_cons, List.mem_cons, not_or] at hnd
    exact hnd.1.2
  | cons z zs ih =>
    have hnd := h.nodup
    obtain ⟨rfl, hne, hc⟩ := h
    refine ⟨rfl, hne, ?_⟩
    rw [Function.update_of_ne]
    . exact ih hc
    . rintro rfl
      simp at hnd

end Update

section Cells

variable [DecidableEq α]

def cells (nx : α → α) (nil : α) : Nat → α → List α
  | 0, _ => []
  | fuel + 1, a => if a = nil then [] else a :: cells nx nil fuel (nx a)

theorem Chain.cells_eq (h : Chain nx nil a xs) {fuel : Nat} (hf : xs.length ≤ fuel) : cells nx nil fuel a = xs := by
  induction xs generalizing a fuel with
  | nil =>
    cases fuel with
    | zero => rfl
    | succ fuel => exact if_pos h
  | cons x xs ih =>
    obtain ⟨rfl, hne, hc⟩ := h
    cases fuel with
    | zero => exact absurd hf (Nat.not_succ_le_zero _)
    | succ fuel => rw [cells, if_neg hne, ih hc (Nat.le_of_succ_le_succ hf)]

end Cells

section Seek

variable [DecidableEq α]

def seek (nx : α → α) (nil : α) (p : α → Bool) : Nat → α → α
  | 0, _ => nil
  | fuel + 1, a => if a = nil then nil else if p a then a else seek nx nil p fuel (nx a)

theorem Chain.seek_eq (h : Chain nx nil a xs) (p : α → Bool) {fuel : Nat} (hf : xs.length < fuel)
    : seek nx nil p fuel a = (xs.find? p).getD nil := by
  induction xs generalizing a fuel with
  | nil =>
    cases fuel with
    | zero => simp at hf
    | succ fuel => simp [seek, chain_nil_iff.mp h]
  | cons x xs ih =>
    obtain ⟨rfl, hne, hc⟩ := h
    cases fuel with
    | zero => simp at hf
    | succ fuel =>
      simp only [List.length_cons, Nat.add_lt_add_iff_right] at hf
      rw [seek, if_neg hne, List.find?_cons, ih hc hf]
      split
      . next hp => simp [hp]
      . next hp => simp [hp]

end Seek

end Linked
