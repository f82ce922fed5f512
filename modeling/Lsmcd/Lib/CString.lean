import Mathlib.Algebra.Ring.Nat
import Mathlib.Data.List.Basic

/-!
Strings that end with a 0, in memory that ends somewhere. An access behind the end of the memory has no
result.
-/

namespace CString

variable {b f rest : List UInt8} {ch : UInt8}

def cstr : List UInt8 → Option (List UInt8)
  | [] => none
  | c :: b => if c = 0 then some [] else (cstr b).map (c :: ·)

def strchr (ch : UInt8) : List UInt8 → Option Bool
  | [] => none
  | c :: b => if c = ch then some true else if c = 0 then some false else strchr ch b

theorem cstr_append (h : 0 ∉ f) : cstr (f ++ 0 :: rest) = some f := by
  induction f with
  | nil => rfl
  | cons c f ih =>
    rw [List.mem_cons, not_or] at h
    rw [List.cons_append, cstr, if_neg (Ne.symm h.1), ih h.2]
    rfl

theorem cstr_eq_none (h : 0 ∉ b) : cstr b = none := by
  induction b with
  | nil => rfl
  | cons c b ih =>
    rw [List.mem_cons, not_or] at h
    rw [cstr, if_neg (Ne.symm h.1), ih h.2]
    rfl

theorem cstr_isSome : (cstr b).isSome ↔ 0 ∈ b := by
  by_cases h : 0 ∈ b
  . obtain ⟨f, rest, rfl, hf⟩ := List.eq_append_cons_of_mem h
    rw [cstr_append hf]
    exact iff_of_true rfl h
  . rw [cstr_eq_none h]
    exact iff_of_false Bool.false_ne_true h

theorem strchr_append (h : 0 ∉ f) (hch : ch ≠ 0) : strchr ch (f ++ 0 :: rest) = some (decide (ch ∈ f)) := by
  induction f with
  | nil =>
    rw [List.nil_append, strchr, if_neg (Ne.symm hch), if_pos rfl]
    rfl
  | cons c f ih =>
    rw [List.mem_cons, not_or] at h
    rw [List.cons_append, strchr, if_neg (Ne.symm h.1), ih h.2]
    by_cases hc : c = ch
    . simp [hc]
    . simp [hc, Ne.symm hc]

theorem strchr_of_notMem (h : 0 ∉ b) : strchr ch b = if ch ∈ b then some true else none := by
  induction b with
  | nil => rfl
  | cons c b ih =>
    rw [List.mem_cons, not_or] at h
    rw [strchr, if_neg (Ne.symm h.1), ih h.2]
    by_cases hc : c = ch
    . simp [hc]
    . simp [hc, Ne.symm hc]

end CString
