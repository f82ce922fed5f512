import Lsmcd.Lib.DList

/-!
A list in the order of a value, taken apart by ranges of the value.
-/

namespace Linked

variable {α : Type} (t : α → Nat)

def between (a b : Nat) (xs : List α) : List α :=
  xs.filter fun x => a < t x ∧ t x ≤ b

variable {t} {a b c : Nat} {x : α} {xs : List α}

theorem mem_between : x ∈ between t a b xs ↔ x ∈ xs ∧ a < t x ∧ t x ≤ b := by
  simp [between]

theorem between_sublist : (between t a b xs).Sublist xs := List.filter_sublist

theorem between_eq_nil (h : ∀ x ∈ xs, a < t x → b < t x) : between t a b xs = [] := by
  apply List.filter_eq_nil_iff.mpr
  intro x hx
  have hlt := h x hx
  rw [decide_eq_true_eq]
  omega

theorem between_self : between t a a xs = [] :=
  between_eq_nil fun _ _ h => h

theorem between_append (hs : Rising t xs) (hab : a ≤ b) (hbc : b ≤ c)
    : between t a b xs ++ between t b c xs = between t a c xs := by
  induction xs with
  | nil => rfl
  | cons x xs ih =>
    obtain ⟨hle, hs⟩ := List.pairwise_cons.mp hs
    have hrest := ih hs
    unfold between at hrest ⊢
    rw [List.filter_cons, List.filter_cons, List.filter_cons]
    by_cases hxa : t x ≤ a
    . rw [if_neg, if_neg, if_neg, hrest] <;> (rw [decide_eq_true_eq]; omega)
    . by_cases hxb : t x ≤ b
      . rw [if_pos, if_neg, if_pos, List.cons_append, hrest] <;> (rw [decide_eq_true_eq]; omega)
      . -- All that follows is above the first range.
        have hnil : xs.filter (fun x => a < t x ∧ t x ≤ b) = [] := by
          apply between_eq_nil
          intro y hy _
          have hxy := hle y hy
          omega
        rw [hnil, List.nil_append] at hrest
        rw [if_neg, hnil, List.nil_append, hrest]
        . by_cases hxc : t x ≤ c
          . rw [if_pos, if_pos] <;> (rw [decide_eq_true_eq]; omega)
          . rw [if_neg, if_neg] <;> (rw [decide_eq_true_eq]; omega)
        . rw [decide_eq_true_eq]
          omega

theorem between_of_split {pre post : List α} (hs : Rising t (pre ++ x :: post))
    (hpre : ∀ y ∈ pre, t y ≤ c) (hx : c < t x)
    : between t c (t x) (pre ++ x :: post) = (x :: post).takeWhile fun y => t y = t x := by
  have hpost := (List.pairwise_append.mp hs).2.1
  have hnil : pre.filter (fun y => c < t y ∧ t y ≤ t x) = [] := by
    apply List.filter_eq_nil_iff.mpr
    intro y hy
    have hle := hpre y hy
    rw [decide_eq_true_eq]
    omega
  have htake : ∀ ys : List α, Rising t ys → (∀ y ∈ ys, t x ≤ t y) →
      ys.filter (fun y => c < t y ∧ t y ≤ t x) = ys.takeWhile fun y => t y = t x := by
    intro ys hys hle
    induction ys with
    | nil => rfl
    | cons y ys ih =>
      obtain ⟨hyle, hys⟩ := List.pairwise_cons.mp hys
      have hxy := hle y List.mem_cons_self
      rw [List.filter_cons, List.takeWhile_cons]
      by_cases heq : t y = t x
      . rw [if_pos, if_pos, ih hys fun z hz => hle z (List.mem_cons_of_mem _ hz)]
        . exact decide_eq_true heq
        . rw [decide_eq_true_eq]
          omega
      . rw [if_neg, if_neg]
        . apply List.filter_eq_nil_iff.mpr
          intro z hz
          have hyz := hyle z hz
          rw [decide_eq_true_eq]
          omega
        . rw [decide_eq_true_eq]
          exact heq
        . rw [decide_eq_true_eq]
          omega
  unfold between
  rw [List.filter_append, hnil, List.nil_append]
  apply htake _ hpost
  intro y hy
  rcases List.mem_cons.mp hy with rfl | hy
  . exact Nat.le_refl _
  . exact (List.pairwise_cons.mp hpost).1 y hy

def above (t : α → Nat) (c d : Nat) (xs : List α) : Nat :=
  match xs.find? fun x => c < t x with
  | none => d
  | some x => t x

section Above

variable {d e : Nat}

theorem above_none (h : ∀ x ∈ xs, t x ≤ c) : above t c d xs = d := by
  have hnone : xs.find? (fun x => c < t x) = none := by
    apply List.find?_eq_none.mpr
    intro x hx
    have hle := h x hx
    rw [decide_eq_true_eq]
    omega
  rw [above, hnone]

theorem find?_of_split {pre post : List α} (hpre : ∀ y ∈ pre, t y ≤ c) (hx : c < t x)
    : (pre ++ x :: post).find? (fun y => c < t y) = some x := by
  apply List.find?_eq_some_iff_append.mpr
  refine ⟨decide_eq_true hx, pre, post, rfl, ?_⟩
  intro y hy
  have hle := hpre y hy
  rw [Bool.not_eq_true', decide_eq_false_iff_not]
  omega

theorem above_of_split {pre post : List α} (hpre : ∀ y ∈ pre, t y ≤ c) (hx : c < t x)
    : above t c d (pre ++ x :: post) = t x := by
  rw [above, find?_of_split hpre hx]

theorem split_above (t : α → Nat) (c : Nat) (xs : List α)
    : (∀ x ∈ xs, t x ≤ c) ∨
      ∃ pre x post, xs = pre ++ x :: post ∧ (∀ y ∈ pre, t y ≤ c) ∧ c < t x := by
  cases h : xs.find? fun x => c < t x with
  | none =>
    refine .inl fun x hx => ?_
    have hle := List.find?_eq_none.mp h x hx
    rw [decide_eq_true_eq] at hle
    exact Nat.le_of_not_lt hle
  | some x =>
    obtain ⟨hx, pre, post, hxs, hpre⟩ := List.find?_eq_some_iff_append.mp h
    refine .inr ⟨pre, x, post, hxs, fun y hy => ?_, of_decide_eq_true hx⟩
    have hle := hpre y hy
    rw [Bool.not_eq_true', decide_eq_false_iff_not] at hle
    exact Nat.le_of_not_lt hle

theorem lt_above (h : c < d) : c < above t c d xs := by
  rcases split_above t c xs with hle | ⟨pre, x, post, rfl, hpre, hx⟩
  . rw [above_none hle]
    exact h
  . rw [above_of_split hpre hx]
    exact hx

theorem above_le (hs : Rising t xs) (hx : x ∈ xs) (hc : c < t x) : above t c d xs ≤ t x := by
  rcases split_above t c xs with hle | ⟨pre, y, post, rfl, hpre, hy⟩
  . have hxc := hle x hx
    omega
  . rw [above_of_split hpre hy]
    rcases List.mem_append.mp hx with hin | hin
    . have hxc := hpre x hin
      omega
    . rcases List.mem_cons.mp hin with rfl | hin
      . exact Nat.le_refl _
      . exact (List.pairwise_cons.mp (List.pairwise_append.mp hs).2.1).1 x hin

theorem above_mem (h : above t c d xs ≠ d) : ∃ x ∈ xs, t x = above t c d xs := by
  rcases split_above t c xs with hle | ⟨pre, x, post, rfl, hpre, hx⟩
  . exact absurd (above_none hle) h
  . exact ⟨x, by simp, (above_of_split hpre hx).symm⟩

theorem above_eq (hce : c ≤ e) (he : e < above t c d xs) : above t c d xs = above t e d xs := by
  rcases split_above t c xs with hle | ⟨pre, x, post, rfl, hpre, hx⟩
  . rw [above_none hle, above_none fun x hx => Nat.le_trans (hle x hx) hce]
  . rw [above_of_split hpre hx] at he ⊢
    rw [above_of_split (fun y hy => Nat.le_trans (hpre y hy) hce) he]

theorem between_above (hs : Rising t xs) (he : e < above t c d xs) : between t c e xs = [] := by
  apply between_eq_nil
  intro x hx hc
  exact Nat.lt_of_lt_of_le he (above_le hs hx hc)

end Above

section DropWhile

variable {p q : α → Bool}

theorem dropWhile_dropWhile (h : ∀ x, p x → q x) : (xs.dropWhile p).dropWhile q = xs.dropWhile q := by
  induction xs with
  | nil => rfl
  | cons x xs ih =>
    by_cases hp : p x
    . rw [List.dropWhile_cons_of_pos hp, List.dropWhile_cons_of_pos (h x hp), ih]
    . rw [List.dropWhile_cons_of_neg hp]

theorem mem_dropWhile (hx : x ∈ xs) (hp : ¬ p x) : x ∈ xs.dropWhile p := by
  have hsplit := xs.takeWhile_append_dropWhile (p := p)
  rw [← hsplit] at hx
  rcases List.mem_append.mp hx with hin | hin
  . exact absurd (List.all_eq_true.mp List.all_takeWhile x hin) hp
  . exact hin

end DropWhile

end Linked
