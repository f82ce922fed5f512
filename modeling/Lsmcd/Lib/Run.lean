import Mathlib.Algebra.Ring.Nat
import Mathlib.Order.Notation

/-!
Runs of a deterministic step function over a list of inputs, and the induction rule that turns a
step lemma into a statement about every state a run reaches.
-/

namespace Run

universe u v

variable {σ : Type u} {ι : Type v}

def exec (step : σ → ι → σ) (s : σ) (is : List ι) : σ :=
  is.foldl step s

/--
Every step of the run meets `ok`, a condition on the input and on the state before the step.
-/
def Meets (step : σ → ι → σ) (ok : σ → ι → Prop) : σ → List ι → Prop
  | _, [] => True
  | s, i :: is => ok s i ∧ Meets step ok (step s i) is

variable {step : σ → ι → σ} {ok : σ → ι → Prop}

instance Meets.decidable [∀ s i, Decidable (ok s i)] (s : σ) (is : List ι)
    : Decidable (Meets step ok s is) :=
  match is with
  | [] => inferInstanceAs (Decidable True)
  | i :: is =>
    have := Meets.decidable (step s i) is
    inferInstanceAs (Decidable (ok s i ∧ Meets step ok (step s i) is))

@[simp]
theorem exec_nil (s : σ) : exec step s [] = s := rfl

@[simp]
theorem exec_cons (s : σ) (i : ι) (is : List ι)
    : exec step s (i :: is) = exec step (step s i) is := rfl

theorem exec_append (s : σ) (is js : List ι)
    : exec step s (is ++ js) = exec step (exec step s is) js := by
  simp [exec, List.foldl_append]

theorem Meets.true (s : σ) (is : List ι) : Meets step (fun _ _ => True) s is := by
  induction is generalizing s with
  | nil => trivial
  | cons i is ih => exact ⟨trivial, ih (step s i)⟩

theorem Meets.append_left {s : σ} {is js : List ι} (h : Meets step ok s (is ++ js))
    : Meets step ok s is := by
  induction is generalizing s with
  | nil => trivial
  | cons i is ih => exact ⟨h.1, ih h.2⟩

theorem Meets.append_right {s : σ} {is js : List ι} (h : Meets step ok s (is ++ js))
    : Meets step ok (exec step s is) js := by
  induction is generalizing s with
  | nil => exact h
  | cons i is ih => exact ih h.2

theorem Meets.and {ok' : σ → ι → Prop} {s : σ} {is : List ι} (h : Meets step ok s is)
    (h' : Meets step ok' s is) : Meets step (fun s i => ok s i ∧ ok' s i) s is := by
  induction is generalizing s with
  | nil => trivial
  | cons i is ih => exact ⟨⟨h.1, h'.1⟩, ih h.2 h'.2⟩

/--
The invariant rule: what the steps that meet `ok` preserve holds after every run that meets it.
-/
theorem exec_invariant (inv : σ → Prop) (hstep : ∀ s i, inv s → ok s i → inv (step s i))
    {s : σ} {is : List ι} (hs : inv s) (hok : Meets step ok s is)
    : inv (exec step s is) := by
  induction is generalizing s with
  | nil => exact hs
  | cons i is ih =>
    rw [exec_cons]
    exact ih (hstep s i hs hok.1) hok.2

theorem Meets.of_invariant {good : σ → ι → Prop} (inv : σ → Prop)
    (hstep : ∀ s i, inv s → ok s i → inv (step s i)) (hgood : ∀ s i, inv s → ok s i → good s i)
    {s : σ} {is : List ι} (hs : inv s) (hok : Meets step ok s is) : Meets step good s is := by
  induction is generalizing s with
  | nil => trivial
  | cons i is ih => exact ⟨hgood s i hs hok.1, ih (hstep s i hs hok.1) hok.2⟩

/--
A property that a step keeps exactly when it meets `ok` holds all along a run exactly when all steps
meet it.
-/
theorem always_iff_meets {applies : σ → ι → Prop} (inv : σ → Prop)
    (hstep : ∀ s i, inv s → applies s i → (inv (step s i) ↔ ok s i))
    {s : σ} {is : List ι} (hs : inv s) (happ : Meets step applies s is)
    : (∀ n, inv (exec step s (is.take n))) ↔ Meets step ok s is := by
  induction is generalizing s with
  | nil =>
    constructor
    . intro _
      trivial
    . intro _ n
      rw [List.take_nil]
      exact hs
  | cons i is ih =>
    constructor
    . intro hall
      have hnext : inv (step s i) := hall 1
      refine ⟨(hstep s i hs happ.1).mp hnext, (ih hnext happ.2).mp ?_⟩
      intro n
      exact hall (n + 1)
    . intro hmeets n
      cases n with
      | zero => exact hs
      | succ n =>
        have hnext := (hstep s i hs happ.1).mpr hmeets.1
        exact (ih hnext happ.2).mpr hmeets.2 n

end Run
