import Mathlib.Algebra.Ring.Nat
import Mathlib.Logic.Function.Basic

/-!
Traces of lock operations. A lock is taken by hand between switching its automatic mode off and on
again; in automatic mode each operation on what it protects takes and gives back the lock itself.
-/

namespace LockTrace

universe u

inductive LockOp
  | disableAutoLock
  | enableAutoLock
  | lock
  | unlock
  | autoLock
  | autoUnlock
  /-- The assertion that the lock is held. -/
  | isLocked
deriving DecidableEq, Repr

structure LockState where
  held : Bool
  auto : Bool
deriving DecidableEq, Repr

namespace LockState

def idle : LockState := ⟨false, true⟩

def owned : LockState := ⟨true, false⟩

/--
`none` when the lock is taken twice, given back without being held, or found free by an assertion.
-/
def step (l : LockState) : LockOp → Option LockState
  | .disableAutoLock => some { l with auto := false }
  | .enableAutoLock => some { l with auto := true }
  | .lock => if l.auto then some l else if l.held then none else some { l with held := true }
  | .unlock => if l.auto then some l else if l.held then some { l with held := false } else none
  | .autoLock =>
    if l.auto then if l.held then none else some { l with held := true }
    else if l.held then some l else none
  | .autoUnlock =>
    if !l.held then none else if l.auto then some { l with held := false } else some l
  | .isLocked => if l.held then some l else none

end LockState

variable {κ : Type u} [DecidableEq κ]

def run : List (κ × LockOp) → (κ → LockState) → Option (κ → LockState)
  | [], f => some f
  | (k, op) :: t, f => ((f k).step op).bind fun l => run t (Function.update f k l)

def free : κ → LockState := fun _ => .idle

def owns (k : κ) : κ → LockState := Function.update free k .owned

def Keeps (t : List (κ × LockOp)) (f : κ → LockState) : Prop :=
  run t f = some f

def TraceBalanced (t : List (κ × LockOp)) : Prop :=
  Keeps t free

def lock (k : κ) : List (κ × LockOp) := [(k, .disableAutoLock), (k, .lock)]

def unlock (k : κ) : List (κ × LockOp) := [(k, .unlock), (k, .enableAutoLock)]

def Inner (k : κ) (t : List (κ × LockOp)) : Prop :=
  ∀ p ∈ t, p = (k, .autoLock) ∨ p = (k, .autoUnlock) ∨ p = (k, .isLocked)

variable {k : κ} {t u : List (κ × LockOp)} {f g : κ → LockState}

@[simp]
theorem run_nil (f : κ → LockState) : run [] f = some f := rfl

theorem run_append (t u : List (κ × LockOp)) (f : κ → LockState) : run (t ++ u) f = (run t f).bind (run u) := by
  induction t generalizing f with
  | nil => rfl
  | cons p t ih =>
    rw [List.cons_append, run, run]
    cases (f p.1).step p.2 with
    | none => rfl
    | some l => exact ih _

theorem Keeps.run_append (h : Keeps t f) (u : List (κ × LockOp)) : run (t ++ u) f = run u f := by
  rw [LockTrace.run_append, h]
  rfl

theorem keeps_nil (f : κ → LockState) : Keeps [] f := rfl

theorem Keeps.append (ht : Keeps t f) (hu : Keeps u f) : Keeps (t ++ u) f := by
  rw [Keeps, ht.run_append]
  exact hu

theorem Keeps.append_iff (ht : Keeps t f) : Keeps (t ++ u) f ↔ Keeps u f := by
  rw [Keeps, ht.run_append]
  rfl

theorem run_singleton (k : κ) (op : LockOp) (f : κ → LockState)
    : run [(k, op)] f = ((f k).step op).map (Function.update f k) := by
  rw [run]
  cases (f k).step op <;> rfl

theorem keeps_singleton {op : LockOp} (h : (f k).step op = some (f k)) : Keeps [(k, op)] f := by
  rw [Keeps, run_singleton, h, Option.map_some, Function.update_eq_self]

theorem keeps_of_inner (h : Inner k t) : Keeps t (owns k) := by
  have hk : owns k k = .owned := Function.update_self ..
  induction t with
  | nil => exact keeps_nil _
  | cons p t ih =>
    apply Keeps.append (t := [p])
    . rcases h p (List.mem_cons_self ..) with rfl | rfl | rfl
      all_goals
        apply keeps_singleton
        rw [hk]
        rfl
    . exact ih fun q hq => h q (List.mem_cons_of_mem _ hq)

theorem run_lock (k : κ) : run (lock k) free = some (owns k) := by
  simp [run, lock, owns, LockState.step, free, LockState.idle, LockState.owned]

theorem run_unlock (k : κ) : run (unlock k) (owns k) = some free := by
  have hupd : Function.update (owns k) k ⟨false, true⟩ = free := by
    rw [owns, Function.update_idem]
    exact Function.update_eq_self k free
  have hk : owns k k = .owned := Function.update_self ..
  simp only [unlock, run, LockState.step, hk, LockState.owned, Function.update_self, Function.update_idem,
    Bool.false_eq_true, if_false, if_true, Option.bind_some, hupd]

theorem run_locked (k : κ) (t : List (κ × LockOp)) : run (lock k ++ t) free = run t (owns k) := by
  rw [run_append, run_lock]
  rfl

theorem balanced_nil : TraceBalanced ([] : List (κ × LockOp)) := keeps_nil _

theorem TraceBalanced.append (ht : TraceBalanced t) (hu : TraceBalanced u) : TraceBalanced (t ++ u) :=
  Keeps.append ht hu

theorem balanced_section (h : Keeps t (owns k)) : TraceBalanced (lock k ++ (t ++ unlock k)) := by
  rw [TraceBalanced, Keeps, run_locked, h.run_append]
  exact run_unlock k

omit [DecidableEq κ] in
theorem inner_nil : Inner k ([] : List (κ × LockOp)) := fun _ h => nomatch h

omit [DecidableEq κ] in
theorem Inner.append (ht : Inner k t) (hu : Inner k u) : Inner k (t ++ u) := by
  intro p hp
  exact (List.mem_append.mp hp).elim (ht p) (hu p)

def auto (k : κ) (t : List (κ × LockOp)) : List (κ × LockOp) :=
  (k, .autoLock) :: (t ++ [(k, .autoUnlock)])

omit [DecidableEq κ] in
theorem inner_auto (h : Inner k t) : Inner k (auto k t) := by
  intro p hp
  rcases List.mem_cons.mp hp with rfl | hp
  . exact Or.inl rfl
  . rcases List.mem_append.mp hp with hp | hp
    . exact h p hp
    . exact Or.inr (Or.inl (List.mem_singleton.mp hp))

theorem balanced_auto (h : ∀ p ∈ t, p = (k, .isLocked)) : TraceBalanced (auto k t) := by
  have hk : ∀ l, Function.update free k l k = l := fun l => Function.update_self ..
  have hin : Keeps t (Function.update free k ⟨true, true⟩) := by
    induction t with
    | nil => exact keeps_nil _
    | cons p t ih =>
      apply Keeps.append (t := [p])
      . rw [h p (List.mem_cons_self ..)]
        apply keeps_singleton
        rw [hk]
        rfl
      . exact ih fun q hq => h q (List.mem_cons_of_mem _ hq)
  have hstart : (free k : LockState).step .autoLock = some ⟨true, true⟩ := rfl
  rw [TraceBalanced, Keeps, auto, run, hstart, Option.bind_some, hin.run_append, run_singleton, hk]
  simp only [LockState.step, Bool.not_true, Bool.false_eq_true, if_false, if_true, Option.map_some,
    Function.update_idem, Option.some.injEq]
  exact Function.update_eq_self k free

theorem run_isLocked_free (k : κ) (t : List (κ × LockOp)) : run ((k, .isLocked) :: t) free = none := rfl

end LockTrace
