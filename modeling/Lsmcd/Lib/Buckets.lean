import Lsmcd.Lib.Chain
import Mathlib.Tactic.Tauto

/-!
A hash table of chains: `tbl b` is the first cell of the bucket `b`, and the cells of a set `T` are
distributed over the buckets by `idx`.
-/

namespace Linked

universe u

variable {α : Type u}

/--
Each bucket below `cap` is a chain of exactly those cells of `T` that belong into it.
-/
def Buckets (nx : α → α) (nil : α) (tbl : Nat → α) (idx : α → Nat) (cap : Nat) (T : α → Prop)
    : Prop :=
  ∀ b < cap, ∃ xs, Chain nx nil (tbl b) xs ∧ ∀ x, x ∈ xs ↔ T x ∧ idx x = b

variable {nx nx' : α → α} {nil : α} {tbl tbl' : Nat → α} {idx idx' : α → Nat} {cap : Nat}
  {T T' : α → Prop}

theorem Buckets.empty (htbl : ∀ b < cap, tbl b = nil) (hT : ∀ x, ¬ T x)
    : Buckets nx nil tbl idx cap T := by
  intro b hb
  refine ⟨[], htbl b hb, ?_⟩
  intro x
  simp [hT x]

theorem Buckets.congr (h : Buckets nx nil tbl idx cap T) (htbl : ∀ b < cap, tbl' b = tbl b)
    (hnx : ∀ x, T x → nx' x = nx x) (hidx : ∀ x, T x → idx' x = idx x) (hT : ∀ x, T' x ↔ T x)
    : Buckets nx' nil tbl' idx' cap T' := by
  intro b hb
  obtain ⟨xs, hc, hmem⟩ := h b hb
  refine ⟨xs, ?_, ?_⟩
  . rw [htbl b hb]
    exact hc.congr (fun x hx => hnx x ((hmem x).mp hx).1)
  . intro x
    rw [hmem x, hT x]
    constructor
    . rintro ⟨hx, hi⟩
      exact ⟨hx, (hidx x hx).trans hi⟩
    . rintro ⟨hx, hi⟩
      exact ⟨hx, (hidx x hx).symm.trans hi⟩

theorem Buckets.ne_nil (h : Buckets nx nil tbl idx cap T) {x : α} (hx : T x) (hb : idx x < cap)
    : x ≠ nil := by
  obtain ⟨xs, hc, hmem⟩ := h _ hb
  intro hnil
  exact hc.nil_not_mem (hnil ▸ (hmem x).mpr ⟨hx, rfl⟩)

theorem Buckets.head_ne_nil_iff (h : Buckets nx nil tbl idx cap T) {b : Nat} (hb : b < cap)
    : tbl b ≠ nil ↔ ∃ x, T x ∧ idx x = b := by
  obtain ⟨xs, hc, hmem⟩ := h b hb
  constructor
  . intro hne
    cases xs with
    | nil => exact absurd hc hne
    | cons x xs => exact ⟨x, (hmem x).mp (by simp)⟩
  . rintro ⟨x, hx⟩ hnil
    have hx' := (hmem x).mpr hx
    cases xs with
    | nil => simp at hx'
    | cons y ys => exact hc.2.1 (hc.1.symm.trans hnil)

theorem Buckets.head_mem (h : Buckets nx nil tbl idx cap T) {b : Nat} (hb : b < cap)
    (hne : tbl b ≠ nil) : T (tbl b) ∧ idx (tbl b) = b := by
  obtain ⟨xs, hc, hmem⟩ := h b hb
  cases xs with
  | nil => exact absurd hc hne
  | cons x xs =>
    rw [hc.1]
    exact (hmem x).mp (by simp)

theorem Buckets.next_mem (h : Buckets nx nil tbl idx cap T) {x : α} (hx : T x) (hb : idx x < cap)
    (hne : nx x ≠ nil) : T (nx x) ∧ idx (nx x) = idx x ∧ nx x ≠ x := by
  obtain ⟨xs, hc, hmem⟩ := h _ hb
  obtain ⟨s, t, rfl⟩ := List.append_of_mem ((hmem x).mpr ⟨hx, rfl⟩)
  obtain ⟨_, hxn, ht⟩ := hc.suffix
  cases t with
  | nil => exact absurd ht hne
  | cons y t =>
    have hy := (hmem y).mp (by simp)
    have hnd := hc.suffix.nodup
    rw [ht.1]
    refine ⟨hy.1, hy.2, ?_⟩
    rintro rfl
    simp at hnd

theorem Buckets.exists_pred (h : Buckets nx nil tbl idx cap T) {x : α} (hx : T x)
    (hb : idx x < cap) (hhead : tbl (idx x) ≠ x) : ∃ p, T p ∧ idx p = idx x ∧ nx p = x := by
  obtain ⟨xs, hc, hmem⟩ := h _ hb
  obtain ⟨s, t, rfl⟩ := List.append_of_mem ((hmem x).mpr ⟨hx, rfl⟩)
  rcases List.eq_nil_or_concat s with rfl | ⟨s, p, rfl⟩
  . exact absurd hc.1 hhead
  . rw [List.concat_eq_append, List.append_assoc, List.singleton_append] at hc hmem
    have hp := (hmem p).mp (by simp)
    exact ⟨p, hp.1, hp.2, hc.suffix.2.2.1⟩

theorem Buckets.pop (h : Buckets nx nil tbl idx cap T) {x : α} (hne : x ≠ nil)
    (hhead : tbl (idx x) = x)
    : Buckets nx nil (Function.update tbl (idx x) (nx x)) idx cap (fun y => T y ∧ y ≠ x) := by
  intro b hb
  obtain ⟨xs, hc, hmem⟩ := h b hb
  by_cases hbx : b = idx x
  . subst hbx
    rw [hhead] at hc
    cases xs with
    | nil => exact absurd hc hne
    | cons y ys =>
      have hnd := hc.nodup
      obtain ⟨rfl, _, hys⟩ := hc
      rw [List.nodup_cons] at hnd
      refine ⟨ys, ?_, ?_⟩
      . rw [Function.update_self]
        exact hys
      . intro z
        have hz := hmem z
        rw [List.mem_cons] at hz
        constructor
        . intro hin
          have := hz.mp (Or.inr hin)
          exact ⟨⟨this.1, fun heq => hnd.1 (heq ▸ hin)⟩, this.2⟩
        . rintro ⟨⟨hT, hzx⟩, hi⟩
          exact (hz.mpr ⟨hT, hi⟩).resolve_left hzx
  . refine ⟨xs, ?_, ?_⟩
    . rw [Function.update_of_ne hbx]
      exact hc
    . intro z
      rw [hmem z]
      constructor
      . rintro ⟨hT, hi⟩
        refine ⟨⟨hT, ?_⟩, hi⟩
        rintro rfl
        exact hbx hi.symm
      . rintro ⟨⟨hT, _⟩, hi⟩
        exact ⟨hT, hi⟩

section Update

variable [DecidableEq α]

theorem Buckets.push (h : Buckets nx nil tbl idx cap T) {x : α} (hx : ¬ T x) (hne : x ≠ nil)
    : Buckets (Function.update nx x (tbl (idx x))) nil (Function.update tbl (idx x) x) idx cap
        (fun y => y = x ∨ T y) := by
  intro b hb
  obtain ⟨xs, hc, hmem⟩ := h b hb
  have hxs : x ∉ xs := fun hin => hx ((hmem x).mp hin).1
  by_cases hbx : b = idx x
  . subst hbx
    refine ⟨x :: xs, ?_, ?_⟩
    . rw [Function.update_self]
      exact hc.push hxs hne
    . intro y
      rw [List.mem_cons, hmem y]
      constructor
      . rintro (rfl | ⟨hy, hi⟩)
        . exact ⟨Or.inl rfl, rfl⟩
        . exact ⟨Or.inr hy, hi⟩
      . rintro ⟨rfl | hy, hi⟩
        . exact Or.inl rfl
        . exact Or.inr ⟨hy, hi⟩
  . refine ⟨xs, ?_, ?_⟩
    . rw [Function.update_of_ne hbx]
      exact hc.update_of_notMem hxs _
    . intro y
      rw [hmem y]
      constructor
      . rintro ⟨hy, hi⟩
        exact ⟨Or.inr hy, hi⟩
      . rintro ⟨rfl | hy, hi⟩
        . exact absurd hi.symm hbx
        . exact ⟨hy, hi⟩

theorem Buckets.unlink (h : Buckets nx nil tbl idx cap T) {p x : α} (hx : x ≠ nil) (hp : T p)
    (hb : idx p < cap) (hpx : nx p = x)
    : Buckets (Function.update nx p (nx x)) nil tbl idx cap (fun y => T y ∧ y ≠ x) := by
  have hxT := h.next_mem hp hb (hpx ▸ hx)
  rw [hpx] at hxT
  intro b hbc
  obtain ⟨xs, hc, hmem⟩ := h b hbc
  by_cases hbx : b = idx x
  . have hpin : p ∈ xs := (hmem p).mpr ⟨hp, hxT.2.1.symm.trans hbx.symm⟩
    obtain ⟨s, t, rfl⟩ := List.append_of_mem hpin
    have hsuf := hc.suffix
    cases t with
    | nil => exact absurd (hpx.symm.trans hsuf.2.2) hx
    | cons y t =>
      obtain rfl : x = y := hpx.symm.trans hsuf.2.2.1
      have hnd := hc.nodup
      refine ⟨s ++ p :: t, hc.unlink, ?_⟩
      intro z
      have hz := hmem z
      simp only [List.mem_append, List.mem_cons] at hz ⊢
      have hxnot : x ∉ s ∧ x ∉ t := by
        simp only [List.nodup_append, List.nodup_cons, List.mem_cons, not_or] at hnd
        refine ⟨?_, hnd.2.1.2.1⟩
        intro hin
        exact hnd.2.2 x hin x (Or.inr (Or.inl rfl)) rfl
      constructor
      . rintro (hin | rfl | hin)
        . have hT := hz.mp (Or.inl hin)
          exact ⟨⟨hT.1, fun heq => hxnot.1 (heq ▸ hin)⟩, hT.2⟩
        . have hT := hz.mp (Or.inr (Or.inl rfl))
          exact ⟨⟨hT.1, fun heq => hxT.2.2 heq.symm⟩, hT.2⟩
        . have hT := hz.mp (Or.inr (Or.inr (Or.inr hin)))
          exact ⟨⟨hT.1, fun heq => hxnot.2 (heq ▸ hin)⟩, hT.2⟩
      . rintro ⟨⟨hT, hzx⟩, hi⟩
        rcases hz.mpr ⟨hT, hi⟩ with hin | rfl | rfl | hin
        . exact Or.inl hin
        . exact Or.inr (Or.inl rfl)
        . exact absurd rfl hzx
        . exact Or.inr (Or.inr hin)
  . refine ⟨xs, hc.update_of_notMem ?_ _, ?_⟩
    . intro hin
      exact hbx (((hmem p).mp hin).2.symm.trans hxT.2.1.symm)
    . intro z
      rw [hmem z]
      constructor
      . rintro ⟨hT, hi⟩
        refine ⟨⟨hT, ?_⟩, hi⟩
        rintro rfl
        exact hbx hi.symm
      . rintro ⟨⟨hT, _⟩, hi⟩
        exact ⟨hT, hi⟩

theorem Buckets.seek_cases (h : Buckets nx nil tbl idx cap T) {b : Nat} (hb : b < cap)
    (p : α → Bool) {fuel : Nat}
    (hfuel : ∀ xs : List α, xs.Nodup → (∀ x ∈ xs, T x) → xs.length < fuel)
    : (seek nx nil p fuel (tbl b) = nil ∧ ∀ x, T x → idx x = b → p x = false) ∨
      (T (seek nx nil p fuel (tbl b)) ∧ idx (seek nx nil p fuel (tbl b)) = b ∧
        p (seek nx nil p fuel (tbl b)) = true) := by
  obtain ⟨xs, hc, hmem⟩ := h b hb
  have hlen := hfuel xs hc.nodup (fun x hx => ((hmem x).mp hx).1)
  rw [hc.seek_eq p hlen]
  cases hf : xs.find? p with
  | none =>
    refine Or.inl ⟨rfl, ?_⟩
    intro x hx hi
    have := List.find?_eq_none.mp hf x ((hmem x).mpr ⟨hx, hi⟩)
    simpa using this
  | some y =>
    have hy := (hmem y).mp (List.mem_of_find?_eq_some hf)
    exact Or.inr ⟨hy.1, hy.2, List.find?_some hf⟩

end Update

section Scan

variable [DecidableEq α]

def scan (tbl : Nat → α) (nil : α) : Nat → Nat → α
  | 0, _ => nil
  | n + 1, i => if tbl i = nil then scan tbl nil n (i + 1) else tbl i

def succ (nx : α → α) (nil : α) (tbl : Nat → α) (idx : α → Nat) (cap : Nat) (x : α) : α :=
  if nx x = nil then scan tbl nil (cap - (idx x + 1)) (idx x + 1) else nx x

theorem Chain.append {f : α → α} {a c : α} {xs ys : List α} (hx : Chain nx nil a xs)
    (hf : ∀ x ∈ xs, f x = if nx x = nil then c else nx x) (hy : Chain f nil c ys)
    : Chain f nil (if a = nil then c else a) (xs ++ ys) := by
  induction xs generalizing a with
  | nil =>
    rw [chain_nil_iff.mp hx, if_pos rfl]
    exact hy
  | cons x xs ih =>
    obtain ⟨rfl, hne, hxs⟩ := hx
    rw [if_neg hne]
    refine ⟨rfl, hne, ?_⟩
    rw [hf a (by simp)]
    exact ih hxs (fun z hz => hf z (by simp [hz]))

theorem Buckets.traversal (h : Buckets nx nil tbl idx cap T) {n i : Nat} (hn : i + n = cap)
    : ∃ xs, Chain (succ nx nil tbl idx cap) nil (scan tbl nil n i) xs ∧
        ∀ x, x ∈ xs ↔ T x ∧ i ≤ idx x ∧ idx x < cap := by
  induction n generalizing i with
  | zero =>
    refine ⟨[], rfl, ?_⟩
    intro x
    simp only [List.not_mem_nil, false_iff, not_and]
    intro _ hi
    omega
  | succ n ih =>
    obtain ⟨ys, hy, hmemy⟩ := ih (i := i + 1) (by omega)
    obtain ⟨xs, hx, hmemx⟩ := h i (by omega)
    refine ⟨xs ++ ys, ?_, ?_⟩
    . rw [scan]
      apply hx.append _ hy
      intro x hxin
      have hidx := ((hmemx x).mp hxin).2
      rw [succ, hidx, show cap - (i + 1) = n by omega]
    . intro x
      rw [List.mem_append, hmemx x, hmemy x]
      constructor
      . rintro (⟨hT, rfl⟩ | ⟨hT, hle, hlt⟩)
        . exact ⟨hT, Nat.le_refl _, by omega⟩
        . exact ⟨hT, by omega, hlt⟩
      . rintro ⟨hT, hle, hlt⟩
        rcases Nat.eq_or_lt_of_le hle with heq | hgt
        . exact Or.inl ⟨hT, heq.symm⟩
        . exact Or.inr ⟨hT, hgt, hlt⟩

theorem scan_congr {n i : Nat} (h : ∀ k, i ≤ k → k < i + n → tbl' k = tbl k)
    : scan tbl' nil n i = scan tbl nil n i := by
  induction n generalizing i with
  | zero => rfl
  | succ n ih =>
    rw [scan, scan, h i (Nat.le_refl i) (by omega), ih (fun k hk hk' => h k (by omega) (by omega))]

theorem scan_eq_nil {n i : Nat} (h : scan tbl nil n i = nil) (k : Nat) (hik : i ≤ k)
    (hk : k < i + n) : tbl k = nil := by
  induction n generalizing i with
  | zero => omega
  | succ n ih =>
    rw [scan] at h
    split at h
    . next hi =>
      rcases Nat.eq_or_lt_of_le hik with rfl | hlt
      . exact hi
      . exact ih h hlt (by omega)
    . next hi => exact absurd h hi

theorem scan_skip {m n i : Nat} (h : ∀ k, i ≤ k → k < i + m → tbl k = nil)
    : scan tbl nil (m + n) i = scan tbl nil n (i + m) := by
  induction m generalizing i with
  | zero => simp
  | succ m ih =>
    rw [show m + 1 + n = (m + n) + 1 by omega, scan, if_pos (h i (Nat.le_refl i) (by omega)),
      ih (fun k hk hk' => h k (by omega) (by omega))]
    congr 1
    omega

theorem scan_ne_nil {n i : Nat} (h : scan tbl nil n i ≠ nil)
    : ∃ j, i ≤ j ∧ j < i + n ∧ tbl j = scan tbl nil n i ∧ ∀ k, i ≤ k → k < j → tbl k = nil := by
  induction n generalizing i with
  | zero => exact absurd rfl h
  | succ n ih =>
    rw [scan] at h ⊢
    by_cases hi : tbl i = nil
    . rw [if_pos hi] at h ⊢
      obtain ⟨j, hij, hj, hval, hmin⟩ := ih h
      refine ⟨j, by omega, by omega, hval, ?_⟩
      intro k hk hkj
      rcases Nat.eq_or_lt_of_le hk with rfl | hlt
      . exact hi
      . exact hmin k hlt hkj
    . rw [if_neg hi]
      exact ⟨i, Nat.le_refl i, by omega, rfl, fun k hk hki => by omega⟩

theorem Buckets.scan_head (h : Buckets nx nil tbl idx cap T) (hne : scan tbl nil cap 0 ≠ nil)
    : T (scan tbl nil cap 0) ∧ idx (scan tbl nil cap 0) < cap ∧
        tbl (idx (scan tbl nil cap 0)) = scan tbl nil cap 0 ∧
        ∀ k < idx (scan tbl nil cap 0), tbl k = nil := by
  obtain ⟨j, _, hj, hval, hmin⟩ := scan_ne_nil hne
  have hmem := h.head_mem (show j < cap by omega) (by rw [hval]; exact hne)
  rw [hval] at hmem
  refine ⟨hmem.1, by omega, by rw [hmem.2, hval], ?_⟩
  intro k hk
  exact hmin k (Nat.zero_le k) (by omega)

theorem Buckets.scan_pop (h : Buckets nx nil tbl idx cap T) {x : α}
    (hx : scan tbl nil cap 0 = x) (hne : x ≠ nil)
    : scan (Function.update tbl (idx x) (nx x)) nil cap 0 = succ nx nil tbl idx cap x := by
  subst hx
  obtain ⟨_, hlt, _, hmin⟩ := h.scan_head hne
  generalize scan tbl nil cap 0 = x at *
  rw [show cap = idx x + ((cap - (idx x + 1)) + 1) by omega, scan_skip, scan, Nat.zero_add,
    Function.update_self, succ]
  . rw [show idx x + ((cap - (idx x + 1)) + 1) - (idx x + 1) = cap - (idx x + 1) by omega]
    split
    . apply scan_congr
      intro k hk _
      rw [Function.update_of_ne (by omega)]
    . rfl
  . intro k _ hk
    rw [Function.update_of_ne (by omega)]
    exact hmin k (by omega)

theorem Buckets.scan_eq_nil_iff (h : Buckets nx nil tbl idx cap T) (hidx : ∀ x, T x → idx x < cap)
    : scan tbl nil cap 0 = nil ↔ ∀ x, ¬ T x := by
  constructor
  . intro hs x hx
    have hhead := (h.head_ne_nil_iff (hidx x hx)).mpr ⟨x, hx, rfl⟩
    exact hhead (scan_eq_nil hs _ (Nat.zero_le _) (by have := hidx x hx; omega))
  . intro hT
    by_contra hne
    exact hT _ (h.scan_head hne).1

def relink (nil : α) (tbl : Nat → α) (idx : α → Nat) (cap : Nat) (idx' : α → Nat)
    : Nat → α → (α → α) → (Nat → α) → (α → α) × (Nat → α)
  | 0, _, nx, tbl' => (nx, tbl')
  | fuel + 1, x, nx, tbl' =>
    if x = nil then (nx, tbl')
    else relink nil tbl idx cap idx' fuel (succ nx nil tbl idx cap x) (Function.update nx x (tbl' (idx' x)))
      (Function.update tbl' (idx' x) x)

theorem Buckets.relink {cap' : Nat} {a : α} {xs : List α}
    (h : Buckets nx nil tbl' idx' cap' T) (hc : Chain (succ nx nil tbl idx cap) nil a xs) (hnew : ∀ x ∈ xs, ¬ T x)
    {fuel : Nat} (hf : xs.length ≤ fuel)
    : Buckets (relink nil tbl idx cap idx' fuel a nx tbl').1 nil (relink nil tbl idx cap idx' fuel a nx tbl').2
      idx' cap' (fun y => y ∈ xs ∨ T y) := by
  induction xs generalizing nx tbl' T a fuel with
  | nil =>
    have hres : Linked.relink nil tbl idx cap idx' fuel a nx tbl' = (nx, tbl') := by
      cases fuel with
      | zero => rfl
      | succ fuel => exact if_pos hc
    rw [hres]
    exact h.congr (fun _ _ => rfl) (fun _ _ => rfl) (fun _ _ => rfl) (fun y => by simp)
  | cons x xs ih =>
    have hnd := List.nodup_cons.mp hc.nodup
    obtain ⟨rfl, hne, hrest⟩ := hc
    cases fuel with
    | zero => exact absurd hf (Nat.not_succ_le_zero _)
    | succ fuel =>
      rw [Linked.relink, if_neg hne]
      have hpush := h.push (hnew a List.mem_cons_self) hne
      have hchain : Chain (succ (Function.update nx a (tbl' (idx' a))) nil tbl idx cap) nil
          (succ nx nil tbl idx cap a) xs := by
        apply hrest.congr
        intro y hy
        have hya : y ≠ a := fun heq => hnd.1 (heq ▸ hy)
        rw [succ, succ, Function.update_of_ne hya]
      have hnew' : ∀ y ∈ xs, ¬ (y = a ∨ T y) := by
        rintro y hy (rfl | hT)
        . exact hnd.1 hy
        . exact hnew y (List.mem_cons_of_mem _ hy) hT
      exact (ih hpush hchain hnew' (Nat.le_of_succ_le_succ hf)).congr (fun _ _ => rfl) (fun _ _ => rfl)
        (fun _ _ => rfl) (fun y => by rw [List.mem_cons]; tauto)

end Scan

end Linked
