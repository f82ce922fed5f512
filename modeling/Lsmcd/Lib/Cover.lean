import Mathlib.Algebra.BigOperators.Group.Finset.Basic
import Mathlib.Algebra.Ring.Nat
import Mathlib.Data.List.Pairwise

/-!
Blocks of an address space, each a start and a length, counted by the addresses that they hold. Two
lists of blocks hold the same addresses the same number of times when each is made of the other by
splitting, joining and reordering.
-/

namespace Cover

def Within (b : Nat × Nat) (x : Nat) : Prop :=
  b.1 ≤ x ∧ x < b.1 + b.2

instance (b : Nat × Nat) (x : Nat) : Decidable (Within b x) := inferInstanceAs (Decidable (_ ∧ _))

def count (bs : List (Nat × Nat)) (x : Nat) : Nat :=
  bs.countP fun b => decide (Within b x)

variable {bs cs : List (Nat × Nat)} {b c : Nat × Nat} {x : Nat}

@[simp]
theorem count_nil (x : Nat) : count [] x = 0 := rfl

theorem count_cons (b : Nat × Nat) (bs : List (Nat × Nat)) (x : Nat)
    : count (b :: bs) x = count [b] x + count bs x := by
  simp [count, List.countP_cons]
  omega

theorem count_pair (b c : Nat × Nat) (bs : List (Nat × Nat)) (x : Nat)
    : count (b :: c :: bs) x = count [b] x + count [c] x + count bs x := by
  rw [count_cons, count_cons c bs, Nat.add_assoc]

@[simp]
theorem count_append (bs cs : List (Nat × Nat)) (x : Nat)
    : count (bs ++ cs) x = count bs x + count cs x :=
  List.countP_append

theorem count_singleton (b : Nat × Nat) (x : Nat) : count [b] x = if Within b x then 1 else 0 := by
  simp [count, List.countP_cons]

theorem count_split (o m n x : Nat) : count [(o, m + n)] x = count [(o, m)] x + count [(o + m, n)] x := by
  have hparts : Within (o, m + n) x ↔ Within (o, m) x ∨ Within (o + m, n) x := by
    unfold Within
    omega
  have hapart : ¬ (Within (o, m) x ∧ Within (o + m, n) x) := by
    unfold Within
    omega
  rw [count_singleton, count_singleton, count_singleton]
  by_cases hm : Within (o, m) x
  . rw [if_pos (hparts.mpr (.inl hm)), if_pos hm, if_neg fun hn => hapart ⟨hm, hn⟩]
  . by_cases hn : Within (o + m, n) x
    . rw [if_pos (hparts.mpr (.inr hn)), if_neg hm, if_pos hn]
    . rw [if_neg fun h => (hparts.mp h).elim hm hn, if_neg hm, if_neg hn]

@[simp]
theorem count_empty (o x : Nat) : count [(o, 0)] x = 0 := by
  rw [count_singleton, if_neg]
  unfold Within
  omega

theorem count_pos_iff : 0 < count bs x ↔ ∃ b ∈ bs, Within b x := by
  simp [count, List.countP_pos_iff]

theorem count_pos_of_mem (hb : b ∈ bs) (hx : Within b x) : 0 < count bs x :=
  count_pos_iff.mpr ⟨b, hb, hx⟩

theorem count_erase (hb : b ∈ bs) (x : Nat) : count (bs.erase b) x + count [b] x = count bs x := by
  have hperm := (List.perm_cons_erase hb).countP_eq fun c => decide (Within c x)
  have hcons := count_cons b (bs.erase b) x
  unfold count at *
  omega

theorem count_le_one (h : bs.Pairwise fun b c => b.1 + b.2 ≤ c.1 ∨ c.1 + c.2 ≤ b.1) (x : Nat)
    : count bs x ≤ 1 := by
  induction bs with
  | nil => exact Nat.zero_le _
  | cons b bs ih =>
    rw [List.pairwise_cons] at h
    have htail := ih h.2
    rw [count_cons, count_singleton]
    split
    . rename_i hb
      have hzero : count bs x = 0 := by
        by_contra hne
        obtain ⟨c, hc, hx⟩ := count_pos_iff.mp (Nat.pos_of_ne_zero hne)
        have hap := h.1 c hc
        unfold Within at hb hx
        omega
      omega
    . omega

theorem pairwise_of_count_le_one (h : ∀ x, count bs x ≤ 1) (hpos : ∀ b ∈ bs, 0 < b.2)
    : bs.Pairwise fun b c => b.1 + b.2 ≤ c.1 ∨ c.1 + c.2 ≤ b.1 := by
  induction bs with
  | nil => exact .nil
  | cons b bs ih =>
    rw [List.pairwise_cons]
    constructor
    . intro c hc
      by_contra hov
      -- the later of the two starts is in both
      have hb := hpos b List.mem_cons_self
      have hcpos := hpos c (List.mem_cons_of_mem _ hc)
      have hone := h (max b.1 c.1)
      have hin : Within c (max b.1 c.1) := by
        unfold Within
        omega
      have hmore := count_pos_of_mem hc hin
      rw [count_cons, count_singleton, if_pos (by unfold Within; omega)] at hone
      omega
    . refine ih (fun x => ?_) fun c hc => hpos c (List.mem_cons_of_mem _ hc)
      have hone := h x
      rw [count_cons] at hone
      omega

theorem not_within_of_count (h : count (bs ++ cs) x ≤ 1) (hb : b ∈ bs) (hx : Within b x) (hc : c ∈ cs)
    : ¬ Within c x := by
  intro hx'
  have h1 := count_pos_of_mem hb hx
  have h2 := count_pos_of_mem hc hx'
  rw [count_append] at h
  omega

theorem count_map_erase {α : Type*} [DecidableEq α] (f : α → Nat × Nat) {l : List α} {a : α} (ha : a ∈ l) (x : Nat)
    : count (l.map f) x = count [f a] x + count ((l.erase a).map f) x := by
  rw [← count_cons, ← List.map_cons]
  exact ((List.perm_cons_erase ha).map f).countP_eq _

theorem count_map_eq {α : Type*} [DecidableEq α] {f g : α → Nat × Nat} {l : List α} {a : α} (hl : l.Nodup)
    (ha : a ∈ l) (heq : ∀ y ∈ l, y ≠ a → g y = f y) (x : Nat)
    : count (l.map g) x + count [f a] x = count (l.map f) x + count [g a] x := by
  have hrest : (l.erase a).map g = (l.erase a).map f := by
    apply List.map_congr_left
    intro y hy
    exact heq y (List.mem_of_mem_erase hy) ((hl.mem_erase_iff.mp hy).1)
  rw [count_map_erase f ha, count_map_erase g ha, hrest]
  omega

section Families

variable {f g : Nat → List (Nat × Nat)} {n i : Nat}

theorem count_flatMap_range (f : Nat → List (Nat × Nat)) (n x : Nat)
    : count ((List.range n).flatMap f) x = ∑ j ∈ Finset.range n, count (f j) x := by
  induction n with
  | zero => rfl
  | succ n ih =>
    rw [List.range_succ, List.flatMap_append, count_append, ih, Finset.sum_range_succ]
    simp

theorem count_family (hi : i < n) (hother : ∀ j, j ≠ i → g j = f j) (x : Nat)
    : count ((List.range n).flatMap g) x + count (f i) x =
      count ((List.range n).flatMap f) x + count (g i) x := by
  have hmem : i ∈ Finset.range n := Finset.mem_range.mpr hi
  rw [count_flatMap_range, count_flatMap_range, ← Finset.add_sum_erase _ _ hmem,
    ← Finset.add_sum_erase _ (fun j => count (f j) x) hmem]
  have hrest : ∑ j ∈ (Finset.range n).erase i, count (g j) x = ∑ j ∈ (Finset.range n).erase i, count (f j) x := by
    apply Finset.sum_congr rfl
    intro j hj
    rw [hother j (Finset.ne_of_mem_erase hj)]
  rw [hrest]
  omega

end Families

end Cover
