import Mathlib.Algebra.Ring.Nat
import Mathlib.Data.List.Basic
import Mathlib.Order.Defs.LinearOrder
import Mathlib.Order.Lattice

/-!
Two lists in the order of a key, walked through side by side to find what the second one lacks.
-/

namespace Merge

variable {α κ : Type} [LinearOrder κ] (key : α → κ) (same : α → α → Bool)

def Increasing (as : List α) : Prop := as.Pairwise fun a b => key a < key b

instance (as : List α) : Decidable (Increasing key as) :=
  inferInstanceAs (Decidable (as.Pairwise fun a b => key a < key b))

def diff : List α → List α → List α
  | [], _ => []
  | a :: as, [] => a :: diff as []
  | a :: as, b :: bs =>
    if key a < key b then a :: diff as (b :: bs)
    else if key b < key a then diff (a :: as) bs
    else if same a b then diff as bs
    else a :: diff as bs
termination_by as bs => as.length + bs.length

def Lacks (bs : List α) (a : α) : Prop :=
  (∀ b ∈ bs, key b ≠ key a) ∨ ∃ b ∈ bs, key b = key a ∧ same a b = false

instance (bs : List α) (a : α) : Decidable (Lacks key same bs a) :=
  inferInstanceAs (Decidable (_ ∨ _))

variable {key same}

theorem lacks_of_lt {a : α} {bs : List α} (h : ∀ b ∈ bs, key a < key b) : Lacks key same bs a :=
  .inl fun b hb => ne_of_gt (h b hb)

theorem lacks_cons_of_lt {a b : α} {bs : List α} (h : key b < key a)
    : Lacks key same (b :: bs) a ↔ Lacks key same bs a := by
  unfold Lacks
  simp only [List.mem_cons, forall_eq_or_imp, exists_eq_or_imp]
  constructor
  . rintro (⟨_, hall⟩ | ⟨heq, _⟩ | hex)
    . exact .inl hall
    . exact absurd heq (ne_of_lt h)
    . exact .inr hex
  . rintro (hall | hex)
    . exact .inl ⟨ne_of_lt h, hall⟩
    . exact .inr (.inr hex)

theorem lacks_cons_of_eq {a b : α} {bs : List α} (hb : Increasing key (b :: bs)) (h : key b = key a)
    : Lacks key same (b :: bs) a ↔ same a b = false := by
  have hgt := (List.pairwise_cons.mp hb).1
  constructor
  . rintro (hall | ⟨c, hc, hkey, hsame⟩)
    . exact absurd h (hall b List.mem_cons_self)
    . rcases List.mem_cons.mp hc with rfl | hc
      . exact hsame
      . exact absurd (h.trans hkey.symm) (ne_of_lt (hgt c hc))
  . intro hsame
    exact .inr ⟨b, List.mem_cons_self, h, hsame⟩

theorem filter_lacks_cons {as bs : List α} {b : α} (h : ∀ a ∈ as, key b < key a)
    : (as.filter fun a => Lacks key same (b :: bs) a) = as.filter fun a => Lacks key same bs a := by
  apply List.filter_congr
  intro a ha
  rw [decide_eq_decide]
  exact lacks_cons_of_lt (h a ha)

theorem diff_eq_filter {as bs : List α} (ha : Increasing key as) (hb : Increasing key bs)
    : diff key same as bs = as.filter fun a => Lacks key same bs a := by
  induction as, bs using diff.induct key same with
  | case1 bs =>
    rw [diff]
    rfl
  | case2 a as ih =>
    have hlacks : Lacks key same [] a := lacks_of_lt fun _ h => by contradiction
    rw [diff, ih ha.of_cons hb, List.filter_cons, if_pos (decide_eq_true hlacks)]
  | case3 a as b bs hlt ih =>
    have hlacks : Lacks key same (b :: bs) a := by
      apply lacks_of_lt
      intro c hc
      rcases List.mem_cons.mp hc with rfl | hc
      . exact hlt
      . exact lt_trans hlt ((List.pairwise_cons.mp hb).1 c hc)
    rw [diff, if_pos hlt, ih ha.of_cons hb, List.filter_cons, if_pos (decide_eq_true hlacks)]
  | case4 a as b bs hlt hgt ih =>
    have hpass : ∀ c ∈ a :: as, key b < key c := by
      intro c hc
      rcases List.mem_cons.mp hc with rfl | hc
      . exact hgt
      . exact lt_trans hgt ((List.pairwise_cons.mp ha).1 c hc)
    rw [diff, if_neg hlt, if_pos hgt, ih ha hb.of_cons, filter_lacks_cons hpass]
  | case5 a as b bs hlt hgt hsame ih =>
    have heq : key b = key a := le_antisymm (not_lt.mp hlt) (not_lt.mp hgt)
    have hpass : ∀ c ∈ as, key b < key c := by
      rw [heq]
      exact (List.pairwise_cons.mp ha).1
    have hlacks : ¬ Lacks key same (b :: bs) a := by
      rw [lacks_cons_of_eq hb heq, hsame]
      exact Bool.noConfusion
    rw [diff, if_neg hlt, if_neg hgt, if_pos hsame, ih ha.of_cons hb.of_cons, List.filter_cons,
      if_neg (by rw [decide_eq_true_eq]; exact hlacks), filter_lacks_cons hpass]
  | case6 a as b bs hlt hgt hsame ih =>
    have heq : key b = key a := le_antisymm (not_lt.mp hlt) (not_lt.mp hgt)
    have hpass : ∀ c ∈ as, key b < key c := by
      rw [heq]
      exact (List.pairwise_cons.mp ha).1
    have hlacks : Lacks key same (b :: bs) a :=
      (lacks_cons_of_eq hb heq).mpr (Bool.eq_false_iff.mpr hsame)
    rw [diff, if_neg hlt, if_neg hgt, if_neg hsame, ih ha.of_cons hb.of_cons, List.filter_cons,
      if_pos (decide_eq_true hlacks), filter_lacks_cons hpass]

end Merge
