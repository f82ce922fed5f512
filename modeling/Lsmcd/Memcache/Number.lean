import Mathlib.Data.List.TakeWhile
import Lsmcd.Memcache.Token

/-!
Numbers as text and as bytes of an element.
-/

namespace Lsmcd

theorem readLe_congr {data data' : Nat → UInt8} {n : Nat} {off : Nat}
    (h : ∀ i, off ≤ i → i < off + n → data i = data' i) : readLe data off n = readLe data' off n := by
  induction n generalizing off with
  | zero => rfl
  | succ n ih =>
    unfold readLe
    rw [h off (Nat.le_refl _) (by omega)]
    rw [ih fun i hlo hhi => h i (by omega) (by omega)]

theorem readLe_lt (data : Nat → UInt8) (off n : Nat) : readLe data off n < 256 ^ n := by
  induction n generalizing off with
  | zero => exact Nat.one_pos
  | succ n ih =>
    have hbyte := (data off).toNat_lt
    have hrest := ih (off + 1)
    rw [readLe, Nat.pow_succ]
    omega

theorem readLe_writeLe (data : Nat → UInt8) (off : Nat) {n v : Nat} (h : v < 256 ^ n)
    : readLe (writeLe data off n v) off n = v := by
  induction n generalizing data off v with
  | zero =>
    rw [Nat.pow_zero] at h
    exact (Nat.lt_one_iff.mp h).symm
  | succ n ih =>
    rw [Nat.pow_succ] at h
    have hfirst : writeLe data off (n + 1) v off = UInt8.ofNat v := by
      unfold writeLe
      rw [if_pos ⟨Nat.le_refl _, by omega⟩, Nat.sub_self, Nat.pow_zero, Nat.div_one]
    -- the other bytes are those of the quotient
    have hrest : readLe (writeLe data off (n + 1) v) (off + 1) n =
        readLe (writeLe data (off + 1) n (v / 256)) (off + 1) n := by
      apply readLe_congr
      intro i hlo hhi
      unfold writeLe
      rw [if_pos ⟨by omega, by omega⟩, if_pos ⟨hlo, hhi⟩, Nat.div_div_eq_div_mul, ← Nat.pow_succ',
        show i - off = (i - (off + 1)).succ by omega]
    rw [readLe, hfirst, hrest, ih _ _ (by omega), UInt8.toNat_ofNat']
    omega

theorem readLe_writeLe_of_disjoint (data : Nat → UInt8) {off n off' n' : Nat} (v : Nat)
    (h : off + n ≤ off' ∨ off' + n' ≤ off)
    : readLe (writeLe data off' n' v) off n = readLe data off n := by
  apply readLe_congr
  intro i hlo hhi
  unfold writeLe
  rw [if_neg]
  omega

def Digits (ds : List UInt8) : Prop :=
  ds ≠ [] ∧ ∀ d ∈ ds, isdigit d = true

theorem digitsVal_append (ds : List UInt8) (d : UInt8)
    : digitsVal (ds ++ [d]) = 10 * digitsVal ds + (d.toNat - 48) := by
  simp [digitsVal, List.foldl_append]

theorem toNat_digit {d : Nat} (h : d < 10) : (UInt8.ofNat (48 + d)).toNat = 48 + d := by
  rw [UInt8.toNat_ofNat']
  omega

theorem isdigit_digit {d : Nat} (h : d < 10) : isdigit (UInt8.ofNat (48 + d)) = true := by
  have hval := toNat_digit h
  simp only [isdigit, Bool.and_eq_true, decide_eq_true_eq, UInt8.le_iff_toNat_le, hval]
  constructor
  . show 48 ≤ 48 + d
    omega
  . show 48 + d ≤ 57
    omega

theorem decimal_go_spec (fuel : Nat) {n : Nat} (h : n < 10 ^ (fuel + 1)) (acc : List UInt8)
    : ∃ ds, decimal.go (fuel + 1) n acc = ds ++ acc ∧ Digits ds ∧ digitsVal ds = n := by
  induction fuel generalizing n acc with
  | zero =>
    have hn : n < 10 := by simpa using h
    refine ⟨[UInt8.ofNat (48 + n % 10)], ?_, ⟨by simp, ?_⟩, ?_⟩
    . unfold decimal.go
      simp [hn]
    . intro d hd
      rw [List.mem_singleton.mp hd]
      exact isdigit_digit (Nat.mod_lt _ (by decide))
    . show 10 * 0 + ((UInt8.ofNat (48 + n % 10)).toNat - 48) = n
      rw [toNat_digit (Nat.mod_lt _ (by decide))]
      omega
  | succ fuel ih =>
    have hlast := isdigit_digit (Nat.mod_lt n (by decide : 0 < 10))
    have hval := toNat_digit (Nat.mod_lt n (by decide : 0 < 10))
    unfold decimal.go
    dsimp only
    split
    . refine ⟨[UInt8.ofNat (48 + n % 10)], rfl, ⟨by simp, ?_⟩, ?_⟩
      . intro d hd
        rw [List.mem_singleton.mp hd]
        exact hlast
      . show 10 * 0 + ((UInt8.ofNat (48 + n % 10)).toNat - 48) = n
        rw [hval]
        omega
    . rw [Nat.pow_succ] at h
      obtain ⟨ds, heq, ⟨hne, hds⟩, hv⟩ := ih (n := n / 10) (by omega) (UInt8.ofNat (48 + n % 10) :: acc)
      refine ⟨ds ++ [UInt8.ofNat (48 + n % 10)], ?_, ⟨by simp, ?_⟩, ?_⟩
      . rw [heq, List.append_assoc]
        rfl
      . intro d hd
        rcases List.mem_append.mp hd with hd | hd
        . exact hds d hd
        . rw [List.mem_singleton.mp hd]
          exact hlast
      . rw [digitsVal_append, hv, hval]
        omega

theorem decimal_spec {n : Nat} (h : n < 10 ^ 20) : Digits (decimal n) ∧ digitsVal (decimal n) = n := by
  obtain ⟨ds, heq, hds, hval⟩ := decimal_go_spec 19 h []
  have hdec : decimal n = ds := by
    rw [decimal, heq, List.append_nil]
  rw [hdec]
  exact ⟨hds, hval⟩

theorem decimal_ne_nil (n : Nat) : decimal n ≠ [] := by
  have hgo : ∀ fuel n acc, acc ≠ [] → decimal.go fuel n acc ≠ [] := by
    intro fuel
    induction fuel with
    | zero => exact fun _ _ hacc => hacc
    | succ fuel ih =>
      intro n acc _
      unfold decimal.go
      dsimp only
      split
      . exact List.cons_ne_nil _ _
      . exact ih _ _ (List.cons_ne_nil _ _)
  unfold decimal decimal.go
  dsimp only
  split
  . exact List.cons_ne_nil _ _
  . exact hgo _ _ _ (List.cons_ne_nil _ _)

theorem isdigit_range {d : UInt8} (h : isdigit d = true) : 48 ≤ d.toNat ∧ d.toNat ≤ 57 := by
  simp only [isdigit, Bool.and_eq_true, decide_eq_true_eq, UInt8.le_iff_toNat_le] at h
  exact h

theorem isspace_of_isdigit {d : UInt8} (h : isdigit d = true) : isspace d = false := by
  have hr := isdigit_range h
  simp only [isspace, Bool.or_eq_false_iff, decide_eq_false_iff_not, Bool.and_eq_false_iff, UInt8.le_iff_toNat_le]
  constructor
  . intro hsp
    subst hsp
    exact absurd hr.1 (by decide)
  . right
    show ¬ d.toNat ≤ 13
    omega

theorem myStrtoull_digits {ds : List UInt8} (h : Digits ds) (hval : digitsVal ds < 2 ^ 64)
    : myStrtoull ds = some (digitsVal ds) := by
  obtain ⟨d, ds', rfl⟩ := List.exists_cons_of_ne_nil h.1
  have hd := h.2 d (List.mem_cons_self ..)
  have hr := isdigit_range hd
  have hsign : ¬ ((d :: ds').head? = some 45 ∨ (d :: ds').head? = some 43) := by
    simp only [List.head?_cons, Option.some.injEq]
    rintro (rfl | rfl)
    . exact absurd hr.1 (by decide)
    . exact absurd hr.1 (by decide)
  have hnum : strtoNum (d :: ds') = some (false, digitsVal (d :: ds'), []) := by
    unfold strtoNum
    rw [List.dropWhile_cons_of_neg (by simp [isspace_of_isdigit hd])]
    dsimp only
    rw [not_or] at hsign
    simp only [hsign.1, hsign.2, decide_false, or_false, if_false]
    rw [List.takeWhile_eq_self_iff.mpr h.2, if_neg (List.cons_ne_nil _ _), List.dropWhile_eq_nil_iff.mpr h.2]
  unfold myStrtoull
  rw [hnum]
  simp [endOk]
  omega

theorem myStrtoull_decimal {n : Nat} (h : n < 2 ^ 64) : myStrtoull (decimal n) = some n := by
  obtain ⟨hds, hval⟩ := decimal_spec (n := n) (by omega)
  have hread := myStrtoull_digits hds (by omega)
  rw [hval] at hread
  exact hread

theorem myStrtoull_lt {str : List UInt8} {n : Nat} (h : myStrtoull str = some n) : n < 2 ^ 64 := by
  revert h
  unfold myStrtoull
  split
  . exact fun h => nomatch h
  . split
    . exact fun h => nomatch h
    . rename_i hlt
      rintro ⟨⟩
      split
      . exact Nat.mod_lt _ (by decide)
      . omega

/--
What `strtoull` makes of a string: blanks, a sign, the digits and what `*endptr` is.
-/
structure NumText (str bl sg ds rest : List UInt8) : Prop where
  parts : str = bl ++ (sg ++ (ds ++ rest))
  blanks : ∀ b ∈ bl, isspace b = true
  sign : sg = [] ∨ sg = [45] ∨ sg = [43]
  digits : Digits ds
  stop : ∀ b ∈ rest.head?, isdigit b = false

theorem digit_ne_sign {d : UInt8} (h : isdigit d = true) : d ≠ 45 ∧ d ≠ 43 := by
  have hr := isdigit_range h
  constructor
  . rintro rfl
    exact absurd hr.1 (by decide)
  . rintro rfl
    exact absurd hr.1 (by decide)

theorem strtoNum_complete {str bl sg ds rest : List UInt8} (h : NumText str bl sg ds rest)
    : strtoNum str = some (decide (sg = [45]), digitsVal ds, rest) := by
  obtain ⟨d, ds', hds⟩ := List.exists_cons_of_ne_nil h.digits.1
  have hd : isdigit d = true := h.digits.2 d (by rw [hds]; exact List.mem_cons_self)
  obtain ⟨hminus, hplus⟩ := digit_ne_sign hd
  have hblank : str.dropWhile isspace = sg ++ (ds ++ rest) := by
    rw [h.parts, List.dropWhile_append_of_pos h.blanks]
    rcases h.sign with hs | hs | hs
    . rw [hs, hds]
      exact List.dropWhile_cons_of_neg (by simp [isspace_of_isdigit hd])
    . rw [hs]
      exact List.dropWhile_cons_of_neg (by decide)
    . rw [hs]
      exact List.dropWhile_cons_of_neg (by decide)
  have hrest : ∀ p : UInt8 → Bool, p = isdigit → rest.takeWhile p = [] ∧ rest.dropWhile p = rest := by
    rintro p rfl
    cases hr : rest with
    | nil => exact ⟨rfl, rfl⟩
    | cons b tail =>
      have hb : isdigit b = false := h.stop b (by rw [hr]; rfl)
      rw [List.takeWhile_cons_of_neg (by simp [hb]), List.dropWhile_cons_of_neg (by simp [hb])]
      exact ⟨rfl, rfl⟩
  have htake : (ds ++ rest).takeWhile isdigit = ds := by
    rw [List.takeWhile_append_of_pos h.digits.2, (hrest _ rfl).1, List.append_nil]
  have hdrop : (ds ++ rest).dropWhile isdigit = rest := by
    rw [List.dropWhile_append_of_pos h.digits.2, (hrest _ rfl).2]
  have hhead : (ds ++ rest).head? = some d := by
    rw [hds]
    rfl
  unfold strtoNum
  rw [hblank]
  rcases h.sign with hs | hs | hs
  . subst hs
    simp [hhead, hminus, hplus, htake, hdrop, h.digits.1]
  . subst hs
    simp [htake, hdrop, h.digits.1]
  . subst hs
    simp [htake, hdrop, h.digits.1]

theorem strtoNum_sound {str rest : List UInt8} {neg : Bool} {n : Nat} (h : strtoNum str = some (neg, n, rest))
    : ∃ bl sg ds, NumText str bl sg ds rest ∧ neg = decide (sg = [45]) ∧ n = digitsVal ds := by
  have hstop : ∀ l : List UInt8, ∀ b ∈ (l.dropWhile isdigit).head?, isdigit b = false := by
    intro l b hb
    have hmem := List.head?_dropWhile_not isdigit l
    rw [hb] at hmem
    simpa using hmem
  have hdigits : ∀ l : List UInt8, l.takeWhile isdigit ≠ [] → Digits (l.takeWhile isdigit) :=
    fun l hne => ⟨hne, fun d hd => List.mem_takeWhile_imp hd⟩
  have hblanks : ∀ b ∈ str.takeWhile isspace, isspace b = true := fun b hb => List.mem_takeWhile_imp hb
  unfold strtoNum at h
  dsimp only at h
  generalize hl : str.dropWhile isspace = l at h
  have hstr : str = str.takeWhile isspace ++ l := by rw [← hl, List.takeWhile_append_dropWhile]
  by_cases hm : l.head? = some 45
  . obtain ⟨tail, rfl⟩ : ∃ tail, l = 45 :: tail := by
      cases l with
      | nil => cases hm
      | cons b tail => exact ⟨tail, by simpa using hm⟩
    simp only [List.head?_cons, decide_true, true_or, if_true, List.tail_cons] at h
    split at h
    . cases h
    next hne =>
    simp only [Option.some.injEq, Prod.mk.injEq] at h
    obtain ⟨rfl, rfl, rfl⟩ := h
    refine ⟨_, [45], _, ⟨?_, hblanks, .inr (.inl rfl), hdigits _ hne, hstop _⟩, rfl, rfl⟩
    rw [List.takeWhile_append_dropWhile]
    exact hstr
  . by_cases hp : l.head? = some 43
    . obtain ⟨tail, rfl⟩ : ∃ tail, l = 43 :: tail := by
        cases l with
        | nil => cases hp
        | cons b tail => exact ⟨tail, by simpa using hp⟩
      simp only [hp, or_true, if_true, List.tail_cons] at h
      split at h
      . cases h
      next hne =>
      simp only [Option.some.injEq, Prod.mk.injEq] at h
      obtain ⟨rfl, rfl, rfl⟩ := h
      refine ⟨_, [43], _, ⟨?_, hblanks, .inr (.inr rfl), hdigits _ hne, hstop _⟩, rfl, rfl⟩
      rw [List.takeWhile_append_dropWhile]
      exact hstr
    . simp only [hm, hp, decide_false, or_false, if_false] at h
      split at h
      . cases h
      next hne =>
      simp only [Option.some.injEq, Prod.mk.injEq] at h
      obtain ⟨rfl, rfl, rfl⟩ := h
      refine ⟨_, [], _, ⟨?_, hblanks, .inl rfl, hdigits _ hne, hstop _⟩, rfl, rfl⟩
      rw [List.nil_append, List.takeWhile_append_dropWhile]
      exact hstr

theorem myStrtoull_iff {str : List UInt8} {n : Nat}
    : myStrtoull str = some n ↔ ∃ bl sg ds rest, NumText str bl sg ds rest ∧ digitsVal ds < 2 ^ 64 ∧
        endOk rest = true ∧ n = if sg = [45] then (2 ^ 64 - digitsVal ds) % 2 ^ 64 else digitsVal ds := by
  constructor
  . intro h
    unfold myStrtoull at h
    split at h
    . cases h
    next neg m rest hnum =>
    split at h
    . cases h
    next hok =>
    rw [not_or] at hok
    obtain ⟨bl, sg, ds, htext, rfl, rfl⟩ := strtoNum_sound hnum
    refine ⟨bl, sg, ds, rest, htext, by omega, by simpa using hok.2, ?_⟩
    simpa using (Option.some.inj h).symm
  . rintro ⟨bl, sg, ds, rest, htext, hlt, hend, rfl⟩
    unfold myStrtoull
    rw [strtoNum_complete htext]
    dsimp only
    rw [if_neg (by simp [hend]; omega)]
    simp

theorem toTime_emod {t : Int} (h : -2 ^ 63 ≤ t ∧ t < 2 ^ 63) : toTime (t % 2 ^ 64).toNat = t := by
  unfold toTime
  split <;> omega

theorem exptime_range (e : LsShmHElem) : -2 ^ 63 ≤ e.exptime ∧ e.exptime < 2 ^ 63 := by
  have hlt := readLe_lt e.data 0 8
  unfold LsShmHElem.exptime toTime
  split <;> omega

end Lsmcd
