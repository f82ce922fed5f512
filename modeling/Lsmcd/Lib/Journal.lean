import Mathlib.Algebra.Ring.Nat
import Mathlib.Data.Option.Basic
import Mathlib.Logic.Function.Basic

/-!
A store that is replicated by a journal.

Each change of the store gets the next id. The journal keeps an entry for each element that is there,
under the id of its last change, one for each deletion, which names the id of what was deleted, and one
for the last time that everything was removed; the entry of an element that is gone is taken out. A
replica that has been sent the entries up to some id is brought up to date by the entries behind it.
-/

namespace Journal

universe u v

variable {K : Type u} {V : Type v}

inductive Entry (K : Type u) (V : Type v) where
  | add (key : K) (val : V)
  | del (id : Nat)
  | flush

end Journal

abbrev Journal (K : Type u) (V : Type v) := Nat → Option (Journal.Entry K V)

abbrev Replica (K : Type u) (V : Type v) := Nat → Option (K × V)

namespace Journal

universe u v

variable {K : Type u} {V : Type v}

def adds (J : Journal K V) : Replica K V := fun t =>
  match J t with
  | some (.add k v) => some (k, v)
  | _ => none

/--
The last id is `n`. Every key is there at most once, what is named by a deletion is gone, and what was
there before everything was removed has no entry and is not named.
-/
structure Well (J : Journal K V) (n : Nat) : Prop where
  le : ∀ t, J t ≠ none → 0 < t ∧ t ≤ n
  keys : ∀ t u k v w, J t = some (.add k v) → J u = some (.add k w) → t = u
  dead : ∀ u t, J u = some (.del t) → J t = none
  flushed : ∀ f, J f = some .flush → ∀ t < f, J t = none
  after : ∀ f u t, J f = some .flush → J u = some (.del t) → f < t

/--
`J'` is what has become of `J`: an entry is taken out only with an entry behind it that says so, and
that entry names an element that `J` knows or that came later.
-/
structure Later (J : Journal K V) (n : Nat) (J' : Journal K V) (n' : Nat) : Prop where
  le : n ≤ n'
  kept : ∀ t ≤ n, J' t = J t ∨ J' t = none ∧ ∃ u, n < u ∧ u ≤ n' ∧
    (J' u = some .flush ∨ (∃ k v, J t = some (.add k v)) ∧ J' u = some (.del t))
  dels : ∀ u t, n < u → J' u = some (.del t) → n < t ∨ ∃ k v, J t = some (.add k v)

variable {J J' J'' : Journal K V} {n n' n'' p q b : Nat}

theorem Later.refl (J : Journal K V) (hle : ∀ t, J t ≠ none → t ≤ n) : Later J n J n where
  le := Nat.le_refl n
  kept := fun _ _ => .inl rfl
  dels := by
    intro u t hu hdel
    have hun := hle u (by rw [hdel]; exact Option.some_ne_none _)
    omega

theorem Later.eq_of_some (h : Later J n J' n') {t : Nat} {e : Entry K V} (ht : t ≤ n)
    (he : J' t = some e) : J t = some e := by
  rcases h.kept t ht with heq | ⟨hnone, _⟩
  . exact heq.symm.trans he
  . rw [hnone] at he
    cases he

theorem Later.marker (h : Later J n J' n') {u t : Nat} (hu : u ≤ n)
    (hgone : J u = some .flush ∨ J u = some (.del t))
    : J' u = J u ∨ ∃ f, n < f ∧ f ≤ n' ∧ J' f = some .flush := by
  rcases h.kept u hu with heq | ⟨_, f, hnf, hfn, hflush | ⟨⟨k, v, hkv⟩, _⟩⟩
  . exact .inl heq
  . exact .inr ⟨f, hnf, hfn, hflush⟩
  . rw [hkv] at hgone
    rcases hgone with hc | hc <;> cases hc

theorem Later.trans (h : Later J n J' n') (h' : Later J' n' J'' n'') : Later J n J'' n'' where
  le := Nat.le_trans h.le h'.le
  kept := by
    intro t ht
    have htn' := Nat.le_trans ht h.le
    rcases h.kept t ht with heq | ⟨hnone, u, hnu, hun', hu⟩
    . rcases h'.kept t htn' with heq' | ⟨hnone', u, hnu, hun', hu⟩
      . exact .inl (heq'.trans heq)
      . rw [heq] at hu
        exact .inr ⟨hnone', u, Nat.lt_of_le_of_lt h.le hnu, hun', hu⟩
    . right
      have hnone'' : J'' t = none := by
        rcases h'.kept t htn' with heq' | ⟨hn, _⟩
        . exact heq'.trans hnone
        . exact hn
      -- the entry that names `t` is still there, or everything went later
      rcases h'.marker hun' (hu.imp_right And.right) with heq' | ⟨f, hnf, hfn, hflush⟩
      . rw [← heq'] at hu
        exact ⟨hnone'', u, hnu, Nat.le_trans hun' h'.le, hu⟩
      . exact ⟨hnone'', f, Nat.lt_of_le_of_lt h.le hnf, hfn, .inl hflush⟩
  dels := by
    intro u t hnu hdel
    by_cases hun' : u ≤ n'
    . exact h.dels u t hnu (h'.eq_of_some hun' hdel)
    . rcases h'.dels u t (by omega) hdel with hlt | ⟨k, v, hkv⟩
      . exact .inl (Nat.lt_of_le_of_lt h.le hlt)
      . by_cases htn : t ≤ n
        . exact .inr ⟨k, v, h.eq_of_some htn hkv⟩
        . exact .inl (by omega)

section Changes

variable (hle : ∀ t, J t ≠ none → t ≤ n)
include hle

theorem Later.of_eq (hn : n ≤ n') (heq : ∀ t, J' t = J t) : Later J n J' n' where
  le := hn
  kept := fun t _ => .inl (heq t)
  dels := by
    intro u t hu hdel
    have hun := hle u (by rw [← heq, hdel]; exact Option.some_ne_none _)
    omega

theorem Later.of_add {k : K} {v : V} (hq : n < q) (he : J' q = some (.add k v))
    (heq : ∀ t, t ≠ q → J' t = J t) : Later J n J' q where
  le := Nat.le_of_lt hq
  kept := fun t ht => .inl (heq t (by omega))
  dels := by
    intro u t hu hdel
    have huq : u ≠ q := by
      rintro rfl
      rw [he] at hdel
      cases hdel
    have hun := hle u (by rw [← heq u huq, hdel]; exact Option.some_ne_none _)
    omega

theorem Later.of_del {d : Nat} {k : K} {v : V} (hq : n < q) (hd : J d = some (.add k v))
    (hnone : J' d = none) (he : J' q = some (.del d)) (heq : ∀ t, t ≠ d → t ≠ q → J' t = J t)
    : Later J n J' q where
  le := Nat.le_of_lt hq
  kept := by
    intro t ht
    by_cases htd : t = d
    . subst htd
      exact .inr ⟨hnone, q, hq, Nat.le_refl q, .inr ⟨⟨k, v, hd⟩, he⟩⟩
    . exact .inl (heq t htd (by omega))
  dels := by
    intro u t hu hdel
    by_cases huq : u = q
    . subst huq
      cases he.symm.trans hdel
      exact .inr ⟨k, v, hd⟩
    . have hud : u ≠ d := by
        rintro rfl
        rw [hnone] at hdel
        cases hdel
      have hun := hle u (by rw [← heq u hud huq, hdel]; exact Option.some_ne_none _)
      omega

omit hle in
theorem Later.of_flush (hq : n < q) (he : J' q = some .flush) (hnone : ∀ t, t ≠ q → J' t = none)
    : Later J n J' q where
  le := Nat.le_of_lt hq
  kept := fun t ht => .inr ⟨hnone t (by omega), q, hq, Nat.le_refl q, .inl he⟩
  dels := by
    intro u t _ hdel
    by_cases huq : u = q
    . subst huq
      cases he.symm.trans hdel
    . rw [hnone u huq] at hdel
      cases hdel

end Changes

section Replay

variable [DecidableEq K]

def apply (S : Replica K V) (id : Nat) : Entry K V → Replica K V
  | .add k v => fun t => if t = id then some (k, v) else (S t).filter fun kv => kv.1 ≠ k
  | .del t => Function.update S t none
  | .flush => fun _ => none

def replay (S : Replica K V) (es : List (Nat × Entry K V)) : Replica K V :=
  es.foldl (fun S e => apply S e.1 e.2) S

end Replay

inductive Stretch (J : Journal K V) : Nat → Nat → List (Nat × Entry K V) → Prop
  | nil {p q : Nat} (hpq : p ≤ q) (hgap : ∀ w, p < w → w ≤ q → J w = none) : Stretch J p q []
  | cons {p q t : Nat} {e : Entry K V} {es : List (Nat × Entry K V)} (hpt : p < t)
    (hgap : ∀ w, p < w → w < t → J w = none) (he : J t = some e) (hes : Stretch J t q es)
    : Stretch J p q ((t, e) :: es)

theorem Stretch.le {es : List (Nat × Entry K V)} (h : Stretch J p q es) : p ≤ q := by
  induction h with
  | nil hpq _ => exact hpq
  | cons hpt _ _ _ ih => omega

theorem Stretch.mem_iff {es : List (Nat × Entry K V)} (h : Stretch J p q es) {t : Nat}
    {e : Entry K V} : (t, e) ∈ es ↔ p < t ∧ t ≤ q ∧ J t = some e := by
  induction h with
  | nil hpq hgap =>
    constructor
    . exact fun hmem => (nomatch hmem)
    . intro ⟨hpt, htq, he⟩
      rw [hgap t hpt htq] at he
      cases he
  | @cons p q u d es hpu hgap hd hes ih =>
    have huq := hes.le
    rw [List.mem_cons, ih, Prod.mk.injEq]
    constructor
    . rintro (⟨rfl, rfl⟩ | ⟨hut, htq, he⟩)
      . exact ⟨hpu, huq, hd⟩
      . exact ⟨Nat.lt_trans hpu hut, htq, he⟩
    . intro ⟨hpt, htq, he⟩
      rcases Nat.lt_trichotomy t u with hlt | rfl | hgt
      . rw [hgap t hpt hlt] at he
        cases he
      . exact .inl ⟨rfl, Option.some.inj (he.symm.trans hd)⟩
      . exact .inr ⟨hgt, htq, he⟩

def Ascends : Nat → List (Nat × Entry K V) → Prop
  | _, [] => True
  | p, (t, _) :: es => p < t ∧ Ascends t es

theorem Stretch.ascends {es : List (Nat × Entry K V)} (h : Stretch J p q es) : Ascends p es := by
  induction h with
  | nil => trivial
  | cons hpt _ _ _ ih => exact ⟨hpt, ih⟩

theorem Stretch.congr {es : List (Nat × Entry K V)} (h : Stretch J p q es)
    (heq : ∀ w, p < w → w ≤ q → J' w = J w) : Stretch J' p q es := by
  induction h with
  | nil hpq hgap => exact .nil hpq fun w hpw hwq => (heq w hpw hwq).trans (hgap w hpw hwq)
  | @cons p q u d es hpu hgap hd hes ih =>
    have huq := hes.le
    refine .cons hpu ?_ ((heq u hpu huq).trans hd) (ih fun w huw => heq w (by omega))
    intro w hpw hwu
    exact (heq w hpw (by omega)).trans (hgap w hpw hwu)

theorem Stretch.append {r : Nat} {es es' : List (Nat × Entry K V)} (h : Stretch J p q es)
    (h' : Stretch J q r es') : Stretch J p r (es ++ es') := by
  induction h with
  | @nil p q hpq hgap =>
    cases h' with
    | nil hqr hgap' =>
      refine .nil (Nat.le_trans hpq hqr) ?_
      intro w hpw hwr
      by_cases hwq : w ≤ q
      . exact hgap w hpw hwq
      . exact hgap' w (by omega) hwr
    | cons hqt hgap' he hes =>
      refine .cons (Nat.lt_of_le_of_lt hpq hqt) ?_ he hes
      intro w hpw hwt
      by_cases hwq : w ≤ q
      . exact hgap w hpw hwq
      . exact hgap' w (by omega) hwt
  | cons hpt hgap he _ ih => exact .cons hpt hgap he (ih h')

/--
What holds of a replica that was sent everything up to `p`: the elements with these ids are there,
and an element that is gone will be named by an entry behind `p`. No deletion behind `p` names an id up
to `b`, which is before everything that the replica has.
-/
structure Synced (S : Replica K V) (J : Journal K V) (p n b : Nat) : Prop where
  le : p ≤ n
  base_le : b ≤ p
  sent : ∀ t ≤ p, ∀ k v, J t = some (.add k v) → S t = some (k, v)
  known : ∀ t kv, S t = some kv → b < t ∧ t ≤ p ∧ (J t = some (.add kv.1 kv.2) ∨
    ∃ u, p < u ∧ u ≤ n ∧ (J u = some .flush ∨ J u = some (.del t)))
  dels : ∀ u t, p < u → J u = some (.del t) → b < t

variable {S : Replica K V}

theorem Synced.empty (J : Journal K V) (hle : ∀ t, J t ≠ none → 0 < t)
    (hdel : ∀ u t, J u = some (.del t) → 0 < t) : Synced (fun _ => none) J 0 n 0 where
  le := Nat.zero_le n
  base_le := Nat.le_refl 0
  sent := by
    intro t ht k v he
    have hpos := hle t (by rw [he]; exact Option.some_ne_none _)
    omega
  known := fun _ _ h => nomatch h
  dels := fun u t _ hd => hdel u t hd

theorem Synced.later (h : Synced S J p n b) (hl : Later J n J' n') : Synced S J' p n' b where
  le := Nat.le_trans h.le hl.le
  base_le := h.base_le
  sent := by
    intro t ht k v he
    exact h.sent t ht k v (hl.eq_of_some (Nat.le_trans ht h.le) he)
  known := by
    intro t kv hs
    obtain ⟨hbt, htp, hthere | ⟨u, hpu, hun, hgone⟩⟩ := h.known t kv hs
    . refine ⟨hbt, htp, ?_⟩
      rcases hl.kept t (Nat.le_trans htp h.le) with heq | ⟨_, u, hnu, hun', hu⟩
      . exact .inl (heq.trans hthere)
      . exact .inr ⟨u, Nat.lt_of_le_of_lt h.le hnu, hun', hu.imp_right And.right⟩
    . refine ⟨hbt, htp, .inr ?_⟩
      rcases hl.marker hun hgone with heq | ⟨f, hnf, hfn, hflush⟩
      . rw [← heq] at hgone
        exact ⟨u, hpu, Nat.le_trans hun hl.le, hgone⟩
      . exact ⟨f, Nat.lt_of_le_of_lt h.le hnf, hfn, .inl hflush⟩
  dels := by
    intro u t hpu hdel
    by_cases hun : u ≤ n
    . exact h.dels u t hpu (hl.eq_of_some hun hdel)
    . rcases hl.dels u t (by omega) hdel with hlt | ⟨k, v, hkv⟩
      . exact Nat.lt_of_le_of_lt h.base_le (Nat.lt_of_le_of_lt h.le hlt)
      . by_cases htp : t ≤ p
        . exact (h.known t (k, v) (h.sent t htp k v hkv)).1
        . exact Nat.lt_of_le_of_lt h.base_le (by omega)

theorem Synced.skip (h : Synced S J p n b) (hpq : p ≤ q) (hqn : q ≤ n)
    (hgap : ∀ w, p < w → w ≤ q → J w = none) : Synced S J q n b where
  le := hqn
  base_le := Nat.le_trans h.base_le hpq
  sent := by
    intro t htq k v he
    by_cases htp : t ≤ p
    . exact h.sent t htp k v he
    . rw [hgap t (by omega) htq] at he
      cases he
  known := by
    intro t kv hs
    obtain ⟨hbt, htp, hthere | ⟨u, hpu, hun, hgone⟩⟩ := h.known t kv hs
    . exact ⟨hbt, Nat.le_trans htp hpq, .inl hthere⟩
    . refine ⟨hbt, Nat.le_trans htp hpq, .inr ⟨u, ?_, hun, hgone⟩⟩
      by_contra huq
      rw [hgap u hpu (by omega)] at hgone
      rcases hgone with he | he <;> cases he
  dels := fun u t hqu hdel => h.dels u t (Nat.lt_of_le_of_lt hpq hqu) hdel

section Apply

variable {e : Entry K V} (h : Synced S J p n b) (hpq : p < q)
  (hgap : ∀ w, p < w → w < q → J w = none) (he : J q = some e)
include h hgap

theorem Synced.sent_next {t : Nat} {k : K} {v : V} (htq : t < q) (hadd : J t = some (.add k v))
    : S t = some (k, v) := by
  by_cases htp : t ≤ p
  . exact h.sent t htp k v hadd
  . rw [hgap t (by omega) htq] at hadd
    cases hadd

include hpq he

theorem Synced.known_next {t : Nat} {kv : K × V} (hs : S t = some kv) (hflush : e ≠ .flush)
    (hdel : e ≠ .del t)
    : b < t ∧ t ≤ q ∧ (J t = some (.add kv.1 kv.2) ∨
        ∃ u, q < u ∧ u ≤ n ∧ (J u = some .flush ∨ J u = some (.del t))) := by
  obtain ⟨hbt, htp, hthere | ⟨u, hpu, hun, hgone⟩⟩ := h.known t kv hs
  . exact ⟨hbt, by omega, .inl hthere⟩
  . refine ⟨hbt, by omega, .inr ⟨u, ?_, hun, hgone⟩⟩
    rcases Nat.lt_trichotomy u q with hlt | rfl | hgt
    . rw [hgap u hpu hlt] at hgone
      rcases hgone with hc | hc <;> cases hc
    . rw [he] at hgone
      rcases hgone with hc | hc
      . exact absurd (Option.some.inj hc) hflush
      . exact absurd (Option.some.inj hc) hdel
    . exact hgt

theorem Synced.apply_next [DecidableEq K] (hw : Well J n) {b' : Nat}
    (hb : b' = b ∨ e = .flush ∧ b' < q) : Synced (apply S q e) J q n b' := by
  have hqn : q ≤ n := (hw.le q (by rw [he]; exact Option.some_ne_none e)).2
  have hbase := h.base_le
  constructor
  case le => exact hqn
  case base_le => rcases hb with rfl | ⟨_, hlt⟩ <;> omega
  case sent =>
    intro t htq k v hadd
    by_cases htne : t = q
    . subst htne
      cases he.symm.trans hadd
      exact if_pos rfl
    . have hs := h.sent_next hgap (by omega) hadd
      cases e with
      | add k' v' =>
        have hkey : k ≠ k' := by
          rintro rfl
          exact htne (hw.keys t q k v v' hadd he)
        simp only [apply, if_neg htne, hs]
        simp [Option.filter, hkey]
      | del d =>
        have htd : t ≠ d := by
          rintro rfl
          rw [hw.dead q t he] at hadd
          cases hadd
        exact (Function.update_of_ne htd _ _).trans hs
      | flush =>
        rw [hw.flushed q he t (by omega)] at hadd
        cases hadd
  case known =>
    intro t kv hs
    cases e with
    | add k v =>
      obtain rfl : b' = b := hb.resolve_right fun hc => nomatch hc.1
      by_cases htne : t = q
      . subst htne
        simp only [apply, if_true, Option.some.injEq] at hs
        subst hs
        exact ⟨by omega, Nat.le_refl t, .inl he⟩
      . simp only [apply, if_neg htne, Option.filter_eq_some_iff] at hs
        exact h.known_next hpq hgap he hs.1 (fun hc => nomatch hc) (fun hc => nomatch hc)
    | del d =>
      obtain rfl : b' = b := hb.resolve_right fun hc => nomatch hc.1
      have htd : t ≠ d := by
        rintro rfl
        simp only [apply, Function.update_self] at hs
        cases hs
      simp only [apply, Function.update_of_ne htd] at hs
      exact h.known_next hpq hgap he hs (fun hc => nomatch hc)
        (fun hc => htd (Entry.del.inj hc).symm)
    | flush => exact nomatch hs
  case dels =>
    intro u t hqu hdel
    rcases hb with rfl | ⟨rfl, hlt⟩
    . exact h.dels u t (by omega) hdel
    . exact Nat.lt_trans hlt (hw.after q u t he hdel)

end Apply

/--
Entries that a replica can take which has got up to `p` and whose base is `b`: their ids increase and
no deletion names an id up to the base. It gets up to `q`. A removal of everything makes the last id
before it the base, which is `c` at the end.
-/
inductive Chain : Nat → Nat → List (Nat × Entry K V) → Nat → Nat → Prop
  | nil (p b : Nat) : Chain p b [] p b
  | add {p b t q c : Nat} {k : K} {v : V} {es : List (Nat × Entry K V)} (hpt : p < t)
    (hes : Chain t b es q c) : Chain p b ((t, .add k v) :: es) q c
  | del {p b t d q c : Nat} {es : List (Nat × Entry K V)} (hpt : p < t) (hbd : b < d)
    (hes : Chain t b es q c) : Chain p b ((t, .del d) :: es) q c
  | flush {p b t q c : Nat} {es : List (Nat × Entry K V)} (hpt : p < t) (hes : Chain t p es q c)
    : Chain p b ((t, .flush) :: es) q c

theorem Chain.of_add {t c : Nat} {k : K} {v : V} {es : List (Nat × Entry K V)}
    (h : Chain p b ((t, .add k v) :: es) q c) : p < t ∧ Chain t b es q c := by
  cases h with
  | add hpt hes => exact ⟨hpt, hes⟩

theorem Chain.of_del {t d c : Nat} {es : List (Nat × Entry K V)}
    (h : Chain p b ((t, .del d) :: es) q c) : p < t ∧ b < d ∧ Chain t b es q c := by
  cases h with
  | del hpt hbd hes => exact ⟨hpt, hbd, hes⟩

theorem Chain.of_flush {t c : Nat} {es : List (Nat × Entry K V)}
    (h : Chain p b ((t, .flush) :: es) q c) : p < t ∧ Chain t p es q c := by
  cases h with
  | flush hpt hes => exact ⟨hpt, hes⟩

theorem Chain.le {c : Nat} {es : List (Nat × Entry K V)} (h : Chain p b es q c) : p ≤ q := by
  induction h with
  | nil => exact Nat.le_refl _
  | add hpt _ ih => omega
  | del hpt _ _ ih => omega
  | flush hpt _ ih => omega

theorem Chain.ascends {c : Nat} {es : List (Nat × Entry K V)} (h : Chain p b es q c)
    : Ascends p es := by
  induction h with
  | nil => trivial
  | add hpt _ ih => exact ⟨hpt, ih⟩
  | del hpt _ _ ih => exact ⟨hpt, ih⟩
  | flush hpt _ ih => exact ⟨hpt, ih⟩

theorem Chain.append {r c d : Nat} {es es' : List (Nat × Entry K V)} (h : Chain p b es q c)
    (h' : Chain q c es' r d) : Chain p b (es ++ es') r d := by
  induction h with
  | nil _ _ => exact h'
  | add hpt _ ih => exact .add hpt (ih h')
  | del hpt hbd _ ih => exact .del hpt hbd (ih h')
  | flush hpt _ ih => exact .flush hpt (ih h')

theorem Chain.split {r d : Nat} {es es' : List (Nat × Entry K V)} (h : Chain p b (es ++ es') r d)
    : ∃ q c, Chain p b es q c ∧ Chain q c es' r d := by
  induction es generalizing p b with
  | nil => exact ⟨p, b, .nil p b, h⟩
  | cons e es ih =>
    cases h with
    | add hpt hes =>
      obtain ⟨q, c, h₁, h₂⟩ := ih hes
      exact ⟨q, c, .add hpt h₁, h₂⟩
    | del hpt hbd hes =>
      obtain ⟨q, c, h₁, h₂⟩ := ih hes
      exact ⟨q, c, .del hpt hbd h₁, h₂⟩
    | flush hpt hes =>
      obtain ⟨q, c, h₁, h₂⟩ := ih hes
      exact ⟨q, c, .flush hpt h₁, h₂⟩

section Replay

variable [DecidableEq K]

@[simp]
theorem replay_nil (S : Replica K V) : replay S [] = S := rfl

@[simp]
theorem replay_cons (S : Replica K V) (t : Nat) (e : Entry K V) (es : List (Nat × Entry K V))
    : replay S ((t, e) :: es) = replay (apply S t e) es := rfl

theorem replay_append (S : Replica K V) (es es' : List (Nat × Entry K V))
    : replay S (es ++ es') = replay (replay S es) es' :=
  List.foldl_append

theorem Synced.stretch {r c : Nat} {es : List (Nat × Entry K V)} (hs : Stretch J p q es)
    (h : Synced S J p n c) (hw : Well J n) (hqn : q ≤ n) (hr : r ≤ p) (hc : c ≤ r)
    : ∃ r' c', Chain r c es r' c' ∧ r' ≤ q ∧ c' ≤ r' ∧ Synced (replay S es) J q n c' := by
  induction hs generalizing S r c with
  | nil hpq hgap => exact ⟨r, c, .nil r c, by omega, hc, h.skip hpq hqn hgap⟩
  | @cons p q t e es hpt hgap he hes ih =>
    have hnext : ∀ {b' : Nat}, b' = c ∨ e = .flush ∧ b' < t → b' ≤ t → ∃ r' c',
        Chain t b' es r' c' ∧ r' ≤ q ∧ c' ≤ r' ∧ Synced (replay (apply S t e) es) J q n c' :=
      fun hb hle => ih (h.apply_next hpt hgap he hw hb) hqn (Nat.le_refl t) hle
    cases e with
    | add k v =>
      obtain ⟨r', c', hchain, hle, hc', hsync⟩ := hnext (.inl rfl) (by omega)
      exact ⟨r', c', .add (by omega) hchain, hle, hc', hsync⟩
    | del d =>
      obtain ⟨r', c', hchain, hle, hc', hsync⟩ := hnext (.inl rfl) (by omega)
      exact ⟨r', c', .del (by omega) (h.dels t d hpt he) hchain, hle, hc', hsync⟩
    | flush =>
      have hrt : r < t := by omega
      obtain ⟨r', c', hchain, hle, hc', hsync⟩ := hnext (.inr ⟨rfl, hrt⟩) (Nat.le_of_lt hrt)
      exact ⟨r', c', .flush (by omega) hchain, hle, hc', hsync⟩

end Replay

theorem Synced.complete (h : Synced S J n n b) (hw : Well J n) : S = adds J := by
  funext t
  cases hs : S t with
  | some kv =>
    obtain ⟨_, _, hthere | ⟨u, hnu, hun, _⟩⟩ := h.known t kv hs
    . simp only [adds, hthere]
    . omega
  | none =>
    unfold adds
    cases hJ : J t with
    | none => rfl
    | some e =>
      cases e with
      | add k v =>
        have htn := (hw.le t (by rw [hJ]; exact Option.some_ne_none _)).2
        rw [h.sent t htn k v hJ] at hs
        cases hs
      | del _ => rfl
      | flush => rfl

end Journal
