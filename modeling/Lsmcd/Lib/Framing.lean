import Mathlib.Algebra.Ring.Nat
import Mathlib.Data.List.Induction

/-!
A stream that is cut into frames by a decoder which looks at what has arrived of it. What comes out
does not depend on how the stream is cut into pieces on its way.
-/

namespace Framing

universe u v

variable {α : Type u} {β : Type v}

inductive Next (β : Type v) where
  | more
  | stop
  | frame (b : β) (n : Nat)

/--
A decoder that does not change its mind when more arrives.
-/
structure Decoder (α : Type u) (β : Type v) where
  next : List α → Next β
  next_nil : next [] = .more
  frame_pos : ∀ {s b n}, next s = .frame b n → 0 < n
  frame_le : ∀ {s b n}, next s = .frame b n → n ≤ s.length
  frame_append : ∀ {s b n} (t), next s = .frame b n → next (s ++ t) = .frame b n
  stop_append : ∀ {s} (t), next s = .stop → next (s ++ t) = .stop

structure Scan (α : Type u) (β : Type v) where
  frames : List β
  stopped : Bool
  rest : List α

def Scan.start : Scan α β := ⟨[], false, []⟩

def Scan.after (bs : List β) (r : Scan α β) : Scan α β :=
  { r with frames := bs ++ r.frames }

namespace Decoder

variable (d : Decoder α β)

def scanN : Nat → List α → Scan α β
  | 0, s => ⟨[], false, s⟩
  | fuel + 1, s =>
    match d.next s with
    | .more => ⟨[], false, s⟩
    | .stop => ⟨[], true, s⟩
    | .frame b n => (scanN fuel (s.drop n)).after [b]

def scan (s : List α) : Scan α β :=
  d.scanN (s.length + 1) s

def feed (σ : Scan α β) (t : List α) : Scan α β :=
  if σ.stopped then σ else (d.scan (σ.rest ++ t)).after σ.frames

variable {d} {s t : List α} {b : β} {n : Nat}

theorem scanN_eq_scan {fuel : Nat} (h : s.length < fuel) : d.scanN fuel s = d.scan s := by
  have hmono : ∀ fuel fuel' (s : List α), s.length < fuel → s.length < fuel' →
      d.scanN fuel s = d.scanN fuel' s := by
    intro fuel
    induction fuel with
    | zero =>
      intro fuel' s hs
      omega
    | succ fuel ih =>
      intro fuel' s hs hs'
      obtain ⟨k, rfl⟩ := Nat.exists_eq_succ_of_ne_zero (show fuel' ≠ 0 by omega)
      simp only [scanN]
      cases hnext : d.next s with
      | more => rfl
      | stop => rfl
      | frame b n =>
        have hpos := d.frame_pos hnext
        have hle := d.frame_le hnext
        dsimp only
        rw [ih k (s.drop n) (by rw [List.length_drop]; omega) (by rw [List.length_drop]; omega)]
  exact hmono _ _ s h (Nat.lt_succ_self _)

theorem scan_more (h : d.next s = .more) : d.scan s = ⟨[], false, s⟩ := by
  simp [scan, scanN, h]

theorem scan_stop (h : d.next s = .stop) : d.scan s = ⟨[], true, s⟩ := by
  simp [scan, scanN, h]

theorem scan_frame (h : d.next s = .frame b n) : d.scan s = (d.scan (s.drop n)).after [b] := by
  have hpos := d.frame_pos h
  have hle := d.frame_le h
  have hfuel : d.scanN s.length (s.drop n) = d.scan (s.drop n) :=
    scanN_eq_scan (by rw [List.length_drop]; omega)
  rw [← hfuel]
  simp [scan, scanN, h]

theorem scan_induction {motive : List α → Prop} (hmore : ∀ s, d.next s = .more → motive s)
    (hstop : ∀ s, d.next s = .stop → motive s)
    (hframe : ∀ s b n, d.next s = .frame b n → motive (s.drop n) → motive s) (s : List α)
    : motive s := by
  induction hlen : s.length using Nat.strongRecOn generalizing s with
  | ind len ih =>
    cases hnext : d.next s with
    | more => exact hmore s hnext
    | stop => exact hstop s hnext
    | frame b n =>
      have hpos := d.frame_pos hnext
      have hle := d.frame_le hnext
      apply hframe s b n hnext
      exact ih (s.drop n).length (by rw [List.length_drop]; omega) _ rfl

theorem after_after (bs cs : List β) (r : Scan α β) : (r.after cs).after bs = r.after (bs ++ cs) := by
  simp [Scan.after]

theorem rest_after (bs : List β) (r : Scan α β) : (r.after bs).rest = r.rest := rfl

theorem scan_append_of_stopped (h : (d.scan s).stopped = true) (t : List α)
    : (d.scan (s ++ t)).frames = (d.scan s).frames ∧ (d.scan (s ++ t)).stopped = true ∧
      (d.scan (s ++ t)).rest = (d.scan s).rest ++ t := by
  induction s using d.scan_induction with
  | hmore s hnext =>
    rw [scan_more hnext] at h
    cases h
  | hstop s hnext =>
    rw [scan_stop hnext, scan_stop (d.stop_append t hnext)]
    exact ⟨rfl, rfl, rfl⟩
  | hframe s b n hnext ih =>
    rw [scan_frame hnext] at h ⊢
    rw [scan_frame (d.frame_append t hnext), List.drop_append_of_le_length (d.frame_le hnext)]
    obtain ⟨hframes, hstopped, hrest⟩ := ih h
    exact ⟨congrArg ([b] ++ ·) hframes, hstopped, hrest⟩

theorem scan_append_of_not_stopped (h : (d.scan s).stopped = false) (t : List α)
    : d.scan (s ++ t) = (d.scan ((d.scan s).rest ++ t)).after (d.scan s).frames := by
  induction s using d.scan_induction with
  | hmore s hnext =>
    rw [scan_more hnext]
    rfl
  | hstop s hnext =>
    rw [scan_stop hnext] at h
    cases h
  | hframe s b n hnext ih =>
    rw [scan_frame hnext] at h ⊢
    rw [scan_frame (d.frame_append t hnext), List.drop_append_of_le_length (d.frame_le hnext), ih h,
      after_after, rest_after]
    rfl

theorem scan_nil : d.scan [] = Scan.start := scan_more d.next_nil

theorem next_rest_scan (s : List α)
    : d.next (d.scan s).rest = if (d.scan s).stopped then .stop else .more := by
  induction s using d.scan_induction with
  | hmore s hnext =>
    rw [scan_more hnext]
    exact hnext
  | hstop s hnext =>
    rw [scan_stop hnext]
    exact hnext
  | hframe s b n hnext ih =>
    rw [scan_frame hnext]
    exact ih

theorem next_rest_feed {σ : Scan α β} (h : d.next σ.rest = if σ.stopped then .stop else .more)
    (t : List α) : d.next (d.feed σ t).rest = if (d.feed σ t).stopped then .stop else .more := by
  unfold feed
  by_cases hs : σ.stopped = true
  . rw [if_pos hs]
    exact h
  . rw [if_neg hs]
    exact next_rest_scan _

theorem feed_flatten (d : Decoder α β) (ts : List (List α))
    : (ts.foldl d.feed .start).frames = (d.scan ts.flatten).frames ∧
      (ts.foldl d.feed .start).stopped = (d.scan ts.flatten).stopped ∧
      ((d.scan ts.flatten).stopped = false →
        (ts.foldl d.feed .start).rest = (d.scan ts.flatten).rest) ∧
      ∃ t, (d.scan ts.flatten).rest = (ts.foldl d.feed .start).rest ++ t := by
  induction ts using List.reverseRecOn with
  | nil =>
    rw [List.flatten_nil, scan_nil]
    exact ⟨rfl, rfl, fun _ => rfl, [], rfl⟩
  | append_singleton ts t ih =>
    obtain ⟨hframes, hstopped, hrest, u, hu⟩ := ih
    rw [List.foldl_append, List.flatten_append, List.flatten_singleton]
    simp only [List.foldl_cons, List.foldl_nil, feed]
    cases hs : (d.scan ts.flatten).stopped with
    | true =>
      obtain ⟨hf, hst, hr⟩ := scan_append_of_stopped hs t
      rw [hstopped, hs, if_pos rfl, hf, hst, hr, hu]
      exact ⟨hframes, hstopped.trans hs, fun h => (nomatch h), u ++ t, List.append_assoc ..⟩
    | false =>
      rw [hstopped, hs, if_neg Bool.false_ne_true, scan_append_of_not_stopped hs, hframes, hrest hs]
      exact ⟨rfl, rfl, fun _ => rfl, [], (List.append_nil _).symm⟩

end Decoder

end Framing
