import Lsmcd.Lib.Bytes

/-!
What a library that compresses a stream piece by piece promises, and a codec that keeps the promise.
-/

namespace Zlib

open Bytes

universe u v

variable {D : Type u} {I : Type v}

def Z_NEED_DICT : Int := 2

def Z_DATA_ERROR : Int := -3

def Z_MEM_ERROR : Int := -4

structure Call (σ : Type u) where
  state : σ
  consumed : Nat
  out : List UInt8
  ret : Int

/--
`deflate` is the call with `Z_SYNC_FLUSH`. It and `inflate` get the input and the room for the output.
`plain z` is what the compressed bytes `z` hold of the stream.
-/
structure Codec (D : Type u) (I : Type v) where
  deflateInit : D
  deflate : D → List UInt8 → Nat → Call D
  deflateBound : D → Nat → Nat
  inflateInit : I
  inflate : I → List UInt8 → Nat → Call I
  plain : List UInt8 → List UInt8

inductive Deflated (Z : Codec D I) : D → List UInt8 → List UInt8 → Prop
  | init : Deflated Z Z.deflateInit [] []
  | call {d i o} (h : Deflated Z d i o) (input : List UInt8) {avail : Nat} (havail : 0 < avail)
    : Deflated Z (Z.deflate d input avail).state
        (i ++ input.take (Z.deflate d input avail).consumed) (o ++ (Z.deflate d input avail).out)

inductive Inflated (Z : Codec D I) : I → List UInt8 → List UInt8 → Prop
  | init : Inflated Z Z.inflateInit [] []
  | call {j f g} (h : Inflated Z j f g) (input : List UInt8) {avail : Nat} (havail : 0 < avail)
    : Inflated Z (Z.inflate j input avail).state
        (f ++ input.take (Z.inflate j input avail).consumed) (g ++ (Z.inflate j input avail).out)

def Valid (Z : Codec D I) (z : List UInt8) : Prop :=
  ∃ d i o, Deflated Z d i o ∧ z <+: o

/--
A call stops when its input is empty or its output full. A flush is complete when room is left, and then
the output holds all of the input. What is inflated is a prefix of the stream, and all that the input
holds when room is left. Valid input is no error.
-/
structure Lawful (Z : Codec D I) : Prop where
  plain_nil : Z.plain [] = []
  plain_prefix : ∀ {z z'}, z <+: z' → Z.plain z <+: Z.plain z'
  deflate_le : ∀ {d i o}, Deflated Z d i o → ∀ input {avail}, 0 < avail →
    (Z.deflate d input avail).consumed ≤ input.length ∧ (Z.deflate d input avail).out.length ≤ avail
  deflate_flushed : ∀ {d i o}, Deflated Z d i o → ∀ input {avail}, 0 < avail →
    (Z.deflate d input avail).out.length < avail →
    (Z.deflate d input avail).consumed = input.length ∧
      Z.plain (o ++ (Z.deflate d input avail).out) = i ++ input
  deflate_bound : ∀ {d i o}, Deflated Z d i o → ∀ input {avail}, 0 < avail →
    (Z.deflate d input avail).consumed < input.length →
    (Z.deflate d input avail).out.length + Z.deflateBound (Z.deflate d input avail).state
      (input.length - (Z.deflate d input avail).consumed) ≤ Z.deflateBound d input.length
  inflate_le : ∀ {j f g}, Inflated Z j f g → ∀ input {avail}, 0 < avail → Valid Z (f ++ input) →
    (Z.inflate j input avail).consumed ≤ input.length ∧ (Z.inflate j input avail).out.length ≤ avail
  inflate_ret : ∀ {j f g}, Inflated Z j f g → ∀ input {avail}, 0 < avail → Valid Z (f ++ input) →
    (Z.inflate j input avail).ret ≠ Z_NEED_DICT ∧ (Z.inflate j input avail).ret ≠ Z_DATA_ERROR ∧
      (Z.inflate j input avail).ret ≠ Z_MEM_ERROR
  inflate_prefix : ∀ {j f g}, Inflated Z j f g → ∀ input {avail}, 0 < avail → Valid Z (f ++ input) →
    g ++ (Z.inflate j input avail).out <+: Z.plain (f ++ input)
  inflate_all : ∀ {j f g}, Inflated Z j f g → ∀ input {avail}, 0 < avail → Valid Z (f ++ input) →
    (Z.inflate j input avail).out.length < avail →
    (Z.inflate j input avail).consumed = input.length ∧
      g ++ (Z.inflate j input avail).out = Z.plain (f ++ input)

/-!
A codec that stores: every call puts the input into blocks that are not compressed and an empty block
after them.
-/

namespace Stored

structure Deflater where
  started : Bool
  pending : List UInt8

inductive State where
  | header (n : Nat)
  | type
  | len (got : List UInt8)
  | data (n : Nat)
  deriving DecidableEq

structure Inflater where
  state : State
  pending : List UInt8

def maxBlock : Nat := 65535

def block (s : List UInt8) : List UInt8 :=
  0 :: (leBytes 2 s.length ++ leBytes 2 (maxBlock - s.length) ++ s)

def blocks : Nat → List UInt8 → List UInt8
  | 0, _ => []
  | fuel + 1, s => if s = [] then [] else block (s.take maxBlock) ++ blocks fuel (s.drop maxBlock)

def flush (input : List UInt8) : List UInt8 :=
  blocks input.length input ++ block []

def deflate (d : Deflater) (input : List UInt8) (avail : Nat) : Call Deflater :=
  let pending := d.pending ++ ((if d.started then [] else [0x78, 0x9C]) ++ flush input)
  { state := ⟨true, pending.drop avail⟩, consumed := input.length, out := pending.take avail, ret := 0 }

def State.ofLen (n : Nat) : State :=
  if n = 0 then .type else .data n

def State.step : State → UInt8 → State × List UInt8
  | .header n, _ => (if n ≤ 1 then .type else .header (n - 1), [])
  | .type, _ => (.len [], [])
  | .len got, x =>
    let got := got ++ [x]
    if got.length < 4 then (.len got, []) else (.ofLen (leVal (got.take 2)), [])
  | .data n, x => (.ofLen (n - 1), [x])

def State.run : State → List UInt8 → State × List UInt8
  | q, [] => (q, [])
  | q, x :: xs => ((run (q.step x).1 xs).1, (q.step x).2 ++ (run (q.step x).1 xs).2)

def inflate (j : Inflater) (input : List UInt8) (avail : Nat) : Call Inflater :=
  let pending := j.pending ++ (j.state.run input).2
  { state := ⟨(j.state.run input).1, pending.drop avail⟩
    consumed := input.length
    out := pending.take avail
    ret := 0 }

def codec : Codec Deflater Inflater where
  deflateInit := ⟨false, []⟩
  deflate := deflate
  deflateBound := fun _ _ => 0
  inflateInit := ⟨.header 2, []⟩
  inflate := inflate
  plain z := (State.run (.header 2) z).2

section Run

variable {q : State}

theorem run_append (q : State) (xs ys : List UInt8) : q.run (xs ++ ys) =
    (((q.run xs).1.run ys).1, (q.run xs).2 ++ ((q.run xs).1.run ys).2) := by
  induction xs generalizing q with
  | nil => rfl
  | cons x xs ih =>
    rw [List.cons_append, State.run, State.run, ih]
    simp only [List.append_assoc]

theorem run_ofLen (s : List UInt8) : (State.ofLen s.length).run s = (.type, s) := by
  induction s with
  | nil => rfl
  | cons x s ih =>
    have hlen : State.ofLen (x :: s).length = .data (s.length + 1) := if_neg (Nat.succ_ne_zero _)
    rw [hlen, State.run, State.step]
    dsimp only
    rw [Nat.add_sub_cancel, ih]
    rfl

theorem run_len (n m : Nat) : (State.len []).run (leBytes 2 n ++ leBytes 2 m) =
    (.ofLen (leVal (leBytes 2 n)), []) := rfl

theorem run_block {s : List UInt8} (h : s.length ≤ maxBlock)
    : State.run .type (block s) = (.type, s) := by
  have hval : leVal (leBytes 2 s.length) = s.length :=
    leVal_leBytes (Nat.lt_of_le_of_lt h (by decide))
  unfold block
  rw [State.run, State.step, run_append, run_len, hval, run_ofLen]
  rfl

theorem run_blocks {fuel : Nat} {s : List UInt8} (h : s.length ≤ fuel)
    : State.run .type (blocks fuel s) = (.type, s) := by
  induction fuel generalizing s with
  | zero =>
    rw [List.eq_nil_of_length_eq_zero (Nat.le_zero.mp h)]
    rfl
  | succ fuel ih =>
    rw [blocks]
    split
    . rename_i hnil
      rw [hnil]
      rfl
    . rename_i hnil
      have hpos := List.length_pos_iff.mpr hnil
      have hmax : maxBlock = 65535 := rfl
      have hdrop : (s.drop maxBlock).length ≤ fuel := by
        rw [List.length_drop]
        omega
      rw [run_append, run_block (List.length_take_le _ _), ih hdrop]
      simp

theorem run_flush (s : List UInt8) : State.run .type (flush s) = (.type, s) := by
  unfold flush
  rw [run_append, run_blocks (Nat.le_refl _), run_block (Nat.zero_le _)]
  simp

end Run

def State.start (started : Bool) : State :=
  if started then .type else .header 2

theorem run_start (started : Bool) (s : List UInt8)
    : (State.start started).run ((if started then [] else [0x78, 0x9C]) ++ flush s) = (.type, s) := by
  cases started with
  | false =>
    rw [run_append]
    exact run_flush s
  | true => exact run_flush s

variable {d : Deflater} {j : Inflater} {i o f g : List UInt8}

theorem run_of_deflated (h : Deflated codec d i o)
    : State.run (.header 2) (o ++ d.pending) = (.start d.started, i) := by
  induction h with
  | init => rfl
  | call h input havail ih =>
    dsimp only [codec, deflate]
    rw [List.append_assoc, List.take_append_drop, ← List.append_assoc, run_append, ih, run_start,
      List.take_length]
    rfl

theorem run_of_inflated (h : Inflated codec j f g)
    : State.run (.header 2) f = (j.state, g ++ j.pending) := by
  induction h with
  | init => rfl
  | call h input havail ih =>
    dsimp only [codec, inflate]
    rw [List.take_length, run_append, ih]
    dsimp only
    rw [List.append_assoc, List.append_assoc, List.take_append_drop]

theorem lawful : Lawful codec where
  plain_nil := rfl
  plain_prefix := by
    rintro z - ⟨t, rfl⟩
    dsimp only [codec]
    rw [run_append]
    exact List.prefix_append _ _
  deflate_le _ input _ _ := ⟨Nat.le_refl _, List.length_take_le _ _⟩
  deflate_flushed h input avail _ hroom := by
    have hrun := run_of_deflated (.call h input (Nat.lt_of_le_of_lt (Nat.zero_le _) hroom))
    refine ⟨rfl, ?_⟩
    dsimp only [codec, deflate] at hroom hrun ⊢
    rw [List.length_take] at hroom
    rw [List.drop_eq_nil_of_le (by omega), List.append_nil, List.take_length] at hrun
    rw [hrun]
  deflate_bound _ input _ _ h := absurd h (Nat.lt_irrefl _)
  inflate_le _ input _ _ _ := ⟨Nat.le_refl _, List.length_take_le _ _⟩
  inflate_ret _ _ _ _ _ := ⟨(by decide : (0 : Int) ≠ 2), (by decide : (0 : Int) ≠ -3),
    (by decide : (0 : Int) ≠ -4)⟩
  inflate_prefix h input avail _ _ := by
    dsimp only [codec, inflate]
    rw [run_append, run_of_inflated h, List.append_assoc]
    exact (List.prefix_append_right_inj _).mpr (List.take_prefix _ _)
  inflate_all h input avail _ _ hroom := by
    refine ⟨rfl, ?_⟩
    dsimp only [codec, inflate] at hroom ⊢
    rw [List.length_take] at hroom
    rw [run_append, run_of_inflated h, List.take_of_length_le (by omega), List.append_assoc]

end Stored

end Zlib
