import Lsmcd.Lib.Bytes
import Mathlib.Data.List.Basic

/-!
Values packed into a fixed number of bytes, arrays of them, and readers that take packed values from
the front of a byte string.
-/

open Bytes

/--
A format in which each value is a text of `width` bytes and each such text is one value.
-/
structure Packed (α : Type) where
  width : Nat
  encode : α → List UInt8
  decode : List UInt8 → α
  length_encode : ∀ a, (encode a).length = width
  decode_encode : ∀ a, decode (encode a) = a
  encode_decode : ∀ bs, bs.length = width → encode (decode bs) = bs

abbrev Sized (α : Type) (n : Nat) : Type := { as : List α // as.length = n }

namespace Packed

attribute [simp] length_encode decode_encode

theorem leVal_lt_of_length {bs : List UInt8} {n : Nat} (h : bs.length = n)
    : leVal bs < 256 ^ n := by
  rw [← h]
  exact leVal_lt bs

theorem leBytes_leVal_of_length {bs : List UInt8} {n : Nat} (h : bs.length = n)
    : leBytes n (leVal bs) = bs := by
  rw [← h]
  exact leBytes_leVal bs

def u16 : Packed UInt16 where
  width := 2
  encode v := leBytes 2 v.toNat
  decode bs := UInt16.ofNat (leVal bs)
  length_encode _ := length_leBytes ..
  decode_encode v := by rw [leVal_leBytes v.toNat_lt, UInt16.ofNat_toNat]
  encode_decode bs h := by
    rw [UInt16.toNat_ofNat_of_lt' (leVal_lt_of_length h), leBytes_leVal_of_length h]

def u32 : Packed UInt32 where
  width := 4
  encode v := leBytes 4 v.toNat
  decode bs := UInt32.ofNat (leVal bs)
  length_encode _ := length_leBytes ..
  decode_encode v := by rw [leVal_leBytes v.toNat_lt, UInt32.ofNat_toNat]
  encode_decode bs h := by
    rw [UInt32.toNat_ofNat_of_lt' (leVal_lt_of_length h), leBytes_leVal_of_length h]

def u64 : Packed UInt64 where
  width := 8
  encode v := leBytes 8 v.toNat
  decode bs := UInt64.ofNat (leVal bs)
  length_encode _ := length_leBytes ..
  decode_encode v := by rw [leVal_leBytes v.toNat_lt, UInt64.ofNat_toNat]
  encode_decode bs h := by
    rw [UInt64.toNat_ofNat_of_lt' (leVal_lt_of_length h), leBytes_leVal_of_length h]

@[simp]
theorem width_u16 : u16.width = 2 := rfl

@[simp]
theorem width_u32 : u32.width = 4 := rfl

@[simp]
theorem width_u64 : u64.width = 8 := rfl

variable {α β : Type} (c : Packed α)

def encodes (as : List α) : List UInt8 :=
  as.flatMap c.encode

def decodes : Nat → List UInt8 → List α
  | 0, _ => []
  | n + 1, bs => c.decode (bs.take c.width) :: decodes n (bs.drop c.width)

@[simp]
theorem encodes_nil : c.encodes [] = [] := rfl

@[simp]
theorem encodes_cons (a : α) (as : List α) : c.encodes (a :: as) = c.encode a ++ c.encodes as := rfl

@[simp]
theorem length_encodes (as : List α) : (c.encodes as).length = as.length * c.width := by
  induction as with
  | nil => rw [encodes_nil, List.length_nil, List.length_nil, Nat.zero_mul]
  | cons a as ih =>
    rw [encodes_cons, List.length_append, length_encode, ih, List.length_cons, Nat.succ_mul]
    omega

@[simp]
theorem length_decodes (n : Nat) (bs : List UInt8) : (c.decodes n bs).length = n := by
  induction n generalizing bs with
  | zero => rfl
  | succ n ih => rw [decodes, List.length_cons, ih]

theorem decodes_encodes (as : List α) (bs : List UInt8)
    : c.decodes as.length (c.encodes as ++ bs) = as := by
  induction as with
  | nil => rfl
  | cons a as ih =>
    have hw := c.length_encode a
    rw [List.length_cons, decodes, encodes_cons, List.append_assoc, List.take_left' hw,
      List.drop_left' hw, decode_encode, ih]

theorem encodes_decodes {n : Nat} {bs : List UInt8} (h : bs.length = n * c.width)
    : c.encodes (c.decodes n bs) = bs := by
  induction n generalizing bs with
  | zero =>
    rw [Nat.zero_mul, List.length_eq_zero_iff] at h
    rw [h]
    rfl
  | succ n ih =>
    rw [Nat.succ_mul] at h
    have htake : (bs.take c.width).length = c.width := by
      rw [List.length_take]
      omega
    have hdrop : (bs.drop c.width).length = n * c.width := by
      rw [List.length_drop]
      omega
    rw [decodes, encodes_cons, c.encode_decode _ htake, ih hdrop, List.take_append_drop]

def prod (d : Packed β) : Packed (α × β) where
  width := c.width + d.width
  encode v := c.encode v.1 ++ d.encode v.2
  decode bs := (c.decode (bs.take c.width), d.decode (bs.drop c.width))
  length_encode v := by rw [List.length_append, length_encode, length_encode]
  decode_encode v := by
    have hw := c.length_encode v.1
    rw [List.take_left' hw, List.drop_left' hw, decode_encode, decode_encode]
  encode_decode bs h := by
    have htake : (bs.take c.width).length = c.width := by
      rw [List.length_take]
      omega
    have hdrop : (bs.drop c.width).length = d.width := by
      rw [List.length_drop]
      omega
    rw [c.encode_decode _ htake, d.encode_decode _ hdrop, List.take_append_drop]

@[simp]
theorem width_prod (d : Packed β) : (c.prod d).width = c.width + d.width := rfl

def array (n : Nat) : Packed (Sized α n) where
  width := n * c.width
  encode as := c.encodes as.1
  decode bs := ⟨c.decodes n bs, c.length_decodes n bs⟩
  length_encode as := by rw [length_encodes, as.2]
  decode_encode as := by
    apply Subtype.ext
    have h := c.decodes_encodes as.1 []
    rw [as.2, List.append_nil] at h
    exact h
  encode_decode _ h := c.encodes_decodes h

@[simp]
theorem width_array (n : Nat) : (c.array n).width = n * c.width := rfl

end Packed

abbrev Reader (α : Type) := StateT (List UInt8) Option α

namespace Packed

variable {α β : Type} (c : Packed α)

def read : Reader α := fun bs =>
  if c.width ≤ bs.length then some (c.decode (bs.take c.width), bs.drop c.width) else none

theorem read_encode (a : α) (bs : List UInt8) : c.read (c.encode a ++ bs) = some (a, bs) := by
  have hw := c.length_encode a
  have hle : c.width ≤ (c.encode a ++ bs).length := by
    rw [List.length_append]
    omega
  rw [read, if_pos hle, List.take_left' hw, List.drop_left' hw, decode_encode]

theorem read_eq_some {bs t : List UInt8} {a : α} (h : c.read bs = some (a, t))
    : bs = c.encode a ++ t := by
  unfold read at h
  split at h
  . rename_i hle
    obtain ⟨rfl, rfl⟩ := Prod.mk.inj (Option.some.inj h)
    have htake : (bs.take c.width).length = c.width := by
      rw [List.length_take]
      omega
    rw [c.encode_decode _ htake, List.take_append_drop]
  . contradiction

theorem read_prod (d : Packed β) : (c.prod d).read = do
    let a ← c.read
    let b ← d.read
    return (a, b) := by
  funext bs
  by_cases hc : c.width ≤ bs.length
  . by_cases hd : d.width ≤ bs.length - c.width
    . have hw : c.width + d.width ≤ bs.length := by omega
      have hsub : c.width + d.width - c.width = d.width := by omega
      have hpure : ∀ (p : α × β) (t : List UInt8), (pure p : StateT (List UInt8) Option (α × β)) t = some (p, t) :=
        fun _ _ => rfl
      simp [read, prod, bind, StateT.bind, hpure, hc, hw, hd, List.take_take, List.drop_take, hsub, List.drop_drop]
    . have hw : ¬ c.width + d.width ≤ bs.length := by omega
      simp [read, prod, bind, StateT.bind, hc, hw, hd]
  . have hw : ¬ c.width + d.width ≤ bs.length := by omega
    simp [read, prod, bind, StateT.bind, hc, hw]

theorem read_isSome (bs : List UInt8) : (c.read bs).isSome ↔ c.width ≤ bs.length := by
  unfold read
  split <;> simp_all

end Packed
