import Lsmcd.Lib.Packed

/-!
The buffer that grows (`autobuf.cpp`, `autobuf.h`).
-/

namespace Lsmcd

def toInt (n : Nat) : Int :=
  if n % 0x100000000 < 0x80000000 then (n % 0x100000000 : Nat)
  else (n % 0x100000000 : Nat) - 0x100000000

theorem toInt_of_lt {n : Nat} (h : n < 2 ^ 31) : toInt n = n := by
  unfold toInt
  split <;> omega

attribute [irreducible] toInt

structure AutoBuf where
  content : List UInt8
  capacity : Nat
  le_capacity : content.length ≤ capacity
  capacity_lt : capacity < 2 ^ 31

namespace AutoBuf

def new : AutoBuf where
  content := []
  capacity := 1024
  le_capacity := by decide
  capacity_lt := by decide

@[simp]
theorem content_new : new.content = [] := rfl

variable (b : AutoBuf)

def size : Nat := b.content.length

def available : Nat := b.capacity - b.content.length

def growth (size : Nat) : Nat := (size + 511) / 512 * 512

theorem le_growth (size : Nat) : size ≤ growth size := by
  unfold growth
  omega

/--
Memory is there, but a capacity that is no `int` turns negative, and `realloc` refuses it.
-/
def grow (size : Nat) (h : b.capacity + growth size < 2 ^ 31) : AutoBuf :=
  ⟨b.content, b.capacity + growth size, Nat.le_add_right_of_le b.le_capacity, h⟩

theorem le_available_grow (bs : List UInt8)
    (h : b.capacity + growth (bs.length - b.available) < 2 ^ 31)
    : bs.length ≤ (b.grow (bs.length - b.available) h).available := by
  have hgrow := le_growth (bs.length - b.available)
  have hle := b.le_capacity
  unfold available at *
  unfold grow
  dsimp only at *
  omega

def put (bs : List UInt8) (h : bs.length ≤ b.available) : AutoBuf :=
  ⟨b.content ++ bs, b.capacity, by
    have hle := b.le_capacity
    unfold available at h
    rw [List.length_append]
    omega, b.capacity_lt⟩

def append (pBuf : List UInt8) (size : Int) : Option AutoBuf :=
  if size < 0 then none
  else
    let bs := pBuf.take size.toNat
    if h : bs.length ≤ b.available then some (b.put bs h)
    else if h : b.capacity + growth (bs.length - b.available) < 2 ^ 31 then
      some ((b.grow (bs.length - b.available) h).put bs (b.le_available_grow bs h))
    else none

/--
An `append` whose result is not looked at.
-/
def appended (pBuf : List UInt8) (size : Int) : AutoBuf :=
  (b.append pBuf size).getD b

def store (off : Nat) (bs : List UInt8) : Option AutoBuf :=
  if h : off + bs.length ≤ b.size then
    some ⟨b.content.take off ++ bs ++ b.content.drop (off + bs.length), b.capacity, by
      have hle := b.le_capacity
      unfold size at h
      rw [List.length_append, List.length_append, List.length_take, List.length_drop]
      omega, b.capacity_lt⟩
  else none

def pop_front (sz : Nat) : AutoBuf :=
  ⟨b.content.drop sz, b.capacity, by
    have hle := b.le_capacity
    rw [List.length_drop]
    omega, b.capacity_lt⟩

theorem store_eq {b : AutoBuf} {pre old new post : List UInt8} (h : b.content = pre ++ old ++ post)
    (hlen : new.length = old.length)
    : ∃ b', b.store pre.length new = some b' ∧ b'.content = pre ++ new ++ post ∧
        b'.capacity = b.capacity := by
  have hsize : pre.length + new.length ≤ b.size := by
    rw [size, h, List.length_append, List.length_append, hlen]
    omega
  have hpost : b.content.drop (pre.length + new.length) = post := by
    rw [h, hlen, ← List.length_append, List.drop_left]
  have hpre : b.content.take pre.length = pre := by
    rw [h, List.append_assoc, List.take_left]
  unfold store
  rw [dif_pos hsize]
  refine ⟨_, rfl, ?_, rfl⟩
  dsimp only
  rw [hpre, hpost]

/--
The capacities that `AutoBuf()` and `grow` lead to.
-/
def Paged : Prop := 512 ∣ b.capacity

theorem paged_new : new.Paged := by
  unfold Paged
  decide

theorem paged_grow {size : Nat} (hb : b.Paged) (h : b.capacity + growth size < 2 ^ 31)
    : (b.grow size h).Paged :=
  Nat.dvd_add hb (Nat.dvd_mul_left ..)

def Room (n : Nat) : Prop := b.size + n ≤ 2 ^ 31 - 512

theorem capacity_le (hb : b.Paged) : b.capacity ≤ 2 ^ 31 - 512 := by
  have hlt := b.capacity_lt
  unfold Paged at hb
  omega

theorem size_le (hb : b.Paged) : b.size ≤ 2 ^ 31 - 512 :=
  Nat.le_trans b.le_capacity (b.capacity_le hb)

theorem paged_append {b b' : AutoBuf} {pBuf : List UInt8} {size : Int} (hb : b.Paged)
    (h : b.append pBuf size = some b') : b'.Paged := by
  unfold append at h
  split at h
  . contradiction
  . dsimp only at h
    split at h
    . rw [← Option.some.inj h]
      exact hb
    . split at h
      . rename_i hcap
        rw [← Option.some.inj h]
        exact b.paged_grow hb hcap
      . contradiction

theorem content_append {b b' : AutoBuf} {pBuf : List UInt8} {size : Int}
    (h : b.append pBuf size = some b') : b'.content = b.content ++ pBuf.take size.toNat := by
  unfold append at h
  split at h
  . contradiction
  . dsimp only at h
    split at h
    . rw [← Option.some.inj h]
      rfl
    . split at h
      . rw [← Option.some.inj h]
        rfl
      . contradiction

theorem append_isSome {pBuf : List UInt8} (hb : b.Paged) (h : b.Room pBuf.length)
    : (b.append pBuf (toInt pBuf.length)).isSome := by
  unfold Room size at h
  have hle := b.le_capacity
  have hnonneg : ¬ ((pBuf.length : Int) < 0) := by omega
  rw [append, toInt_of_lt (by omega), if_neg hnonneg]
  dsimp only
  rw [Int.toNat_natCast, List.take_length]
  split
  . rfl
  . rename_i havail
    have hcap : b.capacity + growth (pBuf.length - b.available) < 2 ^ 31 := by
      unfold Paged at hb
      unfold available at havail ⊢
      unfold growth
      omega
    rw [dif_pos hcap]
    rfl

theorem paged_appended {b : AutoBuf} (hb : b.Paged) (pBuf : List UInt8) (size : Int)
    : (b.appended pBuf size).Paged := by
  unfold appended
  cases h : b.append pBuf size with
  | none => exact hb
  | some b' => exact paged_append hb h

theorem content_appended {b : AutoBuf} {pBuf : List UInt8} (hb : b.Paged) (h : b.Room pBuf.length)
    : (b.appended pBuf (toInt pBuf.length)).content = b.content ++ pBuf := by
  unfold appended
  obtain ⟨b', hb'⟩ := Option.isSome_iff_exists.mp (b.append_isSome hb h)
  have hlt : pBuf.length < 2 ^ 31 := by
    unfold Room at h
    omega
  rw [hb', Option.getD_some, content_append hb', toInt_of_lt hlt, Int.toNat_natCast,
    List.take_length]

def appendAll (pieces : List (List UInt8)) : AutoBuf :=
  pieces.foldl (fun b p => b.appended p (toInt p.length)) b

theorem appendAll_nil : b.appendAll [] = b := rfl

theorem appendAll_cons (p : List UInt8) (pieces : List (List UInt8))
    : b.appendAll (p :: pieces) = (b.appended p (toInt p.length)).appendAll pieces := by
  unfold appendAll
  rw [List.foldl_cons]

theorem appendAll_append (ps qs : List (List UInt8))
    : b.appendAll (ps ++ qs) = (b.appendAll ps).appendAll qs :=
  List.foldl_append

theorem paged_appendAll {b : AutoBuf} (hb : b.Paged) (pieces : List (List UInt8))
    : (b.appendAll pieces).Paged := by
  induction pieces generalizing b with
  | nil => exact hb
  | cons p pieces ih =>
    rw [appendAll_cons]
    exact ih (paged_appended hb p _)

theorem content_appendAll {b : AutoBuf} {pieces : List (List UInt8)} (hb : b.Paged)
    (h : b.Room pieces.flatten.length)
    : (b.appendAll pieces).content = b.content ++ pieces.flatten := by
  induction pieces generalizing b with
  | nil =>
    rw [List.flatten_nil, List.append_nil]
    rfl
  | cons p pieces ih =>
    rw [List.flatten_cons, List.length_append] at h
    have hp : b.Room p.length := by
      unfold Room at h ⊢
      omega
    have hcontent := content_appended hb hp
    have hrest : (b.appended p (toInt p.length)).Room pieces.flatten.length := by
      unfold Room size at h ⊢
      rw [hcontent, List.length_append]
      omega
    have hall := ih (paged_appended hb p (toInt p.length)) hrest
    rw [hcontent] at hall
    rw [List.flatten_cons, ← List.append_assoc, appendAll_cons, hall]

end AutoBuf

end Lsmcd
