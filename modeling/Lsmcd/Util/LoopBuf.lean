import Mathlib.Algebra.Ring.Nat
import Mathlib.Data.List.Basic
import Mathlib.Order.Basic

/-!
The ring buffer `LoopBuf` (`loopbuf.cpp`) and the queue of bytes that it stands for.

The pointers `m_pHead` and `m_pEnd` are offsets from `m_pBuf`. One byte of the capacity stays free.
-/

namespace Lsmcd

def LOOPBUFUNIT : Nat := 64

structure LoopBuf where
  m_iCapacity : Nat
  m_pHead : Nat
  m_pEnd : Nat
  mem : Nat → UInt8
  head_lt : m_pHead < m_iCapacity
  end_lt : m_pEnd < m_iCapacity

namespace LoopBuf

variable {b : LoopBuf} {bs : List UInt8} {n : Nat}

def memmove (mem : Nat → UInt8) (p : Nat) (bs : List UInt8) : Nat → UInt8 :=
  fun i => if p ≤ i ∧ i < p + bs.length then bs.getD (i - p) 0 else mem i

def roundUp (size : Nat) : Nat :=
  (size + LOOPBUFUNIT) / LOOPBUFUNIT * LOOPBUFUNIT

theorem lt_roundUp (size : Nat) : size < roundUp size := by
  unfold roundUp LOOPBUFUNIT
  omega

def new (size : Nat) : LoopBuf where
  m_iCapacity := roundUp size
  m_pHead := 0
  m_pEnd := 0
  mem := fun _ => 0
  head_lt := Nat.lt_of_le_of_lt (Nat.zero_le _) (lt_roundUp size)
  end_lt := Nat.lt_of_le_of_lt (Nat.zero_le _) (lt_roundUp size)

def size (b : LoopBuf) : Nat :=
  (b.m_pEnd + b.m_iCapacity - b.m_pHead) % b.m_iCapacity

def empty (b : LoopBuf) : Bool :=
  b.m_pHead = b.m_pEnd

def available (b : LoopBuf) : Nat :=
  if b.m_pEnd < b.m_pHead then b.m_pHead - b.m_pEnd - 1
  else b.m_pHead + b.m_iCapacity - b.m_pEnd - 1

def contiguous (b : LoopBuf) : Nat :=
  if b.m_pEnd < b.m_pHead then b.m_pHead - b.m_pEnd - 1
  else if b.m_pHead = 0 then b.m_iCapacity - b.m_pEnd - 1 else b.m_iCapacity - b.m_pEnd

def blockSize (b : LoopBuf) : Nat :=
  if b.m_pEnd < b.m_pHead then b.m_iCapacity - b.m_pHead else b.m_pEnd - b.m_pHead

def peek (b : LoopBuf) (n : Nat) : List UInt8 :=
  (List.range n).map fun i => b.mem (b.m_pHead + i)

def content (b : LoopBuf) : List UInt8 :=
  (List.range b.size).map fun i => b.mem ((b.m_pHead + i) % b.m_iCapacity)

def clear (b : LoopBuf) : LoopBuf where
  m_iCapacity := b.m_iCapacity
  m_pHead := 0
  m_pEnd := 0
  mem := b.mem
  head_lt := Nat.lt_of_le_of_lt (Nat.zero_le _) b.head_lt
  end_lt := Nat.lt_of_le_of_lt (Nat.zero_le _) b.head_lt

def used (b : LoopBuf) (n : Nat) : LoopBuf :=
  { b with
    m_pEnd := (b.m_pEnd + n) % b.m_iCapacity
    end_lt := Nat.mod_lt _ (Nat.lt_of_le_of_lt (Nat.zero_le _) b.head_lt) }

def store (b : LoopBuf) (p : Nat) (bs : List UInt8) : LoopBuf :=
  { b with mem := memmove b.mem p bs }

def pop_front (b : LoopBuf) (n : Nat) : LoopBuf :=
  if n = 0 then b
  else if b.size ≤ n then b.clear
  else
    { b with
      m_pHead := (b.m_pHead + n) % b.m_iCapacity
      head_lt := Nat.mod_lt _ (Nat.lt_of_le_of_lt (Nat.zero_le _) b.head_lt) }

def moveTo (b : LoopBuf) (n : Nat) : List UInt8 × LoopBuf :=
  let len := min b.size n
  let first := min (b.m_iCapacity - b.m_pHead) len
  (b.peek first ++ (List.range (len - first)).map b.mem, b.pop_front len)

/--
The rest of the new memory holds anything and is not read.
-/
def allocate (b : LoopBuf) (size : Nat) : LoopBuf :=
  let size := roundUp size
  if h : b.m_iCapacity < size then
    { m_iCapacity := size
      m_pHead := 0
      m_pEnd := min b.size (size - 1)
      mem := memmove (fun _ => 0) 0 (b.moveTo (size - 1)).1
      head_lt := Nat.lt_of_le_of_lt (Nat.zero_le _) h
      end_lt := by omega }
  else b

/--
`none` when the 32 bit sum overflows, which is undefined.
-/
def guarantee (b : LoopBuf) (n : Nat) : Option LoopBuf :=
  if n ≤ b.available then some b
  else if n + b.size + 1 + LOOPBUFUNIT < 2 ^ 31 then some (b.allocate (n + b.size + 1))
  else none

def append (b : LoopBuf) (bs : List UInt8) : Option LoopBuf :=
  if bs = [] then some b
  else do
    let b ← b.guarantee bs.length
    let len := min b.contiguous bs.length
    let b := b.store b.m_pEnd (bs.take len)
    let b := if len = bs.length then b else b.store 0 (bs.drop len)
    return b.used bs.length

theorem size_eq (b : LoopBuf) : b.size =
    if b.m_pEnd < b.m_pHead then b.m_pEnd + b.m_iCapacity - b.m_pHead else b.m_pEnd - b.m_pHead := by
  have hhead := b.head_lt
  have hend := b.end_lt
  unfold size
  split
  . exact Nat.mod_eq_of_lt (by omega)
  . rw [show b.m_pEnd + b.m_iCapacity - b.m_pHead = b.m_pEnd - b.m_pHead + b.m_iCapacity by omega,
      Nat.add_mod_right]
    exact Nat.mod_eq_of_lt (by omega)

theorem size_lt (b : LoopBuf) : b.size < b.m_iCapacity := by
  have hhead := b.head_lt
  have hend := b.end_lt
  rw [size_eq]
  split <;> omega

theorem available_eq (b : LoopBuf) : b.available = b.m_iCapacity - b.size - 1 := by
  have hhead := b.head_lt
  have hend := b.end_lt
  unfold available
  rw [size_eq]
  split <;> omega

theorem contiguous_le (b : LoopBuf) : b.contiguous ≤ b.available := by
  have hhead := b.head_lt
  have hend := b.end_lt
  unfold contiguous available
  split
  . exact Nat.le_refl _
  . split <;> omega

theorem contiguous_pos (h : 0 < b.available) : 0 < b.contiguous := by
  have hhead := b.head_lt
  have hend := b.end_lt
  unfold available at h
  unfold contiguous
  split at h
  . rw [if_pos ‹_›]
    exact h
  . rw [if_neg ‹_›]
    split <;> omega

theorem empty_iff : b.empty = true ↔ b.size = 0 := by
  have hhead := b.head_lt
  have hend := b.end_lt
  unfold empty
  rw [size_eq, decide_eq_true_eq]
  split <;> omega

theorem idx_eq {i : Nat} (hi : i ≤ b.m_iCapacity) : (b.m_pHead + i) % b.m_iCapacity =
    if b.m_pHead + i < b.m_iCapacity then b.m_pHead + i else b.m_pHead + i - b.m_iCapacity := by
  have hhead := b.head_lt
  split
  . exact Nat.mod_eq_of_lt ‹_›
  . rw [Nat.mod_eq_sub_mod (by omega)]
    exact Nat.mod_eq_of_lt (by omega)

theorem end_add_mod {i : Nat} (hi : i ≤ b.m_iCapacity) : (b.m_pEnd + i) % b.m_iCapacity =
    if b.m_pEnd + i < b.m_iCapacity then b.m_pEnd + i else b.m_pEnd + i - b.m_iCapacity := by
  have hend := b.end_lt
  split
  . exact Nat.mod_eq_of_lt ‹_›
  . rw [Nat.mod_eq_sub_mod (by omega)]
    exact Nat.mod_eq_of_lt (by omega)

@[simp]
theorem content_length (b : LoopBuf) : b.content.length = b.size := by
  simp [content]

theorem content_eq_iff {l : List UInt8} : b.content = l ↔ b.size = l.length ∧
    ∀ i (h : i < l.length), b.mem ((b.m_pHead + i) % b.m_iCapacity) = l[i] := by
  constructor
  . rintro rfl
    refine ⟨(content_length b).symm, ?_⟩
    intro i hi
    simp [content]
  . rintro ⟨hsize, hget⟩
    apply List.ext_getElem
    . rw [content_length, hsize]
    . intro i hi hl
      rw [← hget i hl]
      simp [content]

theorem content_getElem {i : Nat} (hi : i < b.content.length)
    : b.content[i] = b.mem ((b.m_pHead + i) % b.m_iCapacity) := by
  simp [content]

theorem content_new (size : Nat) : (new size).content = [] := by
  rw [content_eq_iff]
  refine ⟨?_, fun i hi => absurd hi (Nat.not_lt_zero i)⟩
  rw [size_eq]
  simp [new]

theorem content_clear (b : LoopBuf) : b.clear.content = [] := by
  rw [content_eq_iff]
  refine ⟨?_, fun i hi => absurd hi (Nat.not_lt_zero i)⟩
  rw [size_eq]
  simp [clear]

theorem memmove_of_lt {mem : Nat → UInt8} {p i : Nat} (hi : i < bs.length)
    : memmove mem p bs (p + i) = bs[i] := by
  unfold memmove
  rw [if_pos ⟨Nat.le_add_right .., by omega⟩, Nat.add_sub_cancel_left]
  simp [hi]

theorem memmove_of_not {mem : Nat → UInt8} {p x : Nat} (hx : ¬ (p ≤ x ∧ x < p + bs.length))
    : memmove mem p bs x = mem x :=
  if_neg hx

theorem size_used (hn : n ≤ b.available) : (b.used n).size = b.size + n := by
  have hhead := b.head_lt
  have hend := b.end_lt
  have hlt := b.size_lt
  have hmod := b.end_add_mod (i := n) (by rw [available_eq] at hn; omega)
  rw [available_eq] at hn
  have hsz := b.size_eq
  have hused := (b.used n).size_eq
  change _ = if (b.m_pEnd + n) % b.m_iCapacity < b.m_pHead then
    (b.m_pEnd + n) % b.m_iCapacity + b.m_iCapacity - b.m_pHead
    else (b.m_pEnd + n) % b.m_iCapacity - b.m_pHead at hused
  rw [hmod] at hused
  split at hsz <;> split at hused <;> split at hused <;> omega

theorem content_store_used (hn : bs.length ≤ b.contiguous)
    : ((b.store b.m_pEnd bs).used bs.length).content = b.content ++ bs := by
  have hhead := b.head_lt
  have hend := b.end_lt
  have hlt := b.size_lt
  have hsize : ((b.store b.m_pEnd bs).used bs.length).size = b.size + bs.length :=
    size_used (b := b.store b.m_pEnd bs) (Nat.le_trans hn b.contiguous_le)
  rw [content_eq_iff]
  refine ⟨by rw [hsize, List.length_append, content_length], ?_⟩
  intro i hi
  have hi' : i < b.size + bs.length := by
    rw [List.length_append, content_length] at hi
    exact hi
  change memmove b.mem b.m_pEnd bs ((b.m_pHead + i) % b.m_iCapacity) = _
  have havail := Nat.le_trans hn b.contiguous_le
  rw [available_eq] at havail
  have hidx := b.idx_eq (i := i) (by omega)
  have hsz := b.size_eq
  have hend' : b.m_pEnd < b.m_pHead ∨ b.m_pEnd + bs.length ≤ b.m_iCapacity := by
    unfold contiguous at hn
    split at hn
    . exact Or.inl ‹_›
    . split at hn <;> omega
  by_cases hold : i < b.size
  . rw [List.getElem_append_left (by rw [content_length]; exact hold), content_getElem]
    apply memmove_of_not
    rw [hidx]
    split at hsz <;> split <;> omega
  . rw [List.getElem_append_right (by rw [content_length]; omega)]
    -- the new bytes do not wrap
    have hpos : (b.m_pHead + i) % b.m_iCapacity = b.m_pEnd + (i - b.size) := by
      rw [hidx]
      split at hsz <;> split <;> omega
    rw [hpos, memmove_of_lt (by omega)]
    simp only [content_length]

theorem contiguous_of_available (h : b.contiguous < b.available)
    : b.contiguous = b.m_iCapacity - b.m_pEnd ∧ 0 < b.m_pHead ∧ b.m_pHead ≤ b.m_pEnd := by
  have hhead := b.head_lt
  have hend := b.end_lt
  unfold contiguous available at *
  split at h
  . omega
  . rename_i hle
    split at h
    . omega
    . rename_i hz
      rw [if_neg hle, if_neg hz]
      omega

theorem content_append_room (hn : bs.length ≤ b.available)
    : ((if min b.contiguous bs.length = bs.length then
          b.store b.m_pEnd (bs.take (min b.contiguous bs.length))
        else (b.store b.m_pEnd (bs.take (min b.contiguous bs.length))).store 0
          (bs.drop (min b.contiguous bs.length))).used bs.length).content = b.content ++ bs := by
  by_cases hle : bs.length ≤ b.contiguous
  . rw [Nat.min_eq_right hle, if_pos rfl, List.take_length]
    exact content_store_used hle
  . have hlt : b.contiguous < bs.length := by omega
    obtain ⟨hcont, hpos, horder⟩ := contiguous_of_available (Nat.lt_of_lt_of_le hlt hn)
    have hhead := b.head_lt
    have hend := b.end_lt
    rw [Nat.min_eq_left (Nat.le_of_lt hlt), if_neg (by omega)]
    have hfirst := content_store_used (b := b)
      (List.length_take_le b.contiguous bs)
    rw [List.length_take, Nat.min_eq_left (Nat.le_of_lt hlt)] at hfirst
    generalize hb₁ : (b.store b.m_pEnd (bs.take b.contiguous)).used b.contiguous = b₁ at hfirst
    have hend₁ : b₁.m_pEnd = 0 := by
      rw [← hb₁]
      change (b.m_pEnd + b.contiguous) % b.m_iCapacity = 0
      rw [hcont, Nat.add_sub_cancel' (Nat.le_of_lt hend), Nat.mod_self]
    have hcap₁ : b₁.m_iCapacity = b.m_iCapacity := by rw [← hb₁]; rfl
    have hhead₁ : b₁.m_pHead = b.m_pHead := by rw [← hb₁]; rfl
    -- the second write starts at the end of the first one, which has wrapped to 0
    have hroom : (bs.drop b.contiguous).length ≤ b₁.contiguous := by
      have hcont₁ : b₁.contiguous = b.m_pHead - 1 := by
        unfold contiguous
        rw [hend₁, hhead₁, if_pos hpos]
        rfl
      unfold available at hn
      rw [if_neg (by omega)] at hn
      rw [List.length_drop, hcont₁]
      omega
    have hsecond := content_store_used hroom
    rw [hfirst, List.append_assoc, List.take_append_drop] at hsecond
    rw [← hsecond]
    have hused : ((b.store b.m_pEnd (bs.take b.contiguous)).store 0
        (bs.drop b.contiguous)).used bs.length =
        (b₁.store b₁.m_pEnd (bs.drop b.contiguous)).used (bs.drop b.contiguous).length := by
      have hmod : (b.m_pEnd + bs.length) % b.m_iCapacity =
          (b₁.m_pEnd + (bs.drop b.contiguous).length) % b.m_iCapacity := by
        rw [hend₁, List.length_drop, hcont,
          show b.m_pEnd + bs.length = 0 + (bs.length - (b.m_iCapacity - b.m_pEnd)) + b.m_iCapacity
            by omega, Nat.add_mod_right]
      unfold used store
      subst hb₁
      simp only [LoopBuf.mk.injEq]
      refine ⟨rfl, rfl, hmod, ?_⟩
      rw [hend₁]
      rfl
    rw [hused]

theorem content_pop_front (b : LoopBuf) (n : Nat) : (b.pop_front n).content = b.content.drop n := by
  have hhead := b.head_lt
  have hend := b.end_lt
  have hlt := b.size_lt
  unfold pop_front
  split
  . rename_i hz
    rw [hz, List.drop_zero]
  . split
    . rename_i hle
      rw [content_clear, List.drop_eq_nil_of_le (by rw [content_length]; exact hle)]
    . rename_i hgt
      have hmod := b.idx_eq (i := n) (by omega)
      generalize hb' : ({ b with
        m_pHead := (b.m_pHead + n) % b.m_iCapacity
        head_lt := Nat.mod_lt _ (Nat.lt_of_le_of_lt (Nat.zero_le _) b.head_lt) } : LoopBuf) = b'
      have hpHead : b'.m_pHead = (b.m_pHead + n) % b.m_iCapacity := by rw [← hb']
      have hpEnd : b'.m_pEnd = b.m_pEnd := by rw [← hb']
      have hcap : b'.m_iCapacity = b.m_iCapacity := by rw [← hb']
      have hmem : b'.mem = b.mem := by rw [← hb']
      have hsz := b.size_eq
      have hsize : b'.size = b.size - n := by
        rw [b'.size_eq, hpHead, hpEnd, hcap, hmod]
        split at hsz <;> split <;> split <;> omega
      rw [content_eq_iff]
      refine ⟨by rw [hsize, List.length_drop, content_length], ?_⟩
      intro i hi
      rw [List.getElem_drop, content_getElem, hmem, hpHead, hcap, Nat.mod_add_mod, Nat.add_assoc]

theorem peek_eq (h : n ≤ b.blockSize) : b.peek n = b.content.take n := by
  have hhead := b.head_lt
  have hend := b.end_lt
  have hsz := b.size_eq
  unfold blockSize at h
  have hle : n ≤ b.size := by
    split at hsz <;> split at h <;> omega
  apply List.ext_getElem
  . rw [List.length_take, content_length, Nat.min_eq_left hle]
    simp [peek]
  . intro i hi hl
    have hin : i < n := by simpa [peek] using hi
    have hmod : (b.m_pHead + i) % b.m_iCapacity = b.m_pHead + i := by
      apply Nat.mod_eq_of_lt
      split at h <;> omega
    rw [List.getElem_take, content_getElem, hmod]
    simp [peek]

theorem moveTo_eq (b : LoopBuf) (n : Nat)
    : (b.moveTo n).1 = b.content.take n ∧ (b.moveTo n).2.content = b.content.drop n := by
  have hhead := b.head_lt
  have hend := b.end_lt
  have hlt := b.size_lt
  have hsz := b.size_eq
  constructor
  . unfold moveTo
    dsimp only
    generalize hlen : min b.size n = len
    have hle : len ≤ b.size := by omega
    have hfirst : min (b.m_iCapacity - b.m_pHead) len ≤ b.blockSize := by
      unfold blockSize
      split at hsz <;> split <;> omega
    have htake : b.content.take n = b.content.take len := by
      rw [← hlen]
      by_cases hn : n ≤ b.size
      . rw [Nat.min_eq_right hn]
      . rw [Nat.min_eq_left (by omega), List.take_of_length_le (by rw [content_length]; omega),
          List.take_of_length_le (by simp)]
    rw [peek_eq hfirst, htake]
    apply List.ext_getElem
    . simp only [List.length_append, List.length_take, content_length, List.length_map,
        List.length_range]
      omega
    . intro i hi hl
      simp only [List.length_take, content_length] at hl
      by_cases hin : i < min (b.m_iCapacity - b.m_pHead) len
      . rw [List.getElem_append_left (by rw [List.length_take, content_length]; omega),
          List.getElem_take, List.getElem_take]
      . rw [List.getElem_append_right (by rw [List.length_take, content_length]; omega),
          List.getElem_take, content_getElem]
        simp only [List.getElem_map, List.getElem_range, List.length_take, content_length]
        congr 1
        rw [idx_eq (by omega), if_neg (by omega)]
        omega
  . unfold moveTo
    dsimp only
    rw [content_pop_front]
    by_cases hle : n ≤ b.size
    . rw [Nat.min_eq_right hle]
    . rw [Nat.min_eq_left (by omega), List.drop_eq_nil_of_le (by simp),
        List.drop_eq_nil_of_le (by rw [content_length]; omega)]

theorem content_allocate (b : LoopBuf) (n : Nat) : (b.allocate n).content = b.content := by
  have hsize := b.size_lt
  unfold allocate
  dsimp only
  split
  . rename_i hcap
    have hlt := lt_roundUp n
    rw [content_eq_iff]
    have hmin : min b.size (roundUp n - 1) = b.size := by omega
    constructor
    . rw [size_eq]
      simp [hmin]
    . intro i hi
      rw [content_length] at hi
      dsimp only
      rw [Nat.zero_add, Nat.mod_eq_of_lt (by omega), (b.moveTo_eq _).1,
        List.take_of_length_le (by rw [content_length]; omega)]
      have hmove := @memmove_of_lt b.content (fun _ => 0) 0 i (by rw [content_length]; exact hi)
      rw [Nat.zero_add] at hmove
      exact hmove
  . rfl

theorem available_allocate : n ≤ (b.allocate (n + b.size + 1)).available := by
  have hlt := lt_roundUp (n + b.size + 1)
  have hsize : (b.allocate (n + b.size + 1)).size = b.size := by
    rw [← content_length, content_allocate, content_length]
  rw [available_eq, hsize]
  unfold allocate
  dsimp only
  split
  . dsimp only
    omega
  . omega

theorem guarantee_some {b' : LoopBuf} (h : b.guarantee n = some b')
    : b'.content = b.content ∧ n ≤ b'.available := by
  unfold guarantee at h
  split at h
  . rename_i hle
    cases h
    exact ⟨rfl, hle⟩
  . split at h
    . cases h
      exact ⟨content_allocate .., available_allocate⟩
    . cases h

theorem content_of_append {b' : LoopBuf} (h : b.append bs = some b')
    : b'.content = b.content ++ bs := by
  unfold append at h
  split at h
  . rename_i hnil
    cases h
    rw [hnil, List.append_nil]
  . cases hg : b.guarantee bs.length with
    | none =>
      rw [hg] at h
      cases h
    | some c =>
      obtain ⟨hcontent, hroom⟩ := guarantee_some hg
      rw [hg] at h
      cases h
      rw [content_append_room hroom, hcontent]

theorem guarantee_eq (h : n + b.size + 1 + LOOPBUFUNIT < 2 ^ 31)
    : ∃ b', b.guarantee n = some b' ∧ b'.content = b.content ∧ n ≤ b'.available := by
  have hsome : ∃ b', b.guarantee n = some b' := by
    unfold guarantee
    split
    . exact ⟨b, rfl⟩
    . exact ⟨_, rfl⟩
  obtain ⟨b', hb'⟩ := hsome
  exact ⟨b', hb', guarantee_some hb'⟩

theorem append_eq (h : bs.length + b.size + 1 + LOOPBUFUNIT < 2 ^ 31)
    : ∃ b', b.append bs = some b' ∧ b'.content = b.content ++ bs := by
  have hsome : ∃ b', b.append bs = some b' := by
    unfold append
    split
    . exact ⟨b, rfl⟩
    . obtain ⟨b', hb', -⟩ := guarantee_eq h
      rw [hb']
      exact ⟨_, rfl⟩
  obtain ⟨b', hb'⟩ := hsome
  exact ⟨b', hb', content_of_append hb'⟩

theorem blockSize_le (b : LoopBuf) : b.blockSize ≤ b.size := by
  have hhead := b.head_lt
  have hend := b.end_lt
  unfold blockSize
  rw [size_eq]
  split <;> omega

theorem blockSize_pos (h : 0 < b.size) : 0 < b.blockSize := by
  have hhead := b.head_lt
  rw [size_eq] at h
  unfold blockSize
  split at h
  . rw [if_pos ‹_›]
    omega
  . rw [if_neg ‹_›]
    exact h

theorem blockSize_eq (h : b.m_pHead = 0) : b.blockSize = b.size := by
  unfold blockSize
  rw [size_eq, h]
  rfl

theorem append_moveTo (hne : b.size ≠ 0)
    : ∃ b', (b.moveTo b.size).2.append (b.moveTo b.size).1 = some b' ∧
      b'.content = b.content ∧ b'.blockSize = b'.size := by
  have hlt := b.size_lt
  have hmoved : (b.moveTo b.size).1 = b.content := by
    rw [(b.moveTo_eq b.size).1, List.take_of_length_le (by simp)]
  have hleft : (b.moveTo b.size).2 = b.clear := by
    unfold moveTo pop_front
    dsimp only
    rw [Nat.min_self, if_neg hne, if_pos (Nat.le_refl _)]
  have hclear : b.clear.size = 0 := by rw [← content_length, content_clear]; rfl
  have hroom : b.content.length ≤ b.clear.available := by
    rw [available_eq, hclear, content_length]
    change b.size ≤ b.m_iCapacity - 0 - 1
    omega
  have hguar : b.clear.guarantee b.content.length = some b.clear := if_pos hroom
  have hcontent : b.content ≠ [] := by
    intro hnil
    rw [← content_length, hnil] at hne
    exact hne rfl
  rw [hmoved, hleft]
  unfold append
  rw [if_neg hcontent, hguar]
  refine ⟨_, rfl, by rw [content_append_room hroom, content_clear, List.nil_append], ?_⟩
  apply blockSize_eq
  split <;> rfl

end LoopBuf

end Lsmcd
