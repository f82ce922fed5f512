import Lsmcd.Util.LoopBuf
import Mathlib.Data.List.GetD
import Mathlib.Logic.Function.Basic

/-!
Any sequence of operations on a `LoopBuf` against the same sequence on a list of bytes.
-/

namespace Lsmcd

namespace LoopBuf

variable {b : LoopBuf} {bs : List UInt8} {n : Nat}

/--
The difference of the pointers is signed, as is its remainder.
-/
def full (b : LoopBuf) : Bool :=
  ((b.m_pEnd : Int) - b.m_pHead + 1).tmod b.m_iCapacity = 0

def pop_back (b : LoopBuf) (n : Nat) : LoopBuf :=
  if n = 0 then b
  else if b.size ≤ n then b.clear
  else
    { b with
      m_pEnd := if n ≤ b.m_pEnd then b.m_pEnd - n else b.m_pEnd + b.m_iCapacity - n
      end_lt := by
        have hend := b.end_lt
        split <;> omega }

def reserve (b : LoopBuf) (size : Nat) : LoopBuf :=
  b.allocate size

def getPointer (b : LoopBuf) (size : Nat) : Nat :=
  (b.m_pHead + size) % b.m_iCapacity

/--
The loop of `update`: `p` goes back to the start of the memory at its end.
-/
def writeLoop (cap : Nat) : (Nat → UInt8) → Nat → List UInt8 → Nat → UInt8
  | mem, _, [] => mem
  | mem, p, x :: xs => writeLoop cap (Function.update mem p x) (if p + 1 = cap then 0 else p + 1) xs

def update (b : LoopBuf) (offset : Nat) (bs : List UInt8) : LoopBuf :=
  { b with mem := writeLoop b.m_iCapacity b.mem (b.getPointer offset) bs }

def straight (b : LoopBuf) : Option LoopBuf := do
  let bufTmp ← (new LOOPBUFUNIT).guarantee b.size
  let bufTmp := bufTmp.used b.size
  return bufTmp.store bufTmp.m_pHead (b.moveTo b.size).1

theorem full_iff : b.full = true ↔ b.available = 0 := by
  have hhead := b.head_lt
  have hend := b.end_lt
  unfold full
  rw [decide_eq_true_eq, ← Int.dvd_iff_tmod_eq_zero, available_eq, size_eq]
  constructor
  . intro hdvd
    by_cases hmax : (b.m_pEnd : Int) - b.m_pHead + 1 = b.m_iCapacity
    . split <;> omega
    . have hzero := Int.eq_zero_of_dvd_of_natAbs_lt_natAbs hdvd (by omega)
      split <;> omega
  . intro havail
    split at havail
    . rw [show (b.m_pEnd : Int) - b.m_pHead + 1 = 0 by omega]
      exact Int.dvd_zero _
    . exact ⟨1, by omega⟩

theorem contiguous_eq_zero_iff : b.contiguous = 0 ↔ b.full = true := by
  rw [full_iff]
  constructor
  . intro hzero
    by_contra hne
    exact Nat.ne_of_gt (contiguous_pos (Nat.pos_of_ne_zero hne)) hzero
  . intro hzero
    exact Nat.eq_zero_of_le_zero (hzero ▸ b.contiguous_le)

/--
What the observers say about a buffer with the content `l`.
-/
structure Shows (b : LoopBuf) (l : List UInt8) : Prop where
  size : b.size = l.length
  available : b.available + b.size + 1 = b.m_iCapacity
  empty : b.empty = true ↔ l = []
  full : b.full = true ↔ l.length + 1 = b.m_iCapacity
  contiguous : b.contiguous = 0 ↔ b.full = true
  block_le : b.blockSize ≤ l.length
  block_pos : l ≠ [] → 0 < b.blockSize
  block : b.peek b.blockSize = l.take b.blockSize

theorem shows_content (b : LoopBuf) : b.Shows b.content where
  size := (content_length b).symm
  available := by
    have hlt := b.size_lt
    rw [available_eq]
    omega
  empty := by
    rw [empty_iff, ← content_length, List.length_eq_zero_iff]
  full := by
    have hlt := b.size_lt
    rw [full_iff, available_eq, content_length]
    omega
  contiguous := contiguous_eq_zero_iff
  block_le := by
    rw [content_length]
    exact b.blockSize_le
  block_pos hne := by
    apply blockSize_pos
    rw [← content_length]
    exact List.length_pos_iff.mpr hne
  block := peek_eq (Nat.le_refl _)

theorem content_pop_back (b : LoopBuf) (n : Nat)
    : (b.pop_back n).content = b.content.take (b.size - n) := by
  have hhead := b.head_lt
  have hend := b.end_lt
  have hlt := b.size_lt
  have hsz := b.size_eq
  unfold pop_back
  split
  . rename_i hz
    rw [hz, Nat.sub_zero, List.take_of_length_le (Nat.le_of_eq (content_length b))]
  . split
    . rename_i hle
      rw [content_clear, Nat.sub_eq_zero_of_le hle, List.take_zero]
    . rename_i hgt
      rw [content_eq_iff]
      constructor
      . rw [size_eq, List.length_take, content_length]
        dsimp only
        split at hsz
        . split <;> split <;> omega
        . split <;> split <;> omega
      . intro i hi
        rw [List.getElem_take, content_getElem]

def ahead (cap p q : Nat) : Nat :=
  if p ≤ q then q - p else q + cap - p

theorem writeLoop_apply {cap : Nat} (mem : Nat → UInt8) {p : Nat} (hp : p < cap) (hlen : bs.length ≤ cap) {q : Nat}
    (hq : q < cap) : writeLoop cap mem p bs q = bs.getD (ahead cap p q) (mem q) := by
  induction bs generalizing mem p with
  | nil => simp [writeLoop]
  | cons x xs ih =>
    rw [List.length_cons] at hlen
    rw [writeLoop, ih _ (by split <;> omega) (by omega)]
    by_cases hpq : q = p
    . -- the last place that the rest could reach
      have hself : ahead cap p q = 0 := by
        unfold ahead
        rw [if_pos (by omega)]
        omega
      have hlast : xs.length ≤ ahead cap (if p + 1 = cap then 0 else p + 1) q := by
        unfold ahead
        split <;> split <;> omega
      rw [hself, List.getD_cons_zero, List.getD_eq_default _ _ hlast, hpq, Function.update_self]
    . have hnext : ahead cap p q = ahead cap (if p + 1 = cap then 0 else p + 1) q + 1 := by
        unfold ahead
        split <;> split <;> split <;> omega
      rw [hnext, List.getD_cons_succ, Function.update_of_ne hpq]

theorem content_update {offset : Nat} (h : offset + bs.length ≤ b.size)
    : (b.update offset bs).content = b.content.take offset ++ bs ++ b.content.drop (offset + bs.length) := by
  have hhead := b.head_lt
  have hlt := b.size_lt
  have hcap : 0 < b.m_iCapacity := Nat.lt_of_le_of_lt (Nat.zero_le _) hhead
  have hsize : (b.update offset bs).size = b.size := rfl
  rw [content_eq_iff]
  constructor
  . rw [hsize]
    simp only [List.length_append, List.length_take, List.length_drop, content_length]
    omega
  . intro i hi
    have hi' : i < b.size := by
      simp only [List.length_append, List.length_take, List.length_drop, content_length] at hi
      omega
    have hstart := b.idx_eq (i := offset) (by omega)
    have hidx := b.idx_eq (i := i) (by omega)
    have hplt : b.getPointer offset < b.m_iCapacity := Nat.mod_lt _ hcap
    have hqlt : (b.m_pHead + i) % b.m_iCapacity < b.m_iCapacity := Nat.mod_lt _ hcap
    show writeLoop b.m_iCapacity b.mem (b.getPointer offset) bs ((b.m_pHead + i) % b.m_iCapacity) = _
    rw [writeLoop_apply b.mem hplt (by omega) hqlt]
    have hahead : ahead b.m_iCapacity (b.getPointer offset) ((b.m_pHead + i) % b.m_iCapacity) =
        if offset ≤ i then i - offset else i + b.m_iCapacity - offset := by
      unfold ahead getPointer
      rw [hstart, hidx]
      split <;> split <;> split <;> split <;> omega
    rw [hahead]
    by_cases hlow : i < offset
    . rw [if_neg (by omega), List.getD_eq_default _ _ (by omega), List.getElem_append_left (by
        simp only [List.length_append, List.length_take, content_length]
        omega), List.getElem_append_left (by
        rw [List.length_take, content_length]
        omega), List.getElem_take, content_getElem]
    . rw [if_pos (by omega)]
      by_cases hmid : i < offset + bs.length
      . rw [List.getElem_append_left (by
          simp only [List.length_append, List.length_take, content_length]
          omega), List.getElem_append_right (by
          rw [List.length_take, content_length]
          omega), List.getD_eq_getElem _ _ (by omega)]
        congr 1
        rw [List.length_take, content_length]
        omega
      . rw [List.getD_eq_default _ _ (by omega), List.getElem_append_right (by
          simp only [List.length_append, List.length_take, content_length]
          omega), List.getElem_drop, content_getElem]
        simp only [List.length_append, List.length_take, content_length]
        congr 3
        omega

theorem straight_eq (h : b.size + 1 + LOOPBUFUNIT < 2 ^ 31)
    : ∃ b', b.straight = some b' ∧ b'.content = b.content ∧ b'.blockSize = b'.size := by
  have hnew : (new LOOPBUFUNIT).size = 0 := by
    rw [← content_length, content_new]
    rfl
  obtain ⟨t, ht, hcontent, hroom⟩ := guarantee_eq (b := new LOOPBUFUNIT) (n := b.size) (by
    rw [hnew]
    omega)
  have hempty : t.size = 0 := by
    rw [← content_length, hcontent, content_new]
    rfl
  -- a new buffer starts at the start of its memory, however large it is
  have hstart : t.m_pHead = 0 ∧ t.m_pEnd = 0 := by
    have hend : t.m_pHead = 0 := by
      unfold guarantee at ht
      split at ht
      . cases ht
        rfl
      . split at ht
        . cases ht
          unfold allocate
          dsimp only
          split <;> rfl
        . cases ht
    rw [size_eq, hend] at hempty
    refine ⟨hend, ?_⟩
    rw [if_neg (Nat.not_lt_zero _)] at hempty
    omega
  have hmoved : (b.moveTo b.size).1 = b.content := by
    rw [(b.moveTo_eq b.size).1, List.take_of_length_le (by simp)]
  have hfits : b.size ≤ t.contiguous := by
    unfold contiguous
    unfold available at hroom
    rw [hstart.1, hstart.2] at hroom ⊢
    rw [if_neg (Nat.lt_irrefl 0)] at hroom ⊢
    rw [if_pos rfl]
    omega
  have hused := @content_store_used t b.content (by
    rw [content_length]
    exact hfits)
  rw [content_length, hcontent, content_new, List.nil_append, hstart.2] at hused
  refine ⟨(t.store 0 b.content).used b.size, ?_, hused, blockSize_eq hstart.1⟩
  unfold straight
  rw [ht, hmoved]
  show some ((t.used b.size).store (t.used b.size).m_pHead b.content) = _
  rw [show (t.used b.size).m_pHead = 0 from hstart.1]
  rfl

end LoopBuf

inductive LoopOp where
  | append (bs : List UInt8)
  | fill (bs : List UInt8)
  | pop_front (n : Nat)
  | pop_back (n : Nat)
  | moveTo (n : Nat)
  | reserve (n : Nat)
  | guarantee (n : Nat)
  | straight
  | update (offset : Nat) (bs : List UInt8)
  | clear

namespace LoopBuf

def step (b : LoopBuf) : LoopOp → Option (LoopBuf × List UInt8)
  | .append bs => (b.append bs).map (·, [])
  | .fill bs => some ((b.store b.m_pEnd bs).used bs.length, [])
  | .pop_front n => some (b.pop_front n, [])
  | .pop_back n => some (b.pop_back n, [])
  | .moveTo n => some ((b.moveTo n).2, (b.moveTo n).1)
  | .reserve n => some (b.reserve n, [])
  | .guarantee n => (b.guarantee n).map (·, [])
  | .straight => b.straight.map (·, [])
  | .update offset bs => some (b.update offset bs, [])
  | .clear => some (b.clear, [])

/--
The operations that are allowed: the sizes stay below `2 ^ 30`, what is written at `end()` lies contiguous
there and what is updated lies in the content.
-/
def Allowed (b : LoopBuf) : LoopOp → Prop
  | .append bs => b.size + bs.length < 2 ^ 30
  | .fill bs => bs.length ≤ b.contiguous ∧ b.size + bs.length < 2 ^ 30
  | .reserve n => 0 < n ∧ n < 2 ^ 30
  | .guarantee n => b.size + n < 2 ^ 30
  | .straight => b.size < 2 ^ 30
  | .update offset bs => offset + bs.length ≤ b.size
  | _ => True

instance (b : LoopBuf) (op : LoopOp) : Decidable (b.Allowed op) := by
  cases op <;> unfold Allowed <;> infer_instance

def steps (b : LoopBuf) : List LoopOp → Option (LoopBuf × List UInt8)
  | [] => some (b, [])
  | op :: ops => do
    let (b, out) ← b.step op
    let (b, rest) ← b.steps ops
    return (b, out ++ rest)

def AllowedAll (b : LoopBuf) : List LoopOp → Prop
  | [] => True
  | op :: ops => b.Allowed op ∧
    match b.step op with
    | none => True
    | some r => r.1.AllowedAll ops

instance AllowedAll.decidable (b : LoopBuf) (ops : List LoopOp) : Decidable (b.AllowedAll ops) :=
  match ops with
  | [] => inferInstanceAs (Decidable True)
  | op :: ops => by
    unfold AllowedAll
    split
    . infer_instance
    . rename_i r _
      have := AllowedAll.decidable r.1 ops
      infer_instance

def fifo (l : List UInt8) : LoopOp → List UInt8 × List UInt8
  | .append bs => (l ++ bs, [])
  | .fill bs => (l ++ bs, [])
  | .pop_front n => (l.drop n, [])
  | .pop_back n => (l.take (l.length - n), [])
  | .moveTo n => (l.drop n, l.take n)
  | .update offset bs => (l.take offset ++ bs ++ l.drop (offset + bs.length), [])
  | .clear => ([], [])
  | _ => (l, [])

def fifos (l : List UInt8) : List LoopOp → List UInt8 × List UInt8
  | [] => (l, [])
  | op :: ops => (fifos (fifo l op).1 ops).map id ((fifo l op).2 ++ ·)

theorem step_spec {b : LoopBuf} {op : LoopOp} (h : b.Allowed op)
    : ∃ r, b.step op = some r ∧ (r.1.content, r.2) = fifo b.content op ∧
      (op = .straight → r.1.blockSize = r.1.size) := by
  cases op with
  | append bs =>
    have hlt : b.size + bs.length < 2 ^ 30 := h
    obtain ⟨b', hb', hcontent⟩ := @append_eq b bs (by
      unfold LOOPBUFUNIT
      omega)
    refine ⟨(b', []), ?_, ?_, nofun⟩
    . rw [step, hb']
      rfl
    . rw [hcontent]
      rfl
  | fill bs =>
    refine ⟨_, rfl, ?_, nofun⟩
    rw [content_store_used h.1]
    rfl
  | pop_front n =>
    refine ⟨_, rfl, ?_, nofun⟩
    rw [content_pop_front]
    rfl
  | pop_back n =>
    refine ⟨_, rfl, ?_, nofun⟩
    rw [content_pop_back, ← content_length]
    rfl
  | moveTo n =>
    refine ⟨_, rfl, ?_, nofun⟩
    rw [(b.moveTo_eq n).1, (b.moveTo_eq n).2]
    rfl
  | reserve n =>
    refine ⟨_, rfl, ?_, nofun⟩
    rw [reserve, content_allocate]
    rfl
  | guarantee n =>
    have hlt : b.size + n < 2 ^ 30 := h
    obtain ⟨b', hb', hcontent, -⟩ := guarantee_eq (b := b) (n := n) (by
      unfold LOOPBUFUNIT
      omega)
    refine ⟨(b', []), ?_, ?_, nofun⟩
    . rw [step, hb']
      rfl
    . rw [hcontent]
      rfl
  | straight =>
    have hlt : b.size < 2 ^ 30 := h
    obtain ⟨b', hb', hcontent, hblock⟩ := straight_eq (b := b) (by
      unfold LOOPBUFUNIT
      omega)
    refine ⟨(b', []), ?_, ?_, fun _ => hblock⟩
    . rw [step, hb']
      rfl
    . rw [hcontent]
      rfl
  | update offset bs =>
    refine ⟨_, rfl, ?_, nofun⟩
    rw [content_update h]
    rfl
  | clear =>
    refine ⟨_, rfl, ?_, nofun⟩
    rw [content_clear]
    rfl

theorem steps_spec {b : LoopBuf} {ops : List LoopOp} (h : b.AllowedAll ops)
    : ∃ r, b.steps ops = some r ∧ (r.1.content, r.2) = fifos b.content ops := by
  induction ops generalizing b with
  | nil => exact ⟨(b, []), rfl, rfl⟩
  | cons op ops ih =>
    obtain ⟨r, hr, hfifo, -⟩ := step_spec h.1
    have hrest := h.2
    rw [hr] at hrest
    obtain ⟨r', hr', hfifos⟩ := ih hrest
    refine ⟨(r'.1, r.2 ++ r'.2), ?_, ?_⟩
    . rw [steps, hr]
      show (r.1.steps ops).bind _ = _
      rw [hr']
      rfl
    . rw [fifos, ← hfifo, ← hfifos]
      rfl

theorem straight_steps {b : LoopBuf} {ops : List LoopOp} (h : b.AllowedAll (ops ++ [.straight]))
    : ∃ r, b.steps (ops ++ [.straight]) = some r ∧ r.1.blockSize = r.1.size := by
  induction ops generalizing b with
  | nil =>
    obtain ⟨r, hr, -, hblock⟩ := step_spec h.1
    refine ⟨(r.1, r.2 ++ []), ?_, hblock rfl⟩
    show ((b.step .straight).bind _) = _
    rw [hr]
    rfl
  | cons op ops ih =>
    obtain ⟨r, hr, -⟩ := step_spec h.1
    have hrest := h.2
    rw [hr] at hrest
    obtain ⟨r', hr', hblock⟩ := ih hrest
    refine ⟨(r'.1, r.2 ++ r'.2), ?_, hblock⟩
    rw [List.cons_append, steps, hr]
    show (r.1.steps (ops ++ [.straight])).bind _ = _
    rw [hr']
    rfl

/--
A sequence of operations on a new buffer is the same sequence on the empty list, the observers show the
list, and what `straight` leaves is one block.
-/
theorem fifo_steps (size : Nat) (ops : List LoopOp) (h : (new size).AllowedAll ops)
    : ∃ b out, (new size).steps ops = some (b, out) ∧ fifos [] ops = (b.content, out) ∧ b.Shows b.content ∧
      ∀ ops', ops = ops' ++ [.straight] → b.blockSize = b.size := by
  obtain ⟨⟨b, out⟩, hsteps, hfifos⟩ := steps_spec h
  rw [content_new] at hfifos
  refine ⟨b, out, hsteps, hfifos.symm, b.shows_content, ?_⟩
  rintro ops' rfl
  obtain ⟨r, hr, hblock⟩ := straight_steps h
  rw [hsteps] at hr
  cases hr
  exact hblock

def sampleOps : List LoopOp :=
  [.append (List.replicate 120 1), .pop_front 118, .append [2, 3, 4, 5, 6, 7, 8, 9, 10], .update 1 [20, 21],
    .pop_back 2, .moveTo 1, .fill [11], .reserve 200]

theorem fifo_steps_sample
    : ∃ b, (new 64).steps (sampleOps ++ [.straight]) = some (b, [1]) ∧
      b.content = [20, 21, 3, 4, 5, 6, 7, 8, 11] ∧ b.blockSize = 9 := by
  obtain ⟨b, out, hsteps, hfifos, hshows, hblock⟩ := fifo_steps 64 (sampleOps ++ [.straight]) (by decide +kernel)
  have hlist : fifos [] (sampleOps ++ [.straight]) = ([20, 21, 3, 4, 5, 6, 7, 8, 11], [1]) := by decide +kernel
  rw [hlist] at hfifos
  obtain ⟨hcontent, rfl⟩ := Prod.mk.inj hfifos
  refine ⟨b, hsteps, hcontent.symm, ?_⟩
  rw [hblock _ rfl, hshows.size, ← hcontent]
  rfl

end LoopBuf

end Lsmcd
