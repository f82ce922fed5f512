import Lsmcd.Util.AutoBuf

/-!
The time slots that are still to be sent to a peer (`replprgrsstrkr.cpp`), and how they are taken
from a list of differences (`bulkreplctx.cpp`).
-/

namespace Lsmcd

open Packed

namespace AutoBuf

def append32 (b : AutoBuf) (v : UInt32) : AutoBuf :=
  b.appended (u32.encode v) 4

theorem append32_eq (b : AutoBuf) (v : UInt32)
    : b.append32 v = b.appended (u32.encode v) (toInt (u32.encode v).length) := by
  have h4 : toInt (u32.encode v).length = 4 := by
    rw [length_encode, width_u32, toInt_of_lt (by decide)]
    rfl
  rw [append32, h4]

def append32s (b : AutoBuf) (vs : List UInt32) : AutoBuf :=
  b.appendAll (vs.map u32.encode)

@[simp]
theorem append32s_nil (b : AutoBuf) : b.append32s [] = b := rfl

theorem append32s_cons (b : AutoBuf) (v : UInt32) (vs : List UInt32)
    : b.append32s (v :: vs) = (b.append32 v).append32s vs := by
  unfold append32s
  rw [List.map_cons, appendAll_cons, append32_eq]

theorem flatten_map_encode (vs : List UInt32) : (vs.map u32.encode).flatten = u32.encodes vs := by
  rw [encodes, List.flatMap_def]

theorem content_append32s {b : AutoBuf} {vs : List UInt32} (hb : b.Paged)
    (h : b.Room (vs.length * 4)) : (b.append32s vs).content = b.content ++ u32.encodes vs := by
  rw [append32s, content_appendAll hb, flatten_map_encode]
  rw [flatten_map_encode, length_encodes, width_u32]
  exact h

theorem paged_append32s {b : AutoBuf} (hb : b.Paged) (vs : List UInt32) : (b.append32s vs).Paged :=
  paged_appendAll hb _

end AutoBuf

/--
`m_cont2TmSlotMap`, a hash with the container ids as its keys.
-/
structure ReplProgressTrker where
  m_cont2TmSlotMap : UInt32 → Option AutoBuf

namespace ReplProgressTrker

def new : ReplProgressTrker := ⟨fun _ => none⟩

variable (t : ReplProgressTrker)

def get (id : UInt32) : Option AutoBuf := t.m_cont2TmSlotMap id

def set (id : UInt32) (b : Option AutoBuf) : ReplProgressTrker :=
  ⟨Function.update t.m_cont2TmSlotMap id b⟩

def setReplDone (contId : UInt32) : ReplProgressTrker := t.set contId none

def isReplDone (contId : UInt32) : Bool := (t.get contId).isNone

@[simp]
theorem get_new (id : UInt32) : new.get id = none := rfl

theorem get_set_self (id : UInt32) (b : Option AutoBuf) : (t.set id b).get id = b :=
  Function.update_self ..

theorem get_set_of_ne {id id' : UInt32} (h : id' ≠ id) (b : Option AutoBuf)
    : (t.set id b).get id' = t.get id' :=
  Function.update_of_ne h ..

/--
The loop of `addBReplTmSlot`, each time is noted minus one.
-/
def noteTms : Nat → List UInt8 → AutoBuf → Option AutoBuf
  | 0, _, b => some b
  | n + 1, pTmBuf, b => do
    let (tm, pTmBuf) ← u32.read pTmBuf
    noteTms n pTmBuf (b.append32 (tm - 1))

/--
None is a failed assertion or a read behind the end of `pTmBuf`.
-/
def addBReplTmSlot (contId : UInt32) (pTmBuf : List UInt8) (tmCnt : Int) : Option ReplProgressTrker :=
  match t.get contId with
  | some _ => none
  | none => (noteTms tmCnt.toNat pTmBuf AutoBuf.new).map fun b => t.set contId b

theorem noteTms_encodes (tms : List UInt32) (rest : List UInt8) (b : AutoBuf)
    : noteTms tms.length (u32.encodes tms ++ rest) b = some (b.append32s (tms.map (· - 1))) := by
  induction tms generalizing b with
  | nil => rfl
  | cons tm tms ih =>
    rw [List.length_cons, noteTms, encodes_cons, List.append_assoc, read_encode]
    exact (ih (b.append32 (tm - 1))).trans (by rw [List.map_cons, AutoBuf.append32s_cons])

def slotBuf (tms : List UInt32) : AutoBuf := AutoBuf.new.append32s (tms.map (· - 1))

theorem addBReplTmSlot_encodes {contId : UInt32} (h : t.get contId = none) (tms : List UInt32)
    (rest : List UInt8)
    : t.addBReplTmSlot contId (u32.encodes tms ++ rest) tms.length
      = some (t.set contId (slotBuf tms)) := by
  rw [addBReplTmSlot, h]
  dsimp only
  rw [Int.toNat_natCast, noteTms_encodes]
  rfl

/--
The first and the last time that are left. None is a buffer without a time.
-/
def getBReplTmRange (contId : UInt32) : Option (UInt32 × UInt32) :=
  match t.get contId with
  | some b => do
    let (startTm, _) ← u32.read b.content
    let (endTm, _) ← u32.read (b.content.drop (b.size - 4))
    some (startTm, endTm)
  | none => some (0, 0)

def tmsBefore (tm : UInt32) : Nat → List UInt8 → Option Nat
  | 0, _ => some 0
  | n + 1, pBuf => do
    let (currTm, pBuf) ← u32.read pBuf
    if tm ≤ currTm then some 0 else (tmsBefore tm n pBuf).map (· + 1)

def advBReplTmSlot (contId tm : UInt32) : Option (Bool × ReplProgressTrker) :=
  match t.get contId with
  | none => none
  | some b => do
    let (currTm, _) ← u32.read b.content
    let cnt := b.size / 4
    if cnt = 1 ∧ currTm = tm then some (false, t)
    else
      let idx ← tmsBefore tm cnt b.content
      if idx < cnt then some (false, t.set contId (some (b.pop_front (4 * idx))))
      else some (true, t.setReplDone contId)

def Pending (contId : UInt32) (es : List UInt32) : Prop :=
  (t.get contId).map AutoBuf.content = if es = [] then none else some (u32.encodes es)

variable {t} {contId : UInt32} {es : List UInt32}

theorem pending_cons {e : UInt32} (h : t.Pending contId (e :: es))
    : ∃ b, t.get contId = some b ∧ b.content = u32.encodes (e :: es) := by
  unfold Pending at h
  rw [if_neg (List.cons_ne_nil e es), Option.map_eq_some_iff] at h
  exact h

theorem isReplDone_iff (h : t.Pending contId es) : t.isReplDone contId = decide (es = []) := by
  unfold Pending at h
  unfold isReplDone
  split at h
  . next hes =>
    rw [Option.map_eq_none_iff] at h
    rw [h, hes]
    rfl
  . next hes =>
    obtain ⟨b, hb, _⟩ := Option.map_eq_some_iff.mp h
    rw [hb, decide_eq_false hes]
    rfl

theorem tmsBefore_encodes (tm : UInt32) (es : List UInt32) (rest : List UInt8)
    : tmsBefore tm es.length (u32.encodes es ++ rest)
      = some (es.takeWhile fun e => e < tm).length := by
  induction es with
  | nil => rfl
  | cons e es ih =>
    rw [List.length_cons, tmsBefore, encodes_cons, List.append_assoc, read_encode]
    dsimp only [bind, Option.bind_some]
    rw [ih, List.takeWhile_cons]
    by_cases h : tm ≤ e
    . rw [if_pos h, if_neg]
      . rfl
      . rw [decide_eq_true_eq]
        exact UInt32.not_lt.mpr h
    . rw [if_neg h, if_pos]
      . rfl
      . rw [decide_eq_true_eq]
        exact UInt32.not_le.mp h

theorem drop_encodes (n : Nat) (es : List UInt32)
    : (u32.encodes es).drop (4 * n) = u32.encodes (es.drop n) := by
  induction n generalizing es with
  | zero => rfl
  | succ n ih =>
    cases es with
    | nil => rw [encodes_nil, List.drop_nil, List.drop_nil, encodes_nil]
    | cons e es =>
      have h4 : (u32.encode e).length = 4 := u32.length_encode e
      rw [List.drop_succ_cons, ← ih, encodes_cons, Nat.mul_succ, Nat.add_comm, ← List.drop_drop,
        List.drop_left' h4]

theorem getBReplTmRange_eq {e : UInt32} (h : t.Pending contId (e :: es))
    : t.getBReplTmRange contId = some (e, (e :: es).getLast (List.cons_ne_nil e es)) := by
  obtain ⟨b, hb, hcontent⟩ := pending_cons h
  have hsize : b.size - 4 = 4 * es.length := by
    rw [AutoBuf.size, hcontent, length_encodes, width_u32, List.length_cons]
    omega
  have hlast : (e :: es).drop es.length = [(e :: es).getLast (List.cons_ne_nil e es)] :=
    List.drop_length_cons (List.cons_ne_nil e es) e
  rw [getBReplTmRange, hb]
  dsimp only
  rw [hsize, hcontent, drop_encodes, hlast, encodes_cons, encodes_cons, read_encode, read_encode]
  rfl

theorem advBReplTmSlot_eq {e : UInt32} (h : t.Pending contId (e :: es)) (tm : UInt32)
    : ∃ done t', t.advBReplTmSlot contId tm = some (done, t') ∧
        t'.Pending contId ((e :: es).dropWhile fun e => e.toNat < tm.toNat) := by
  simp only [← UInt32.lt_iff_toNat_lt]
  obtain ⟨b, hb, hcontent⟩ := pending_cons h
  have hcnt : b.size / 4 = (e :: es).length := by
    rw [AutoBuf.size, hcontent, length_encodes, width_u32]
    omega
  have hbefore := tmsBefore_encodes tm (e :: es) []
  have hsplit := List.takeWhile_append_dropWhile (p := fun e => decide (e < tm)) (l := e :: es)
  have hlen := congrArg List.length hsplit
  rw [List.length_append] at hlen
  rw [List.append_nil] at hbefore
  unfold advBReplTmSlot
  rw [hb]
  dsimp only
  rw [hcnt, hcontent, hbefore, encodes_cons, read_encode]
  dsimp only [bind, Option.bind_some]
  split
  . next hone =>
    obtain ⟨hlone, rfl⟩ := hone
    have hnil := List.length_eq_zero_iff.mp (Nat.succ.inj hlone)
    refine ⟨false, t, rfl, ?_⟩
    rw [List.dropWhile_cons, if_neg (by simp)]
    exact h
  . split
    . next hlt =>
      refine ⟨false, _, rfl, ?_⟩
      have hne : (e :: es).dropWhile (fun e => decide (e < tm)) ≠ [] := by
        intro hnil
        rw [hnil, List.length_nil] at hlen
        omega
      have hdrop : (e :: es).drop ((e :: es).takeWhile fun e => decide (e < tm)).length
          = (e :: es).dropWhile fun e => decide (e < tm) := by
        have hleft := @List.drop_left _ ((e :: es).takeWhile fun e => decide (e < tm))
          ((e :: es).dropWhile fun e => decide (e < tm))
        rw [hsplit] at hleft
        exact hleft
      unfold Pending
      rw [get_set_self, if_neg hne, Option.map_some, AutoBuf.pop_front]
      dsimp only
      rw [hcontent, drop_encodes, hdrop]
    . next hge =>
      refine ⟨true, _, rfl, ?_⟩
      have hnil : (e :: es).dropWhile (fun e => decide (e < tm)) = [] := by
        apply List.length_eq_zero_iff.mp
        omega
      unfold Pending setReplDone
      rw [hnil, if_pos rfl, get_set_self]
      rfl

end ReplProgressTrker

end Lsmcd
