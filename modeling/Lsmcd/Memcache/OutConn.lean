import Lsmcd.Util.LoopBuf

/-!
The output of a client connection (`memcacheconn.cpp`): `SendBuff`, `appendOutput`, `Flush` and `onWrite` over
a socket that takes any prefix, asks to wait or fails for good.
-/

namespace Lsmcd

inductive OutConn.ConnState where
  | CS_DISCONNECTED
  | CS_CONNECTING
  | CS_CONNECTED
  | CS_CLOSING
  | CS_SHUTDOWN
  | CS_CLOSED
  deriving DecidableEq

/--
What `write` returns: at most `n` bytes taken, or -1 with an `errno`.
-/
inductive WriteAnswer where
  | accept (n : Nat)
  | EINTR
  | EAGAIN
  | error
  deriving DecidableEq

structure OutConn where
  m_bufOutgoing : LoopBuf
  m_iConnState : OutConn.ConnState
  pollOut : Bool
  accepted : List UInt8
  failed : Bool
  answers : List WriteAnswer

inductive OutOp where
  | SendBuff (msg : List UInt8)
  | appendOutput (msg : List UInt8)
  | Flush
  | onWrite

def OutOp.msg : OutOp → List UInt8
  | .SendBuff msg => msg
  | .appendOutput msg => msg
  | _ => []

namespace OutConn

def open_ (answers : List WriteAnswer) : OutConn where
  m_bufOutgoing := .new LOOPBUFUNIT
  m_iConnState := .CS_CONNECTED
  pollOut := true
  accepted := []
  failed := false
  answers := answers

def continueWrite (c : OutConn) : OutConn :=
  { c with pollOut := true }

def suspendWrite (c : OutConn) : OutConn :=
  { c with pollOut := false }

def writeLoop (c : OutConn) (msg : List UInt8) : List WriteAnswer → OutConn × Nat
  | [] => ({ c with answers := [] }, 0)
  | .EINTR :: as => c.writeLoop msg as
  | .EAGAIN :: as => ({ c with answers := as }, 0)
  | .error :: as => ({ c with answers := as, failed := true, m_iConnState := .CS_CLOSING }, 0)
  | .accept n :: as => ({ c with answers := as, accepted := c.accepted ++ msg.take n }, (msg.take n).length)

def SendEx (c : OutConn) (msg : List UInt8) : OutConn × Nat :=
  if msg = [] then (c, 0) else c.writeLoop msg c.answers

def pop (c : OutConn) (n : Nat) : OutConn :=
  { c with m_bufOutgoing := c.m_bufOutgoing.pop_front n }

def append (c : OutConn) (msg : List UInt8) : Option OutConn :=
  (c.m_bufOutgoing.append msg).map fun b => { c with m_bufOutgoing := b }

def SendBuff (c : OutConn) (msg : List UInt8) : Option OutConn :=
  let r := if c.m_bufOutgoing.empty then c.SendEx msg else (c, 0)
  if r.2 < msg.length then
    (r.1.append (msg.drop r.2)).map fun c => { c.continueWrite with m_iConnState := .CS_CONNECTED }
  else some (if 0 < r.2 then { r.1 with m_iConnState := .CS_CONNECTED } else r.1)

def flushLoop : Nat → OutConn → OutConn
  | 0, c => c.suspendWrite
  | n + 1, c =>
    if c.m_bufOutgoing.empty then c.suspendWrite
    else
      let r := c.SendEx (c.m_bufOutgoing.peek c.m_bufOutgoing.blockSize)
      if 0 < r.2 then flushLoop n (r.1.pop r.2) else r.1.continueWrite

def Flush (c : OutConn) : OutConn :=
  flushLoop c.m_bufOutgoing.size c

def appendOutput (c : OutConn) (msg : List UInt8) : Option OutConn :=
  if 4096 < c.m_bufOutgoing.size then
    let c := c.Flush
    if c.m_bufOutgoing.empty ∧ 1024 < msg.length then c.SendBuff msg else c.append msg
  else c.append msg

/--
A connection that is open is not in the state `CS_CONNECTING`.
-/
def onWrite (c : OutConn) : OutConn :=
  if c.m_bufOutgoing.empty then c.suspendWrite else c.Flush

def step (c : OutConn) : OutOp → Option OutConn
  | .SendBuff msg => c.SendBuff msg
  | .appendOutput msg => c.appendOutput msg
  | .Flush => some c.Flush
  | .onWrite => some c.onWrite

structure After (c : OutConn) (op : OutOp) (given : List UInt8) : Prop where
  order : c.accepted ++ c.m_bufOutgoing.content = given
  interest : (∀ msg, op ≠ .appendOutput msg) → c.m_bufOutgoing.content ≠ [] → c.failed = false → c.pollOut = true
  closing : c.failed = true → c.m_iConnState ≠ .CS_CONNECTED

def Correct (c : OutConn) (given : List UInt8) : List OutOp → Prop
  | [] => True
  | op :: ops =>
    match c.step op with
    | none => False
    | some c' => c'.After op (given ++ op.msg) ∧ c'.Correct (given ++ op.msg) ops

def All (p : OutConn → OutOp → Prop) (c : OutConn) : List OutOp → Prop
  | [] => True
  | op :: ops => p c op ∧
    match c.step op with
    | none => True
    | some c' => c'.All p ops

def Roomy (c : OutConn) (op : OutOp) : Prop :=
  op.msg.length + c.m_bufOutgoing.size + 1 + LOOPBUFUNIT < 2 ^ 31

def writeFails (c : OutConn) : Bool :=
  (c.answers.find? (· ≠ .EINTR)) = some .error

def direct (c : OutConn) : OutOp → Option (OutConn × List UInt8)
  | .SendBuff msg => some (c, msg)
  | .appendOutput msg =>
    if 4096 < c.m_bufOutgoing.size ∧ c.Flush.m_bufOutgoing.empty ∧ 1024 < msg.length then some (c.Flush, msg)
    else none
  | _ => none

/--
A message that is sent is not sent when a write has failed for good, nor does its own write fail so. An empty one
is not sent while bytes wait that no write was asked for.
-/
def Sound (c : OutConn) (op : OutOp) : Prop :=
  match c.direct op with
  | none => True
  | some (c, msg) =>
    if msg = [] then c.m_bufOutgoing.empty = false → c.failed = false → c.pollOut = true
    else c.failed = false ∧ (c.m_bufOutgoing.empty = true → c.writeFails = false)

instance (c : OutConn) (op : OutOp) : Decidable (c.Roomy op) := inferInstanceAs (Decidable (_ < _))

instance (c : OutConn) (op : OutOp) : Decidable (c.Sound op) := by
  unfold Sound
  split
  . infer_instance
  . split <;> infer_instance

variable {c : OutConn} {msg given : List UInt8}

structure Sent (c : OutConn) (msg : List UInt8) (fails : Bool) (r : OutConn × Nat) : Prop where
  buffer : r.1.m_bufOutgoing = c.m_bufOutgoing
  pollOut : r.1.pollOut = c.pollOut
  le : r.2 ≤ msg.length
  accepted : r.1.accepted = c.accepted ++ msg.take r.2
  failed : r.1.failed = (c.failed || fails)
  state : r.1.m_iConnState = if fails then .CS_CLOSING else c.m_iConnState
  none : fails = true → r.2 = 0

theorem sent_writeLoop (c : OutConn) (msg : List UInt8) (as : List WriteAnswer)
    : Sent c msg ((as.find? (· ≠ .EINTR)) = some .error) (c.writeLoop msg as) := by
  induction as with
  | nil =>
    exact ⟨rfl, rfl, Nat.zero_le _, by simp [writeLoop], by simp [writeLoop], by simp [writeLoop], fun _ => rfl⟩
  | cons a as ih =>
    cases a with
    | EINTR => exact ih
    | EAGAIN =>
      exact ⟨rfl, rfl, Nat.zero_le _, by simp [writeLoop], by simp [writeLoop], by simp [writeLoop], fun _ => rfl⟩
    | error =>
      exact ⟨rfl, rfl, Nat.zero_le _, by simp [writeLoop], by simp [writeLoop], by simp [writeLoop], fun _ => rfl⟩
    | accept n =>
      refine ⟨rfl, rfl, List.length_take_le' n msg, ?_, by simp [writeLoop], by simp [writeLoop], by simp⟩
      simp [writeLoop, List.take_eq_take_iff]

theorem sent_SendEx (hne : msg ≠ []) : Sent c msg c.writeFails (c.SendEx msg) := by
  unfold SendEx
  rw [if_neg hne]
  exact sent_writeLoop c msg c.answers

structure Flushed (c c' : OutConn) : Prop where
  moved : ∃ k, c'.accepted = c.accepted ++ c.m_bufOutgoing.content.take k ∧
    c'.m_bufOutgoing.content = c.m_bufOutgoing.content.drop k
  interest : c'.m_bufOutgoing.content ≠ [] → c'.pollOut = true
  closing : (c.failed = true → c.m_iConnState ≠ .CS_CONNECTED) → c'.failed = true → c'.m_iConnState ≠ .CS_CONNECTED

theorem content_eq_nil (h : c.m_bufOutgoing.empty = true) : c.m_bufOutgoing.content = [] := by
  rw [← List.length_eq_zero_iff, LoopBuf.content_length]
  exact LoopBuf.empty_iff.mp h

theorem content_ne_nil (h : ¬ c.m_bufOutgoing.empty = true) : c.m_bufOutgoing.content ≠ [] := by
  intro hnil
  apply h
  rw [LoopBuf.empty_iff, ← LoopBuf.content_length, hnil]
  rfl

theorem flushed_suspend (h : c.m_bufOutgoing.content = []) : Flushed c c.suspendWrite :=
  ⟨⟨0, by simp [suspendWrite], by simp [suspendWrite]⟩, fun hne => absurd h hne, fun hc => hc⟩

theorem flushed_loop (n : Nat) (c : OutConn) (hn : c.m_bufOutgoing.size ≤ n) : Flushed c (flushLoop n c) := by
  induction n generalizing c with
  | zero =>
    apply flushed_suspend
    rw [← List.length_eq_zero_iff, LoopBuf.content_length]
    omega
  | succ n ih =>
    unfold flushLoop
    split
    . rename_i hempty
      exact flushed_suspend (content_eq_nil hempty)
    . rename_i hempty
      have hne := content_ne_nil hempty
      have hpeek := LoopBuf.peek_eq (b := c.m_bufOutgoing) (Nat.le_refl _)
      have hblock : c.m_bufOutgoing.peek c.m_bufOutgoing.blockSize ≠ [] := by
        have hpos : 0 < c.m_bufOutgoing.blockSize :=
          LoopBuf.blockSize_pos (Nat.pos_of_ne_zero fun hz => hempty (LoopBuf.empty_iff.mpr hz))
        rw [hpeek]
        intro hnil
        rcases List.take_eq_nil_iff.mp hnil with hz | hz
        . omega
        . exact hne hz
      have hsent := sent_SendEx (c := c) hblock
      rw [hpeek] at hsent ⊢
      generalize c.SendEx (c.m_bufOutgoing.content.take c.m_bufOutgoing.blockSize) = r at *
      have hle := hsent.le
      rw [List.length_take] at hle
      dsimp only
      split
      . rename_i hpos
        have hcontent : (r.1.pop r.2).m_bufOutgoing.content = c.m_bufOutgoing.content.drop r.2 := by
          show (r.1.m_bufOutgoing.pop_front r.2).content = _
          rw [hsent.buffer, LoopBuf.content_pop_front]
        have hsize : (r.1.pop r.2).m_bufOutgoing.size ≤ n := by
          rw [← LoopBuf.content_length, hcontent, List.length_drop, LoopBuf.content_length]
          omega
        obtain ⟨⟨k, hacc, hleft⟩, hint, hclose⟩ := ih _ hsize
        refine ⟨⟨r.2 + k, ?_, ?_⟩, hint, fun hc => hclose ?_⟩
        . rw [hacc, hcontent]
          show r.1.accepted ++ _ = _
          rw [hsent.accepted, List.take_take, Nat.min_eq_left (by omega), List.take_add, List.append_assoc]
        . rw [hleft, hcontent, List.drop_drop]
        . intro hfail
          have hno : c.writeFails = false := by
            cases hw : c.writeFails with
            | false => rfl
            | true => exact absurd (hsent.none hw) (Nat.ne_of_gt hpos)
          change r.1.failed = true at hfail
          show r.1.m_iConnState ≠ _
          rw [hsent.failed, hno, Bool.or_false] at hfail
          rw [hsent.state, hno, if_neg Bool.false_ne_true]
          exact hc hfail
      . rename_i hzero
        have hz : r.2 = 0 := Nat.eq_zero_of_not_pos hzero
        refine ⟨⟨0, ?_, ?_⟩, fun _ => rfl, ?_⟩
        . show r.1.accepted = _
          rw [hsent.accepted, hz, List.take_zero, List.take_zero]
        . show r.1.m_bufOutgoing.content = _
          rw [hsent.buffer, List.drop_zero]
        . intro hc hfail
          change r.1.failed = true at hfail
          show r.1.m_iConnState ≠ _
          rw [hsent.state]
          split
          . exact ConnState.noConfusion
          . rename_i hno
            rw [hsent.failed, Bool.eq_false_iff.mpr hno, Bool.or_false] at hfail
            exact hc hfail

theorem flushed (c : OutConn) : Flushed c c.Flush := flushed_loop _ c (Nat.le_refl _)

theorem append_spec (hroom : msg.length + c.m_bufOutgoing.size + 1 + LOOPBUFUNIT < 2 ^ 31)
    : ∃ b, c.append msg = some { c with m_bufOutgoing := b } ∧ b.content = c.m_bufOutgoing.content ++ msg := by
  obtain ⟨b, hb, hcontent⟩ := LoopBuf.append_eq hroom
  refine ⟨b, ?_, hcontent⟩
  unfold append
  rw [hb]
  rfl

structure Inv (c : OutConn) (given : List UInt8) : Prop where
  order : c.accepted ++ c.m_bufOutgoing.content = given
  closing : c.failed = true → c.m_iConnState ≠ .CS_CONNECTED

theorem Inv.SendBuff_ne (h : c.Inv given) (hne : msg ≠ [])
    (hroom : msg.length + c.m_bufOutgoing.size + 1 + LOOPBUFUNIT < 2 ^ 31)
    : ∃ c', c.SendBuff msg = some c' ∧ (c'.m_bufOutgoing.content ≠ [] → c'.pollOut = true) ∧
      (c'.Inv (given ++ msg) ↔ c.failed = false ∧ (c.m_bufOutgoing.empty = true → c.writeFails = false)) := by
  have hpos : 0 < msg.length := List.length_pos_iff.mpr hne
  -- the state is CS_CONNECTED afterwards, so that the invariant says that no write has failed
  have hiff : ∀ {d : OutConn}, d.m_iConnState = .CS_CONNECTED →
      d.accepted ++ d.m_bufOutgoing.content = given ++ msg → (d.Inv (given ++ msg) ↔ d.failed = false) := by
    intro d hstate horder
    constructor
    . intro hd
      cases hf : d.failed with
      | false => rfl
      | true => exact absurd hstate (hd.closing hf)
    . intro hf
      refine ⟨horder, fun ht => ?_⟩
      rw [hf] at ht
      cases ht
  unfold OutConn.SendBuff
  dsimp only
  by_cases hempty : c.m_bufOutgoing.empty = true
  . rw [if_pos hempty]
    have hcontent := content_eq_nil hempty
    have hsent := sent_SendEx (c := c) hne
    have horder := h.order
    rw [hcontent, List.append_nil] at horder
    generalize c.SendEx msg = r at *
    obtain ⟨d, n⟩ := r
    obtain ⟨hbuffer, -, hle, hacc, hfailed, -, hnone⟩ := hsent
    dsimp only at *
    have hcond : d.failed = false ↔ c.failed = false ∧ (c.m_bufOutgoing.empty = true → c.writeFails = false) := by
      rw [hfailed, Bool.or_eq_false_iff]
      exact ⟨fun hd => ⟨hd.1, fun _ => hd.2⟩, fun hd => ⟨hd.1, hd.2 hempty⟩⟩
    rw [← hcond]
    by_cases hall : n < msg.length
    . rw [if_pos hall]
      have hfits : (msg.drop n).length + d.m_bufOutgoing.size + 1 + LOOPBUFUNIT < 2 ^ 31 := by
        rw [hbuffer, List.length_drop]
        omega
      obtain ⟨b, hb, hcontent'⟩ := append_spec hfits
      rw [hb]
      refine ⟨_, rfl, fun _ => rfl, hiff rfl ?_⟩
      show d.accepted ++ b.content = _
      rw [hcontent', hbuffer, hcontent, hacc, horder, List.nil_append, List.append_assoc, List.take_append_drop]
    . rw [if_neg hall, if_pos (by omega)]
      have hnil : d.m_bufOutgoing.content = [] := by
        rw [hbuffer]
        exact hcontent
      refine ⟨_, rfl, fun hleft => absurd hnil hleft, hiff rfl ?_⟩
      show d.accepted ++ d.m_bufOutgoing.content = _
      rw [hnil, List.append_nil, hacc, horder, List.take_of_length_le (by omega)]
  . rw [if_neg hempty, if_pos hpos, List.drop_zero]
    obtain ⟨b, hb, hcontent⟩ := append_spec hroom
    rw [hb]
    refine ⟨_, rfl, fun _ => rfl, (hiff rfl ?_).trans ?_⟩
    . show c.accepted ++ b.content = _
      rw [hcontent, ← List.append_assoc, h.order]
    . exact ⟨fun hf => ⟨hf, fun he => absurd he hempty⟩, fun hf => hf.1⟩

theorem SendBuff_nil (c : OutConn) : c.SendBuff [] = some c := by
  have hsend : (if c.m_bufOutgoing.empty = true then c.SendEx [] else (c, 0)) = (c, 0) := by
    unfold SendEx
    rw [if_pos rfl, ite_self]
  unfold OutConn.SendBuff
  rw [hsend]
  rfl

theorem Inv.SendBuff (h : c.Inv given) (hroom : msg.length + c.m_bufOutgoing.size + 1 + LOOPBUFUNIT < 2 ^ 31)
    : ∃ c', c.SendBuff msg = some c' ∧ (c'.After (.SendBuff msg) (given ++ msg) ↔ c.Sound (.SendBuff msg)) := by
  unfold Sound direct
  dsimp only
  by_cases hnil : msg = []
  . subst hnil
    rw [if_pos rfl]
    refine ⟨c, SendBuff_nil c, ?_, ?_⟩
    . intro ha hempty hfail
      exact ha.interest (fun _ => OutOp.noConfusion) (content_ne_nil (by simp [hempty])) hfail
    . intro hs
      refine ⟨by rw [List.append_nil]; exact h.order, fun _ hne hfail => hs ?_ hfail, h.closing⟩
      cases hempty : c.m_bufOutgoing.empty with
      | false => rfl
      | true => exact absurd (content_eq_nil hempty) hne
  . rw [if_neg hnil]
    obtain ⟨c', hc', hint, hiff⟩ := h.SendBuff_ne hnil hroom
    refine ⟨c', hc', ?_⟩
    rw [← hiff]
    exact ⟨fun ha => ⟨ha.order, ha.closing⟩, fun hi => ⟨hi.order, fun _ hne _ => hint hne, hi.closing⟩⟩

theorem After.inv {op : OutOp} (h : c.After op given) : c.Inv given := ⟨h.order, h.closing⟩

theorem Inv.Flush (h : c.Inv given) : c.Flush.Inv given := by
  obtain ⟨⟨k, hacc, hleft⟩, -, hclose⟩ := flushed c
  refine ⟨?_, hclose h.closing⟩
  rw [hacc, hleft, List.append_assoc, List.take_append_drop, h.order]

theorem size_Flush (c : OutConn) : c.Flush.m_bufOutgoing.size ≤ c.m_bufOutgoing.size := by
  obtain ⟨⟨k, -, hleft⟩, -, -⟩ := flushed c
  rw [← LoopBuf.content_length, hleft, List.length_drop, LoopBuf.content_length]
  omega

theorem Inv.append (h : c.Inv given) (hroom : msg.length + c.m_bufOutgoing.size + 1 + LOOPBUFUNIT < 2 ^ 31)
    : ∃ c', c.append msg = some c' ∧ c'.After (.appendOutput msg) (given ++ msg) := by
  obtain ⟨b, hb, hcontent⟩ := append_spec hroom
  refine ⟨_, hb, ?_, fun ho => absurd rfl (ho msg), h.closing⟩
  show c.accepted ++ b.content = _
  rw [hcontent, ← List.append_assoc, h.order]

theorem Inv.step {op : OutOp} (h : c.Inv given) (hroom : c.Roomy op)
    : ∃ c', c.step op = some c' ∧ (c'.After op (given ++ op.msg) ↔ c.Sound op) := by
  cases op with
  | SendBuff msg => exact h.SendBuff hroom
  | appendOutput msg =>
    have hsize := size_Flush c
    have hroom' : msg.length + c.m_bufOutgoing.size + 1 + LOOPBUFUNIT < 2 ^ 31 := hroom
    unfold OutConn.step OutConn.appendOutput
    dsimp only
    by_cases hbig : 4096 < c.m_bufOutgoing.size
    . rw [if_pos hbig]
      by_cases hdirect : c.Flush.m_bufOutgoing.empty = true ∧ 1024 < msg.length
      . rw [if_pos hdirect]
        have hne : msg ≠ [] := by
          rintro rfl
          exact absurd hdirect.2 (by decide)
        obtain ⟨c', hc', -, hiff⟩ := h.Flush.SendBuff_ne hne (by omega)
        refine ⟨c', hc', ?_⟩
        unfold Sound direct
        dsimp only
        rw [if_pos ⟨hbig, hdirect⟩]
        dsimp only
        rw [if_neg hne, ← hiff]
        exact ⟨fun ha => ⟨ha.order, ha.closing⟩, fun hi => ⟨hi.order, fun ho => absurd rfl (ho msg), hi.closing⟩⟩
      . rw [if_neg hdirect]
        obtain ⟨c', hc', ha⟩ := h.Flush.append (show msg.length + _ + 1 + LOOPBUFUNIT < 2 ^ 31 by omega)
        refine ⟨c', hc', fun _ => ?_, fun _ => ha⟩
        unfold Sound direct
        dsimp only
        rw [if_neg fun hc => hdirect hc.2]
        trivial
    . rw [if_neg hbig]
      obtain ⟨c', hc', ha⟩ := h.append hroom'
      refine ⟨c', hc', fun _ => ?_, fun _ => ha⟩
      unfold Sound direct
      dsimp only
      rw [if_neg fun hc => hbig hc.1]
      trivial
  | Flush =>
    refine ⟨c.Flush, rfl, fun _ => trivial, fun _ => ?_⟩
    rw [show OutOp.Flush.msg = [] from rfl, List.append_nil]
    exact ⟨h.Flush.order, fun _ hne _ => (flushed c).interest hne, h.Flush.closing⟩
  | onWrite =>
    refine ⟨c.onWrite, rfl, fun _ => trivial, fun _ => ?_⟩
    rw [show OutOp.onWrite.msg = [] from rfl, List.append_nil]
    unfold OutConn.onWrite
    split
    . rename_i hempty
      exact ⟨h.order, fun _ hne _ => absurd (content_eq_nil hempty) hne, h.closing⟩
    . exact ⟨h.Flush.order, fun _ hne _ => (flushed c).interest hne, h.Flush.closing⟩

theorem Inv.correct_iff {ops : List OutOp} (h : c.Inv given) (hroom : c.All Roomy ops)
    : c.Correct given ops ↔ c.All Sound ops := by
  induction ops generalizing c given with
  | nil => exact Iff.rfl
  | cons op ops ih =>
    obtain ⟨c', hc', hiff⟩ := h.step hroom.1
    have hrest := hroom.2
    unfold Correct All
    rw [hc'] at hrest ⊢
    dsimp only at hrest ⊢
    rw [← hiff]
    constructor
    . rintro ⟨ha, hcorrect⟩
      exact ⟨ha, (ih ha.inv hrest).mp hcorrect⟩
    . rintro ⟨ha, hall⟩
      exact ⟨ha, (ih ha.inv hrest).mpr hall⟩

theorem inv_open (answers : List WriteAnswer) : (open_ answers).Inv [] where
  order := by
    show [] ++ (LoopBuf.new LOOPBUFUNIT).content = []
    rw [LoopBuf.content_new]
    rfl
  closing h := by cases h

theorem correct_open_iff (answers : List WriteAnswer) (ops : List OutOp) (hroom : (open_ answers).All Roomy ops)
    : (open_ answers).Correct [] ops ↔ (open_ answers).All Sound ops :=
  (inv_open answers).correct_iff hroom

instance All.decidable (p : OutConn → OutOp → Prop) [∀ c op, Decidable (p c op)] (c : OutConn) (ops : List OutOp)
    : Decidable (c.All p ops) :=
  match ops with
  | [] => inferInstanceAs (Decidable True)
  | op :: ops => by
    unfold All
    split
    . infer_instance
    . rename_i c' _
      have := All.decidable p c' ops
      infer_instance

theorem correct_open_sample
    : (open_ [.accept 2, .EAGAIN, .EINTR, .accept 1, .accept 9]).Correct []
        [.SendBuff [1, 2, 3, 4], .appendOutput [5], .onWrite, .onWrite, .SendBuff [6]] :=
  (correct_open_iff _ _ (by decide +kernel)).mpr (by decide +kernel)

/--
The write of the first message fails for good and the state is `CS_CONNECTED` afterwards.
-/
theorem not_correct_open : ¬ ∀ (answers : List WriteAnswer) (ops : List OutOp), (open_ answers).Correct [] ops := by
  intro hall
  have h := hall [.error] [.SendBuff [1]]
  obtain ⟨c', hc'⟩ : ∃ c', (open_ [.error]).step (.SendBuff [1]) = some c' := Option.isSome_iff_exists.mp (by decide +kernel)
  unfold Correct at h
  rw [hc'] at h
  have hstate : ((open_ [.error]).step (.SendBuff [1])).map (fun c => (c.failed, c.m_iConnState)) =
      some (true, .CS_CONNECTED) := by decide +kernel
  rw [hc'] at hstate
  obtain ⟨hfail, hconn⟩ := Prod.mk.inj (Option.some.inj hstate)
  exact h.1.closing hfail hconn

end OutConn

end Lsmcd
