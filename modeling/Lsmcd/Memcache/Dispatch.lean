import Lsmcd.Memcache.Conn

/-!
The commands that an event makes the process dispatch, one by one.
-/

namespace Lsmcd

namespace McCall

def consume (r : McCall × Int) : McCall :=
  r.1.setBuf (r.1.conn.m_bufIncoming.drop r.2.toNat)

def toDispatch (s : McCall) : McCall :=
  { s with conn := { s.conn with m_protocol := s.cmdProtocol } }

theorem incomingLoop_succ (fuel : Nat) (s : McCall)
    : incomingLoop (fuel + 1) s =
      if s.conn.respWait then s.putWaitQ
      else if s.toDispatch.dbMismatch then s.toDispatch.setHash s.toDispatch.getHash.rebuild
      else if 0 < s.toDispatch.dispatch.2 then
        if (consume s.toDispatch.dispatch).conn.m_bufIncoming = [] then consume s.toDispatch.dispatch
        else incomingLoop fuel (consume s.toDispatch.dispatch)
      else if s.toDispatch.dispatch.2 = 0 then
        { s.toDispatch.dispatch.1 with conn := s.toDispatch.dispatch.1.conn.close }
      else s.toDispatch.dispatch.1 := rfl

/--
`P` holds before each command that the loop of `processIncoming` dispatches.
-/
def LoopMeets (P : McCall → Prop) : Nat → McCall → Prop
  | 0, _ => True
  | fuel + 1, s =>
    s.conn.respWait = false → s.toDispatch.dbMismatch = false →
      P s.toDispatch ∧ (0 < s.toDispatch.dispatch.2 →
        (consume s.toDispatch.dispatch).conn.m_bufIncoming ≠ [] →
          LoopMeets P fuel (consume s.toDispatch.dispatch))

instance LoopMeets.decidable {P : McCall → Prop} [DecidablePred P]
    : (fuel : Nat) → (s : McCall) → Decidable (LoopMeets P fuel s)
  | 0, _ => inferInstanceAs (Decidable True)
  | fuel + 1, s =>
    have := LoopMeets.decidable (P := P) fuel (consume s.toDispatch.dispatch)
    inferInstanceAs (Decidable (_ → _ → _ ∧ (_ → _ → _)))

def IncomingMeets (P : McCall → Prop) (s : McCall) : Prop :=
  match detect s.conn.m_protocol s.conn.internal s.conn.m_bufIncoming with
  | none => True
  | some (p, internal, buf) =>
    LoopMeets P (buf.length + 1)
      { s with conn := { s.conn with m_protocol := p, internal := internal, m_bufIncoming := buf } }

instance IncomingMeets.decidable {P : McCall → Prop} [DecidablePred P] (s : McCall)
    : Decidable (IncomingMeets P s) := by
  unfold IncomingMeets
  split <;> infer_instance

end McCall

namespace McWorld

def dequeue (w : McWorld) (id : Nat) : McWorld :=
  let w := { w with mc := { w.mc with link := Function.update w.mc.link id none } }
  w.setConn id { w.conn id with cmdWait := false }

theorem waitQLoop_succ (fuel : Nat) (w : McWorld) (id : Nat)
    : waitQLoop (fuel + 1) w (some id) =
      waitQLoop fuel ((w.dequeue id).processIncoming id) (w.mc.link id) := rfl

def QueueMeets (P : McCall → Prop) : Nat → McWorld → Option Nat → Prop
  | 0, _, _ => True
  | _ + 1, _, none => True
  | fuel + 1, w, some id =>
    McCall.IncomingMeets P ((w.dequeue id).call id) ∧
      QueueMeets P fuel ((w.dequeue id).processIncoming id) (w.mc.link id)

instance QueueMeets.decidable {P : McCall → Prop} [DecidablePred P]
    : (fuel : Nat) → (w : McWorld) → (p : Option Nat) → Decidable (QueueMeets P fuel w p)
  | 0, _, _ => inferInstanceAs (Decidable True)
  | _ + 1, _, none => inferInstanceAs (Decidable True)
  | fuel + 1, w, some id =>
    have := QueueMeets.decidable (P := P) fuel ((w.dequeue id).processIncoming id) (w.mc.link id)
    inferInstanceAs (Decidable (_ ∧ _))

def detachQ (w : McWorld) : McWorld :=
  { w with mc := { w.mc with m_pWaitQ := none, m_pWaitTail := none } }

def WaitQMeets (P : McCall → Prop) (w : McWorld) : Prop :=
  QueueMeets P (w.cnt + 1) w.detachQ w.mc.m_pWaitQ

def linkRecv (w : McWorld) (i : Nat) (bs : List UInt8) : McWorld :=
  let r := (w.slice i).remote
  w.setRemote i { r with m_bufIncoming := r.m_bufIncoming ++ bs }

def linkFrames (w : McWorld) (i : Nat) (bs : List UInt8) : McWorld :=
  linkLoop i (((w.slice i).remote.m_bufIncoming ++ bs).length + 1) (w.linkRecv i bs)

/--
`P` holds before each command of a client that an event makes the process dispatch.
-/
def EventMeets (P : McCall → Prop) (w : McWorld) : McEvent → Prop
  | .read id bs =>
    (w.conn id).connected = true → bs ≠ [] →
      McCall.IncomingMeets P
        ((w.setConn id { w.conn id with m_bufIncoming := (w.conn id).m_bufIncoming ++ bs }).call id)
  | .linkRead i bs =>
    (w.slice i).remote.connected = true → bs ≠ [] → (w.linkRecv i bs).linkMismatch i = false →
      WaitQMeets P (w.linkFrames i bs)
  | _ => True

instance EventMeets.decidable {P : McCall → Prop} [DecidablePred P] (w : McWorld)
    : (e : McEvent) → Decidable (EventMeets P w e)
  | .read _ _ => inferInstanceAs (Decidable (_ → _ → _))
  | .linkRead i bs =>
    have : Decidable (WaitQMeets P (w.linkFrames i bs)) := QueueMeets.decidable _ _ _
    inferInstanceAs (Decidable (_ → _ → _ → _))
  | .accept => inferInstanceAs (Decidable True)
  | .hup _ => inferInstanceAs (Decidable True)
  | .linkHup _ => inferInstanceAs (Decidable True)
  | .setSliceDst _ _ => inferInstanceAs (Decidable True)

end McWorld

end Lsmcd
