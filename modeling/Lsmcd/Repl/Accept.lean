import Mathlib.Data.List.Nodup
import Lsmcd.Repl.PacketLoop

/-!
The replication listener, the connections that it has accepted, and the map in which `SockConnMgr`
keeps them.
-/

namespace Lsmcd

open ReplPacketHeader

/--
What a read of a connection brings: the bytes that go to the input buffer (inflated ones on a
compressed link), nothing yet, the end of the stream, an error that `Read` only reports, or bytes that
cannot be inflated.
-/
inductive ReadRes where
  | bytes (bs : List UInt8)
  | again
  | eof
  | error
  | unzippable

/--
The events of a connection. `sendFails` tells if a write to the socket fails meanwhile, which
`SendEx` turns into `CS_CLOSING`.
-/
structure PollEvents where
  pollin : Option ReadRes
  pollhup : Bool
  pollerr : Bool
  sendFails : Bool

/--
An accepted connection: `id` is its address in memory, `closing` that its state is `CS_CLOSING`.
-/
structure ServerConn where
  id : Nat
  m_peerAddr : String
  conn : ReplConn
  closing : Bool

namespace ServerConn

def svrInitConn (id : Nat) (pPeerIp : String) (port : Nat) : ServerConn where
  id := id
  m_peerAddr := pPeerIp ++ ":" ++ toString port
  conn := .start
  closing := false

def onRead (c : ServerConn) : ReadRes → ServerConn
  | .bytes bs => { c with conn := c.conn.onRead bs }
  | .again => c
  | .eof => { c with closing := true }
  | .error => c
  | .unzippable => { c with closing := true }

def poll (c : ServerConn) (events : PollEvents) : ServerConn :=
  let c := match events.pollin with
    | some r => c.onRead r
    | none => c
  { c with closing := c.closing || events.sendFails || events.pollhup || events.pollerr }

def Deleted (c : ServerConn) : Prop :=
  c.conn.m_iConnState = .CS_DISCONNECTED

instance (c : ServerConn) : Decidable c.Deleted := inferInstanceAs (Decidable (_ = _))

end ServerConn

/--
The accepted connections that have not been deleted, newest first, and the map of them by the address
of the peer. `aborted` is set when an assertion fails.
-/
structure SockConnMgr where
  conns : List ServerConn
  nextId : Nat
  m_hAcptedConnMap : List (String × Nat)
  aborted : Bool

namespace SockConnMgr

def start : SockConnMgr where
  conns := []
  nextId := 0
  m_hAcptedConnMap := []
  aborted := false

def getAcptedConnCnt (m : SockConnMgr) : Nat :=
  m.m_hAcptedConnMap.length

def addAcceptedNode (m : SockConnMgr) (pClntAddr : String) (id : Nat) : SockConnMgr :=
  if pClntAddr ∈ m.m_hAcptedConnMap.map Prod.fst then { m with aborted := true }
  else { m with m_hAcptedConnMap := (pClntAddr, id) :: m.m_hAcptedConnMap }

def delAcceptedNode (m : SockConnMgr) (pClntAddr : String) : SockConnMgr :=
  { m with m_hAcptedConnMap := m.m_hAcptedConnMap.eraseP fun e => e.1 = pClntAddr }

def delete (m : SockConnMgr) (c : ServerConn) : SockConnMgr :=
  { m with conns := m.conns.eraseP fun d => d.id = c.id }

def store (m : SockConnMgr) (c : ServerConn) : SockConnMgr :=
  { m with conns := m.conns.map fun d => if d.id = c.id then c else d }

/--
`clearClntOnClose` takes the connection out of the map before it is cleared.
-/
def handleSockCloseEvent (m : SockConnMgr) (c : ServerConn) : SockConnMgr :=
  (m.delAcceptedNode c.m_peerAddr).delete c

/--
`handleEvents` of the listener. `ret` tells if the multiplexer takes the new connection.
-/
def accept (isAllowedIP : String → Bool) (m : SockConnMgr) (pPeerIp : String) (port : Nat) (ret : Bool)
    : SockConnMgr :=
  if ¬ isAllowedIP pPeerIp ∨ ret = false then m
  else
    let pConn := ServerConn.svrInitConn m.nextId pPeerIp port
    { m with conns := pConn :: m.conns, nextId := m.nextId + 1 }.addAcceptedNode pConn.m_peerAddr
      pConn.id

def handleEvents (m : SockConnMgr) (c : ServerConn) (events : PollEvents) : SockConnMgr :=
  let c := c.poll events
  -- what a deleted connection still does to its memory is left out
  if c.Deleted then m.delete c
  else if c.closing then m.handleSockCloseEvent c
  else m.store c

inductive Event where
  | accept (pPeerIp : String) (port : Nat) (ret : Bool)
  | poll (id : Nat) (events : PollEvents)
  | sendFails (id : Nat)

def getConn (m : SockConnMgr) (id : Nat) : Option ServerConn :=
  m.conns.find? fun c => c.id = id

def step (isAllowedIP : String → Bool) (m : SockConnMgr) (e : Event) : SockConnMgr :=
  if m.aborted then m
  else
    match e with
    | .accept pPeerIp port ret => m.accept isAllowedIP pPeerIp port ret
    | .poll id events =>
      match m.getConn id with
      | some c => m.handleEvents c events
      | none => m
    | .sendFails id =>
      match m.getConn id with
      | some c => m.store { c with closing := true }
      | none => m

/--
The map has exactly one entry for each connection that is open, and no other one.
-/
structure Registered (m : SockConnMgr) : Prop where
  one : ∀ c ∈ m.conns, m.m_hAcptedConnMap.countP (fun e => e.2 = c.id) = 1
  peer : ∀ c ∈ m.conns, (c.m_peerAddr, c.id) ∈ m.m_hAcptedConnMap
  no_other : ∀ e ∈ m.m_hAcptedConnMap, ∃ c ∈ m.conns, e = (c.m_peerAddr, c.id)
  count : m.getAcptedConnCnt = m.conns.length

structure Inv (m : SockConnMgr) : Prop where
  map_eq : m.m_hAcptedConnMap = m.conns.map fun c => (c.m_peerAddr, c.id)
  addrs : (m.conns.map ServerConn.m_peerAddr).Nodup
  ids : (m.conns.map ServerConn.id).Nodup
  lt : ∀ c ∈ m.conns, c.id < m.nextId
  connected : ∀ c ∈ m.conns, c.conn.m_iConnState = .CS_CONNECTED

end SockConnMgr

def refusedN : Nat → List UInt8 → Bool
  | 0, _ => false
  | fuel + 1, s =>
    let consumed := (unpack s s.length).2
    if 0 < consumed then refusedN fuel (s.drop consumed.toNat) else consumed = 0

def Refused (s : List UInt8) : Prop :=
  refusedN (s.length + 1) s = true

instance (s : List UInt8) : Decidable (Refused s) := inferInstanceAs (Decidable (_ = _))

namespace ReplConn

theorem state_processIncomingLoop {fuel : Nat} {c : ReplConn} (h : c.m_iConnState = .CS_CONNECTED)
    : (processIncomingLoop fuel c).m_iConnState =
        if refusedN fuel c.m_bufIncoming.content then .CS_DISCONNECTED else .CS_CONNECTED := by
  induction fuel generalizing c with
  | zero => exact h
  | succ fuel ih =>
    obtain ⟨b, hb, hloop⟩ := processIncomingLoop_succ fuel c
    rw [hloop, refusedN]
    split
    . refine (ih ?_).trans ?_
      . exact h
      . dsimp only
        rw [LoopBuf.content_pop_front, hb]
    . split
      . rename_i hz
        unfold closeConnection
        rw [if_neg (by rw [h]; decide), hz]
        rfl
      . rename_i hnz
        rw [if_neg (by simpa using hnz)]
        exact h

theorem onRead_of_append {c : ReplConn} {bs : List UInt8} {b : LoopBuf}
    (hc : ¬ (c.m_iConnState = .CS_DISCONNECTED ∨ c.overflow = true ∨ bs = []))
    (hb : c.m_bufIncoming.append bs = some b)
    : c.onRead bs = { c with m_bufIncoming := b }.processIncoming := by
  unfold onRead append
  rw [if_neg hc, hb]
  dsimp only
  rw [if_neg fun h => hc (Or.inr (Or.inl h))]

theorem state_processIncoming {c : ReplConn} (h : c.m_iConnState = .CS_CONNECTED)
    : c.processIncoming.m_iConnState =
        if Refused c.m_bufIncoming.content then .CS_DISCONNECTED else .CS_CONNECTED := by
  unfold processIncoming
  rw [state_processIncomingLoop h, ← LoopBuf.content_length]
  rfl

theorem state_onRead {c : ReplConn} {bs : List UInt8} (h : c.m_iConnState = .CS_CONNECTED)
    (hbs : ¬ Refused (c.m_bufIncoming.content ++ bs)) : (c.onRead bs).m_iConnState = .CS_CONNECTED := by
  by_cases hc : c.m_iConnState = .CS_DISCONNECTED ∨ c.overflow = true ∨ bs = []
  . unfold onRead
    rw [if_pos hc]
    exact h
  . cases hb : c.m_bufIncoming.append bs with
    | some b =>
      have hstate := state_processIncoming (c := { c with m_bufIncoming := b }) h
      dsimp only at hstate
      rw [LoopBuf.content_of_append hb, if_neg hbs] at hstate
      rw [onRead_of_append hc hb]
      exact hstate
    | none =>
      have happend : c.append bs = { c with overflow := true } := by
        unfold append
        rw [hb]
      unfold onRead
      rw [if_neg hc, happend]
      exact h

end ReplConn

namespace SockConnMgr

def Malformed (m : SockConnMgr) : Event → Prop
  | .poll id events =>
    match m.getConn id, events.pollin with
    | some c, some (.bytes bs) => Refused (c.conn.m_bufIncoming.content ++ bs)
    | _, _ => False
  | _ => False

instance (m : SockConnMgr) (e : Event) : Decidable (m.Malformed e) := by
  unfold Malformed
  split
  . split <;> infer_instance
  . infer_instance

theorem mem_of_getConn {m : SockConnMgr} {id : Nat} {c : ServerConn} (h : m.getConn id = some c)
    : c ∈ m.conns ∧ c.id = id :=
  ⟨List.mem_of_find?_eq_some h, by simpa using List.find?_some h⟩

theorem eraseP_congr {α : Type} {l : List α} {p q : α → Bool} (h : ∀ a ∈ l, p a = q a)
    : l.eraseP p = l.eraseP q := by
  induction l with
  | nil => rfl
  | cons a l ih =>
    rw [List.eraseP_cons, List.eraseP_cons, h a List.mem_cons_self,
      ih fun b hb => h b (List.mem_cons_of_mem a hb)]

section Inv

variable {m : SockConnMgr} {c : ServerConn}

theorem Inv.registered (h : m.Inv) : m.Registered where
  one := by
    intro c hc
    have hids : m.m_hAcptedConnMap.map Prod.snd = m.conns.map ServerConn.id := by
      rw [h.map_eq, List.map_map]
      rfl
    have hcount := List.count_eq_one_of_mem (hids ▸ h.ids) (hids ▸ List.mem_map_of_mem hc)
    rw [List.count, List.countP_map] at hcount
    exact hcount
  peer := by
    intro c hc
    rw [h.map_eq]
    exact List.mem_map_of_mem hc
  no_other := by
    intro e he
    rw [h.map_eq] at he
    obtain ⟨c, hc, rfl⟩ := List.mem_map.mp he
    exact ⟨c, hc, rfl⟩
  count := by
    unfold getAcptedConnCnt
    rw [h.map_eq, List.length_map]

theorem Inv.eq_iff (h : m.Inv) (hc : c ∈ m.conns) {d : ServerConn} (hd : d ∈ m.conns)
    : d.id = c.id ↔ d.m_peerAddr = c.m_peerAddr := by
  constructor
  . intro hid
    rw [List.inj_on_of_nodup_map h.ids hd hc hid]
  . intro haddr
    rw [List.inj_on_of_nodup_map h.addrs hd hc haddr]

theorem Inv.handleSockCloseEvent (h : m.Inv) (hc : c ∈ m.conns) : (m.handleSockCloseEvent c).Inv where
  map_eq := by
    change m.m_hAcptedConnMap.eraseP _ = (m.conns.eraseP _).map _
    rw [h.map_eq, List.eraseP_map]
    apply congrArg
    apply eraseP_congr
    intro d hd
    simp [h.eq_iff hc hd]
  addrs := h.addrs.sublist ((List.eraseP_sublist).map _)
  ids := h.ids.sublist ((List.eraseP_sublist).map _)
  lt d hd := h.lt d (List.mem_of_mem_eraseP hd)
  connected d hd := h.connected d (List.mem_of_mem_eraseP hd)

theorem Inv.store (h : m.Inv) {c d : ServerConn} (hd : d ∈ m.conns) (hid : c.id = d.id)
    (haddr : c.m_peerAddr = d.m_peerAddr) (hstate : c.conn.m_iConnState = .CS_CONNECTED)
    : (m.store c).Inv := by
  have hkeep : ∀ e ∈ m.conns, (if e.id = c.id then c else e).id = e.id ∧
      (if e.id = c.id then c else e).m_peerAddr = e.m_peerAddr := by
    intro e he
    split
    . rename_i heq
      have hsame := List.inj_on_of_nodup_map h.ids he hd (heq.trans hid)
      rw [hsame]
      exact ⟨hid, haddr⟩
    . exact ⟨rfl, rfl⟩
  have hmap : ∀ {β : Type} (f : Nat → String → β),
      (m.store c).conns.map (fun e => f e.id e.m_peerAddr) =
        m.conns.map fun e => f e.id e.m_peerAddr := by
    intro β f
    unfold SockConnMgr.store
    rw [List.map_map]
    apply List.map_congr_left
    intro e he
    simp only [Function.comp_apply]
    rw [(hkeep e he).1, (hkeep e he).2]
  constructor
  . exact h.map_eq.trans (hmap fun id addr => (addr, id)).symm
  . have haddrs := hmap fun _ addr => addr
    rw [haddrs]
    exact h.addrs
  . have hids := hmap fun id _ => id
    rw [hids]
    exact h.ids
  . intro e hmem
    obtain ⟨e, he, rfl⟩ := List.mem_map.mp hmem
    rw [(hkeep e he).1]
    exact h.lt e he
  . intro e hmem
    obtain ⟨e, he, rfl⟩ := List.mem_map.mp hmem
    split
    . exact hstate
    . exact h.connected e he

theorem state_poll {events : PollEvents} (hstate : c.conn.m_iConnState = .CS_CONNECTED)
    (hread : ∀ bs, events.pollin = some (.bytes bs) → ¬ Refused (c.conn.m_bufIncoming.content ++ bs))
    : (c.poll events).conn.m_iConnState = .CS_CONNECTED := by
  unfold ServerConn.poll
  cases hin : events.pollin with
  | none => exact hstate
  | some r =>
    cases r with
    | bytes bs => exact ReplConn.state_onRead hstate (hread bs hin)
    | again => exact hstate
    | eof => exact hstate
    | error => exact hstate
    | unzippable => exact hstate

theorem poll_id (c : ServerConn) (events : PollEvents)
    : (c.poll events).id = c.id ∧ (c.poll events).m_peerAddr = c.m_peerAddr := by
  unfold ServerConn.poll
  cases events.pollin with
  | none => exact ⟨rfl, rfl⟩
  | some r => cases r <;> exact ⟨rfl, rfl⟩

theorem handleSockCloseEvent_congr {d : ServerConn} (hid : c.id = d.id)
    (haddr : c.m_peerAddr = d.m_peerAddr)
    : m.handleSockCloseEvent c = m.handleSockCloseEvent d := by
  unfold SockConnMgr.handleSockCloseEvent delete
  rw [hid, haddr]

theorem Inv.handleEvents (h : m.Inv) (hc : c ∈ m.conns) {events : PollEvents}
    (hread : ∀ bs, events.pollin = some (.bytes bs) → ¬ Refused (c.conn.m_bufIncoming.content ++ bs))
    : (m.handleEvents c events).Inv := by
  have hstate := state_poll (h.connected c hc) hread
  obtain ⟨hid, haddr⟩ := poll_id c events
  unfold SockConnMgr.handleEvents
  dsimp only
  rw [if_neg (by unfold ServerConn.Deleted; rw [hstate]; decide)]
  split
  . rw [handleSockCloseEvent_congr hid haddr]
    exact h.handleSockCloseEvent hc
  . exact h.store hc hid haddr hstate

theorem Inv.accept (h : m.Inv) (isAllowedIP : String → Bool) (pPeerIp : String) (port : Nat)
    (ret : Bool) (hlive : (m.accept isAllowedIP pPeerIp port ret).aborted = false)
    : (m.accept isAllowedIP pPeerIp port ret).Inv := by
  revert hlive
  unfold SockConnMgr.accept addAcceptedNode
  dsimp only
  split
  . intro _
    exact h
  . split
    . intro hlive
      cases hlive
    . rename_i hfree
      intro _
      have hnew : (ServerConn.svrInitConn m.nextId pPeerIp port).m_peerAddr ∉
          m.conns.map ServerConn.m_peerAddr := by
        rw [h.map_eq, List.map_map] at hfree
        exact hfree
      have hid : m.nextId ∉ m.conns.map ServerConn.id := by
        intro hmem
        obtain ⟨c, hc, hid⟩ := List.mem_map.mp hmem
        exact Nat.ne_of_lt (h.lt c hc) hid
      constructor
      . exact congrArg (_ :: ·) h.map_eq
      . exact List.nodup_cons.mpr ⟨hnew, h.addrs⟩
      . exact List.nodup_cons.mpr ⟨hid, h.ids⟩
      . intro c hc
        rcases List.mem_cons.mp hc with rfl | hc
        . exact Nat.lt_succ_self _
        . exact Nat.lt_succ_of_lt (h.lt c hc)
      . intro c hc
        rcases List.mem_cons.mp hc with rfl | hc
        . rfl
        . exact h.connected c hc

theorem Inv.step (h : m.Inv) (isAllowedIP : String → Bool) (e : Event) (he : ¬ m.Malformed e)
    (hlive : (m.step isAllowedIP e).aborted = false) : (m.step isAllowedIP e).Inv := by
  revert hlive
  unfold SockConnMgr.step
  split
  . intro _
    exact h
  . cases e with
    | accept pPeerIp port ret => exact h.accept isAllowedIP pPeerIp port ret
    | poll id events =>
      intro _
      dsimp only
      cases hget : m.getConn id with
      | none => exact h
      | some c =>
        apply h.handleEvents (mem_of_getConn hget).1
        intro bs hin hrefused
        apply he
        unfold Malformed
        dsimp only
        rw [hget, hin]
        exact hrefused
    | sendFails id =>
      intro _
      dsimp only
      cases hget : m.getConn id with
      | none => exact h
      | some c =>
        have hmem := (mem_of_getConn hget).1
        exact h.store hmem rfl rfl (h.connected c hmem)

theorem Inv.not_registered_step (h : m.Inv) (isAllowedIP : String → Bool) (hlive : m.aborted = false)
    {events : PollEvents} (hc : m.getConn c.id = some c) {bs : List UInt8}
    (hin : events.pollin = some (.bytes bs)) (hnil : bs ≠ []) (hoverflow : c.conn.overflow = false)
    (hfit : bs.length + c.conn.m_bufIncoming.size + 1 + LOOPBUFUNIT < 2 ^ 31)
    (hrefused : Refused (c.conn.m_bufIncoming.content ++ bs))
    : ¬ (m.step isAllowedIP (.poll c.id events)).Registered := by
  have hmem := (mem_of_getConn hc).1
  obtain ⟨b, hb, hcontent⟩ := LoopBuf.append_eq hfit
  have hconn : ¬ (c.conn.m_iConnState = .CS_DISCONNECTED ∨ c.conn.overflow = true ∨ bs = []) := by
    rw [h.connected c hmem, hoverflow]
    simp [hnil]
  have hdeleted : (c.poll events).Deleted := by
    have hstate := ReplConn.state_processIncoming (c := { c.conn with m_bufIncoming := b })
      (h.connected c hmem)
    dsimp only at hstate
    rw [hcontent, if_pos hrefused] at hstate
    unfold ServerConn.Deleted ServerConn.poll
    rw [hin]
    change (c.conn.onRead bs).m_iConnState = _
    rw [ReplConn.onRead_of_append hconn hb]
    exact hstate
  have hstep : m.step isAllowedIP (.poll c.id events) = m.delete (c.poll events) := by
    unfold SockConnMgr.step
    rw [hlive, if_neg Bool.false_ne_true]
    dsimp only
    rw [hc]
    exact if_pos hdeleted
  rw [hstep]
  intro hreg
  have hcount := hreg.count
  have hlen : (m.conns.eraseP fun d => d.id = (c.poll events).id).length + 1 = m.conns.length := by
    rw [List.length_eraseP_of_mem hmem (by rw [(poll_id c events).1]; simp)]
    exact Nat.sub_add_cancel (List.length_pos_of_mem hmem)
  change m.m_hAcptedConnMap.length = (m.conns.eraseP _).length at hcount
  rw [h.map_eq, List.length_map] at hcount
  omega

end Inv

theorem aborted_step (isAllowedIP : String → Bool) (m : SockConnMgr) (e : Event)
    (h : m.aborted = true) : (m.step isAllowedIP e).aborted = true := by
  unfold step
  rw [if_pos h]
  exact h

theorem inv_exec (isAllowedIP : String → Bool) (es : List Event)
    (hwell : Run.Meets (step isAllowedIP) (fun m e => ¬ m.Malformed e) start es)
    (hlive : (Run.exec (step isAllowedIP) start es).aborted = false)
    : (Run.exec (step isAllowedIP) start es).Inv := by
  have hrun := Run.exec_invariant (fun m => m.aborted = false → m.Inv)
    (fun m e hinv he hlive => ?_) ?_ hwell
  . exact hrun hlive
  . cases hm : m.aborted with
    | false => exact (hinv hm).step isAllowedIP e he hlive
    | true =>
      rw [aborted_step isAllowedIP m e hm] at hlive
      cases hlive
  . intro _
    exact ⟨rfl, List.nodup_nil, List.nodup_nil, by simp [start], by simp [start]⟩

/--
As long as no malformed packet is received, the map has exactly the open connections.
-/
theorem registered_exec (isAllowedIP : String → Bool) (es : List Event)
    (hwell : Run.Meets (step isAllowedIP) (fun m e => ¬ m.Malformed e) start es)
    (hlive : (Run.exec (step isAllowedIP) start es).aborted = false)
    : (Run.exec (step isAllowedIP) start es).Registered :=
  (inv_exec isAllowedIP es hwell hlive).registered

def sampleEvents : List Event :=
  [.accept "10.0.0.1" 4000 true, .accept "10.0.0.2" 4000 true,
    .poll 0 ⟨some (.bytes (sendPacket ReplConn.blankHeader 1 5 7 [10, 20])), false, false, false⟩,
    .poll 1 ⟨some .eof, true, false, false⟩]

theorem registered_sample : (Run.exec (step fun _ => true) start sampleEvents).Registered :=
  registered_exec (fun _ => true) sampleEvents (by decide +kernel) (by decide +kernel)

/--
After sixteen bytes that are no header the map has an entry of a connection that does not exist.
-/
theorem not_registered_malformed : ¬ (Run.exec (step fun _ => true) start
    [.accept "10.0.0.1" 4000 true,
      .poll 0 ⟨some (.bytes (List.replicate 16 0)), false, false, false⟩]).Registered := by
  intro h
  exact absurd h.count (by decide +kernel)

end SockConnMgr

end Lsmcd
