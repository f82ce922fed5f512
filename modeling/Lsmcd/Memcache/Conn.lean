import Lsmcd.Memcache.Binary

/-!
Connections (`memcacheconn.cpp`): what a read makes of the bytes in the receive buffer, and the wait
queue of the clients of a slave.

The receive buffer is a queue of bytes that `processIncoming` has straightened out.
-/

namespace Lsmcd

def redetects (p : McProtocol) (b : UInt8) : Bool :=
  p = .MC_UNKNOWN || b = MC_INTERNAL_REQ || (b = MC_BINARY_REQ && p ≠ .MC_BINARY) ||
    (b ≤ MC_BINARY_REQ && p ≠ .MC_ASCII)

def protocolOf (b : UInt8) : McProtocol :=
  if b = MC_BINARY_REQ then .MC_BINARY else .MC_ASCII

/--
The protocol, the buffer and the flag `CS_INTERNAL` after the detection. `none` is the return for a
buffer that is empty without the byte `MC_INTERNAL_REQ`.
-/
def detect (p : McProtocol) (internal : Bool) (buf : List UInt8)
    : Option (McProtocol × Bool × List UInt8) :=
  if redetects p (byteAt buf 0) then
    if byteAt buf 0 = MC_INTERNAL_REQ then
      if buf.tail = [] then none else some (protocolOf (byteAt buf.tail 0), true, buf.tail)
    else some (protocolOf (byteAt buf 0), internal, buf)
  else some (p, internal, buf)

def frameLen (buf : List UInt8) : Option Nat :=
  if buf.length < 2 then none
  else
    let len := readBe buf 0 2
    if buf.length < len then none else some len

/--
All that a process serves. `cnt` bounds the connections: their ids are below it.
-/
structure McWorld where
  mc : LsMemcache
  conn : Nat → MemcacheConn
  cnt : Nat

namespace McWorld

def call (w : McWorld) (id : Nat) : McCall where
  mc := w.mc
  conn := w.conn id

def put (w : McWorld) (id : Nat) (s : McCall) : McWorld :=
  { w with mc := s.mc, conn := Function.update w.conn id s.conn }

def setConn (w : McWorld) (id : Nat) (c : MemcacheConn) : McWorld :=
  { w with conn := Function.update w.conn id c }

def slice (w : McWorld) (i : Nat) : LsMcHashSlice :=
  w.mc.m_pHashMulti.m_pSlices i

def setRemote (w : McWorld) (i : Nat) (r : LsMcRemote) : McWorld :=
  let m := w.mc.m_pHashMulti
  let slices := Function.update m.m_pSlices i { m.m_pSlices i with remote := r }
  { w with mc := { w.mc with m_pHashMulti := { m with m_pSlices := slices } } }

end McWorld

namespace MemcacheConn

/--
`CloseConnection`. The link of the connection is left as it is.
-/
def close (c : MemcacheConn) : MemcacheConn :=
  if c.connected then
    { c with
      connected := false
      internal := false
      remBusy := false
      respWait := false
      cmdWait := false
      m_pUser := none
      authenticated := false
      saslUser := none
      m_bufIncoming := [] }
  else c

end MemcacheConn

namespace McCall

def dbMismatch (s : McCall) : Bool :=
  let hdr := (s.sliceAt s.conn.m_pSlice).hdr
  s.conn.m_iHdrOff ≠ 0 &&
    (hdr.x_withcas ≠ s.mc.m_mcparms.m_usecas || hdr.x_withsasl ≠ s.mc.m_mcparms.m_usesasl)

def cmdProtocol (s : McCall) : McProtocol :=
  if s.conn.internal then protocolOf (byteAt s.conn.m_bufIncoming 0) else s.conn.m_protocol

def dispatch (s : McCall) : McCall × Int :=
  match s.conn.m_protocol with
  | .MC_ASCII => s.processCmd
  | .MC_BINARY => s.processBinCmd
  | _ => (s, 0)

def incomingLoop : Nat → McCall → McCall
  | 0, s => s
  | fuel + 1, s =>
    if s.conn.respWait then s.putWaitQ
    else
      let s := { s with conn := { s.conn with m_protocol := s.cmdProtocol } }
      if s.dbMismatch then s.setHash s.getHash.rebuild
      else
        let r := s.dispatch
        if 0 < r.2 then
          let s := r.1.setBuf (r.1.conn.m_bufIncoming.drop r.2.toNat)
          if s.conn.m_bufIncoming = [] then s else incomingLoop fuel s
        else if r.2 = 0 then { r.1 with conn := r.1.conn.close }
        else r.1

def processIncoming (s : McCall) : McCall :=
  match detect s.conn.m_protocol s.conn.internal s.conn.m_bufIncoming with
  | none => { s with conn := { s.conn with internal := true, m_bufIncoming := [] } }
  | some (p, internal, buf) =>
    let s := { s with conn := { s.conn with m_protocol := p, internal := internal, m_bufIncoming := buf } }
    incomingLoop (buf.length + 1) s

end McCall

namespace McWorld

def processIncoming (w : McWorld) (id : Nat) : McWorld :=
  w.put id (w.call id).processIncoming

def onRead (w : McWorld) (id : Nat) (bs : List UInt8) : McWorld :=
  let c := w.conn id
  (w.setConn id { c with m_bufIncoming := c.m_bufIncoming ++ bs }).processIncoming id

/--
The loop of `processWaitQ` from the connection `q` on. The next one is read before a connection is
processed.
-/
def waitQLoop : Nat → McWorld → Option Nat → McWorld
  | 0, w, _ => w
  | _, w, none => w
  | fuel + 1, w, some id =>
    let next := w.mc.link id
    let w := { w with mc := { w.mc with link := Function.update w.mc.link id none } }
    let w := w.setConn id { w.conn id with cmdWait := false }
    waitQLoop fuel (w.processIncoming id) next

def processWaitQ (w : McWorld) : McWorld :=
  let q := w.mc.m_pWaitQ
  waitQLoop (w.cnt + 1) { w with mc := { w.mc with m_pWaitQ := none, m_pWaitTail := none } } q

def processFrame (w : McWorld) (i : Nat) (data : List UInt8) : McWorld :=
  let r := (w.slice i).remote
  let w := match r.link with
    | none => w
    | some id =>
      let c := w.conn id
      w.setConn id { c with respWait := false, out := c.out ++ data }
  let w := w.setRemote i { r with remBusy := false }
  { w with mc := { w.mc with m_noreply := false } }

/--
`processInternal`: the number of bytes used, -1 when more data is needed. A frame shorter than its
own length field closes the connection or is taken back from the stream.
-/
def processInternal (w : McWorld) (i : Nat) : McWorld × Int :=
  let buf := (w.slice i).remote.m_bufIncoming
  match frameLen buf with
  | none => (w, -1)
  | some len => (w.processFrame i ((buf.take len).drop 2), len)

/--
The loop of `processIncoming` for the connection to a master, as long as it is in internal mode.
-/
def linkLoop (i : Nat) : Nat → McWorld → McWorld
  | 0, w => w
  | fuel + 1, w =>
    let r := w.processInternal i
    if 0 < r.2 then
      let rem := (r.1.slice i).remote
      let rest := rem.m_bufIncoming.drop r.2.toNat
      let w := r.1.setRemote i { rem with m_bufIncoming := rest }
      if rest = [] then w else linkLoop i fuel w
    else if r.2 = 0 then r.1.setRemote i (McCall.closeRemote (r.1.slice i).remote)
    else r.1

def remoteConn (w : McWorld) (i : Nat) : MemcacheConn :=
  let r := (w.slice i).remote
  { id := w.cnt + i
    connected := r.connected
    m_protocol := r.m_protocol
    internal := r.internal
    remBusy := r.remBusy
    respWait := false
    cmdWait := false
    m_pUser := none
    authenticated := false
    saslUser := none
    m_pSlice := i
    m_pHash := none
    m_iHdrOff := (w.slice i).x_iOff
    m_bufIncoming := r.m_bufIncoming
    out := r.sent }

/--
Bytes from the master that are taken for commands. What happens once the connection waits like a
client is not followed.
-/
def linkAsClient (w : McWorld) (i : Nat) : McWorld :=
  let r := (w.slice i).remote
  let s := McCall.incomingLoop (r.m_bufIncoming.length + 1) ⟨w.mc, w.remoteConn i⟩
  let w := { w with mc := { s.mc with undef := s.mc.undef || s.conn.cmdWait || s.conn.respWait } }
  w.setRemote i
    { (w.slice i).remote with
      connected := s.conn.connected
      m_protocol := s.conn.m_protocol
      internal := s.conn.internal
      m_bufIncoming := s.conn.m_bufIncoming
      sent := s.conn.out }

def linkMismatch (w : McWorld) (i : Nat) : Bool :=
  let hdr := (w.slice i).hdr
  (w.slice i).x_iOff ≠ 0 &&
    (hdr.x_withcas ≠ w.mc.m_mcparms.m_usecas || hdr.x_withsasl ≠ w.mc.m_mcparms.m_usesasl)

def rebuildAt (w : McWorld) (i : Nat) : McWorld :=
  let hash := (w.slice i).m_hashByUser none
  { w with mc := (McCall.setHashAt ⟨w.mc, w.remoteConn i⟩ i none hash.rebuild).mc }

/--
`onRead` of the connection to the master of a slice, and the protocol that its bytes are dispatched
by, `none` when nothing is dispatched. In internal mode the protocol stays what it is during a read.
-/
def linkRead (w : McWorld) (i : Nat) (bs : List UInt8) : McWorld × Option McProtocol :=
  let r := (w.slice i).remote
  match detect r.m_protocol r.internal (r.m_bufIncoming ++ bs) with
  | none => (w.setRemote i { r with internal := true, m_bufIncoming := [] }, none)
  | some (p, internal, buf) =>
    let w := w.setRemote i { r with m_protocol := p, internal := internal, m_bufIncoming := buf }
    let p := if internal then protocolOf (byteAt buf 0) else p
    if w.linkMismatch i then (w.rebuildAt i, none)
    else if p = .MC_INTERNAL then ((linkLoop i (buf.length + 1) w).processWaitQ, some p)
    else (w.linkAsClient i, some p)

/--
`handleEvents` deletes a connection that is closed. A slice goes on using the object that was its
connection to the master.
-/
def deleteLink (w : McWorld) (i : Nat) : McWorld :=
  if (w.slice i).remote.connected then w else { w with mc := { w.mc with undef := true } }

end McWorld

def MemcacheConn.init (id : Nat) : MemcacheConn where
  id := id
  connected := true
  m_protocol := .MC_UNKNOWN
  internal := false
  remBusy := false
  respWait := false
  cmdWait := false
  m_pUser := none
  authenticated := false
  saslUser := none
  m_pSlice := 0
  m_pHash := none
  m_iHdrOff := 0
  m_bufIncoming := []
  out := []

def LsMcRemote.init : LsMcRemote where
  connected := false
  m_protocol := .MC_UNKNOWN
  internal := false
  remBusy := false
  hasHash := true
  link := none
  m_bufIncoming := []
  sent := []

def McWorld.start (multi : LsMcHashMulti) (parms : LsMcParms) (multiUser replication : Bool)
    (env : McEnv) : McWorld where
  mc :=
    { m_pStrt := []
      m_parms := { key := [], val := ⟨0, none⟩ }
      m_hkey := 0
      m_item := { x_exptime := 0, x_flags := 0 }
      m_iterOff := 0
      m_rescas := 0
      m_needed := 0
      m_retcode := .DONE
      m_pHashMulti := { multi with m_pSlices := fun i => { multi.m_pSlices i with remote := .init } }
      m_mcparms := parms
      m_bConfigMultiUser := multiUser
      m_bConfigReplication := replication
      m_pWaitQ := none
      m_pWaitTail := none
      link := fun _ => none
      m_noreply := false
      env := env
      undef := false }
  conn := fun id => { MemcacheConn.init id with connected := false }
  cnt := 0

/--
What happens to the process: connections are accepted, read from and closed, and the replication
tells a slice where its master is.
-/
inductive McEvent
  | accept
  | read (id : Nat) (bs : List UInt8)
  | hup (id : Nat)
  | linkRead (i : Nat) (bs : List UInt8)
  | linkHup (i : Nat)
  | setSliceDst (i : Nat) (pAddr : Option (List UInt8))

/--
A read returns at least one byte, and only from an open connection.
-/
def McWorld.step (w : McWorld) : McEvent → McWorld
  | .accept =>
    { w with
      mc := { w.mc with link := Function.update w.mc.link w.cnt none }
      conn := Function.update w.conn w.cnt (.init w.cnt)
      cnt := w.cnt + 1 }
  | .read id bs => if id < w.cnt ∧ (w.conn id).connected ∧ bs ≠ [] then w.onRead id bs else w
  | .hup id => if id < w.cnt then w.setConn id (w.conn id).close else w
  | .linkRead i bs =>
    if (w.slice i).remote.connected ∧ bs ≠ [] then (w.linkRead i bs).1.deleteLink i else w
  | .linkHup i =>
    if (w.slice i).remote.connected then
      (w.setRemote i (McCall.closeRemote (w.slice i).remote)).deleteLink i
    else w
  | .setSliceDst i pAddr =>
    { w with mc := (McCall.setSliceDst ⟨w.mc, w.remoteConn i⟩ i pAddr).1.mc }

end Lsmcd
