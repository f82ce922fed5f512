import Lsmcd.Lib.Run
import Lsmcd.Memcache.Effects
import Lsmcd.Memcache.Dispatch
import Lsmcd.Shm.HashOps

/-!
The mode of the connection from a slave to the master of a slice.
-/

namespace Lsmcd

def LsMcRemote.InternalMode (r : LsMcRemote) : Prop :=
  r.m_protocol = .MC_INTERNAL ∧ r.internal = false

instance (r : LsMcRemote) : Decidable r.InternalMode :=
  inferInstanceAs (Decidable (_ ∧ _))

namespace McCall

def LinkMode (i : Nat) (s : McCall) : Prop :=
  (s.sliceAt i).remote.InternalMode

variable {i : Nat} {s t : McCall}

theorem linkMode_of_view (h : t.view = s.view) (hs : LinkMode i s) : LinkMode i t := by
  have hr : (t.sliceAt i).remote = (s.sliceAt i).remote := congrFun (congrArg ConnView.remote h) i
  unfold LinkMode
  rw [hr]
  exact hs

theorem RemoteChange.internalMode {r r' : LsMcRemote} (h : RemoteChange r r') (hr : r.InternalMode)
    : r'.InternalMode := by
  cases h with
  | sent bs => exact hr
  | close =>
    unfold closeRemote
    split
    . exact ⟨hr.1, rfl⟩
    . exact hr
  | connect bs => exact ⟨rfl, hr.2⟩

theorem linkMode_setSliceAt {j : Nat} {slice : LsMcHashSlice} (hs : LinkMode i s)
    (h : (s.sliceAt j).remote.InternalMode → slice.remote.InternalMode)
    : LinkMode i (s.setSliceAt j slice) := by
  unfold LinkMode setSliceAt setMulti
  simp only [sliceAt]
  by_cases hij : i = j
  . subst hij
    rw [Function.update_self]
    exact h hs
  . rw [Function.update_of_ne hij]
    exact hs

theorem linkMode_putWaitQ (hs : LinkMode i s) : LinkMode i s.putWaitQ := by
  unfold putWaitQ
  split
  . exact hs
  . dsimp only
    split <;> exact hs

theorem Effs.linkMode {Q F : Prop} (h : Effs Q F s t) (hs : LinkMode i s) : LinkMode i t := by
  induction h with
  | quiet h => exact linkMode_of_view h hs
  | putWaitQ _ s => exact linkMode_putWaitQ hs
  | fwdCommand _ s j buf =>
    unfold McCall.fwdCommand
    split
    . exact linkMode_setSliceAt hs id
    . exact hs
  | remote s j slice h => exact linkMode_setSliceAt hs h.internalMode
  | trans _ _ ih₁ ih₂ => exact ih₂ (ih₁ hs)

theorem linkMode_incomingLoop (fuel : Nat) (hs : LinkMode i s) : LinkMode i (incomingLoop fuel s) := by
  induction fuel generalizing s with
  | zero => exact hs
  | succ fuel ih =>
    unfold incomingLoop
    split
    . exact linkMode_putWaitQ hs
    . dsimp only
      generalize hs₁ : { s with conn := { s.conn with m_protocol := s.cmdProtocol } } = s₁
      have hmode : LinkMode i s₁ := by
        subst hs₁
        exact hs
      have hdis : LinkMode i s₁.dispatch.1 := (effs_dispatch s₁).linkMode hmode
      split
      . exact linkMode_of_view (view_setHash _ _) hmode
      . split
        . split
          . exact hdis
          . exact ih hdis
        . split
          . exact hdis
          . exact hdis

theorem linkMode_processIncoming (hs : LinkMode i s) : LinkMode i s.processIncoming := by
  unfold McCall.processIncoming
  split
  . exact hs
  . exact linkMode_incomingLoop _ hs

end McCall

namespace McWorld

def LinkMode (i : Nat) (w : McWorld) : Prop :=
  (w.slice i).remote.InternalMode

instance (i : Nat) (w : McWorld) : Decidable (w.LinkMode i) :=
  inferInstanceAs (Decidable (w.slice i).remote.InternalMode)

variable {i : Nat} {w : McWorld}

theorem linkMode_processIncoming (id : Nat) (hw : w.LinkMode i) : (w.processIncoming id).LinkMode i :=
  McCall.linkMode_processIncoming (s := w.call id) hw

theorem linkMode_waitQLoop (fuel : Nat) (q : Option Nat) (hw : w.LinkMode i)
    : (waitQLoop fuel w q).LinkMode i := by
  induction fuel generalizing w q with
  | zero => exact hw
  | succ fuel ih =>
    cases q with
    | none => exact hw
    | some id =>
      unfold waitQLoop
      dsimp only
      apply ih
      apply linkMode_processIncoming
      exact hw

theorem linkMode_processWaitQ (hw : w.LinkMode i) : w.processWaitQ.LinkMode i := by
  unfold processWaitQ
  apply linkMode_waitQLoop
  exact hw

theorem linkMode_setRemote {j : Nat} {r : LsMcRemote} (hw : w.LinkMode i)
    (h : i = j → r.InternalMode) : (w.setRemote j r).LinkMode i := by
  unfold LinkMode setRemote
  simp only [slice]
  by_cases hij : i = j
  . subst hij
    rw [Function.update_self]
    exact h rfl
  . rw [Function.update_of_ne hij]
    exact hw

theorem linkMode_processFrame (j : Nat) (data : List UInt8) (hw : w.LinkMode i)
    : (w.processFrame j data).LinkMode i := by
  unfold processFrame
  dsimp only
  have hset : ∀ w' : McWorld, w'.LinkMode i → (w'.slice j).remote = (w.slice j).remote →
      (w'.setRemote j { (w.slice j).remote with remBusy := false }).LinkMode i := by
    intro w' hw' hr
    apply linkMode_setRemote hw'
    rintro rfl
    exact hw
  split
  . exact hset w hw rfl
  . exact hset _ hw rfl

theorem linkMode_linkLoop (j fuel : Nat) (hw : w.LinkMode i) : (linkLoop j fuel w).LinkMode i := by
  induction fuel generalizing w with
  | zero => exact hw
  | succ fuel ih =>
    unfold linkLoop
    dsimp only
    have hint : (w.processInternal j).1.LinkMode i := by
      unfold processInternal
      dsimp only
      split
      . exact hw
      . exact linkMode_processFrame j _ hw
    generalize w.processInternal j = r at hint ⊢
    have hbuf : (r.1.setRemote j { (r.1.slice j).remote with
        m_bufIncoming := (r.1.slice j).remote.m_bufIncoming.drop r.2.toNat }).LinkMode i := by
      apply linkMode_setRemote hint
      rintro rfl
      exact hint
    split
    . split
      . exact hbuf
      . exact ih hbuf
    . split
      . apply linkMode_setRemote hint
        rintro rfl
        exact McCall.RemoteChange.internalMode .close hint
      . exact hint

theorem linkMode_linkAsClient {j : Nat} (hij : i ≠ j) (hw : w.LinkMode i)
    : (w.linkAsClient j).LinkMode i := by
  unfold linkAsClient
  dsimp only
  apply linkMode_setRemote
  . exact McCall.linkMode_incomingLoop (s := ⟨w.mc, w.remoteConn j⟩) _ hw
  . intro heq
    exact absurd heq hij

theorem linkMode_rebuildAt (j : Nat) (hw : w.LinkMode i) : (w.rebuildAt j).LinkMode i := by
  have hview := McCall.view_setHashAt ⟨w.mc, w.remoteConn j⟩ j none
    ((w.slice j).m_hashByUser none).rebuild
  exact McCall.linkMode_of_view hview hw

theorem linkMode_linkRead_of_ne {j : Nat} (bs : List UInt8) (hij : i ≠ j) (hw : w.LinkMode i)
    : (w.linkRead j bs).1.LinkMode i := by
  unfold linkRead
  dsimp only
  have hset : ∀ r, (w.setRemote j r).LinkMode i := fun r => linkMode_setRemote hw (absurd · hij)
  split
  . exact hset _
  . rename_i p internal buf _
    have hs := hset { (w.slice j).remote with
      m_protocol := p, internal := internal, m_bufIncoming := buf }
    generalize w.setRemote j _ = w at hs ⊢
    generalize (if internal then protocolOf (byteAt buf 0) else p) = p
    split
    . exact linkMode_rebuildAt j hs
    . split
      . exact linkMode_processWaitQ (linkMode_linkLoop j _ hs)
      . exact linkMode_linkAsClient hij hs

/--
The first byte in the receive buffer starts neither a command nor the announcement of an internal
client.
-/
def FrameKept (i : Nat) (w : McWorld) : McEvent → Prop
  | .linkRead j bs =>
    j = i → (w.slice i).remote.connected = true → bs ≠ [] →
      MC_BINARY_REQ < byteAt ((w.slice i).remote.m_bufIncoming ++ bs) 0 ∧
        byteAt ((w.slice i).remote.m_bufIncoming ++ bs) 0 ≠ MC_INTERNAL_REQ
  | _ => True

instance (i : Nat) (w : McWorld) : (e : McEvent) → Decidable (FrameKept i w e)
  | .linkRead j bs => inferInstanceAs (Decidable (j = i → (w.slice i).remote.connected = true →
      bs ≠ [] → MC_BINARY_REQ < byteAt ((w.slice i).remote.m_bufIncoming ++ bs) 0 ∧
        byteAt ((w.slice i).remote.m_bufIncoming ++ bs) 0 ≠ MC_INTERNAL_REQ))
  | .accept => inferInstanceAs (Decidable True)
  | .read _ _ => inferInstanceAs (Decidable True)
  | .hup _ => inferInstanceAs (Decidable True)
  | .linkHup _ => inferInstanceAs (Decidable True)
  | .setSliceDst _ _ => inferInstanceAs (Decidable True)

def StaysInternal (i : Nat) (w : McWorld) (e : McEvent) : Prop :=
  (w.step e).LinkMode i ∧
    ∀ bs p, e = .linkRead i bs → (w.slice i).remote.connected = true → bs ≠ [] →
      (w.linkRead i bs).2 = some p → p = .MC_INTERNAL

theorem redetects_internal (b : UInt8)
    : redetects .MC_INTERNAL b = false ↔ MC_BINARY_REQ < b ∧ b ≠ MC_INTERNAL_REQ := by
  unfold redetects
  constructor
  . intro h
    simp only [Bool.or_eq_false_iff, Bool.and_eq_false_iff, decide_eq_false_iff_not] at h
    obtain ⟨⟨⟨_, hint⟩, _⟩, hle⟩ := h
    refine ⟨?_, hint⟩
    simpa using hle
  . rintro ⟨hlt, hint⟩
    have hne : b ≠ MC_BINARY_REQ := by
      rintro rfl
      exact absurd hlt (by decide)
    simp [hint, hne, hlt]

theorem protocolOf_ne_internal (b : UInt8) : protocolOf b ≠ .MC_INTERNAL := by
  unfold protocolOf
  split <;> simp

theorem linkMode_linkRecv (bs : List UInt8) (hw : w.LinkMode i) : (w.linkRecv i bs).LinkMode i := by
  apply linkMode_setRemote hw
  intro _
  exact hw

theorem linkRead_internal (bs : List UInt8) (hw : w.LinkMode i)
    (hb : redetects .MC_INTERNAL (byteAt ((w.slice i).remote.m_bufIncoming ++ bs) 0) = false)
    : w.linkRead i bs =
      if (w.linkRecv i bs).linkMismatch i then ((w.linkRecv i bs).rebuildAt i, none)
      else ((w.linkFrames i bs).processWaitQ, some .MC_INTERNAL) := by
  have hdetect : detect (w.slice i).remote.m_protocol (w.slice i).remote.internal
      ((w.slice i).remote.m_bufIncoming ++ bs) =
        some (.MC_INTERNAL, false, (w.slice i).remote.m_bufIncoming ++ bs) := by
    unfold detect
    rw [hw.1, hw.2, hb]
    rfl
  have hrecv : w.setRemote i { (w.slice i).remote with
      m_protocol := .MC_INTERNAL, internal := false
      m_bufIncoming := (w.slice i).remote.m_bufIncoming ++ bs } = w.linkRecv i bs := by
    unfold linkRecv
    dsimp only
    congr 1
    rw [hw.1, hw.2]
  unfold linkRead linkFrames
  simp only [hdetect, hrecv]
  rfl

theorem linkMode_linkRead (bs : List UInt8) (hw : w.LinkMode i)
    (hb : redetects .MC_INTERNAL (byteAt ((w.slice i).remote.m_bufIncoming ++ bs) 0) = false)
    : (w.linkRead i bs).1.LinkMode i ∧ ∀ p, (w.linkRead i bs).2 = some p → p = .MC_INTERNAL := by
  rw [linkRead_internal bs hw hb]
  split
  . refine ⟨linkMode_rebuildAt i (linkMode_linkRecv bs hw), ?_⟩
    intro p hp
    cases hp
  . refine ⟨linkMode_processWaitQ (linkMode_linkLoop i _ (linkMode_linkRecv bs hw)), ?_⟩
    intro p hp
    cases hp
    rfl

theorem detect_of_redetects {p : McProtocol} {internal : Bool} {buf : List UInt8}
    (hb : redetects p (byteAt buf 0) = true)
    : detect p internal buf = none ∨
      ∃ b internal' buf', detect p internal buf = some (protocolOf b, internal', buf') := by
  unfold detect
  rw [if_pos hb]
  split
  . split
    . exact .inl rfl
    . exact .inr ⟨_, _, _, rfl⟩
  . exact .inr ⟨_, _, _, rfl⟩

theorem remote_setRemote (w : McWorld) (i : Nat) (r : LsMcRemote)
    : ((w.setRemote i r).slice i).remote = r := by
  simp only [setRemote, slice, Function.update_self]

theorem remote_rebuildAt (w : McWorld) (i j : Nat)
    : ((w.rebuildAt j).slice i).remote = (w.slice i).remote := by
  have hview := McCall.view_setHashAt ⟨w.mc, w.remoteConn j⟩ j none
    ((w.slice j).m_hashByUser none).rebuild
  exact congrFun (congrArg ConnView.remote hview) i

theorem linkRead_redetects (bs : List UInt8)
    (hb : redetects (w.slice i).remote.m_protocol
      (byteAt ((w.slice i).remote.m_bufIncoming ++ bs) 0) = true)
    : ¬ (w.linkRead i bs).1.LinkMode i ∨ ∃ p, (w.linkRead i bs).2 = some p ∧ p ≠ .MC_INTERNAL := by
  unfold linkRead
  rcases @detect_of_redetects _ (w.slice i).remote.internal _ hb with
    hd | ⟨b, internal, buf, hd⟩
  . simp only [hd]
    left
    intro hmode
    have hint := hmode.2
    rw [remote_setRemote] at hint
    cases hint
  . simp only [hd]
    generalize hw₁ : w.setRemote i _ = w₁
    have hproto : (w₁.slice i).remote.m_protocol = protocolOf b := by
      rw [← hw₁, remote_setRemote]
    generalize hp : (if internal then protocolOf (byteAt buf 0) else protocolOf b) = p
    have hne : p ≠ .MC_INTERNAL := by
      rw [← hp]
      split <;> apply protocolOf_ne_internal
    split
    . left
      intro hmode
      have hint := hmode.1
      rw [remote_rebuildAt, hproto] at hint
      exact protocolOf_ne_internal b hint
    . right
      exact ⟨p, rfl, hne⟩

theorem linkMode_deleteLink_iff (j : Nat) : (w.deleteLink j).LinkMode i ↔ w.LinkMode i := by
  unfold deleteLink
  split <;> exact Iff.rfl

theorem linkMode_step (e : McEvent) (he : ∀ bs, e ≠ .linkRead i bs) (hw : w.LinkMode i)
    : (w.step e).LinkMode i := by
  cases e with
  | accept => exact hw
  | read id bs =>
    simp only [step]
    split
    . exact linkMode_processIncoming id hw
    . exact hw
  | hup id =>
    simp only [step]
    split <;> exact hw
  | linkRead j bs =>
    have hij : i ≠ j := by
      rintro rfl
      exact he bs rfl
    simp only [step]
    split
    . rw [linkMode_deleteLink_iff]
      exact linkMode_linkRead_of_ne bs hij hw
    . exact hw
  | linkHup j =>
    simp only [step]
    split
    . rw [linkMode_deleteLink_iff]
      apply linkMode_setRemote hw
      rintro rfl
      exact McCall.RemoteChange.internalMode .close hw
    . exact hw
  | setSliceDst j pAddr => exact (McCall.effs_setSliceDst (Q := True) (F := True) ⟨w.mc, w.remoteConn j⟩ j pAddr).linkMode hw

theorem staysInternal_linkRead_iff (bs : List UInt8) (hw : w.LinkMode i)
    : StaysInternal i w (.linkRead i bs) ↔ FrameKept i w (.linkRead i bs) := by
  simp only [StaysInternal, FrameKept, step, McEvent.linkRead.injEq, true_and, forall_const]
  by_cases hread : (w.slice i).remote.connected = true ∧ bs ≠ []
  . rw [if_pos hread, linkMode_deleteLink_iff, ← redetects_internal]
    constructor
    . rintro ⟨hmode, hp⟩ _ _
      by_contra hb
      rcases linkRead_redetects bs (by rw [hw.1]; simpa using hb) with hnot | ⟨p, hsome, hne⟩
      . exact hnot hmode
      . exact hne (hp bs p rfl hread.1 hread.2 hsome)
    . intro hb
      obtain ⟨hmode, hp⟩ := linkMode_linkRead bs hw (hb hread.1 hread.2)
      refine ⟨hmode, ?_⟩
      rintro _ p rfl _ _ hsome
      exact hp p hsome
  . rw [if_neg hread]
    refine iff_of_true ⟨hw, ?_⟩ ?_
    . rintro _ p rfl hconn hbs _
      exact absurd ⟨hconn, hbs⟩ hread
    . intro hconn hbs
      exact absurd ⟨hconn, hbs⟩ hread

theorem staysInternal_iff (e : McEvent) (hw : w.LinkMode i) : StaysInternal i w e ↔ FrameKept i w e := by
  by_cases he : ∃ bs, e = .linkRead i bs
  . obtain ⟨bs, rfl⟩ := he
    exact staysInternal_linkRead_iff bs hw
  . have he' : ∀ bs, e ≠ .linkRead i bs := fun bs h => he ⟨bs, h⟩
    refine iff_of_true ⟨linkMode_step e he' hw, ?_⟩ ?_
    . intro bs p h
      exact absurd h (he' bs)
    . cases e with
      | linkRead j bs =>
        rintro rfl
        exact absurd rfl (he' bs)
      | _ => trivial

/--
The connection to the master of a slice is used for frames all along a run exactly when no read finds
a byte at the start of its buffer that is at most 0x80 or 0x8f.
-/
theorem staysInternal_exec (i : Nat) (w : McWorld) (es : List McEvent) (hw : w.LinkMode i)
    : Run.Meets step (StaysInternal i) w es ↔ Run.Meets step (FrameKept i) w es := by
  induction es generalizing w with
  | nil => exact Iff.rfl
  | cons e es ih =>
    have he := staysInternal_iff e hw
    constructor
    . intro h
      exact ⟨he.mp h.1, (ih _ h.1.1).mp h.2⟩
    . intro h
      have hstays := he.mpr h.1
      exact ⟨hstays, (ih _ hstays.1).mpr h.2⟩

theorem not_frameKept_lenNbuf (str bs : List UInt8) (hconn : (w.slice i).remote.connected = true)
    (hbuf : (w.slice i).remote.m_bufIncoming = [])
    : ¬ FrameKept i w (.linkRead i (McCall.lenNbuf str ++ bs)) := by
  intro h
  have hgt := (h rfl hconn (by simp [McCall.lenNbuf, McCall.htons])).1
  rw [hbuf, List.nil_append] at hgt
  revert hgt
  unfold McCall.lenNbuf
  generalize hstr : (if LENNBUF_MAXLEN < str.length then _ else str) = str'
  have hlen : str'.length ≤ LENNBUF_MAXLEN := by
    rw [← hstr]
    split
    . decide
    . omega
  have hhigh : (str'.length + 2) / 256 % 256 ≤ 4 := by
    unfold LENNBUF_MAXLEN at hlen
    omega
  simp only [McCall.htons, List.cons_append, byteAt, List.getD_cons_zero, MC_BINARY_REQ,
    UInt8.lt_iff_toNat_lt]
  rw [UInt8.toNat_ofNat_of_lt' (Nat.lt_of_le_of_lt hhigh (by decide))]
  simp
  omega

end McWorld

/--
What `multiInitFunc` asks for: an `LsMcHdr` of 208 bytes, the unique that is counted in it and an
`LsShmTidInfo` of 56 bytes.
-/
def sampleHdrSize (usecas : Bool) : Nat :=
  208 + (if usecas then 8 else 0) + 56

def sampleHash (answers : List Answer) (parm : HashParm) : Option LsShmHash :=
  let blocks := [Answer.clean 0x400 320, Answer.clean 0x800 64, Answer.clean 0x600 272]
  (LsShmHash.allocHTable (Shm.empty (blocks ++ answers)) parm 7).map fun hash =>
    { hash with shm := (hash.shm.alloc2 (sampleHdrSize true)).1 }

theorem sampleHash_rep {answers : List Answer} {parm : HashParm} {hash : LsShmHash}
    (h : sampleHash answers parm = some hash) : LsShmHash.Rep hash [] := by
  obtain ⟨s, hs, rfl⟩ := Option.map_eq_some_iff.mp h
  exact (LsShmHash.allocHTable_rep hs (by decide)).withShm (Shm.grows_alloc2 _ _)

def sampleSliceHash : Option LsShmHash :=
  sampleHash [] (HashParm.clean true true)

theorem sampleSliceHash_isSome : sampleSliceHash.isSome = true := by decide

def sampleMulti (hash : LsShmHash) (parms : LsMcParms) : LsMcHashMulti where
  m_iCnt := 1
  m_fnHashKey := hashBuf
  m_pSlices := fun _ =>
    { m_hashByUser := fun _ => hash
      x_iOff := 0x600
      x_iSize := sampleHdrSize parms.m_usecas
      hdr :=
        { x_verbose := 0
          x_withcas := parms.m_usecas
          x_withsasl := parms.m_usesasl
          x_dstaddr := []
          x_stats := {}
          cas := 0 }
      remote := .init }
  notified := []

def sampleEnv : McEnv where
  procId := 0
  pid := 1
  utime := (0, 0)
  stime := (0, 0)
  connect := fun addr => some (addr, true)
  saslConn := false
  chkAuth := fun _ _ => .fail
  updOpt := { m_iFlags := 0, m_iRetcode := .DONE, m_pMisc := [], m_value := 0, m_cas := 0 }
  expired := false
  stack := fun _ => 0

def sampleParms : LsMcParms where
  m_usecas := true
  m_usesasl := false
  m_anonymous := false
  m_nomemfail := false
  m_iValMaxSz := 1048576
  m_iMemMaxSz := 64000000

namespace McWorld

def sampleSlave : McWorld :=
  (start (sampleMulti (sampleSliceHash.get sampleSliceHash_isSome) sampleParms) sampleParms false true
    sampleEnv).step (.setSliceDst 0 (some (bytes "10.0.0.1:11211")))

theorem sampleSlave_linkMode : sampleSlave.LinkMode 0 := by decide

theorem staysInternal_exec_sample
    : Run.Meets step (StaysInternal 0) sampleSlave [.accept, .linkRead 0 [0x81], .linkRead 0 [0, 68]] :=
  (staysInternal_exec 0 sampleSlave _ sampleSlave_linkMode).mpr (by decide)

/--
The frame of a short answer: the connection leaves its mode when the first byte is read.
-/
theorem not_staysInternal_deleted
    : sampleSlave.LinkMode 0 ∧
      ¬ Run.Meets step (StaysInternal 0) sampleSlave
        [.linkRead 0 (McCall.lenNbuf (bytes "DELETED\r\n"))] := by
  refine ⟨sampleSlave_linkMode, ?_⟩
  intro h
  exact absurd h.1.1.1 (by decide)

end McWorld

end Lsmcd
