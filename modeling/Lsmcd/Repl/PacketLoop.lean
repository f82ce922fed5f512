import Lsmcd.Lib.Run
import Lsmcd.Repl.Packet

/-!
The packets that a connection takes out of its input against the packets that the input consists of.
-/

namespace Lsmcd

open Bytes Framing

namespace ReplPacketHeader

def WellFormed (h : ReplPacketHeader) : Prop :=
  h.Marked ∧ sizeofReplPacketHeader ≤ h.uiPackLen.toNat ∧ h.uiPackLen.toNat < 2 ^ 31

instance (h : ReplPacketHeader) : Decidable h.WellFormed := inferInstanceAs (Decidable (_ ∧ _ ∧ _))

/--
A header with a mark and a check sum, whose packet is said to be shorter than the header.
-/
def Short (h : ReplPacketHeader) : Prop :=
  h.Marked ∧ 0 < h.uiPackLen.toNat ∧ h.uiPackLen.toNat < sizeofReplPacketHeader

instance (h : ReplPacketHeader) : Decidable h.Short := inferInstanceAs (Decidable (_ ∧ _ ∧ _))

end ReplPacketHeader

open ReplPacketHeader

def headerOf (s : List UInt8) : ReplPacketHeader :=
  .ofBytes (s.take sizeofReplPacketHeader)

def packetNext (s : List UInt8) : Next ReplPacket :=
  if s.length < sizeofReplPacketHeader then .more
  else
    let h := headerOf s
    if ¬ h.WellFormed then .stop
    else if s.length < h.uiPackLen.toNat then .more
    else
      .frame
        { uiContID := h.uiContID
          uiType := h.getType
          uiSequenceNum := h.uiSequenceNum
          pData := (s.drop sizeofReplPacketHeader).take (h.uiPackLen.toNat - sizeofReplPacketHeader) }
        h.uiPackLen.toNat

section PacketNext

variable {s : List UInt8} {p : ReplPacket} {n : Nat}

theorem headerOf_append (h : sizeofReplPacketHeader ≤ s.length) (t : List UInt8)
    : headerOf (s ++ t) = headerOf s := by
  unfold headerOf
  rw [List.take_append_of_le_length h]

theorem packetNext_stop (h : packetNext s = .stop)
    : sizeofReplPacketHeader ≤ s.length ∧ ¬ (headerOf s).WellFormed := by
  unfold packetNext at h
  dsimp only at h
  split at h
  . cases h
  . split at h
    . exact ⟨Nat.le_of_not_lt ‹_›, ‹_›⟩
    . split at h <;> cases h

theorem packetNext_frame (h : packetNext s = .frame p n)
    : (headerOf s).WellFormed ∧ n = (headerOf s).uiPackLen.toNat ∧ n ≤ s.length ∧
      sizeofReplPacketHeader ≤ n ∧ p = ⟨(headerOf s).uiContID, (headerOf s).getType,
        (headerOf s).uiSequenceNum,
        (s.drop sizeofReplPacketHeader).take (n - sizeofReplPacketHeader)⟩ := by
  unfold packetNext at h
  dsimp only at h
  split at h
  . cases h
  . split at h
    . cases h
    . rename_i hwf
      have hwf := not_not.mp hwf
      split at h
      . cases h
      . cases h
        exact ⟨hwf, rfl, Nat.le_of_not_lt ‹_›, hwf.2.1, rfl⟩

theorem packetNext_of_header (hlen : sizeofReplPacketHeader ≤ s.length)
    (hwf : (headerOf s).WellFormed) (hle : (headerOf s).uiPackLen.toNat ≤ s.length)
    : packetNext s = .frame ⟨(headerOf s).uiContID, (headerOf s).getType,
        (headerOf s).uiSequenceNum, (s.drop sizeofReplPacketHeader).take
          ((headerOf s).uiPackLen.toNat - sizeofReplPacketHeader)⟩ (headerOf s).uiPackLen.toNat := by
  unfold packetNext
  dsimp only
  rw [if_neg (by omega), if_neg (not_not.mpr hwf), if_neg (by omega)]

def packetDecoder : Decoder UInt8 ReplPacket where
  next := packetNext
  next_nil := rfl
  frame_pos := by
    intro s p n h
    obtain ⟨-, -, -, hpos, -⟩ := packetNext_frame h
    exact Nat.lt_of_lt_of_le (by decide) hpos
  frame_le := by
    intro s p n h
    exact (packetNext_frame h).2.2.1
  frame_append := by
    intro s p n t h
    obtain ⟨hwf, hn, hle, hpos, hp⟩ := packetNext_frame h
    have hhdr := headerOf_append (Nat.le_trans hpos hle) t
    have hlen : (s ++ t).length = s.length + t.length := List.length_append
    rw [packetNext_of_header (by omega) (by rw [hhdr]; exact hwf) (by rw [hhdr]; omega), hhdr, ← hn,
      hp, List.drop_append_of_le_length (by omega), List.take_append_of_le_length (by simp; omega)]
  stop_append := by
    intro s t h
    obtain ⟨hlen, hwf⟩ := packetNext_stop h
    unfold packetNext
    dsimp only
    rw [headerOf_append hlen, if_neg (by simp; omega), if_pos hwf]

end PacketNext

section Unpack

variable {s : List UInt8} {p : ReplPacket} {n : Nat}

theorem checkPack_eq {h : ReplPacketHeader} (hmark : h.Marked) (hlen : h.uiPackLen.toNat < 2 ^ 31)
    : h.checkPack = h.uiPackLen.toNat := by
  unfold checkPack
  rw [if_neg (not_not.mpr hmark), if_pos hlen]

theorem unpack_eq (s : List UInt8) : unpack s s.length =
    if s.length < sizeofReplPacketHeader then (headerOf s, (s.length : Int) - sizeofReplPacketHeader)
    else if (headerOf s).checkPack < 0 then (headerOf s, 0)
    else if (s.length : Int) < (headerOf s).checkPack then
      (headerOf s, s.length - (headerOf s).checkPack)
    else (headerOf s, (headerOf s).checkPack) := rfl

theorem unpack_of_frame (h : packetNext s = .frame p n)
    : unpack s s.length = (headerOf s, (n : Int)) ∧
      (headerOf s).packet (s.drop sizeofReplPacketHeader) = p := by
  obtain ⟨hwf, hn, hle, hpos, hp⟩ := packetNext_frame h
  have hlt := hwf.2.2
  have hcheck := checkPack_eq hwf.1 hlt
  constructor
  . rw [unpack_eq, if_neg (by omega), hcheck, if_neg (by omega), if_neg (by omega), hn]
  . have hdata : (headerOf s).dataLen = n - sizeofReplPacketHeader := by
      have hsz : sizeofReplPacketHeader = 16 := rfl
      unfold dataLen
      omega
    rw [hp]
    unfold ReplPacketHeader.packet
    rw [hdata]

theorem unpack_of_more (h : packetNext s = .more) : (unpack s s.length).2 < 0 := by
  unfold packetNext at h
  rw [unpack_eq]
  dsimp only at h
  split at h
  . rename_i hlt
    rw [if_pos hlt]
    dsimp only
    omega
  . rename_i hge
    split at h
    . cases h
    . rename_i hwf
      have hwf := not_not.mp hwf
      split at h
      . rename_i hless
        have hcheck := checkPack_eq hwf.1 hwf.2.2
        rw [if_neg hge, hcheck, if_neg (by omega), if_pos (by omega)]
        dsimp only
        omega
      . cases h

theorem unpack_of_stop (h : packetNext s = .stop)
    : ((headerOf s).Short ∧ 0 < (unpack s s.length).2) ∨
      (¬ (headerOf s).Short ∧ (unpack s s.length).2 = 0) := by
  obtain ⟨hlen, hwf⟩ := packetNext_stop h
  have hsz : sizeofReplPacketHeader = 16 := rfl
  have heq : (unpack s s.length).2 = if (headerOf s).checkPack < 0 then 0
      else if (s.length : Int) < (headerOf s).checkPack then s.length - (headerOf s).checkPack
      else (headerOf s).checkPack := by
    rw [unpack_eq, if_neg (by omega)]
    split
    . rfl
    . split <;> rfl
  rw [heq]
  by_cases hmark : (headerOf s).Marked
  . by_cases hlt : (headerOf s).uiPackLen.toNat < 2 ^ 31
    . have hsmall : (headerOf s).uiPackLen.toNat < sizeofReplPacketHeader :=
        Nat.lt_of_not_le fun hle => hwf ⟨hmark, hle, hlt⟩
      rw [checkPack_eq hmark hlt, if_neg (by omega), if_neg (by omega)]
      by_cases hz : (headerOf s).uiPackLen.toNat = 0
      . exact Or.inr ⟨fun hshort => by have := hshort.2.1; omega, by omega⟩
      . exact Or.inl ⟨⟨hmark, by omega, hsmall⟩, by omega⟩
    . have hneg : (headerOf s).checkPack < 0 := by
        have hmax := (headerOf s).uiPackLen.toNat_lt
        unfold checkPack
        rw [if_neg (not_not.mpr hmark), if_neg hlt]
        omega
      rw [if_pos hneg]
      exact Or.inr ⟨fun hshort => by have := hshort.2.2; omega, rfl⟩
  . have hneg : (headerOf s).checkPack < 0 := by
      unfold checkPack
      rw [if_pos hmark]
      decide
    rw [if_pos hneg]
    exact Or.inr ⟨fun hshort => hmark hshort.1, rfl⟩

end Unpack

namespace ReplConn

variable {c : ReplConn}

theorem straighten_eq (c : ReplConn)
    : ∃ b, c.straighten = { c with m_bufIncoming := b } ∧ b.content = c.m_bufIncoming.content ∧
      b.blockSize = b.size := by
  unfold straighten
  by_cases hblock : c.m_bufIncoming.blockSize = c.m_bufIncoming.size
  . rw [if_neg (not_not.mpr hblock)]
    exact ⟨c.m_bufIncoming, rfl, rfl, hblock⟩
  . rw [if_pos hblock]
    have hne : c.m_bufIncoming.size ≠ 0 := by
      intro hz
      have hsz := c.m_bufIncoming.size_eq
      have hend := c.m_bufIncoming.end_lt
      have hhead := c.m_bufIncoming.head_lt
      apply hblock
      unfold LoopBuf.blockSize
      split at hsz <;> split <;> omega
    obtain ⟨b, hb, hcontent, hbs⟩ := LoopBuf.append_moveTo hne
    refine ⟨b, ?_, hcontent, hbs⟩
    dsimp only [append]
    rw [hb]

theorem processIncomingLoop_succ (fuel : Nat) (c : ReplConn)
    : ∃ b, b.content = c.m_bufIncoming.content ∧
      processIncomingLoop (fuel + 1) c =
        if 0 < (unpack c.m_bufIncoming.content c.m_bufIncoming.content.length).2 then
          processIncomingLoop fuel
            { c with
              handled := c.handled ++
                [(unpack c.m_bufIncoming.content c.m_bufIncoming.content.length).1.packet
                  (c.m_bufIncoming.content.drop sizeofReplPacketHeader)]
              m_bufIncoming :=
                b.pop_front (unpack c.m_bufIncoming.content c.m_bufIncoming.content.length).2.toNat }
        else if (unpack c.m_bufIncoming.content c.m_bufIncoming.content.length).2 = 0 then
          { c with m_bufIncoming := b }.closeConnection
        else { c with m_bufIncoming := b } := by
  obtain ⟨b, hb, hcontent, hbs⟩ := c.straighten_eq
  refine ⟨b, hcontent, ?_⟩
  have hsize : b.size = c.m_bufIncoming.content.length := by rw [← hcontent, LoopBuf.content_length]
  have hpeek : b.peek b.size = c.m_bufIncoming.content := by
    rw [LoopBuf.peek_eq (Nat.le_of_eq hbs.symm), hcontent, List.take_of_length_le (by rw [hsize])]
  rw [processIncomingLoop, hb]
  dsimp only
  rw [hpeek, hsize]

theorem unpack_le {s : List UInt8} {n : Nat} (hn : s.length = n) : (unpack s n).2 ≤ n := by
  rw [← hn, unpack_eq]
  split
  . dsimp only
    omega
  . split
    . dsimp only
      omega
    . split
      . dsimp only
        omega
      . dsimp only
        omega

theorem processIncomingLoop_fuel {fuel : Nat} (h : c.m_bufIncoming.size < fuel)
    : processIncomingLoop fuel c = c.processIncoming := by
  have hmono : ∀ fuel fuel' (c : ReplConn), c.m_bufIncoming.size < fuel →
      c.m_bufIncoming.size < fuel' → processIncomingLoop fuel c = processIncomingLoop fuel' c := by
    intro fuel
    induction fuel with
    | zero =>
      intro fuel' c hs
      omega
    | succ fuel ih =>
      intro fuel' c hs hs'
      obtain ⟨k, rfl⟩ := Nat.exists_eq_succ_of_ne_zero (show fuel' ≠ 0 by omega)
      -- the straightened buffer does not depend on the fuel
      obtain ⟨b, hb, hcontent, hbs⟩ := c.straighten_eq
      have hsize : b.size = c.m_bufIncoming.size := by
        rw [← LoopBuf.content_length, hcontent, LoopBuf.content_length]
      rw [processIncomingLoop, processIncomingLoop, hb]
      dsimp only
      split
      . rename_i hpos
        have hpop : ∀ n : Nat, 0 < n → n ≤ b.size → (b.pop_front n).size < b.size := by
          intro n hn hle
          rw [← LoopBuf.content_length, LoopBuf.content_pop_front, List.length_drop,
            LoopBuf.content_length]
          omega
        have hle := unpack_le (s := b.peek b.size) (n := b.size) (by simp [LoopBuf.peek])
        have hlt := hpop (unpack (b.peek b.size) b.size).2.toNat (by omega) (by omega)
        apply ih <;> dsimp only <;> omega
      . rfl
  exact hmono _ _ c h (Nat.lt_succ_self _)

theorem handled_closeConnection (c : ReplConn) : c.closeConnection.handled = c.handled := by
  unfold closeConnection
  split <;> rfl

theorem length_handled_loop (fuel : Nat) (c : ReplConn)
    : c.handled.length ≤ (processIncomingLoop fuel c).handled.length := by
  induction fuel generalizing c with
  | zero => exact Nat.le_refl _
  | succ fuel ih =>
    obtain ⟨b, -, hloop⟩ := processIncomingLoop_succ fuel c
    rw [hloop]
    split
    . apply Nat.le_trans _ (ih _)
      simp
    . split
      . rw [handled_closeConnection]
      . exact Nat.le_refl _

theorem length_handled_onRead (c : ReplConn) (bs : List UInt8)
    : c.handled.length ≤ (c.onRead bs).handled.length := by
  have happend : (c.append bs).handled = c.handled := by
    unfold append
    split <;> rfl
  unfold onRead
  split
  . exact Nat.le_refl _
  . dsimp only
    split
    . rw [happend]
    . unfold processIncoming
      rw [← happend]
      exact length_handled_loop _ _

/--
The connection has handed out the packets found so far and waits for the rest of the next one, or it
has been closed where the parse stops. Past a short header it has handed out something else.
-/
inductive Follows (c : ReplConn) (σ : Scan UInt8 ReplPacket) : Prop where
  | waits (hstopped : σ.stopped = false) (hhandled : c.handled = σ.frames)
      (hrest : c.m_bufIncoming.content = σ.rest) (hstate : c.m_iConnState = .CS_CONNECTED)
      (hoverflow : c.overflow = false)
  | closed (hstopped : σ.stopped = true) (hshort : ¬ (headerOf σ.rest).Short)
      (hhandled : c.handled = σ.frames) (hstate : c.m_iConnState = .CS_DISCONNECTED)
      (hoverflow : c.overflow = false)
  | short (hstopped : σ.stopped = true) (hshort : (headerOf σ.rest).Short)
      (hhandled : σ.frames.length < c.handled.length)

theorem follows_loop {fuel : Nat} (hfuel : c.m_bufIncoming.content.length < fuel)
    (hstate : c.m_iConnState = .CS_CONNECTED) (hoverflow : c.overflow = false)
    : (processIncomingLoop fuel c).Follows
        ((packetDecoder.scan c.m_bufIncoming.content).after c.handled) := by
  induction fuel generalizing c with
  | zero => omega
  | succ fuel ih =>
    obtain ⟨b, hb, hloop⟩ := processIncomingLoop_succ fuel c
    rw [hloop]
    clear hloop
    cases hnext : packetNext c.m_bufIncoming.content with
    | more =>
      have hneg := unpack_of_more hnext
      rw [if_neg (Int.not_lt.mpr (Int.le_of_lt hneg)), if_neg (Int.ne_of_lt hneg),
        Decoder.scan_more hnext]
      exact .waits rfl (List.append_nil _).symm hb hstate hoverflow
    | stop =>
      rw [Decoder.scan_stop hnext]
      rcases unpack_of_stop hnext with ⟨hshort, hpos⟩ | ⟨hshort, hz⟩
      . rw [if_pos hpos]
        refine .short rfl ?_ ?_
        . exact hshort
        . apply Nat.lt_of_lt_of_le _ (length_handled_loop ..)
          simp [Scan.after]
      . rw [hz, if_neg (by omega), if_pos rfl]
        unfold closeConnection
        rw [if_neg (by rw [hstate]; decide)]
        exact .closed rfl hshort (List.append_nil _).symm rfl hoverflow
    | frame p n =>
      obtain ⟨hunpack, hpacket⟩ := unpack_of_frame hnext
      have hpos := packetDecoder.frame_pos hnext
      have hle := packetDecoder.frame_le hnext
      have hdrop : (b.pop_front n).content = c.m_bufIncoming.content.drop n := by
        rw [LoopBuf.content_pop_front, hb]
      rw [hunpack, Decoder.scan_frame hnext, Decoder.after_after, ← hdrop]
      dsimp only
      rw [if_pos (by omega), hpacket, Int.toNat_natCast]
      apply ih
      . rw [LoopBuf.content_pop_front, hb, List.length_drop]
        omega
      . exact hstate
      . exact hoverflow

/--
What has been received of the packet to come and what is read next fit in the buffer, whose size is an
`int`.
-/
def FitsRead (σ : Scan UInt8 ReplPacket) (bs : List UInt8) : Prop :=
  σ.stopped = false → bs.length + σ.rest.length + 1 + LOOPBUFUNIT < 2 ^ 31

instance (σ : Scan UInt8 ReplPacket) (bs : List UInt8) : Decidable (FitsRead σ bs) :=
  inferInstanceAs (Decidable (_ → _))

theorem follows_onRead {σ : Scan UInt8 ReplPacket} (h : c.Follows σ)
    (hnext : packetDecoder.next σ.rest = if σ.stopped then .stop else .more) {bs : List UInt8}
    (hfit : FitsRead σ bs) : (c.onRead bs).Follows (packetDecoder.feed σ bs) := by
  unfold Decoder.feed
  cases h with
  | waits hstopped hhandled hrest hstate hoverflow =>
    rw [hstopped, if_neg Bool.false_ne_true]
    unfold onRead
    by_cases hnil : bs = []
    . rw [if_pos (Or.inr (Or.inr hnil)), hnil, List.append_nil]
      rw [hstopped, if_neg Bool.false_ne_true] at hnext
      rw [Decoder.scan_more hnext]
      exact .waits rfl (by rw [hhandled]; exact (List.append_nil _).symm) hrest hstate hoverflow
    . rw [if_neg (by rw [hstate, hoverflow]; simp [hnil])]
      have hfit := hfit hstopped
      rw [← hrest, LoopBuf.content_length] at hfit
      obtain ⟨b, hb, hcontent⟩ := LoopBuf.append_eq hfit
      have happend : c.append bs = { c with m_bufIncoming := b } := by
        unfold append
        rw [hb]
      have hloop := follows_loop (c := { c with m_bufIncoming := b }) (Nat.lt_succ_self _) hstate hoverflow
      rw [LoopBuf.content_length] at hloop
      rw [happend, ← hhandled, ← hrest, ← hcontent]
      dsimp only
      rw [if_neg (by rw [hoverflow]; exact Bool.false_ne_true)]
      exact hloop
  | closed hstopped hshort hhandled hstate hoverflow =>
    rw [if_pos hstopped]
    unfold onRead
    rw [if_pos (Or.inl hstate)]
    exact .closed hstopped hshort hhandled hstate hoverflow
  | short hstopped hshort hhandled =>
    rw [if_pos hstopped]
    exact .short hstopped hshort (Nat.lt_of_lt_of_le hhandled (length_handled_onRead c bs))

def received (reads : List (List UInt8)) : ReplConn :=
  reads.foldl onRead start

theorem follows_received (reads : List (List UInt8))
    (hfit : Run.Meets packetDecoder.feed FitsRead .start reads)
    : (received reads).Follows (reads.foldl packetDecoder.feed .start) := by
  have hrun : ∀ (reads : List (List UInt8)) (c : ReplConn) (σ : Scan UInt8 ReplPacket), c.Follows σ →
      packetDecoder.next σ.rest = (if σ.stopped then .stop else .more) →
      Run.Meets packetDecoder.feed FitsRead σ reads →
      (reads.foldl onRead c).Follows (reads.foldl packetDecoder.feed σ) := by
    intro reads
    induction reads with
    | nil =>
      intro c σ h _ _
      exact h
    | cons bs reads ih =>
      intro c σ h hnext hfit
      exact ih _ _ (follows_onRead h hnext hfit.1) (Decoder.next_rest_feed hnext bs) hfit.2
  exact hrun reads start .start (.waits rfl rfl (LoopBuf.content_new _) rfl rfl) rfl hfit

/--
Of the reads, exactly the packets that the stream consists of have been handed out, and the connection
is closed exactly if the stream stops at a header that starts no packet.
-/
structure Framed (reads : List (List UInt8)) : Prop where
  handled : (received reads).handled = (packetDecoder.scan reads.flatten).frames
  closed : (received reads).m_iConnState = .CS_DISCONNECTED ↔
    (packetDecoder.scan reads.flatten).stopped = true

def StopsShort (s : List UInt8) : Prop :=
  (packetDecoder.scan s).stopped = true ∧ (headerOf (packetDecoder.scan s).rest).Short

theorem framed_iff_not_stopsShort (reads : List (List UInt8))
    (hfit : Run.Meets packetDecoder.feed FitsRead .start reads)
    : Framed reads ↔ ¬ StopsShort reads.flatten := by
  have hfollows := follows_received reads hfit
  obtain ⟨hframes, hstopped, hrest, t, ht⟩ := packetDecoder.feed_flatten reads
  have hnext : ∀ (reads : List (List UInt8)), packetDecoder.next
      (reads.foldl packetDecoder.feed .start).rest =
      if (reads.foldl packetDecoder.feed .start).stopped then .stop else .more := by
    intro reads
    induction reads using List.reverseRecOn with
    | nil => rfl
    | append_singleton reads bs ih =>
      rw [List.foldl_append]
      exact Decoder.next_rest_feed ih bs
  have hnext := hnext reads
  generalize reads.foldl packetDecoder.feed .start = σ at hfollows hframes hstopped hrest ht hnext
  have hhdr : σ.stopped = true → headerOf (packetDecoder.scan reads.flatten).rest = headerOf σ.rest := by
    intro hs
    rw [hs, if_pos rfl] at hnext
    rw [ht, headerOf_append (packetNext_stop hnext).1]
  cases hfollows with
  | waits hs hhandled _ hstate _ =>
    refine iff_of_true ⟨hhandled.trans hframes, ?_⟩ ?_
    . rw [hstate, ← hstopped, hs]
      decide
    . rintro ⟨hst, -⟩
      rw [← hstopped, hs] at hst
      cases hst
  | closed hs hshort hhandled hstate _ =>
    refine iff_of_true ⟨hhandled.trans hframes, ?_⟩ ?_
    . rw [hstate, ← hstopped, hs]
      decide
    . rintro ⟨-, hst⟩
      rw [hhdr hs] at hst
      exact hshort hst
  | short hs hshort hhandled =>
    refine iff_of_false ?_ ?_
    . intro h
      rw [h.handled, ← hframes] at hhandled
      exact Nat.lt_irrefl _ hhandled
    . rw [not_not]
      exact ⟨hstopped ▸ hs, by rw [hhdr hs]; exact hshort⟩

instance (s : List UInt8) : Decidable (StopsShort s) := inferInstanceAs (Decidable (_ ∧ _))

end ReplConn

section SendPacket

theorem ofBytes_bytes (h : ReplPacketHeader) : ofBytes h.bytes = h := by
  have hcrc : leVal (leBytes 2 h.crc.toNat) = h.crc.toNat := leVal_leBytes h.crc.toNat_lt
  have hword : ∀ w : UInt32, UInt32.ofNat (leVal (leBytes 4 w.toNat)) = w := by
    intro w
    rw [leVal_leBytes w.toNat_lt, UInt32.ofNat_toNat]
  obtain ⟨crc, type, mark, uiPackLen, uiSequenceNum, uiContID⟩ := h
  change ReplPacketHeader.mk (UInt16.ofNat (leVal (leBytes 2 crc.toNat))) type mark
    (UInt32.ofNat (leVal (leBytes 4 uiPackLen.toNat)))
    (UInt32.ofNat (leVal (leBytes 4 uiSequenceNum.toNat)))
    (UInt32.ofNat (leVal (leBytes 4 uiContID.toNat))) = _
  rw [hcrc, UInt16.ofNat_toNat, hword, hword, hword]

theorem length_bytes (h : ReplPacketHeader) : h.bytes.length = sizeofReplPacketHeader := rfl

variable (h : ReplPacketHeader) (uContID uiType seqNum : UInt32) (pPayLoad : List UInt8)

theorem unpack_sendPacket (htype : uiType.toNat < 2 ^ 8)
    (hlen : sizeofReplPacketHeader + pPayLoad.length < 2 ^ 31)
    : (unpack (sendPacket h uContID uiType seqNum pPayLoad)
        (sendPacket h uContID uiType seqNum pPayLoad).length).2 =
          sizeofReplPacketHeader + pPayLoad.length ∧
      (unpack (sendPacket h uContID uiType seqNum pPayLoad)
        (sendPacket h uContID uiType seqNum pPayLoad).length).1.packet
          ((sendPacket h uContID uiType seqNum pPayLoad).drop sizeofReplPacketHeader) =
        ⟨uContID, uiType, seqNum, pPayLoad⟩ := by
  have hsz : sizeofReplPacketHeader = 16 := rfl
  generalize hhdr : ReplPacketHeader.setPackLen
    { ({ h.initPack with uiContID := uContID }.setType uiType) with uiSequenceNum := seqNum }
    (UInt32.ofNat (sizeofReplPacketHeader + pPayLoad.length)) = hdr
  have hsend : sendPacket h uContID uiType seqNum pPayLoad = hdr.bytes ++ pPayLoad := by
    rw [← hhdr]
    rfl
  have hmark : hdr.Marked := by
    rw [← hhdr]
    refine ⟨?_, decide_eq_true rfl⟩
    change (0x12 : UInt8) &&& 0x12 = 0x12
    decide
  have hpack : hdr.uiPackLen.toNat = sizeofReplPacketHeader + pPayLoad.length := by
    rw [← hhdr]
    exact (UInt32.toNat_ofNat').trans (Nat.mod_eq_of_lt (by omega))
  have hget : hdr.getType = uiType := by
    rw [← hhdr]
    apply UInt32.toNat_inj.mp
    change uiType.toUInt8.toUInt32.toNat = uiType.toNat
    rw [UInt8.toNat_toUInt32, UInt32.toNat_toUInt8]
    exact Nat.mod_eq_of_lt htype
  have hfields : hdr.uiContID = uContID ∧ hdr.uiSequenceNum = seqNum := by
    rw [← hhdr]
    exact ⟨rfl, rfl⟩
  have hof : headerOf (hdr.bytes ++ pPayLoad) = hdr := by
    unfold headerOf
    rw [List.take_left' (length_bytes hdr), ofBytes_bytes]
  have htotal : (hdr.bytes ++ pPayLoad).length = sizeofReplPacketHeader + pPayLoad.length := by
    rw [List.length_append, length_bytes]
  have hcheck := checkPack_eq hmark (by omega)
  rw [hsend, unpack_eq, hof, if_neg (by omega), hcheck, if_neg (by omega), if_neg (by omega)]
  refine ⟨by rw [hpack]; rfl, ?_⟩
  have hdata : hdr.dataLen = pPayLoad.length := by
    unfold dataLen
    omega
  unfold ReplPacketHeader.packet
  dsimp only
  rw [List.drop_left' (length_bytes hdr), hdata, List.take_length, hfields.1, hfields.2, hget]

end SendPacket

namespace ReplConn

/--
The packets handed out and the close are those of the parse if and only if the stream does not stop
at a header with a mark and a check sum that speaks of 1 to 15 bytes. The loop ends, and packets that
are sent are unpacked as they were.
-/
theorem framed_iff (reads : List (List UInt8))
    (hfit : Run.Meets packetDecoder.feed FitsRead .start reads)
    : (Framed reads ↔ ¬ StopsShort reads.flatten) ∧
      (∀ c fuel, c.m_bufIncoming.size < fuel → processIncomingLoop fuel c = c.processIncoming) ∧
      ∀ h uContID (uiType : UInt32) seqNum pPayLoad, uiType.toNat < 2 ^ 8 →
        sizeofReplPacketHeader + pPayLoad.length < 2 ^ 31 →
        (unpack (sendPacket h uContID uiType seqNum pPayLoad)
          (sendPacket h uContID uiType seqNum pPayLoad).length).2 =
            sizeofReplPacketHeader + pPayLoad.length ∧
        (unpack (sendPacket h uContID uiType seqNum pPayLoad)
          (sendPacket h uContID uiType seqNum pPayLoad).length).1.packet
            ((sendPacket h uContID uiType seqNum pPayLoad).drop sizeofReplPacketHeader) =
          ⟨uContID, uiType, seqNum, pPayLoad⟩ :=
  ⟨framed_iff_not_stopsShort reads hfit, fun _ _ h => processIncomingLoop_fuel h,
    fun h uContID uiType seqNum pPayLoad htype hlen =>
      unpack_sendPacket h uContID uiType seqNum pPayLoad htype hlen⟩

def blankHeader : ReplPacketHeader := ⟨0, 0, 0, 0, 0, 0⟩

def sampleReads : List (List UInt8) :=
  let s := sendPacket blankHeader 1 5 7 [10, 20, 30] ++ sendPacket blankHeader 2 6 8 []
  [s.take 11, s.drop 11]

theorem framed_sample : Framed sampleReads :=
  (framed_iff sampleReads (by decide +kernel)).1.mpr (by decide +kernel)

def shortHeader : ReplPacketHeader := blankHeader.initPack.setPackLen 1

/--
It is handed out as a packet.
-/
theorem not_framed_short : ¬ Framed [shortHeader.bytes] := by
  intro h
  exact absurd h.handled (by decide +kernel)

end ReplConn

end Lsmcd
