import Lsmcd.Lib.Framing
import Lsmcd.Memcache.Link

/-!
The frames of an internal connection: what `ackNoreply`, `respond` and `binRespond` put on it, and
what `processInternal` reads from it.
-/

namespace Lsmcd

open Framing

inductive Response
  | ack
  | text (str : List UInt8)
  | bin (buf : List UInt8)

namespace Response

def payload : Response → List UInt8
  | .ack => []
  | .text str => str
  | .bin buf => buf

/--
The bytes behind the length, a text that is too long is replaced.
-/
def wire : Response → List UInt8
  | .ack => []
  | .text str =>
    if LENNBUF_MAXLEN < str.length then bytes "SERVER_ERROR Response too large\r\n" else str
  | .bin buf => buf

def frame (r : Response) : List UInt8 := McCall.htons (r.wire.length + 2) ++ r.wire

def Fits : Response → Prop
  | .ack => True
  | .text str => str.length ≤ LENNBUF_MAXLEN
  | .bin buf => buf.length + 2 < 2 ^ 16

theorem wire_eq_iff (r : Response) (h : r.payload.length + 2 < 2 ^ 16)
    : r.wire = r.payload ↔ r.Fits := by
  cases r with
  | ack => exact iff_of_true rfl trivial
  | bin buf => exact iff_of_true rfl h
  | text str =>
    unfold wire payload Fits
    dsimp only
    split
    . next hlong =>
      refine iff_of_false ?_ (Nat.not_le_of_lt hlong)
      intro heq
      rw [← heq] at hlong
      exact absurd hlong (by decide)
    . next hshort => exact iff_of_true rfl (Nat.le_of_not_lt hshort)

theorem length_wire_of_payload (r : Response) (h : r.payload.length + 2 < 2 ^ 16)
    : r.wire.length + 2 < 2 ^ 16 := by
  cases r with
  | ack => decide
  | bin buf => exact h
  | text str =>
    unfold wire
    dsimp only
    split
    . decide
    . exact h

theorem Fits.length_payload {r : Response} (h : r.Fits) : r.payload.length + 2 < 2 ^ 16 := by
  cases r with
  | ack => decide
  | bin buf => exact h
  | text str => exact Nat.lt_of_le_of_lt (Nat.add_le_add_right h 2) (by decide)

end Response

namespace McCall

def emit (s : McCall) : Response → McCall
  | .ack => s.ackNoreply
  | .text str => s.respond str
  | .bin buf => s.binRespond buf

variable {s : McCall}

theorem respond_noreply (hint : s.conn.internal = true) (h : s.mc.m_noreply = true) (str : List UInt8)
    : s.respond str = s.ackNoreply.setNoreply false ∧
      s.binRespond str = s.ackNoreply.setNoreply false := by
  unfold respond binRespond
  rw [if_pos h, if_pos h, if_pos hint]
  exact ⟨rfl, rfl⟩

theorem emit_eq (hint : s.conn.internal = true) (h : s.mc.m_noreply = false) (r : Response)
    : s.emit r = s.send r.frame := by
  have hno : ¬ s.mc.m_noreply = true := by
    rw [h]
    exact Bool.false_ne_true
  cases r with
  | ack => rfl
  | text str =>
    unfold emit respond
    dsimp only
    rw [if_neg hno, if_pos hint]
    rfl
  | bin buf =>
    unfold emit binRespond
    dsimp only
    rw [if_neg hno, if_pos hint]
    rfl

theorem out_emit (hint : s.conn.internal = true) (h : s.mc.m_noreply = false) (rs : List Response)
    : (rs.foldl emit s).conn.out = s.conn.out ++ rs.flatMap Response.frame := by
  induction rs generalizing s with
  | nil => rw [List.foldl_nil, List.flatMap_nil, List.append_nil]
  | cons r rs ih =>
    have hrest := ih (s := s.send r.frame) hint h
    rw [List.foldl_cons, emit_eq hint h, hrest, List.flatMap_cons, ← List.append_assoc]
    rfl

end McCall

theorem readBe_two (buf : List UInt8)
    : readBe buf 0 2 = (byteAt buf 0).toNat * 256 + (byteAt buf 1).toNat := by
  simp [readBe]

theorem frameLen_eq_some {buf : List UInt8} {n : Nat}
    : frameLen buf = some n ↔ 2 ≤ buf.length ∧ readBe buf 0 2 = n ∧ n ≤ buf.length := by
  unfold frameLen
  split
  . next hshort => exact iff_of_false (by simp) fun h => absurd h.1 (Nat.not_le_of_lt hshort)
  . next hlen =>
    dsimp only
    split
    . next hmore =>
      refine iff_of_false (by simp) ?_
      rintro ⟨_, rfl, hle⟩
      exact Nat.not_le_of_lt hmore hle
    . next hle =>
      rw [Option.some.injEq]
      constructor
      . rintro rfl
        exact ⟨Nat.le_of_not_lt hlen, rfl, Nat.le_of_not_lt hle⟩
      . exact fun h => h.2.1

theorem frameLen_append {buf : List UInt8} {n : Nat} (h : frameLen buf = some n) (t : List UInt8)
    : frameLen (buf ++ t) = some n := by
  obtain ⟨hlen, hn, hle⟩ := frameLen_eq_some.mp h
  have hbyte : ∀ i, i < 2 → byteAt (buf ++ t) i = byteAt buf i :=
    fun i hi => byteAt_append_left (Nat.lt_of_lt_of_le hi hlen)
  apply frameLen_eq_some.mpr
  rw [readBe_two, hbyte 0 (by decide), hbyte 1 (by decide), ← readBe_two, List.length_append]
  exact ⟨by omega, hn, by omega⟩

theorem readBe_lt_65536 (buf : List UInt8) : readBe buf 0 2 < 2 ^ 16 := by
  have h0 := (byteAt buf 0).toNat_lt
  have h1 := (byteAt buf 1).toNat_lt
  rw [readBe_two]
  omega

def internalNext (buf : List UInt8) : Next (List UInt8) :=
  match frameLen buf with
  | none => .more
  | some 0 => .stop
  | some (n + 1) => .frame ((buf.take (n + 1)).drop 2) (n + 1)

theorem internalNext_frame {buf b : List UInt8} {n : Nat} (h : internalNext buf = .frame b n)
    : frameLen buf = some n ∧ 0 < n ∧ b = (buf.take n).drop 2 := by
  unfold internalNext at h
  split at h
  . contradiction
  . contradiction
  . next n hn =>
    cases h
    exact ⟨hn, Nat.succ_pos n, rfl⟩

def internalDecoder : Decoder UInt8 (List UInt8) where
  next := internalNext
  next_nil := rfl
  frame_pos h := (internalNext_frame h).2.1
  frame_le h := (frameLen_eq_some.mp (internalNext_frame h).1).2.2
  frame_append := by
    intro s b n t h
    obtain ⟨hlen, hpos, rfl⟩ := internalNext_frame h
    obtain ⟨n, rfl⟩ := Nat.exists_eq_succ_of_ne_zero (Nat.ne_of_gt hpos)
    have hle := (frameLen_eq_some.mp hlen).2.2
    unfold internalNext
    rw [frameLen_append hlen]
    dsimp only
    rw [List.take_append_of_le_length hle]
  stop_append := by
    intro s t h
    unfold internalNext at h ⊢
    split at h
    . contradiction
    . next hlen => rw [frameLen_append hlen]
    . contradiction

theorem processInternal_eq (w : McWorld) (i : Nat)
    : w.processInternal i =
        match internalNext (w.slice i).remote.m_bufIncoming with
        | .more => (w, -1)
        | .stop => (w.processFrame i [], 0)
        | .frame data n => (w.processFrame i data, (n : Int)) := by
  unfold McWorld.processInternal internalNext
  dsimp only
  rcases frameLen (w.slice i).remote.m_bufIncoming with _ | _ | n
  . rfl
  . simp
  . rfl

section Stream

variable {rs : List Response}

theorem readBe_htons (n : Nat) (t : List UInt8)
    : readBe (McCall.htons n ++ t) 0 2 = n % 2 ^ 16 := by
  rw [readBe_two]
  change (UInt8.ofNat (n / 256 % 256)).toNat * 256 + (UInt8.ofNat (n % 256)).toNat = _
  rw [UInt8.toNat_ofNat', UInt8.toNat_ofNat']
  omega

theorem internalNext_of_fits (r : Response) (h : r.wire.length + 2 < 2 ^ 16) (t : List UInt8)
    : internalNext (r.frame ++ t) = .frame r.wire r.frame.length := by
  have hlen : r.frame.length = r.wire.length + 2 := by
    rw [Response.frame, List.length_append]
    exact Nat.add_comm ..
  have hframe : frameLen (r.frame ++ t) = some (r.wire.length + 1 + 1) := by
    apply frameLen_eq_some.mpr
    rw [List.length_append, hlen, Response.frame, List.append_assoc, readBe_htons, Nat.mod_eq_of_lt h]
    omega
  have hdrop : r.frame.drop 2 = r.wire :=
    List.drop_left' (show (McCall.htons (r.wire.length + 2)).length = 2 from rfl)
  unfold internalNext
  rw [hframe]
  dsimp only
  rw [← hlen, List.take_left, hdrop]

theorem scan_of_fits (h : ∀ r ∈ rs, r.wire.length + 2 < 2 ^ 16)
    : internalDecoder.scan (rs.flatMap Response.frame) = ⟨rs.map Response.wire, false, []⟩ := by
  induction rs with
  | nil => exact Decoder.scan_nil
  | cons r rs ih =>
    have hnext := internalNext_of_fits r (h r List.mem_cons_self) (rs.flatMap Response.frame)
    rw [List.flatMap_cons, Decoder.scan_frame hnext, List.drop_left,
      ih fun r hr => h r (List.mem_cons_of_mem _ hr)]
    rfl

theorem length_of_mem_scan (s b : List UInt8) (hb : b ∈ (internalDecoder.scan s).frames)
    : b.length + 2 < 2 ^ 16 := by
  induction s using internalDecoder.scan_induction with
  | hmore s hnext =>
    rw [Decoder.scan_more hnext] at hb
    contradiction
  | hstop s hnext =>
    rw [Decoder.scan_stop hnext] at hb
    contradiction
  | hframe s c n hnext ih =>
    rw [Decoder.scan_frame hnext] at hb
    rcases List.mem_append.mp hb with hin | hin
    . obtain ⟨hlen, _, rfl⟩ := internalNext_frame hnext
      have hlt := readBe_lt_65536 s
      rw [(frameLen_eq_some.mp hlen).2.1] at hlt
      rw [List.mem_singleton.mp hin, List.length_drop, List.length_take]
      omega
    . exact ih hin

theorem scan_iff_fits
    : internalDecoder.scan (rs.flatMap Response.frame) = ⟨rs.map Response.payload, false, []⟩ ↔
        ∀ r ∈ rs, r.Fits := by
  constructor
  . intro h
    have hpayload : ∀ r ∈ rs, r.payload.length + 2 < 2 ^ 16 := by
      intro r hr
      apply length_of_mem_scan (rs.flatMap Response.frame)
      rw [h]
      exact List.mem_map_of_mem hr
    rw [scan_of_fits fun r hr => r.length_wire_of_payload (hpayload r hr)] at h
    have hwire := congrArg Scan.frames h
    intro r hr
    exact (r.wire_eq_iff (hpayload r hr)).mp (List.map_inj_left.mp hwire r hr)
  . intro h
    have hpayload : ∀ r ∈ rs, r.payload.length + 2 < 2 ^ 16 := fun r hr => (h r hr).length_payload
    have hwire : rs.map Response.wire = rs.map Response.payload :=
      List.map_congr_left fun r hr => (r.wire_eq_iff (hpayload r hr)).mpr (h r hr)
    rw [← hwire]
    exact scan_of_fits fun r hr => r.length_wire_of_payload (hpayload r hr)

end Stream

def RoundTrip (s : McCall) (rs : List Response) : Prop :=
  ∀ ts : List (List UInt8), ts.flatten = (rs.foldl McCall.emit s).conn.out →
    ts.foldl internalDecoder.feed .start = ⟨rs.map Response.payload, false, []⟩

def Advances (w : McWorld) (i : Nat) : Prop :=
  (w.processInternal i).2 = -1 ∨
    (1 ≤ (w.processInternal i).2 ∧
      (w.processInternal i).2 ≤ (w.slice i).remote.m_bufIncoming.length)

theorem roundTrip_iff {s : McCall} (hint : s.conn.internal = true) (h : s.mc.m_noreply = false)
    (hout : s.conn.out = []) (rs : List Response) : RoundTrip s rs ↔ ∀ r ∈ rs, r.Fits := by
  rw [← scan_iff_fits]
  unfold RoundTrip
  rw [McCall.out_emit hint h, hout, List.nil_append]
  constructor
  . intro hall
    have hwhole := hall [rs.flatMap Response.frame] (by simp)
    obtain ⟨hframes, hstopped, hrest, _⟩ :=
      internalDecoder.feed_flatten [rs.flatMap Response.frame]
    rw [List.flatten_singleton, hwhole] at hframes hstopped hrest
    have hr := hrest hstopped.symm
    generalize internalDecoder.scan (rs.flatMap Response.frame) = σ at hframes hstopped hr ⊢
    obtain ⟨frames, stopped, rest⟩ := σ
    dsimp only at hframes hstopped hr
    rw [hframes, hstopped, hr]
  . intro hscan ts hts
    obtain ⟨hframes, hstopped, hrest, _⟩ := internalDecoder.feed_flatten ts
    rw [hts, hscan] at hframes hstopped hrest
    have hr := hrest rfl
    generalize ts.foldl internalDecoder.feed .start = σ at hframes hstopped hr ⊢
    obtain ⟨frames, stopped, rest⟩ := σ
    dsimp only at hframes hstopped hr
    rw [hframes, hstopped, hr]

theorem advances_iff (w : McWorld) (i : Nat)
    : Advances w i ↔ ¬ [0, 0] <+: (w.slice i).remote.m_bufIncoming := by
  unfold Advances
  rw [processInternal_eq]
  generalize (w.slice i).remote.m_bufIncoming = buf
  have hzero : [0, 0] <+: buf ↔ frameLen buf = some 0 := by
    rw [frameLen_eq_some, readBe_two]
    constructor
    . rintro ⟨t, rfl⟩
      rw [List.length_append]
      refine ⟨Nat.le_add_right .., ?_, Nat.zero_le _⟩
      change (0 : UInt8).toNat * 256 + (0 : UInt8).toNat = 0
      decide
    . intro ⟨hlen, hval, _⟩
      obtain ⟨a, b, t, rfl⟩ : ∃ a b t, buf = a :: b :: t := by
        rcases buf with _ | ⟨a, _ | ⟨b, t⟩⟩
        . contradiction
        . contradiction
        . exact ⟨a, b, t, rfl⟩
      change a.toNat * 256 + b.toNat = 0 at hval
      have ha : a = 0 := UInt8.toNat_inj.mp (show a.toNat = 0 by omega)
      have hb : b = 0 := UInt8.toNat_inj.mp (show b.toNat = 0 by omega)
      exact ⟨t, by rw [ha, hb]; rfl⟩
  rw [hzero]
  unfold internalNext
  cases hlen : frameLen buf with
  | none => exact iff_of_true (.inl rfl) (by simp)
  | some n =>
    have hle := (frameLen_eq_some.mp hlen).2.2
    cases n with
    | zero =>
      refine iff_of_false ?_ (not_not.mpr rfl)
      dsimp only
      omega
    | succ n =>
      refine iff_of_true (.inr ?_) (by simp)
      dsimp only
      omega

/--
The answers come back when 16 bits can count each of them. That a text is replaced concerns none that
a handler has. Of all that may be received, a length of 0 alone does not bring the stream on.
-/
theorem internal_iff {s : McCall} (hint : s.conn.internal = true) (h : s.mc.m_noreply = false)
    (hout : s.conn.out = []) (rs : List Response) (w : McWorld) (i : Nat)
    : (RoundTrip s rs ↔ ∀ r ∈ rs, r.Fits) ∧
      (Advances w i ↔ ¬ [0, 0] <+: (w.slice i).remote.m_bufIncoming) :=
  ⟨roundTrip_iff hint h hout rs, advances_iff w i⟩

def sampleInternal : McCall :=
  let s := (McWorld.sampleSlave.step .accept).call 0
  { s with conn := { s.conn with internal := true } }

theorem internal_sample
    : RoundTrip sampleInternal [.text (bytes "OK\r\n"), .ack, .bin [0x81, 0]] ∧
      Advances McWorld.sampleSlave 0 := by
  have h := @internal_iff sampleInternal (by decide) (by decide) (by decide)
    [.text (bytes "OK\r\n"), .ack, .bin [0x81, 0]] McWorld.sampleSlave 0
  refine ⟨h.1.mpr ?_, h.2.mpr (by decide)⟩
  intro r hr
  simp only [List.mem_cons, List.not_mem_nil, or_false] at hr
  rcases hr with rfl | rfl | rfl
  . exact (by decide : (bytes "OK\r\n").length ≤ LENNBUF_MAXLEN)
  . trivial
  . exact (by decide : ([0x81, 0] : List UInt8).length + 2 < 2 ^ 16)

/--
A value of 65534 bytes: its frame says that it has the length 0.
-/
theorem not_roundTrip_large
    : ¬ RoundTrip sampleInternal [.bin (List.replicate 65534 0)] := by
  rw [roundTrip_iff (by decide) (by decide) (by decide)]
  intro h
  have hfits := h _ List.mem_cons_self
  unfold Response.Fits at hfits
  dsimp only at hfits
  rw [List.length_replicate] at hfits
  omega

end Lsmcd
