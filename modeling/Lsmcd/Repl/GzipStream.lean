import Lsmcd.Lib.Run
import Lsmcd.Lib.Zlib
import Lsmcd.Util.LoopBuf

/-!
A replication link whose two ends compress and decompress what they send and receive.
-/

namespace Lsmcd

open Zlib

variable {D I : Type}

namespace GzipStream

section

variable (Z : Codec D I)

/--
The loop of `compress`, which ends when the input is used up. `none` is an overflow of a 32 bit size.
-/
def compressLoop : Nat → D → LoopBuf → List UInt8 → Option (D × LoopBuf)
  | 0, d, b, _ => some (d, b)
  | fuel + 1, d, b, pInBuf => do
    let b ← b.guarantee 2048
    let r := Z.deflate d pInBuf b.contiguous
    let b := (b.store b.m_pEnd r.out).used r.out.length
    if r.consumed < pInBuf.length then compressLoop fuel r.state b (pInBuf.drop r.consumed)
    else return (r.state, b)

def pushOutGoingData (d : D) (b : LoopBuf) (pData : List UInt8) : Option (D × LoopBuf) :=
  compressLoop Z (Z.deflateBound d pData.length + 1) d b pData

def uncompressLoop : Nat → I → LoopBuf → List UInt8 → Option (I × LoopBuf × Int)
  | 0, j, b, _ => some (j, b, 0)
  | fuel + 1, j, b, pInBuf => do
    let b ← b.guarantee 2048
    let r := Z.inflate j pInBuf b.contiguous
    if r.ret = Z_NEED_DICT then return (r.state, b, Z_DATA_ERROR)
    else if r.ret = Z_DATA_ERROR ∨ r.ret = Z_MEM_ERROR then return (r.state, b, r.ret)
    else
      let b := (b.store b.m_pEnd r.out).used r.out.length
      if r.consumed < pInBuf.length then uncompressLoop fuel r.state b (pInBuf.drop r.consumed)
      else return (r.state, b, 0)

/--
The number of new bytes in the buffer, if there are any, else that of all bytes in it.
-/
def popIncomingData (fuel : Nat) (j : I) (b : LoopBuf) (pData : List UInt8)
    : Option (I × LoopBuf × Int) := do
  let r ← uncompressLoop Z fuel j b pData
  let res := if r.2.2 < 0 then r.2.2 else (r.2.1.size : Int) - b.size
  return (r.1, r.2.1, if res = 0 then r.2.1.size else res)

def deflateRoom : Nat → D → LoopBuf → List UInt8 → Bool
  | 0, _, _, _ => true
  | fuel + 1, d, b, pInBuf =>
    match b.guarantee 2048 with
    | none => true
    | some b =>
      let r := Z.deflate d pInBuf b.contiguous
      if r.consumed < pInBuf.length then
        deflateRoom fuel r.state ((b.store b.m_pEnd r.out).used r.out.length)
          (pInBuf.drop r.consumed)
      else r.out.length < b.contiguous

def inflateRoom : Nat → I → LoopBuf → List UInt8 → Bool
  | 0, _, _, _ => true
  | fuel + 1, j, b, pInBuf =>
    match b.guarantee 2048 with
    | none => true
    | some b =>
      let r := Z.inflate j pInBuf b.contiguous
      if r.consumed < pInBuf.length then
        inflateRoom fuel r.state ((b.store b.m_pEnd r.out).used r.out.length)
          (pInBuf.drop r.consumed)
      else r.out.length < b.contiguous

end

variable {Z : Codec D I} {d d' : D} {j j' : I} {b b' : LoopBuf} {i o f g input : List UInt8}

theorem guarantee_room (h : b.guarantee 2048 = some b')
    : b'.content = b.content ∧ 0 < b'.contiguous := by
  obtain ⟨hcontent, hroom⟩ := LoopBuf.guarantee_some h
  exact ⟨hcontent, LoopBuf.contiguous_pos (Nat.lt_of_lt_of_le (by decide) hroom)⟩

theorem compressLoop_spec (hZ : Lawful Z) {fuel : Nat} (h : Deflated Z d i o)
    (hfuel : Z.deflateBound d input.length < fuel) (hroom : deflateRoom Z fuel d b input = true)
    (hres : compressLoop Z fuel d b input = some (d', b'))
    : ∃ out, b'.content = b.content ++ out ∧ Deflated Z d' (i ++ input) (o ++ out) ∧
      Z.plain (o ++ out) = i ++ input := by
  induction fuel generalizing d b i o input with
  | zero => omega
  | succ fuel ih =>
    rw [deflateRoom] at hroom
    rw [compressLoop] at hres
    cases hg : b.guarantee 2048 with
    | none =>
      rw [hg] at hres
      cases hres
    | some c =>
      obtain ⟨hcontent, hpos⟩ := guarantee_room hg
      rw [hg] at hroom hres
      dsimp only [Option.bind_eq_bind, Option.bind_some] at hroom hres
      obtain ⟨hconsumed, hout⟩ := hZ.deflate_le h input hpos
      have hcall := h.call input hpos
      have hstore := LoopBuf.content_store_used hout
      by_cases hmore : (Z.deflate d input c.contiguous).consumed < input.length
      . rw [if_pos hmore] at hroom hres
        -- an incomplete call has filled the room
        have hfull : ¬ (Z.deflate d input c.contiguous).out.length < c.contiguous := fun hlt =>
          Nat.ne_of_lt hmore (hZ.deflate_flushed h input hpos hlt).1
        have hbound := hZ.deflate_bound h input hpos hmore
        obtain ⟨out, hb', hd', hplain⟩ := ih hcall (by rw [List.length_drop]; omega) hroom hres
        rw [hstore, hcontent, List.append_assoc] at hb'
        have hjoin : i ++ input.take (Z.deflate d input c.contiguous).consumed ++
            input.drop (Z.deflate d input c.contiguous).consumed = i ++ input := by
          rw [List.append_assoc, List.take_append_drop]
        rw [hjoin, List.append_assoc] at hd' hplain
        exact ⟨_, hb', hd', hplain⟩
      . rw [if_neg hmore] at hroom hres
        have hall : (Z.deflate d input c.contiguous).consumed = input.length := by omega
        obtain ⟨-, hplain⟩ := hZ.deflate_flushed h input hpos (by simpa using hroom)
        rw [hall, List.take_length] at hcall
        cases hres
        exact ⟨_, by rw [hstore, hcontent], hcall, hplain⟩

theorem uncompressLoop_spec (hZ : Lawful Z) {fuel : Nat} {ret : Int} (h : Inflated Z j f g)
    (hvalid : Valid Z (f ++ input)) (hg : g <+: Z.plain (f ++ input))
    (hfuel : (Z.plain (f ++ input)).length < g.length + fuel)
    (hroom : inflateRoom Z fuel j b input = true)
    (hres : uncompressLoop Z fuel j b input = some (j', b', ret))
    : ret = 0 ∧ ∃ out, b'.content = b.content ++ out ∧ Inflated Z j' (f ++ input) (g ++ out) ∧
      g ++ out = Z.plain (f ++ input) := by
  induction fuel generalizing j b f g input with
  | zero =>
    have hle := hg.length_le
    omega
  | succ fuel ih =>
    rw [inflateRoom] at hroom
    rw [uncompressLoop] at hres
    cases hc : b.guarantee 2048 with
    | none =>
      rw [hc] at hres
      cases hres
    | some c =>
      obtain ⟨hcontent, hpos⟩ := guarantee_room hc
      rw [hc] at hroom hres
      dsimp only [Option.bind_eq_bind, Option.bind_some] at hroom hres
      obtain ⟨hconsumed, hout⟩ := hZ.inflate_le h input hpos hvalid
      obtain ⟨hdict, hdata, hmem⟩ := hZ.inflate_ret h input hpos hvalid
      have hprefix := hZ.inflate_prefix h input hpos hvalid
      have hcall := h.call input hpos
      have hstore := LoopBuf.content_store_used hout
      rw [if_neg hdict, if_neg (not_or.mpr ⟨hdata, hmem⟩)] at hres
      by_cases hmore : (Z.inflate j input c.contiguous).consumed < input.length
      . rw [if_pos hmore] at hroom hres
        -- an incomplete call has filled the room
        have hfull : ¬ (Z.inflate j input c.contiguous).out.length < c.contiguous := fun hlt =>
          Nat.ne_of_lt hmore (hZ.inflate_all h input hpos hvalid hlt).1
        have hjoin : f ++ input.take (Z.inflate j input c.contiguous).consumed ++
            input.drop (Z.inflate j input c.contiguous).consumed = f ++ input := by
          rw [List.append_assoc, List.take_append_drop]
        have hih := ih hcall (by rw [hjoin]; exact hvalid) (by rw [hjoin]; exact hprefix)
          (by rw [hjoin, List.length_append]; omega) hroom hres
        rw [hjoin] at hih
        obtain ⟨hret, out, hb', hj', hplain⟩ := hih
        rw [hstore, hcontent, List.append_assoc] at hb'
        rw [List.append_assoc] at hj' hplain
        exact ⟨hret, _, hb', hj', hplain⟩
      . rw [if_neg hmore] at hroom hres
        have hall : (Z.inflate j input c.contiguous).consumed = input.length := by omega
        obtain ⟨-, hplain⟩ := hZ.inflate_all h input hpos hvalid (by simpa using hroom)
        rw [hall, List.take_length] at hcall
        cases hres
        exact ⟨rfl, _, by rw [hstore, hcontent], hcall, hplain⟩

end GzipStream

open GzipStream

/--
The sending and the receiving end of a link, and the bytes on the way. The last four fields are its
history: the messages sent, how many bytes had been produced after each of them, the bytes received,
and the bytes appended to the input buffer.
-/
structure ZipLink (D I : Type) where
  zdef : D
  m_bufOutgoing : LoopBuf
  wire : List UInt8
  zinf : I
  m_bufIncoming : LoopBuf
  closing : Bool
  overflow : Bool
  messages : List (List UInt8)
  marks : List Nat
  delivered : List UInt8
  appended : List UInt8

namespace ZipLink

def start (Z : Codec D I) : ZipLink D I where
  zdef := Z.deflateInit
  m_bufOutgoing := .new 4096
  wire := []
  zinf := Z.inflateInit
  m_bufIncoming := .new 4096
  closing := false
  overflow := false
  messages := []
  marks := []
  delivered := []
  appended := []

def produced (s : ZipLink D I) : List UInt8 :=
  s.delivered ++ s.wire ++ s.m_bufOutgoing.content

/--
The socket takes `sent` of the bytes that lie contiguous in the buffer.
-/
def SendEx (s : ZipLink D I) (sent : Nat) : ZipLink D I :=
  let sent := min sent s.m_bufOutgoing.blockSize
  { s with
    wire := s.wire ++ s.m_bufOutgoing.peek sent
    m_bufOutgoing := s.m_bufOutgoing.pop_front sent }

def sendBuff (Z : Codec D I) (s : ZipLink D I) (msg : List UInt8) (sent : Nat) : ZipLink D I :=
  match pushOutGoingData Z s.zdef s.m_bufOutgoing msg with
  | none => { s with overflow := true }
  | some (d, b) =>
    let s := { s with zdef := d, m_bufOutgoing := b, messages := s.messages ++ [msg] }
    let s := { s with marks := s.marks ++ [s.produced.length] }
    s.SendEx sent

/--
How much compressed data can hold is an upper bound for the calls of `inflate`.
-/
def fuel (Z : Codec D I) (s : ZipLink D I) (pBuf : List UInt8) : Nat :=
  (Z.plain (s.delivered ++ pBuf)).length + 1

/--
`processIncoming` first moves a content that wraps around to the start of the buffer. `taken` is what it takes
out then.
-/
def processIncoming (s : ZipLink D I) (taken : Nat) : ZipLink D I :=
  let b := s.m_bufIncoming
  let r := b.moveTo b.size
  match if b.blockSize ≠ b.size then r.2.append r.1 else some b with
  | none => { s with overflow := true }
  | some b => { s with m_bufIncoming := b.pop_front taken }

def onRead (Z : Codec D I) (s : ZipLink D I) (n taken : Nat) : ZipLink D I :=
  let pBuf := s.wire.take (min n 4096)
  if pBuf = [] then s
  else
    match popIncomingData Z (s.fuel Z pBuf) s.zinf s.m_bufIncoming pBuf with
    | none => { s with overflow := true }
    | some (j, b, ret) =>
      let s :=
        { s with
          wire := s.wire.drop pBuf.length
          delivered := s.delivered ++ pBuf
          zinf := j
          m_bufIncoming := b
          appended := s.appended ++ b.content.drop s.m_bufIncoming.size }
      if 0 < ret then s.processIncoming taken else { s with closing := true }

inductive Event where
  | sendBuff (msg : List UInt8) (sent : Nat)
  | Flush (sent : Nat)
  | onRead (n taken : Nat)

def step (Z : Codec D I) (s : ZipLink D I) (e : Event) : ZipLink D I :=
  if s.closing ∨ s.overflow then s
  else
    match e with
    | .sendBuff msg sent => s.sendBuff Z msg sent
    | .Flush sent => s.SendEx sent
    | .onRead n taken => s.onRead Z n taken

/--
Nothing is lost: a message is in the input buffer when the bytes that had been produced after it have
arrived, and all of them are when all bytes have arrived.
-/
structure Lossless (s : ZipLink D I) : Prop where
  not_closing : s.closing = false
  length_marks : s.marks.length = s.messages.length
  complete : ∀ i n, s.marks[i]? = some n → n ≤ s.delivered.length →
    (s.messages.take (i + 1)).flatten <+: s.appended
  in_order : s.appended <+: s.messages.flatten
  all : s.wire = [] → s.m_bufOutgoing.content = [] → s.appended = s.messages.flatten

/--
A message is flushed, and a read is inflated, into a buffer in which room is left, and a read that
brings no byte of the stream does not find the input buffer empty.
-/
def Ok (Z : Codec D I) (s : ZipLink D I) : Event → Prop
  | .sendBuff msg _ => deflateRoom Z (Z.deflateBound s.zdef msg.length + 1) s.zdef s.m_bufOutgoing msg
  | .Flush _ => True
  | .onRead n _ =>
    let pBuf := s.wire.take (min n 4096)
    pBuf ≠ [] → inflateRoom Z (s.fuel Z pBuf) s.zinf s.m_bufIncoming pBuf ∧
      (Z.plain (s.delivered ++ pBuf) = Z.plain s.delivered → s.m_bufIncoming.content ≠ [])

variable {Z : Codec D I} {s : ZipLink D I}

/--
Both streams are complete: what has been produced holds all messages, what has been delivered has been
inflated.
-/
structure Inv (Z : Codec D I) (s : ZipLink D I) : Prop where
  not_closing : s.closing = false
  deflated : Deflated Z s.zdef s.messages.flatten s.produced
  flushed : Z.plain s.produced = s.messages.flatten
  inflated : Inflated Z s.zinf s.delivered s.appended
  drained : s.appended = Z.plain s.delivered
  length_marks : s.marks.length = s.messages.length
  marks : ∀ i n, s.marks[i]? = some n →
    n ≤ s.produced.length ∧ Z.plain (s.produced.take n) = (s.messages.take (i + 1)).flatten

theorem produced_start : (ZipLink.start Z).produced = [] := by
  unfold produced ZipLink.start
  rw [LoopBuf.content_new]
  rfl

theorem Inv.start (hZ : Lawful Z) : Inv Z (.start Z) where
  not_closing := rfl
  deflated := by
    rw [produced_start]
    exact .init
  flushed := by
    rw [produced_start]
    exact hZ.plain_nil
  inflated := .init
  drained := hZ.plain_nil.symm
  length_marks := rfl
  marks _ _ h := nomatch h

theorem Inv.lossless (h : Inv Z s) (hZ : Lawful Z) : s.Lossless where
  not_closing := h.not_closing
  length_marks := h.length_marks
  complete i n hmark hn := by
    obtain ⟨-, hplain⟩ := h.marks i n hmark
    have htake : s.produced.take n <+: s.delivered := by
      unfold produced
      rw [List.append_assoc, List.take_append_of_le_length hn]
      exact List.take_prefix _ _
    rw [← hplain, h.drained]
    exact hZ.plain_prefix htake
  in_order := by
    rw [h.drained, ← h.flushed]
    apply hZ.plain_prefix
    unfold produced
    rw [List.append_assoc]
    exact List.prefix_append _ _
  all hwire hout := by
    rw [h.drained, ← h.flushed]
    unfold produced
    rw [hwire, hout, List.append_nil, List.append_nil]

theorem produced_SendEx (s : ZipLink D I) (sent : Nat) : (s.SendEx sent).produced = s.produced := by
  unfold SendEx produced
  dsimp only
  rw [LoopBuf.peek_eq (Nat.min_le_right _ _), LoopBuf.content_pop_front, List.append_assoc,
    List.append_assoc s.wire, List.take_append_drop, List.append_assoc]

theorem Inv.SendEx (h : Inv Z s) (sent : Nat) : Inv Z (s.SendEx sent) where
  not_closing := h.not_closing
  deflated := by
    rw [produced_SendEx]
    exact h.deflated
  flushed := by
    rw [produced_SendEx]
    exact h.flushed
  inflated := h.inflated
  drained := h.drained
  length_marks := h.length_marks
  marks := by
    rw [produced_SendEx]
    exact h.marks

theorem Inv.sendBuff (h : Inv Z s) (hZ : Lawful Z) {msg : List UInt8} {sent : Nat}
    (hok : Ok Z s (.sendBuff msg sent)) (hlive : (s.sendBuff Z msg sent).overflow = false)
    : Inv Z (s.sendBuff Z msg sent) := by
  revert hlive
  unfold ZipLink.sendBuff
  cases hpush : pushOutGoingData Z s.zdef s.m_bufOutgoing msg with
  | none =>
    intro hlive
    cases hlive
  | some r =>
    intro _
    obtain ⟨d, b⟩ := r
    obtain ⟨out, hb, hd, hplain⟩ := compressLoop_spec hZ h.deflated (Nat.lt_succ_self _) hok hpush
    have hflat : (s.messages ++ [msg]).flatten = s.messages.flatten ++ msg := by simp
    have hprod : s.delivered ++ s.wire ++ b.content = s.produced ++ out := by
      unfold produced
      rw [hb, List.append_assoc _ _ out]
    dsimp only
    apply Inv.SendEx
    constructor
    . exact h.not_closing
    . change Deflated Z d (s.messages ++ [msg]).flatten (s.delivered ++ s.wire ++ b.content)
      rw [hprod, hflat]
      exact hd
    . change Z.plain (s.delivered ++ s.wire ++ b.content) = (s.messages ++ [msg]).flatten
      rw [hprod, hflat]
      exact hplain
    . exact h.inflated
    . exact h.drained
    . simp [h.length_marks]
    . intro i n hmark
      change (s.marks ++ [(s.delivered ++ s.wire ++ b.content).length])[i]? = some n at hmark
      change n ≤ (s.delivered ++ s.wire ++ b.content).length ∧
        Z.plain ((s.delivered ++ s.wire ++ b.content).take n) =
          ((s.messages ++ [msg]).take (i + 1)).flatten
      rw [hprod] at hmark ⊢
      by_cases hi : i < s.marks.length
      . -- an earlier message
        rw [List.getElem?_append_left hi] at hmark
        obtain ⟨hle, hearlier⟩ := h.marks i n hmark
        rw [List.take_append_of_le_length hle, hearlier,
          List.take_append_of_le_length (by rw [← h.length_marks]; exact hi)]
        exact ⟨by rw [List.length_append]; omega, rfl⟩
      . rw [List.getElem?_append_right (by omega)] at hmark
        have hlast : i - s.marks.length = 0 := by
          by_contra hne
          rw [List.getElem?_eq_none (by simp; omega)] at hmark
          cases hmark
        rw [hlast] at hmark
        cases hmark
        have hlen := h.length_marks
        rw [List.take_length, hplain, List.take_of_length_le (by simp; omega), hflat]
        exact ⟨Nat.le_refl _, rfl⟩

theorem Inv.valid (h : Inv Z s) {n : Nat} : Valid Z (s.delivered ++ s.wire.take n) := by
  refine ⟨s.zdef, _, s.produced, h.deflated, ?_⟩
  unfold produced
  rw [List.append_assoc, List.prefix_append_right_inj]
  exact (List.take_prefix _ _).trans (List.prefix_append _ _)

theorem Inv.processIncoming (h : Inv Z s) (taken : Nat) : Inv Z (s.processIncoming taken) := by
  unfold ZipLink.processIncoming
  dsimp only
  split <;> exact ⟨h.not_closing, h.deflated, h.flushed, h.inflated, h.drained, h.length_marks, h.marks⟩

theorem Inv.onRead (h : Inv Z s) (hZ : Lawful Z) {n taken : Nat} (hok : Ok Z s (.onRead n taken))
    (hlive : (s.onRead Z n taken).overflow = false) : Inv Z (s.onRead Z n taken) := by
  revert hlive
  unfold ZipLink.onRead
  dsimp only
  generalize hbuf : s.wire.take (min n 4096) = pBuf
  split
  . intro _
    exact h
  . rename_i hne
    unfold popIncomingData
    cases hloop : uncompressLoop Z (s.fuel Z pBuf) s.zinf s.m_bufIncoming pBuf with
    | none =>
      intro hlive
      cases hlive
    | some r =>
      intro _
      obtain ⟨j, b, ret⟩ := r
      unfold Ok at hok
      dsimp only at hok
      rw [hbuf] at hok
      obtain ⟨hroom, hempty⟩ := hok hne
      have hvalid : Valid Z (s.delivered ++ pBuf) := hbuf ▸ h.valid
      have hprefix : s.appended <+: Z.plain (s.delivered ++ pBuf) := by
        rw [h.drained]
        exact hZ.plain_prefix (List.prefix_append _ _)
      obtain ⟨rfl, out, hb, hj, hplain⟩ := uncompressLoop_spec hZ h.inflated hvalid hprefix
        (by unfold fuel; omega) hroom hloop
      dsimp only [Option.bind_eq_bind, Option.bind_some, Option.pure_def]
      have hsize : b.size = s.m_bufIncoming.size + out.length := by
        rw [← LoopBuf.content_length, hb, List.length_append, LoopBuf.content_length]
      -- the read is no error: bytes have come, or the buffer held some
      have hpos : 0 < (if (if (0 : Int) < 0 then 0 else (b.size : Int) - s.m_bufIncoming.size) = 0
          then (b.size : Int)
          else if (0 : Int) < 0 then 0 else (b.size : Int) - s.m_bufIncoming.size) := by
        rw [if_neg (Int.lt_irrefl 0), hsize]
        split
        . have hnil : out = [] := List.eq_nil_of_length_eq_zero (by omega)
          have hcontent := hempty (by rw [← hplain, hnil, List.append_nil, h.drained])
          have hne := List.length_pos_iff.mpr hcontent
          rw [LoopBuf.content_length] at hne
          omega
        . omega
      rw [if_pos hpos]
      have hdrop : b.content.drop s.m_bufIncoming.size = out := by
        rw [hb, ← LoopBuf.content_length, List.drop_left]
      have hwire : pBuf ++ s.wire.drop pBuf.length = s.wire := by
        obtain ⟨rest, hrest⟩ : pBuf <+: s.wire := hbuf ▸ List.take_prefix _ _
        rw [← hrest, List.drop_left]
      have hprod : s.delivered ++ pBuf ++ s.wire.drop pBuf.length ++ s.m_bufOutgoing.content =
          s.produced := by
        unfold produced
        rw [List.append_assoc s.delivered, hwire]
      apply Inv.processIncoming
      constructor
      . exact h.not_closing
      . change Deflated Z _ _ (s.delivered ++ pBuf ++ s.wire.drop pBuf.length ++ _)
        rw [hprod]
        exact h.deflated
      . change Z.plain (s.delivered ++ pBuf ++ s.wire.drop pBuf.length ++ _) = _
        rw [hprod]
        exact h.flushed
      . dsimp only
        rw [hdrop]
        exact hj
      . dsimp only
        rw [hdrop]
        exact hplain
      . exact h.length_marks
      . change ∀ i n, _ → n ≤ (s.delivered ++ pBuf ++ s.wire.drop pBuf.length ++ _).length ∧
          Z.plain ((s.delivered ++ pBuf ++ s.wire.drop pBuf.length ++ _).take n) = _
        rw [hprod]
        exact h.marks

theorem Inv.step (h : Inv Z s) (hZ : Lawful Z) (e : Event) (hok : Ok Z s e)
    (hlive : (s.step Z e).overflow = false) : Inv Z (s.step Z e) := by
  revert hlive
  unfold ZipLink.step
  split
  . intro _
    exact h
  . cases e with
    | sendBuff msg sent => exact h.sendBuff hZ hok
    | Flush sent => exact fun _ => h.SendEx sent
    | onRead n taken => exact h.onRead hZ hok

theorem overflow_step (Z : Codec D I) (s : ZipLink D I) (e : Event) (h : s.overflow = true)
    : (s.step Z e).overflow = true := by
  unfold ZipLink.step
  rw [if_pos (Or.inr h)]
  exact h

/--
A link on which all flushes and reads leave room, and no read without a byte of the stream meets an
empty buffer, loses nothing.
-/
theorem lossless_exec (Z : Codec D I) (hZ : Lawful Z) (es : List Event)
    (hok : Run.Meets (step Z) (Ok Z) (.start Z) es)
    (hlive : (Run.exec (step Z) (.start Z) es).overflow = false)
    : (Run.exec (step Z) (.start Z) es).Lossless := by
  have hrun := Run.exec_invariant (fun s => s.overflow = false → Inv Z s)
    (fun s e hinv he hlive => ?_) (fun _ => Inv.start hZ) hok
  . exact (hrun hlive).lossless hZ
  . cases hs : s.overflow with
    | false => exact (hinv hs).step hZ e he hlive
    | true =>
      rw [overflow_step Z s e hs] at hlive
      cases hlive

instance (Z : Codec D I) (s : ZipLink D I) (e : Event) : Decidable (Ok Z s e) :=
  match e with
  | .sendBuff _ _ => inferInstanceAs (Decidable (_ = true))
  | .Flush _ => inferInstanceAs (Decidable True)
  | .onRead _ _ => inferInstanceAs (Decidable (_ → _))

def sampleMessage : List UInt8 :=
  (List.range 32).map fun i => UInt8.ofNat (200 + i)

def sampleEvents : List Event :=
  [.sendBuff sampleMessage 20, .onRead 12 0, .Flush 100, .onRead 100 32]

theorem lossless_sample :
    (Run.exec (step Stored.codec) (.start Stored.codec) sampleEvents).Lossless :=
  lossless_exec Stored.codec Stored.lawful sampleEvents (by decide +kernel) (by decide +kernel)

/--
A read that ends in the header of the stream closes the link.
-/
theorem not_lossless_first_byte : ¬ (Run.exec (step Stored.codec) (.start Stored.codec)
    [.sendBuff sampleMessage 100, .onRead 1 0]).Lossless := by
  intro h
  exact absurd h.not_closing (by decide +kernel)

end ZipLink

end Lsmcd
