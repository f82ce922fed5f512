import Lsmcd.Memcache.BinSetup

/-!
What a binary request appends to the output of its connection.
-/

namespace Lsmcd

/--
`p` is a response: a header with the magic byte, the opcode and the opaque word of the request, and as
many bytes as the header says.
-/
structure McBinCmdHdr.IsPacket (hdr : McBinCmdHdr) (p : List UInt8) : Prop where
  magic : byteAt p 0 = MC_BINARY_RES
  opcode : byteAt p 1 = UInt8.ofNat hdr.opcode
  opaqueWord : bufBytes p 12 4 = hdr.opaqueWord
  length : p.length = sizeofBinHdr + readBe p 8 4

def packetStatus (p : List UInt8) : Nat :=
  readBe p 6 2

inductive McBinCmdHdr.Packets (hdr : McBinCmdHdr) : List UInt8 → Prop
  | nil : Packets hdr []
  | cons {p bs : List UInt8} (hp : hdr.IsPacket p) (h : Packets hdr bs) : Packets hdr (p ++ bs)

theorem McBinCmdHdr.Packets.single {hdr : McBinCmdHdr} {p : List UInt8} (hp : hdr.IsPacket p)
    : hdr.Packets p := by
  have h := Packets.cons hp .nil
  rwa [List.append_nil] at h

@[simp]
theorem length_beBytes (n v : Nat) : (beBytes n v).length = n := by
  induction n with
  | zero => rfl
  | succ n ih => simp [beBytes, ih]

structure OutView where
  out : List UInt8
  noreply : Bool
  internal : Bool

def OutView.bin (v : OutView) (buf : List UInt8) : OutView :=
  if v.noreply then { v with noreply := false } else { v with out := v.out ++ buf }

namespace McCall

section

variable {s : McCall} {hdr : McBinCmdHdr}

theorem length_binResHdr (hop : hdr.opaqueWord.length = 4) (extralen keylen totbody : Nat)
    (status : McBinStat) : (s.binResHdr hdr extralen keylen totbody status).length = sizeofBinHdr := by
  simp [binResHdr, hop, sizeofBinHdr]

theorem isPacket_binResHdr (hop : hdr.opaqueWord.length = 4) (extralen keylen : Nat) (status : McBinStat)
    (body : List UInt8) (hbody : body.length < 2 ^ 32)
    : hdr.IsPacket (s.binResHdr hdr extralen keylen body.length status ++ body) ∧
      packetStatus (s.binResHdr hdr extralen keylen body.length status ++ body) =
        status.code % 256 ^ 2 := by
  have hstat := readBe_beBytes 2 status.code
    ([MC_BINARY_RES, UInt8.ofNat hdr.opcode] ++ beBytes 2 keylen ++ [UInt8.ofNat extralen, 0])
    (beBytes 4 body.length ++ hdr.opaqueWord ++ beBytes 8 s.mc.m_rescas ++ body)
  have htot := readBe_beBytes 4 body.length
    ([MC_BINARY_RES, UInt8.ofNat hdr.opcode] ++ beBytes 2 keylen ++ [UInt8.ofNat extralen, 0] ++
      beBytes 2 status.code)
    (hdr.opaqueWord ++ beBytes 8 s.mc.m_rescas ++ body)
  have htot' : readBe (s.binResHdr hdr extralen keylen body.length status ++ body) 8 4 = body.length := by
    rw [Nat.mod_eq_of_lt (show body.length < 256 ^ 4 from hbody)] at htot
    simpa [binResHdr] using htot
  refine ⟨⟨rfl, rfl, ?_, ?_⟩, ?_⟩
  . have hsplit : s.binResHdr hdr extralen keylen body.length status ++ body =
        ([MC_BINARY_RES, UInt8.ofNat hdr.opcode] ++ beBytes 2 keylen ++ [UInt8.ofNat extralen, 0] ++
          beBytes 2 status.code ++ beBytes 4 body.length) ++
        (hdr.opaqueWord ++ (beBytes 8 s.mc.m_rescas ++ body)) := by
      simp [binResHdr]
    rw [hsplit, bufBytes, List.drop_append_of_le_length (by simp), List.drop_eq_nil_of_le (by simp),
      List.nil_append, List.take_append_of_le_length (by omega), List.take_of_length_le (by omega)]
  . rw [htot', List.length_append, length_binResHdr hop]
  . simpa [packetStatus, binResHdr] using hstat

end

def outv (s : McCall) : OutView where
  out := s.conn.out
  noreply := s.mc.m_noreply
  internal := s.conn.internal

section

variable (s : McCall)

@[simp]
theorem outv_setUndef : s.setUndef.outv = s.outv := rfl

@[simp]
theorem outv_setKey (key : List UInt8) : (s.setKey key).outv = s.outv := rfl

@[simp]
theorem outv_setVal (len : Nat) : (s.setVal len).outv = s.outv := rfl

@[simp]
theorem outv_setRetcode (ret : UpdRet) : (s.setRetcode ret).outv = s.outv := rfl

@[simp]
theorem outv_setIterOff (off : Nat) : (s.setIterOff off).outv = s.outv := rfl

@[simp]
theorem outv_setItem (item : LsMcDataItem) : (s.setItem item).outv = s.outv := rfl

@[simp]
theorem outv_setNeeded (n : Int) : (s.setNeeded n).outv = s.outv := rfl

@[simp]
theorem outv_setRescas (cas : Nat) : (s.setRescas cas).outv = s.outv := rfl

@[simp]
theorem outv_setSlice (key : List UInt8) : (s.setSlice key).outv = s.outv := rfl

@[simp]
theorem outv_swapCas : s.swapCas.outv = s.outv := rfl

@[simp]
theorem outv_markKey (p keyLen : Nat) : (s.markKey p keyLen).outv = s.outv := rfl

@[simp]
theorem outv_binStart : s.binStart.outv = s.outv := rfl

@[simp]
theorem outv_notify (i : Nat) : (s.notify i).outv = s.outv := rfl

@[simp]
theorem outv_setSliceAt (i : Nat) (slice : LsMcHashSlice) : (s.setSliceAt i slice).outv = s.outv := rfl

@[simp]
theorem outv_setHashAt (i : Nat) (user : Option (List UInt8)) (hash : LsShmHash)
    : (s.setHashAt i user hash).outv = s.outv := rfl

@[simp]
theorem outv_setHash (hash : LsShmHash) : (s.setHash hash).outv = s.outv := rfl

@[simp]
theorem outv_setHdrAt (i : Nat) (f : LsMcHdr → LsMcHdr) : (s.setHdrAt i f).outv = s.outv := rfl

@[simp]
theorem outv_ofHash (r : LsShmHash × Nat) : (s.ofHash r).1.outv = s.outv := rfl

@[simp]
theorem outv_saveCas (e : LsShmHElem) : (s.saveCas e).outv = s.outv := rfl

@[simp]
theorem outv_setNoreply (b : Bool) : (s.setNoreply b).outv = { s.outv with noreply := b } := rfl

@[simp]
theorem outv_stat (f : LsMcStats → LsMcStats) : (s.stat f).outv = s.outv := by
  unfold stat
  split <;> rfl

@[simp]
theorem outv_notifyChange : s.notifyChange.outv = s.outv := by
  unfold notifyChange
  split <;> rfl

@[simp]
theorem outv_getCas : s.getCas.1.outv = s.outv := by
  unfold getCas
  split <;> rfl

@[simp]
theorem outv_putCas (e : LsShmHElem) : (s.putCas e).1.outv = s.outv := by
  unfold putCas
  split
  . exact outv_getCas s
  . rfl

@[simp]
theorem outv_putWaitQ : s.putWaitQ.outv = s.outv := by
  unfold putWaitQ
  split
  . rfl
  . dsimp only
    split <;> rfl

@[simp]
theorem outv_fwdCommand (i : Nat) (buf : List UInt8) : (s.fwdCommand i buf).outv = s.outv := by
  unfold fwdCommand
  split <;> rfl

@[simp]
theorem outv_doHashInsert (opt : LsMcUpdOpt) : (s.doHashInsert opt).1.outv = s.outv := by
  unfold doHashInsert
  dsimp only
  split
  . split
    . rfl
    . split <;> rfl
  . rfl

@[simp]
theorem outv_updateElem (opt : LsMcUpdOpt) (off : Nat) (e : LsShmHElem)
    : (s.updateElem opt off e).1.outv = s.outv := by
  unfold updateElem
  dsimp only
  split
  . rfl
  . split
    . split <;> rfl
    . split
      . split
        . rfl
        . split <;> rfl
      . rfl

@[simp]
theorem outv_doHashUpdate (opt : LsMcUpdOpt) : (s.doHashUpdate opt).1.outv = s.outv := by
  unfold doHashUpdate
  dsimp only
  split
  . rfl
  . split
    . rfl
    . split
      . rfl
      . simp

@[simp]
theorem outv_dataItemUpdate (buf : List UInt8) : (s.dataItemUpdate buf).outv = s.outv := by
  unfold dataItemUpdate
  dsimp only
  split
  . rfl
  . simp only [outv_setNeeded, outv_setHash, outv_putCas]
    split <;> rfl

@[simp]
theorem outv_chkMemSz (arg : Nat) : (s.chkMemSz arg).1.outv = s.outv := by
  unfold chkMemSz
  dsimp only
  split
  . split <;> rfl
  . split
    . rfl
    . split
      . rfl
      . split <;> rfl

@[simp]
theorem outv_setVerbose (level : Nat) : (s.setVerbose level).outv = s.outv := by
  unfold setVerbose
  split <;> rfl

@[simp]
theorem outv_flushOne : s.flushOne.outv = s.outv := by
  simp [flushOne]

@[simp]
theorem outv_multiFlushFunc (pThis : Bool) (i : Nat) : (multiFlushFunc pThis s i).1.outv = s.outv := by
  unfold multiFlushFunc
  dsimp only
  split
  . split <;> split <;> rfl
  . split
    . rfl
    . split <;> rfl

@[simp]
theorem outv_resetStatAt (i : Nat) : (resetStatAt s i).1.outv = s.outv := by
  unfold resetStatAt
  split <;> rfl

theorem outv_foreachSlice {f : McCall → Nat → McCall × Bool} (hf : ∀ s i, (f s i).1.outv = s.outv)
    (s : McCall) : (foreachSlice f s).1.outv = s.outv := by
  have hgo : ∀ n i s, (foreachSlice.go f n i s).1.outv = s.outv := by
    intro n
    induction n with
    | zero =>
      intro i s
      rfl
    | succ n ih =>
      intro i s
      unfold foreachSlice.go
      dsimp only
      split
      . rw [ih, hf]
      . exact hf s i
  exact hgo s.mc.m_pHashMulti.m_iCnt 0 s

@[simp]
theorem outv_resetStats : s.resetStats.outv = s.outv := by
  unfold resetStats
  split
  . exact outv_foreachSlice outv_resetStatAt s
  . simp

end

/--
One response, which is left out when it is not wanted and reports no error.
-/
def OneAnswer (hdr : McBinCmdHdr) (v w : OutView) : Prop :=
  (∃ p, hdr.IsPacket p ∧ w.out = (v.bin p).out) ∨
    ∃ p, hdr.IsPacket p ∧ packetStatus p ≠ 0 ∧ w.out = v.out ++ p

theorem OneAnswer.replied {hdr : McBinCmdHdr} {v w : OutView} (h : OneAnswer hdr v w)
    (hv : v.noreply = false) : ∃ p, hdr.IsPacket p ∧ w.out = v.out ++ p := by
  obtain ⟨p, hp, hw⟩ | ⟨p, hp, -, hw⟩ := h
  . refine ⟨p, hp, ?_⟩
    rw [hw, OutView.bin, hv]
    rfl
  . exact ⟨p, hp, hw⟩

theorem OneAnswer.silent {hdr : McBinCmdHdr} {v w : OutView} (h : OneAnswer hdr v w)
    (hv : v.noreply = true)
    : w.out = v.out ∨ ∃ p, hdr.IsPacket p ∧ packetStatus p ≠ 0 ∧ w.out = v.out ++ p := by
  obtain ⟨p, -, hw⟩ | h := h
  . left
    rw [hw, OutView.bin, hv]
    rfl
  . exact .inr h

section

variable {s t : McCall} {hdr : McBinCmdHdr}

theorem outv_binRespond (hint : s.outv.internal = false) (buf : List UInt8)
    : (s.binRespond buf).outv = s.outv.bin buf := by
  have hint' : s.conn.internal = false := hint
  unfold binRespond OutView.bin
  by_cases h : s.mc.m_noreply = true
  . have hv : s.outv.noreply = true := h
    rw [if_pos h, if_pos hv, if_neg (by simp [hint'])]
    rfl
  . have hv : ¬ s.outv.noreply = true := h
    rw [if_neg h, if_neg hv, if_neg (by simp [hint'])]
    rfl

@[simp]
theorem internal_bin (v : OutView) (buf : List UInt8) : (v.bin buf).internal = v.internal := by
  unfold OutView.bin
  split <;> rfl

theorem bin_of_reply {v : OutView} (hv : v.noreply = false) (buf : List UInt8)
    : v.bin buf = { v with out := v.out ++ buf } := by
  unfold OutView.bin
  rw [hv]
  rfl

theorem bin_bin {v : OutView} (hv : v.noreply = false) (a b : List UInt8)
    : (v.bin a).bin b = v.bin (a ++ b) := by
  simp [OutView.bin, hv]

theorem bin_nil {v : OutView} (hv : v.noreply = false) : v.bin [] = v := by
  rw [bin_of_reply hv, List.append_nil]

theorem code_ne_zero {err : McBinStat} (h : err ≠ .SUCCESS) : err.code % 256 ^ 2 ≠ 0 := by
  cases err <;> first | exact absurd rfl h | decide

theorem oneAnswer_binErrRespond (hop : hdr.opaqueWord.length = 4) (hint : s.outv.internal = false)
    {err : McBinStat} (herr : err ≠ .SUCCESS) : OneAnswer hdr s.outv (s.binErrRespond hdr err).outv := by
  right
  have htext : (bytes (errText err)).length < 2 ^ 32 := by cases err <;> decide
  obtain ⟨hp, hst⟩ := isPacket_binResHdr (s := ((s.setIterOff 0).setRescas 0).setNoreply false) hop 0 0
    err _ htext
  refine ⟨_, hp, by rw [hst]; exact code_ne_zero herr, ?_⟩
  unfold binErrRespond
  dsimp only
  rw [outv_binRespond, outv_binRespond, bin_bin rfl, bin_of_reply rfl]
  . rfl
  . exact hint
  . rw [outv_binRespond, internal_bin]
    . exact hint
    . exact hint

theorem oneAnswer_binOkRespond (hop : hdr.opaqueWord.length = 4) (hint : s.outv.internal = false)
    : OneAnswer hdr s.outv (s.binOkRespond hdr).outv := by
  left
  have hp := (isPacket_binResHdr (s := s) hop 0 0 .SUCCESS [] (by decide)).1
  rw [List.append_nil] at hp
  refine ⟨_, hp, ?_⟩
  unfold binOkRespond
  rw [outv_binRespond hint]
  rfl

theorem oneAnswer_binTextRespond (hop : hdr.opaqueWord.length = 4) (hint : s.outv.internal = false)
    (hreply : s.outv.noreply = false) (keylen : Nat) (status : McBinStat) (text : List UInt8)
    (htext : text.length < 2 ^ 32)
    : OneAnswer hdr s.outv (s.binTextRespond hdr keylen status text).outv := by
  left
  refine ⟨_, (isPacket_binResHdr (s := s) hop 0 keylen status text htext).1, ?_⟩
  unfold binTextRespond
  rw [outv_binRespond, outv_binRespond hint, bin_bin hreply]
  . rw [outv_binRespond hint, internal_bin]
    exact hint

theorem OneAnswer.of_outv {v v' w w' : OutView} (h : OneAnswer hdr v w) (hv : v = v') (hw : w.out = w'.out)
    : OneAnswer hdr v' w' := by
  subst hv
  unfold OneAnswer
  rw [← hw]
  exact h

theorem oneAnswer_doBinDataUpdate (hop : hdr.opaqueWord.length = 4) (hint : s.outv.internal = false)
    (buf : List UInt8) : OneAnswer hdr s.outv (s.doBinDataUpdate buf hdr).outv := by
  unfold doBinDataUpdate
  dsimp only
  split
  . have hv : (((s.setKey []).dataItemUpdate buf).notifyChange).outv = s.outv := by simp
    refine (oneAnswer_binOkRespond (s := ((s.setKey []).dataItemUpdate buf).notifyChange) hop
      (by rw [hv]; exact hint)).of_outv hv ?_
    simp
  . split
    . exact oneAnswer_binErrRespond (s := s.setKey []) hop hint (by decide)
    . split
      . exact oneAnswer_binErrRespond (s := s.setKey []) hop hint (by decide)
      . split
        . exact oneAnswer_binErrRespond (s := s.setKey []) hop hint (by decide)
        . exact oneAnswer_binErrRespond (s := s.setKey []) hop hint (by decide)

theorem oneAnswer_from (hv : t.outv = s.outv) {w : OutView} (h : OneAnswer hdr t.outv w)
    : OneAnswer hdr s.outv w := by
  rw [← hv]
  exact h

theorem oneAnswer_binStore (hop : hdr.opaqueWord.length = 4) (hint : s.outv.internal = false)
    (cmd pVal : Nat) (opt : LsMcUpdOpt) : OneAnswer hdr s.outv (s.binStore hdr cmd pVal opt).outv := by
  unfold binStore
  dsimp only
  split
  . refine oneAnswer_from ?_ (oneAnswer_doBinDataUpdate hop ?_ _)
    . simp
    . simpa using hint
  . split
    . refine oneAnswer_from ?_ (oneAnswer_doBinDataUpdate hop ?_ _)
      . simp
      . simpa using hint
    . split
      . refine oneAnswer_from ?_ (oneAnswer_doBinDataUpdate hop ?_ _)
        . split <;> simp [binCasStat]
        . split <;> simpa [binCasStat] using hint
      . refine oneAnswer_from ?_ (oneAnswer_doBinDataUpdate hop ?_ _)
        . simp
        . simpa using hint

theorem oneAnswer_doBinDelete (hop : hdr.opaqueWord.length = 4) (hint : s.outv.internal = false)
    : OneAnswer hdr s.outv (s.doBinDelete hdr).outv := by
  unfold doBinDelete
  dsimp only
  split
  . refine oneAnswer_from ?_ (oneAnswer_binErrRespond hop ?_ (by decide))
    . simp [binDeleteStat]
    . simpa [binDeleteStat] using hint
  . split
    . refine oneAnswer_from ?_ (oneAnswer_binErrRespond hop ?_ (by decide))
      . simp [binDeleteStat]
      . simpa [binDeleteStat] using hint
    . split
      . refine oneAnswer_from ?_ (oneAnswer_binErrRespond hop ?_ (by decide))
        . simp [binDeleteStat]
        . simpa [binDeleteStat] using hint
      . split
        . exact oneAnswer_from (by simp) (oneAnswer_binErrRespond hop (by simpa using hint) (by decide))
        . refine oneAnswer_from ?_ (oneAnswer_binOkRespond hop ?_)
          . simp [binDeleteStat]
          . simpa [binDeleteStat] using hint

theorem outv_binGetStat (doTouch hit : Bool) : (s.binGetStat doTouch hit).outv = s.outv := by
  simp [binGetStat]

theorem oneAnswer_binGetMiss (hop : hdr.opaqueWord.length = 4) (hint : s.outv.internal = false)
    (hreply : s.outv.noreply = false) {keyLen : Nat} (hkey : s.mc.m_parms.key.length < 2 ^ 32)
    : OneAnswer hdr s.outv (s.binGetMiss hdr keyLen).outv := by
  have hreply' : s.mc.m_noreply = false := hreply
  unfold binGetMiss
  rw [if_neg (by simp [hreply'])]
  split
  . exact oneAnswer_binTextRespond hop hint hreply _ _ _ hkey
  . exact oneAnswer_binErrRespond hop hint (by decide)

def hitValue (s : McCall) (cmd : Nat) (e : LsShmHElem) : List UInt8 :=
  if cmd = MC_BINCMD_TOUCH then []
  else getMem e.data (mcIter2data e s.mc.m_mcparms.m_usecas).1
    (mcIter2data e s.mc.m_mcparms.m_usecas).2.toNat

theorem length_hitValue (cmd : Nat) (e : LsShmHElem) : (s.hitValue cmd e).length ≤ e.valLen := by
  unfold hitValue
  split
  . simp
  . simp only [getMem, List.length_map, List.length_range, mcIter2data]
    split <;> omega

theorem outv_binGetHit (hint : s.outv.internal = false) (cmd keyLen : Nat) (e : LsShmHElem)
    : (s.binGetHit hdr cmd keyLen e).outv =
      let v := s.outv.bin ((s.saveCas e).binResHdr hdr 4 keyLen
        (4 + keyLen + (s.hitValue cmd e).length) .SUCCESS ++ beBytes 4 e.flags)
      let v := if keyLen ≠ 0 then v.bin s.mc.m_parms.key else v
      if s.hitValue cmd e ≠ [] then v.bin (s.hitValue cmd e) else v := by
  let s₂ := (s.saveCas e).binRespond ((s.saveCas e).binResHdr hdr 4 keyLen
    (4 + keyLen + (s.hitValue cmd e).length) .SUCCESS ++ beBytes 4 e.flags)
  let s₃ := if keyLen ≠ 0 then s₂.binRespond s₂.mc.m_parms.key else s₂
  have h₂ : s₂.outv = s.outv.bin ((s.saveCas e).binResHdr hdr 4 keyLen
      (4 + keyLen + (s.hitValue cmd e).length) .SUCCESS ++ beBytes 4 e.flags) :=
    outv_binRespond (s := s.saveCas e) hint _
  have hint₂ : s₂.outv.internal = false := by
    rw [h₂, internal_bin]
    exact hint
  have hkey : s₂.mc.m_parms = s.mc.m_parms := (parms_binRespond (s := s.saveCas e) _).1
  have h₃ : s₃.outv = if keyLen ≠ 0 then s₂.outv.bin s.mc.m_parms.key else s₂.outv := by
    simp only [s₃]
    rw [hkey]
    split
    . exact outv_binRespond hint₂ _
    . rfl
  have hint₃ : s₃.outv.internal = false := by
    rw [h₃]
    split
    . rw [internal_bin]
      exact hint₂
    . exact hint₂
  dsimp only
  rw [← h₂, ← h₃]
  change outv (if s.hitValue cmd e ≠ [] then s₃.binRespond (s.hitValue cmd e) else s₃) = _
  split
  . exact outv_binRespond hint₃ _
  . rfl

theorem oneAnswer_binGetHit (hop : hdr.opaqueWord.length = 4) (hint : s.outv.internal = false)
    (hreply : s.outv.noreply = false) {cmd keyLen : Nat} (hkeyLen : keyLen = 0 ∨
      keyLen = s.mc.m_parms.key.length) {e : LsShmHElem}
    (hlen : s.mc.m_parms.key.length + e.valLen + 4 < 2 ^ 32)
    : OneAnswer hdr s.outv (s.binGetHit hdr cmd keyLen e).outv := by
  let key := if keyLen ≠ 0 then s.mc.m_parms.key else []
  have hkey : key.length = keyLen := by
    simp only [key]
    split
    . omega
    . simp
      omega
  let body := beBytes 4 e.flags ++ key ++ s.hitValue cmd e
  have hval := length_hitValue (s := s) cmd e
  have hbody : body.length = 4 + keyLen + (s.hitValue cmd e).length := by
    simp [body, hkey]
    omega
  left
  refine ⟨_, (isPacket_binResHdr (s := s.saveCas e) hop 4 keyLen .SUCCESS body ?_).1, ?_⟩
  . rw [hbody]
    omega
  . rw [outv_binGetHit hint, ← hbody]
    dsimp only
    have hk : ∀ v : OutView, v.noreply = false →
        (if keyLen ≠ 0 then v.bin s.mc.m_parms.key else v) = v.bin key := by
      intro v hv
      simp only [key]
      split
      . rfl
      . rw [bin_nil hv]
    have hv : ∀ v : OutView, v.noreply = false →
        (if s.hitValue cmd e ≠ [] then v.bin (s.hitValue cmd e) else v) = v.bin (s.hitValue cmd e) := by
      intro v hv
      split
      . rfl
      . rename_i h
        rw [not_not.mp h, bin_nil hv]
    have hb : ∀ b, (s.outv.bin b).noreply = false := by
      intro b
      rw [bin_of_reply hreply]
      exact hreply
    rw [hk _ (hb _), bin_bin hreply, hv _ (hb _), bin_bin hreply]
    simp [body]

theorem out_binGetHit_noreply (hint : s.outv.internal = false) (hnoreply : s.outv.noreply = true)
    (cmd keyLen : Nat) (e : LsShmHElem)
    : (s.binGetHit hdr cmd keyLen e).outv.out =
      s.outv.out ++ ((if keyLen ≠ 0 then s.mc.m_parms.key else []) ++ s.hitValue cmd e) := by
  rw [outv_binGetHit hint]
  dsimp only
  have hv : ∀ b, s.outv.bin b = { s.outv with noreply := false } := by
    intro b
    simp [OutView.bin, hnoreply]
  rw [hv]
  split <;> split <;> simp_all [OutView.bin]

def getKeyLen (s : McCall) (cmd : Nat) : Nat :=
  if cmd = MC_BINCMD_GATK ∨ cmd = MC_BINCMD_GETK then s.mc.m_parms.key.length else 0

theorem getKeyLen_eq (cmd : Nat) : s.getKeyLen cmd = 0 ∨ s.getKeyLen cmd = s.mc.m_parms.key.length := by
  unfold getKeyLen
  split
  . exact .inr rfl
  . exact .inl rfl

def getElem (s : McCall) : Option LsShmHElem :=
  let off := s.getHash.find2 s.mc.m_hkey s.mc.m_parms.key
  if off = 0 then none
  else match s.getHash.offset2iterator off with
    | none => none
    | some e => if isExpired s.getHash e then none else some e

theorem hitValue_setExptime (cmd : Nat) (e : LsShmHElem) (exptime : Int)
    : s.hitValue cmd (e.setExptime exptime) = s.hitValue cmd e := by
  unfold hitValue
  split
  . rfl
  . have hoff : sizeofDataItem ≤ (mcIter2data e s.mc.m_mcparms.m_usecas).1 := by
      simp only [mcIter2data]
      split <;> omega
    apply List.map_congr_left
    intro i _
    show writeLe e.data 0 8 _ _ = e.data _
    unfold writeLe
    rw [if_neg]
    . rfl
    . simp only [sizeofDataItem] at hoff
      show ¬ (0 ≤ (mcIter2data e s.mc.m_mcparms.m_usecas).1 + i ∧
        (mcIter2data e s.mc.m_mcparms.m_usecas).1 + i < 0 + 8)
      omega

theorem parms_binGetStat (doTouch hit : Bool)
    : (s.binGetStat doTouch hit).mc.m_parms = s.mc.m_parms ∧
      (s.binGetStat doTouch hit).mc.m_mcparms = s.mc.m_mcparms := by
  unfold binGetStat stat
  split <;> exact ⟨rfl, rfl⟩

theorem parms_notifyChange : s.notifyChange.mc.m_parms = s.mc.m_parms ∧
    s.notifyChange.mc.m_mcparms = s.mc.m_mcparms := by
  unfold notifyChange
  split <;> exact ⟨rfl, rfl⟩

theorem doBinGet_cases {P : McCall → Prop} (cmd : Nat) (doTouch : Bool)
    (hmiss : s.getElem = none → ∀ t : McCall, t.outv = s.outv → t.mc.m_parms = s.mc.m_parms →
      P (t.binGetMiss hdr (s.getKeyLen cmd)))
    (herr : s.getElem = none → ∀ t : McCall, t.outv = s.outv → P (t.binErrRespond hdr .INTERNAL_ERROR))
    (hhit : ∀ e, s.getElem = some e → ∀ (t : McCall) (e' : LsShmHElem), t.outv = s.outv →
      t.mc.m_parms = s.mc.m_parms → t.mc.m_mcparms = s.mc.m_mcparms → e'.valLen = e.valLen →
      (s.hitValue cmd e' = s.hitValue cmd e) → P (t.binGetHit hdr cmd (s.getKeyLen cmd) e'))
    : P (s.doBinGet hdr cmd doTouch) := by
  unfold doBinGet
  dsimp only
  split
  . rename_i hoff
    exact hmiss (by simp [getElem, hoff]) _ (outv_binGetStat ..) (parms_binGetStat ..).1
  . rename_i hoff
    split
    . rename_i he
      exact herr (by simp [getElem, he]) _ rfl
    . rename_i e he
      split
      . rename_i hexp
        refine hmiss (by simp [getElem, he, hexp]) _ ?_ ?_
        . rw [outv_binGetStat, outv_notifyChange]
          rfl
        . rw [(parms_binGetStat ..).1, parms_notifyChange.1]
          rfl
      . rename_i hexp
        have hget : s.getElem = some e := by simp [getElem, hoff, he, hexp]
        split
        . refine hhit e hget _ _ ?_ ?_ ?_ rfl (hitValue_setExptime ..)
          . rw [outv_binGetStat, outv_notifyChange]
            rfl
          . rw [(parms_binGetStat ..).1, parms_notifyChange.1]
            rfl
          . rw [(parms_binGetStat ..).2, parms_notifyChange.2]
            rfl
        . exact hhit e hget _ _ (outv_binGetStat ..) (parms_binGetStat ..).1 (parms_binGetStat ..).2 rfl rfl

theorem oneAnswer_doBinGet (hop : hdr.opaqueWord.length = 4) (hint : s.outv.internal = false)
    (hreply : s.outv.noreply = false) (hkey : s.mc.m_parms.key.length < 2 ^ 16)
    (hsize : ∀ e, s.getElem = some e → e.valLen < 2 ^ 31) (cmd : Nat) (doTouch : Bool)
    : OneAnswer hdr s.outv (s.doBinGet hdr cmd doTouch).outv := by
  apply doBinGet_cases (P := fun t => OneAnswer hdr s.outv t.outv)
  . intro _ t ht hparms
    rw [← ht] at hint hreply ⊢
    exact oneAnswer_binGetMiss hop hint hreply (by rw [hparms]; omega)
  . intro _ t ht
    rw [← ht] at hint ⊢
    exact oneAnswer_binErrRespond hop hint (by decide)
  . intro e he t e' ht hparms _ hlen _
    have := hsize e he
    rw [← ht] at hint hreply ⊢
    refine oneAnswer_binGetHit hop hint hreply ?_ ?_
    . rw [hparms]
      exact getKeyLen_eq cmd
    . rw [hparms, hlen]
      omega

theorem out_doBinGet_noreply (hop : hdr.opaqueWord.length = 4) (hint : s.outv.internal = false)
    (hnoreply : s.outv.noreply = true) (cmd : Nat) (doTouch : Bool)
    : (s.getElem = none → (s.doBinGet hdr cmd doTouch).outv.out = s.outv.out ∨
        OneAnswer hdr s.outv (s.doBinGet hdr cmd doTouch).outv) ∧
      ∀ e, s.getElem = some e → (s.doBinGet hdr cmd doTouch).outv.out =
        s.outv.out ++ ((if s.getKeyLen cmd ≠ 0 then s.mc.m_parms.key else []) ++ s.hitValue cmd e) := by
  apply doBinGet_cases (P := fun t =>
    (s.getElem = none → t.outv.out = s.outv.out ∨ OneAnswer hdr s.outv t.outv) ∧
      ∀ e, s.getElem = some e → t.outv.out =
        s.outv.out ++ ((if s.getKeyLen cmd ≠ 0 then s.mc.m_parms.key else []) ++ s.hitValue cmd e))
  . intro hnone t ht hparms
    refine ⟨fun _ => .inl ?_, fun e he => ?_⟩
    . rw [← ht] at hnoreply ⊢
      have hnoreply' : t.mc.m_noreply = true := hnoreply
      unfold binGetMiss
      rw [if_pos hnoreply']
    . rw [hnone] at he
      cases he
  . intro hnone t ht
    refine ⟨fun _ => .inr ?_, fun e he => ?_⟩
    . rw [← ht] at hint ⊢
      exact oneAnswer_binErrRespond hop hint (by decide)
    . rw [hnone] at he
      cases he
  . intro e he t e' ht hparms hmc _ hval
    refine ⟨fun hnone => ?_, fun e₁ he₁ => ?_⟩
    . rw [hnone] at he
      cases he
    . rw [he] at he₁
      cases he₁
      rw [← ht] at hint hnoreply ⊢
      rw [out_binGetHit_noreply hint hnoreply, hparms, ← hval]
      unfold hitValue
      rw [hmc]

def TwoAnswers (hdr : McBinCmdHdr) (v w : OutView) : Prop :=
  ∃ p q, hdr.IsPacket p ∧ p.length = sizeofBinHdr ∧ hdr.IsPacket q ∧ q.length = sizeofBinHdr + 8 ∧
    packetStatus q = 0 ∧ w.out = ((v.bin p).bin q).out

theorem twoAnswers_binNumRespond (hop : hdr.opaqueWord.length = 4) (hint : s.outv.internal = false)
    (hoff : s.mc.m_iterOff ≠ 0) (text : List UInt8) {newval : List UInt8} (hnew : newval.length = 8)
    : TwoAnswers hdr s.outv (s.binNumRespond hdr text newval).outv := by
  let t := (((s.setRetcode .NONE).setKey []).dataItemUpdate text).notifyChange
  have ht : t.outv = s.outv := by simp [t]
  let u := (t.binOkRespond hdr).setIterOff 0
  have hu : u.outv = s.outv.bin (t.binResHdr hdr 0 0 0 .SUCCESS) := by
    show (t.binRespond _).outv = _
    rw [outv_binRespond (by rw [ht]; exact hint), ht]
  have hdata : (s.setRetcode .NONE).doBinDataUpdate text hdr = u := by
    unfold doBinDataUpdate
    exact if_pos hoff
  have hp := (isPacket_binResHdr (s := t) hop 0 0 .SUCCESS [] (by decide)).1
  rw [List.append_nil] at hp
  have hq := isPacket_binResHdr (s := u) hop 0 0 .SUCCESS newval (by omega)
  rw [hnew] at hq
  refine ⟨_, _, hp, length_binResHdr hop .., hq.1, ?_, hq.2, ?_⟩
  . rw [List.length_append, length_binResHdr hop, hnew]
  . unfold binNumRespond
    dsimp only
    rw [hdata, outv_binRespond, hu]
    . rfl
    . rw [hu, internal_bin]
      exact hint

def initCall (s : McCall) (exptime : Nat) (text : List UInt8) : McCall :=
  let s := (s.setItem { x_exptime := exptime, x_flags := 0 }).setVal (s.parmAdjLen text.length)
  let r := s.ofHash (s.getHash.doInsert (s.getHash.find2 s.mc.m_hkey s.mc.m_parms.key) s.mc.m_hkey
    s.mc.m_parms)
  r.1.setIterOff r.2

def initOff (s : McCall) : Nat :=
  let text := decimal (readBe s.conn.m_bufIncoming (sizeofBinHdr + 8) 8)
  let parms := { s.mc.m_parms with val := ⟨s.parmAdjLen text.length, none⟩ }
  (s.getHash.doInsert (s.getHash.find2 s.mc.m_hkey s.mc.m_parms.key) s.mc.m_hkey parms).2

theorem outv_initCall (s : McCall) (exptime : Nat) (text : List UInt8)
    : (s.initCall exptime text).outv = s.outv := rfl

theorem iterOff_initCall (s : McCall) (exptime : Nat)
    : (s.initCall exptime (decimal (readBe s.conn.m_bufIncoming (sizeofBinHdr + 8) 8))).mc.m_iterOff =
      s.initOff := rfl

theorem binArithInit_eq (s : McCall) (hdr : McBinCmdHdr) (cmd : Nat)
    : s.binArithInit hdr cmd =
      if readBe s.conn.m_bufIncoming (sizeofBinHdr + 16) 4 = 0xffffffff then
        (s.binArithStat cmd false).binErrRespond hdr .KEYENOENT
      else
        let text := decimal (readBe s.conn.m_bufIncoming (sizeofBinHdr + 8) 8)
        let t := s.initCall (readBe s.conn.m_bufIncoming (sizeofBinHdr + 16) 4) text
        if s.initOff ≠ 0 then
          t.binNumRespond hdr text (bufBytes s.conn.m_bufIncoming (sizeofBinHdr + 8) 8)
        else t.binErrRespond hdr .NOTSTORED := rfl

def StoresNumber (s : McCall) (opt : LsMcUpdOpt) : Prop :=
  (s.doHashUpdate opt).2.2 ≠ 0 ∨
    (s.doHashUpdate opt).2.1.m_iRetcode = .NOTFOUND ∧
      readBe s.conn.m_bufIncoming (sizeofBinHdr + 16) 4 ≠ 0xffffffff ∧
      (s.doHashUpdate opt).1.initOff ≠ 0

theorem buf_doHashUpdate (opt : LsMcUpdOpt)
    : (s.doHashUpdate opt).1.conn.m_bufIncoming = s.conn.m_bufIncoming := by
  have hupd : ∀ off e, (s.updateElem opt off e).1.conn.m_bufIncoming = s.conn.m_bufIncoming := by
    intro off e
    unfold updateElem
    dsimp only
    split
    . rfl
    . split
      . split <;> rfl
      . split
        . split
          . rfl
          . split <;> rfl
        . rfl
  unfold doHashUpdate
  dsimp only
  split
  . rfl
  . split
    . rfl
    . split
      . rfl
      . exact hupd ..

theorem out_binArithInit (hop : hdr.opaqueWord.length = 4) (hint : s.outv.internal = false)
    (hbuf : sizeofBinHdr + 16 ≤ s.conn.m_bufIncoming.length) (cmd : Nat)
    : (readBe s.conn.m_bufIncoming (sizeofBinHdr + 16) 4 ≠ 0xffffffff ∧ s.initOff ≠ 0 →
        TwoAnswers hdr s.outv (s.binArithInit hdr cmd).outv) ∧
      (¬ (readBe s.conn.m_bufIncoming (sizeofBinHdr + 16) 4 ≠ 0xffffffff ∧ s.initOff ≠ 0) →
        OneAnswer hdr s.outv (s.binArithInit hdr cmd).outv) := by
  rw [binArithInit_eq]
  by_cases hexp : readBe s.conn.m_bufIncoming (sizeofBinHdr + 16) 4 = 0xffffffff
  . rw [if_pos hexp]
    refine ⟨fun h => absurd hexp h.1, fun _ => ?_⟩
    refine oneAnswer_from ?_ (oneAnswer_binErrRespond hop ?_ (by decide))
    . simp [binArithStat]
    . simpa [binArithStat] using hint
  . rw [if_neg hexp]
    dsimp only
    by_cases hoff : s.initOff ≠ 0
    . have hnew : (bufBytes s.conn.m_bufIncoming (sizeofBinHdr + 8) 8).length = 8 := by
        simp only [bufBytes, List.length_take, List.length_drop]
        omega
      rw [if_pos hoff]
      refine ⟨fun _ => ?_, fun h => absurd ⟨hexp, hoff⟩ h⟩
      rw [← outv_initCall s] at hint ⊢
      exact twoAnswers_binNumRespond hop hint (by rwa [iterOff_initCall]) _ hnew
    . rw [if_neg hoff]
      refine ⟨fun h => absurd h.2 hoff, fun _ => ?_⟩
      rw [← outv_initCall s] at hint ⊢
      exact oneAnswer_binErrRespond hop hint (by decide)

theorem out_doBinArithmetic (hop : hdr.opaqueWord.length = 4) (hint : s.outv.internal = false)
    (hbuf : sizeofBinHdr + 16 ≤ s.conn.m_bufIncoming.length) (cmd : Nat) (opt : LsMcUpdOpt)
    : (s.StoresNumber opt → TwoAnswers hdr s.outv (s.doBinArithmetic hdr cmd opt).outv) ∧
      (¬ s.StoresNumber opt → OneAnswer hdr s.outv (s.doBinArithmetic hdr cmd opt).outv) := by
  have hupd : (s.doHashUpdate opt).1.outv = s.outv := outv_doHashUpdate s opt
  have hbufUpd := buf_doHashUpdate (s := s) opt
  unfold StoresNumber doBinArithmetic
  dsimp only
  generalize s.doHashUpdate opt = r at hupd hbufUpd ⊢
  obtain ⟨t, opt', off⟩ := r
  dsimp only at hupd hbufUpd ⊢
  by_cases hoff : off ≠ 0
  . rw [if_pos hoff]
    refine ⟨fun _ => ?_, fun h => absurd (.inl hoff) h⟩
    have ht : ((t.setIterOff off).binArithStat cmd true).outv = s.outv := by simp [binArithStat, hupd]
    have hiter : ((t.setIterOff off).binArithStat cmd true).mc.m_iterOff = off := by
      unfold binArithStat stat
      split <;> rfl
    rw [← ht] at hint ⊢
    exact twoAnswers_binNumRespond hop hint (by rw [hiter]; exact hoff) _ (length_beBytes 8 _)
  . rw [if_neg hoff]
    have hint' : (t.setIterOff off).outv.internal = false := by simpa [hupd] using hint
    have herr : ∀ err, err ≠ .SUCCESS →
        OneAnswer hdr s.outv ((t.setIterOff off).binErrRespond hdr err).outv := by
      intro err h
      exact oneAnswer_from (by simpa using hupd) (oneAnswer_binErrRespond hop hint' h)
    have hinit := out_binArithInit (s := t.setIterOff off) hop hint'
      (by show _ ≤ t.conn.m_bufIncoming.length; rw [hbufUpd]; exact hbuf) cmd
    by_cases hnot : opt'.m_iRetcode = .NOTFOUND
    . rw [if_pos hnot]
      have hview : (t.setIterOff off).outv = s.outv := by simpa using hupd
      rw [hview] at hinit
      have hb : (t.setIterOff off).conn.m_bufIncoming = s.conn.m_bufIncoming := hbufUpd
      rw [hb] at hinit
      refine ⟨fun h => hinit.1 ?_, fun h => hinit.2 ?_⟩
      . obtain h | ⟨-, h⟩ := h
        . exact absurd h hoff
        . exact h
      . intro h'
        exact h (.inr ⟨hnot, h'⟩)
    . rw [if_neg hnot]
      refine ⟨fun h => ?_, fun _ => ?_⟩
      . obtain h | ⟨h, -⟩ := h
        . exact absurd h hoff
        . exact absurd h hnot
      . split
        . exact herr _ (by decide)
        . split
          . exact herr _ (by decide)
          . exact herr _ (by decide)

def FlushPassed (s : McCall) (hdr : McBinCmdHdr) : Prop :=
  let sl := if s.mc.m_bConfigMultiUser then s.conn.m_pSlice else 0
  ¬ (0 < hdr.extralen ∧ s.mc.m_item.x_exptime ≠ 0) ∧ s.useMulti = false ∧
    s.getHash.isTidMaster = false ∧
    ((s.sliceAt sl).remote.remBusy = true ∨ (s.sliceAt sl).remote.connected = true)

theorem out_fwdBinToRemote (hop : hdr.opaqueWord.length = 4) (hint : s.outv.internal = false)
    (hslave : s.getHash.isTidMaster = false) (i : Nat)
    : ((s.sliceAt i).remote.connected = true → (s.fwdBinToRemote i hdr).1.outv = s.outv) ∧
      ((s.sliceAt i).remote.connected = false → OneAnswer hdr s.outv (s.fwdBinToRemote i hdr).1.outv) ∧
      (s.fwdBinToRemote i hdr).2 = true := by
  unfold fwdBinToRemote
  rw [if_pos (by simp [hslave])]
  dsimp only
  by_cases hconn : (s.sliceAt i).remote.connected = true
  . rw [if_pos hconn]
    refine ⟨fun _ => ?_, fun h => ?_, ?_⟩
    . split
      . rfl
      . exact outv_fwdCommand ..
    . rw [hconn] at h
      cases h
    . split <;> rfl
  . rw [if_neg hconn]
    exact ⟨fun h => absurd h hconn, fun _ => oneAnswer_binErrRespond hop hint (by decide), rfl⟩

theorem out_doBinFlush (hop : hdr.opaqueWord.length = 4) (hint : s.outv.internal = false)
    : (s.FlushPassed hdr → (s.doBinFlush hdr).outv.out = s.outv.out) ∧
      (¬ s.FlushPassed hdr → OneAnswer hdr s.outv (s.doBinFlush hdr).outv) := by
  unfold FlushPassed doBinFlush
  dsimp only
  generalize (if s.mc.m_bConfigMultiUser = true then s.conn.m_pSlice else 0) = sl
  by_cases hexp : 0 < hdr.extralen ∧ s.mc.m_item.x_exptime ≠ 0
  . rw [if_pos hexp]
    exact ⟨fun h => absurd hexp h.1, fun _ => oneAnswer_binErrRespond hop hint (by decide)⟩
  . rw [if_neg hexp]
    by_cases hagg : s.statsAggregate = true
    . rw [if_pos hagg]
      have hmulti : s.useMulti = true := by
        unfold statsAggregate at hagg
        simp only [Bool.and_eq_true] at hagg
        exact hagg.1
      have hv := outv_foreachSlice (outv_multiFlushFunc · true) s
      refine ⟨fun h => by rw [hmulti] at h; exact absurd h.2.1 (by decide), fun _ => ?_⟩
      rw [← hv] at hint ⊢
      split
      . exact oneAnswer_binOkRespond hop hint
      . exact oneAnswer_binErrRespond hop hint (by decide)
    . rw [if_neg hagg]
      have hflush : OneAnswer hdr s.outv (s.flushOne.binOkRespond hdr).outv := by
        rw [← outv_flushOne s] at hint ⊢
        exact oneAnswer_binOkRespond hop hint
      cases hmulti : s.useMulti
      . cases hmaster : s.getHash.isTidMaster
        . obtain ⟨hconn, hnconn, hfwd⟩ := out_fwdBinToRemote hop hint hmaster sl
          cases hbusy : (s.sliceAt sl).remote.remBusy
          . cases hc : (s.sliceAt sl).remote.connected
            . simpa [hfwd, hexp] using hnconn hc
            . simpa [hfwd, hexp] using congrArg OutView.out (hconn hc)
          . simp [hexp]
        . have hnot : s.fwdBinToRemote sl hdr = (s, false) := by
            unfold fwdBinToRemote
            rw [if_neg (by simp [hmaster])]
          simpa [hnot] using hflush
      . simpa using hflush

theorem oneAnswer_doBinSaslList (hop : hdr.opaqueWord.length = 4) (hint : s.outv.internal = false)
    (hreply : s.outv.noreply = false) : OneAnswer hdr s.outv (s.doBinSaslList hdr).outv := by
  unfold doBinSaslList
  dsimp only
  split
  . exact oneAnswer_binErrRespond hop hint (by decide)
  . generalize ht : (if hdr.opaqueWord = REBUILD_OPAQUE then s.setHash s.getHash.rebuild else s) = t
    have hv : t.outv = s.outv := by
      rw [← ht]
      split <;> rfl
    rw [← hv] at hint hreply ⊢
    split
    . exact oneAnswer_binErrRespond hop hint (by decide)
    . left
      refine ⟨_, (isPacket_binResHdr (s := t) hop 0 0 .SUCCESS (bytes "PLAIN" ++ [32, 0])
        (by decide)).1, ?_⟩
      have h₁ : ∀ b, (t.binRespond b).outv.internal = false := by
        intro b
        rw [outv_binRespond hint, internal_bin]
        exact hint
      rw [outv_binRespond, outv_binRespond (h₁ _), outv_binRespond hint, bin_bin hreply, bin_bin hreply]
      . simp
      . rw [outv_binRespond (h₁ _), internal_bin]
        exact h₁ _

theorem oneAnswer_doBinSaslAuth (hop : hdr.opaqueWord.length = 4) (hint : s.outv.internal = false)
    (hreply : s.outv.noreply = false)
    (hsasl : ∀ mech data result, s.mc.env.chkAuth mech data = .cont result → result.length < 2 ^ 32)
    : OneAnswer hdr s.outv (s.doBinSaslAuth hdr).outv := by
  unfold doBinSaslAuth
  dsimp only
  split
  . exact oneAnswer_binErrRespond hop hint (by decide)
  . split
    . exact oneAnswer_binErrRespond hop hint (by decide)
    . generalize ht : (if hdr.totbody < hdr.keylen then s.setUndef else s) = t
      have hv : t.outv = s.outv := by
        rw [← ht]
        split <;> rfl
      have henv : t.mc.env = s.mc.env := by
        rw [← ht]
        split <;> rfl
      rw [henv]
      rw [← hv] at hint hreply ⊢
      have hstat : ∀ (u : McCall) err, (u.authStat err).outv = u.outv := by
        intro u err
        unfold authStat
        dsimp only
        split <;> simp
      split
      . rw [hstat]
        refine oneAnswer_from ?_ (oneAnswer_binTextRespond hop ?_ ?_ 0 .SUCCESS
          (bytes "Authenticated") (by decide))
        . rfl
        . exact hint
        . exact hreply
      . rename_i result heq
        have hlen : result.length < 2 ^ 32 := by
          split at heq
          . cases heq
          . exact hsasl _ _ _ heq
        left
        refine ⟨_, (isPacket_binResHdr (s := t) hop 0 0 .AUTHCONTINUE _ hlen).1, ?_⟩
        split
        . rw [outv_binRespond, outv_binRespond hint, bin_bin hreply]
          rw [outv_binRespond hint, internal_bin]
          exact hint
        . rename_i hnil
          rw [not_not.mp hnil, outv_binRespond hint, List.append_nil]
      . rw [hstat]
        exact oneAnswer_binErrRespond hop hint (by decide)

theorem length_decimal (n : Nat) : (decimal n).length ≤ 20 := by
  have hgo : ∀ fuel n acc, (decimal.go fuel n acc).length ≤ fuel + acc.length := by
    intro fuel
    induction fuel with
    | zero =>
      intro n acc
      simp [decimal.go]
    | succ fuel ih =>
      intro n acc
      unfold decimal.go
      dsimp only
      split
      . rw [List.length_cons]
        omega
      . have := ih (n / 10) (UInt8.ofNat (48 + n % 10) :: acc)
        simp only [List.length_cons] at this
        omega
  exact hgo 20 n []

theorem length_timeval (t : Nat × Nat) : (timeval t).length ≤ 47 := by
  have h₁ := length_decimal t.1
  have h₂ := length_decimal t.2
  have hdot : (bytes ".").length = 1 := rfl
  simp only [timeval, List.length_append, List.length_replicate, hdot]
  omega

theorem length_binStatItems (env : McEnv) (st : LsMcStats)
    : ∀ item ∈ binStatItems env st, (bytes item.1).length ≤ 20 ∧ item.2.length ≤ 47 := by
  have hdec : ∀ n, (decimal n).length ≤ 47 := fun n => (length_decimal n).trans (by decide)
  have hver : (bytes VERSION).length ≤ 47 := by decide
  unfold binStatItems
  simp only [List.forall_mem_cons, hdec, hver, length_timeval, and_true]
  refine ⟨?_, ?_, ?_, ?_, ?_, ?_, ?_, ?_, ?_, ?_, ?_, ?_, ?_, ?_, ?_, ?_, ?_, ?_, ?_, ?_, ?_, ?_, ?_, ?_, ?_⟩
  all_goals decide

theorem packets_doBinStats (hop : hdr.opaqueWord.length = 4) (hint : s.outv.internal = false)
    (hreply : s.outv.noreply = false)
    : ∃ bs, hdr.Packets bs ∧ (s.doBinStats hdr).outv.out = s.outv.out ++ bs := by
  have hone : ∀ t : McCall, t.outv = s.outv → ∀ u : McCall, OneAnswer hdr t.outv u.outv →
      ∃ bs, hdr.Packets bs ∧ u.outv.out = s.outv.out ++ bs := by
    intro t ht u hu
    rw [ht] at hu
    obtain ⟨p, hp, hout⟩ := hu.replied hreply
    exact ⟨p, .single hp, hout⟩
  unfold doBinStats
  split
  . exact hone s rfl _ (oneAnswer_binErrRespond hop hint (by decide))
  . split
    . have hv := outv_resetStats s
      exact hone _ hv _ (oneAnswer_binOkRespond hop (by rw [hv]; exact hint))
    . have hfold : ∀ (items : List (String × List UInt8)) (t : McCall), t.outv.internal = false →
          t.outv.noreply = false →
          (∀ item ∈ items, (bytes item.1).length ≤ 20 ∧ item.2.length ≤ 47) →
          ∃ bs, hdr.Packets bs ∧
            ((items.foldl (doBinStat1Send hdr) t).binOkRespond hdr).outv.out = t.outv.out ++ bs := by
        intro items
        induction items with
        | nil =>
          intro t hint hreply _
          obtain ⟨p, hp, hout⟩ := (oneAnswer_binOkRespond hop hint).replied hreply
          exact ⟨p, .single hp, hout⟩
        | cons item items ih =>
          intro t hint hreply hlen
          obtain ⟨hname, hval⟩ := hlen item (List.mem_cons_self ..)
          have hp := (isPacket_binResHdr (s := t.setRescas 0) hop 0 item.1.length .SUCCESS
            (bytes item.1 ++ item.2) (by simp only [List.length_append]; omega)).1
          have hv : (doBinStat1Send hdr t item).outv = t.outv.bin _ := outv_binRespond hint _
          rw [bin_of_reply hreply] at hv
          obtain ⟨bs, hbs, hout⟩ := ih (doBinStat1Send hdr t item) (by rw [hv]; exact hint)
            (by rw [hv]; exact hreply) (fun item' h => hlen item' (List.mem_cons_of_mem _ h))
          refine ⟨_, .cons hp hbs, ?_⟩
          rw [List.foldl_cons, hout, hv]
          simp
      exact hfold _ s hint hreply (length_binStatItems s.mc.env s.curStats)

theorem env_chkMemSz (arg : Nat) : (s.chkMemSz arg).1.mc.env = s.mc.env := by
  unfold chkMemSz
  dsimp only
  split
  . split <;> rfl
  . split
    . rfl
    . split
      . rfl
      . split <;> rfl

theorem setupExtras_frame (cmd pReqX pVal : Nat)
    : (s.setupExtras hdr cmd pReqX pVal).1.outv = s.outv ∧
      (s.setupExtras hdr cmd pReqX pVal).1.mc.env = s.mc.env ∧
      (s.setupExtras hdr cmd pReqX pVal).1.mc.m_parms.key = s.mc.m_parms.key ∧
      (s.setupExtras hdr cmd pReqX pVal).1.conn = s.conn ∧
      (∀ stat, (s.setupExtras hdr cmd pReqX pVal).2 = .err stat → stat ≠ .SUCCESS) := by
  obtain ⟨hparms, hconn, -⟩ := chkMemSz_frame (s := s) cmd
  have hkey : (s.chkMemSz cmd).1.mc.m_parms.key = s.mc.m_parms.key := by rw [hparms]
  have hchk := outv_chkMemSz s cmd
  have henv := env_chkMemSz (s := s) cmd
  unfold setupExtras
  dsimp only
  split
  . split
    . exact ⟨rfl, rfl, rfl, rfl, fun _ h => nomatch h⟩
    . split
      . rename_i hstat
        refine ⟨hchk, henv, hkey, hconn, fun stat h => ?_⟩
        cases h
        exact hstat
      . exact ⟨hchk, henv, hkey, hconn, fun _ h => nomatch h⟩
  . split
    . split
      . exact ⟨rfl, rfl, rfl, rfl, fun _ h => nomatch h⟩
      . exact ⟨rfl, rfl, rfl, rfl, fun _ h => nomatch h⟩
    . split
      . split
        . exact ⟨rfl, rfl, rfl, rfl, fun _ h => nomatch h⟩
        . exact ⟨rfl, rfl, rfl, rfl, fun _ h => nomatch h⟩
      . split
        . split
          . rename_i hstat
            refine ⟨hchk, henv, hkey, hconn, fun stat h => ?_⟩
            cases h
            exact hstat
          . exact ⟨hchk, henv, hkey, hconn, fun _ h => nomatch h⟩
        . split
          . split
            . exact ⟨rfl, rfl, rfl, rfl, fun _ h => nomatch h⟩
            . exact ⟨rfl, rfl, rfl, rfl, fun _ h => nomatch h⟩
          . exact ⟨rfl, rfl, rfl, rfl, fun _ h => nomatch h⟩

structure SetupFrame (s : McCall) (hdr : McBinCmdHdr) (r : McCall × BinSetup) : Prop where
  outv : r.1.outv = { s.outv with noreply := (setupNoreplyCmd hdr.opcode).2 }
  env : r.1.mc.env = s.mc.env
  key : r.1.mc.m_parms.key = s.reqKey hdr
  buf : r.1.conn.m_bufIncoming.drop sizeofBinHdr = s.conn.m_bufIncoming.drop sizeofBinHdr
  err : ∀ stat, r.2 = .err stat → stat ≠ .SUCCESS

theorem localSetup_frame (h24 : sizeofBinHdr ≤ s.conn.m_bufIncoming.length)
    : SetupFrame s hdr (s.localSetup hdr) := by
  unfold localSetup
  split
  . exact ⟨rfl, rfl, rfl, drop_swapCas (s := s.placed hdr) h24, fun _ h => nomatch h⟩
  . dsimp only
    generalize (hdr.totbody + 2 ^ 33 - hdr.keylen - hdr.extralen) % 2 ^ 32 = len
    have hdrop := drop_swapCas (s := (s.placed hdr).setVal len) h24
    obtain ⟨hv, henv, hkey, hconn, herr⟩ := setupExtras_frame (s := ((s.placed hdr).setVal len).swapCas)
      (binCmd hdr) sizeofBinHdr (sizeofBinHdr + hdr.extralen + hdr.keylen)
    exact ⟨hv, henv, hkey, by rw [hconn]; exact hdrop, herr⟩

theorem multi_localSetup (h : binCmd hdr = MC_BINCMD_TOUCH ∨ binCmd hdr = MC_BINCMD_GAT ∨
    binCmd hdr = MC_BINCMD_GATK ∨ binCmd hdr = MC_BINCMD_GET ∨ binCmd hdr = MC_BINCMD_GETK ∨
    binCmd hdr = MC_BINCMD_GETKQ) : (s.localSetup hdr).1.mc.m_pHashMulti = s.mc.m_pHashMulti := by
  unfold localSetup
  split
  . rfl
  . generalize binCmd hdr = cmd at h ⊢
    unfold setupExtras
    dsimp only
    have h₁ : ¬ (cmd = MC_BINCMD_REPLACE ∨ cmd = MC_BINCMD_ADD ∨ cmd = MC_BINCMD_SET) := by
      rcases h with h | h | h | h | h | h <;> rw [h] <;> decide
    have h₂ : ¬ (cmd = MC_BINCMD_APPEND ∨ cmd = MC_BINCMD_PREPEND) := by
      rcases h with h | h | h | h | h | h <;> rw [h] <;> decide
    rw [if_neg h₁, if_neg h₂]
    split
    . split <;> rfl
    . split
      . split <;> rfl
      . split
        . split <;> rfl
        . rfl

end

def Quiet (opcode : Nat) : Prop :=
  opcode ∈ [MC_BINCMD_SETQ, MC_BINCMD_ADDQ, MC_BINCMD_REPLACEQ, MC_BINCMD_DELETEQ, MC_BINCMD_INCREMENTQ,
    MC_BINCMD_DECREMENTQ, MC_BINCMD_QUITQ, MC_BINCMD_FLUSHQ, MC_BINCMD_APPENDQ, MC_BINCMD_PREPENDQ,
    MC_BINCMD_GETQ, MC_BINCMD_GETKQ, MC_BINCMD_GATQ, MC_BINCMD_GATKQ]

instance : DecidablePred Quiet := fun opcode =>
  inferInstanceAs (Decidable (opcode ∈ _))

def QuietChange (opcode : Nat) : Prop :=
  opcode ∈ [MC_BINCMD_SETQ, MC_BINCMD_ADDQ, MC_BINCMD_REPLACEQ, MC_BINCMD_DELETEQ, MC_BINCMD_INCREMENTQ,
    MC_BINCMD_DECREMENTQ, MC_BINCMD_QUITQ, MC_BINCMD_FLUSHQ, MC_BINCMD_APPENDQ, MC_BINCMD_PREPENDQ]

instance : DecidablePred QuietChange := fun opcode =>
  inferInstanceAs (Decidable (opcode ∈ _))

section

variable (s : McCall) (hdr : McBinCmdHdr)

def Passed : Prop :=
  s.saslRefuses hdr.opcode = false ∧ hdr.keylen ≤ KEY_MAXLEN ∧
    (s.Handed hdr ∨ binCmd hdr = MC_BINCMD_FLUSH ∧ (∃ pVal opt, (s.binSetup hdr).2 = .body pVal opt) ∧
      (s.binSetup hdr).1.binStart.FlushPassed hdr)

/--
The bytes `bs` that are appended are whole responses to the request: one, unless the request is quiet
or a request for statistics, and none if it is quiet, changes something and succeeds.
-/
structure WellFormed (bs : List UInt8) : Prop where
  packets : hdr.Packets bs
  one : ¬ Quiet hdr.opcode → binCmd hdr ≠ MC_BINCMD_STAT → hdr.IsPacket bs
  quiet : QuietChange hdr.opcode → bs = [] ∨ hdr.IsPacket bs ∧ packetStatus bs ≠ 0

def AnswersWell (r : McCall) : Prop :=
  ∃ bs, r.conn.out = s.conn.out ++ bs ∧ WellFormed hdr bs

/--
The request is executed here and stores a number.
-/
def Counts : Prop :=
  s.saslRefuses hdr.opcode = false ∧
    (binCmd hdr = MC_BINCMD_INCREMENT ∨ binCmd hdr = MC_BINCMD_DECREMENT) ∧
    ∃ pVal opt, (s.binSetup hdr).2 = .body pVal opt ∧ (s.binSetup hdr).1.binStart.StoresNumber opt

/--
A quiet touch finds an element, whose key and value `bs` are sent without their header.
-/
def Headless (bs : List UInt8) : Prop :=
  s.saslRefuses hdr.opcode = false ∧ (hdr.opcode = MC_BINCMD_GATQ ∨ hdr.opcode = MC_BINCMD_GATKQ) ∧
    (∃ pVal opt, (s.binSetup hdr).2 = .body pVal opt) ∧
    ∃ e, (s.binSetup hdr).1.binStart.getElem = some e ∧
      bs = (if hdr.opcode = MC_BINCMD_GATKQ then s.reqKey hdr else []) ++
        (s.binSetup hdr).1.hitValue (binCmd hdr) e

/--
A request that is there as a whole and valid, on a client connection. The last two say that lengths
are 32 bit numbers.
-/
structure ClientReq : Prop where
  internal : s.conn.internal = false
  received : s.Received hdr
  valid : hdr.Valid
  valLen : ∀ i user off e, ((s.sliceAt i).m_hashByUser user).table.elem off = some e → e.valLen < 2 ^ 31
  result : ∀ mech data result, s.mc.env.chkAuth mech data = .cont result → result.length < 2 ^ 32

end

def ChangeCmd (cmd : Nat) : Prop :=
  cmd ∈ [MC_BINCMD_SET, MC_BINCMD_ADD, MC_BINCMD_REPLACE, MC_BINCMD_DELETE, MC_BINCMD_INCREMENT,
    MC_BINCMD_DECREMENT, MC_BINCMD_QUIT, MC_BINCMD_FLUSH, MC_BINCMD_APPEND, MC_BINCMD_PREPEND]

instance : DecidablePred ChangeCmd := fun cmd =>
  inferInstanceAs (Decidable (cmd ∈ _))

inductive NoreplyCase (opcode : Nat) : Prop
  | reply (hno : (setupNoreplyCmd opcode).2 = false) (hchange : ¬ QuietChange opcode)
    (hgat : opcode ≠ MC_BINCMD_GATQ ∧ opcode ≠ MC_BINCMD_GATKQ)
    (hcmd : ¬ Quiet opcode ∨ (setupNoreplyCmd opcode).1 = MC_BINCMD_GET ∨
      (setupNoreplyCmd opcode).1 = MC_BINCMD_GETK)
  | change (hno : (setupNoreplyCmd opcode).2 = true) (hchange : QuietChange opcode)
    (hgat : opcode ≠ MC_BINCMD_GATQ ∧ opcode ≠ MC_BINCMD_GATKQ)
    (hcmd : ChangeCmd (setupNoreplyCmd opcode).1)
  | gat (hno : (setupNoreplyCmd opcode).2 = true) (hchange : ¬ QuietChange opcode)
    (hgat : opcode = MC_BINCMD_GATQ ∧ (setupNoreplyCmd opcode).1 = MC_BINCMD_GAT ∨
      opcode = MC_BINCMD_GATKQ ∧ (setupNoreplyCmd opcode).1 = MC_BINCMD_GATK)

theorem noreplyCase (opcode : Nat) : NoreplyCase opcode := by
  by_cases hquiet : Quiet opcode
  . have hmem := hquiet
    simp only [Quiet, List.mem_cons, List.not_mem_nil, or_false] at hmem
    rcases hmem with h | h | h | h | h | h | h | h | h | h | h | h | h | h
    all_goals subst h
    all_goals first
      | exact .change (by decide) (by decide) (by decide) (by decide)
      | exact .gat (by decide) (by decide) (by decide)
      | exact .reply (by decide) (by decide) (by decide) (by decide)
  . have hne := hquiet
    simp only [Quiet, List.mem_cons, List.not_mem_nil, or_false, not_or] at hne
    have hset : setupNoreplyCmd opcode = (opcode, false) := by simp [setupNoreplyCmd, hne]
    refine .reply (by rw [hset]) ?_ ⟨by simp [hne], by simp [hne]⟩ (.inl hquiet)
    simp [QuietChange, hne]

theorem quiet_of_change {opcode : Nat} (h : QuietChange opcode) : Quiet opcode := by
  simp only [QuietChange, Quiet, List.mem_cons, List.not_mem_nil, or_false] at h ⊢
  tauto

section

variable {s : McCall} {hdr : McBinCmdHdr}

theorem cmd_of_binCmd (h : binCmd hdr ≠ MC_BINCMD_REPLACE)
    : (setupNoreplyCmd hdr.opcode).1 = binCmd hdr := by
  unfold binCmd at h ⊢
  dsimp only at h ⊢
  split
  . rename_i hset
    rw [if_pos hset] at h
    exact absurd rfl h
  . rfl

theorem OneAnswer.answersWell {v w : OutView} (h : OneAnswer hdr v w)
    (hout : v.out = s.conn.out) (hno : v.noreply = (setupNoreplyCmd hdr.opcode).2) {r : McCall}
    (hr : w.out = r.conn.out) : s.AnswersWell hdr r := by
  have hreply : v.noreply = false → s.AnswersWell hdr r ∨ QuietChange hdr.opcode := by
    intro hv
    by_cases hchange : QuietChange hdr.opcode
    . exact .inr hchange
    . obtain ⟨p, hp, hw⟩ := h.replied hv
      exact .inl ⟨p, by rw [← hr, hw, hout], .single hp, fun _ _ => hp, fun h => absurd h hchange⟩
  have hsilent : v.noreply = true → Quiet hdr.opcode → s.AnswersWell hdr r := by
    intro hv hquiet
    obtain hw | ⟨p, hp, hst, hw⟩ := h.silent hv
    . exact ⟨[], by rw [← hr, hw, hout, List.append_nil], .nil, fun h => absurd hquiet h,
        fun _ => .inl rfl⟩
    . exact ⟨p, by rw [← hr, hw, hout], .single hp, fun _ _ => hp, fun _ => .inr ⟨hp, hst⟩⟩
  cases noreplyCase hdr.opcode with
  | reply hv hchange =>
    exact (hreply (hno.trans hv)).resolve_right hchange
  | change hv hchange =>
    exact hsilent (hno.trans hv) (quiet_of_change hchange)
  | gat hv _ hgat =>
    refine hsilent (hno.trans hv) ?_
    rcases hgat with ⟨h, -⟩ | ⟨h, -⟩ <;> rw [h] <;> decide

theorem answersWell_nothing (h : Quiet hdr.opcode) {r : McCall} (hr : r.conn.out = s.conn.out)
    : s.AnswersWell hdr r :=
  ⟨[], by rw [hr, List.append_nil], .nil, fun hq => absurd h hq, fun _ => .inl rfl⟩

theorem not_isPacket_append {p q : List UInt8} (hp : hdr.IsPacket p) (hlen : p.length = sizeofBinHdr)
    (hq : q.length ≠ 0) : ¬ hdr.IsPacket (p ++ q) := by
  intro h
  have hread : readBe (p ++ q) 8 4 = readBe p 8 4 := by
    simp only [readBe]
    rw [byteAt_append_left (by rw [hlen]; decide), byteAt_append_left (by rw [hlen]; decide),
      byteAt_append_left (by rw [hlen]; decide), byteAt_append_left (by rw [hlen]; decide)]
  have h₁ := h.length
  have h₂ := hp.length
  rw [hread, List.length_append] at h₁
  omega

theorem TwoAnswers.not_answersWell {v w : OutView} (h : TwoAnswers hdr v w)
    (hcmd : binCmd hdr = MC_BINCMD_INCREMENT ∨ binCmd hdr = MC_BINCMD_DECREMENT)
    (hout : v.out = s.conn.out) (hno : v.noreply = (setupNoreplyCmd hdr.opcode).2) {r : McCall}
    (hr : w.out = r.conn.out) : ¬ s.AnswersWell hdr r := by
  obtain ⟨p, q, hp, hlen, hq, hlenq, hst, hw⟩ := h
  have hstat : binCmd hdr ≠ MC_BINCMD_STAT := by rcases hcmd with h | h <;> rw [h] <;> decide
  have hcmd' : (setupNoreplyCmd hdr.opcode).1 = binCmd hdr :=
    cmd_of_binCmd (by rcases hcmd with h | h <;> rw [h] <;> decide)
  rintro ⟨bs, hbs, hwell⟩
  rw [← hr, hw] at hbs
  cases noreplyCase hdr.opcode with
  | reply hv _ _ hquiet =>
    have hquiet' : ¬ Quiet hdr.opcode := by
      rcases hquiet with h | h | h
      . exact h
      . rw [hcmd'] at h
        rcases hcmd with h' | h' <;> rw [h'] at h <;> exact absurd h (by decide)
      . rw [hcmd'] at h
        rcases hcmd with h' | h' <;> rw [h'] at h <;> exact absurd h (by decide)
    rw [bin_bin (hno.trans hv), bin_of_reply (hno.trans hv)] at hbs
    have hbs' : bs = p ++ q := (List.append_cancel_left (by rw [← hbs, ← hout] : s.conn.out ++ bs = s.conn.out ++ (p ++ q)))
    have hone := hwell.one hquiet' hstat
    rw [hbs'] at hone
    exact not_isPacket_append hp hlen (by rw [hlenq]; decide) hone
  | change hv hchange =>
    have hbin : ((v.bin p).bin q).out = v.out ++ q := by simp [OutView.bin, hno.trans hv]
    rw [hbin, hout] at hbs
    have hbs' : bs = q := (List.append_cancel_left hbs).symm
    rcases hwell.quiet hchange with h | ⟨-, h⟩
    . rw [hbs'] at h
      rw [h] at hlenq
      exact absurd hlenq (by decide)
    . rw [hbs'] at h
      exact h hst
  | gat _ _ hgat =>
    rcases hgat with ⟨-, h⟩ | ⟨-, h⟩ <;> rw [hcmd'] at h <;> rcases hcmd with h' | h' <;>
      rw [h'] at h <;> exact absurd h (by decide)

theorem elem_of_getElem {e : LsShmHElem} (h : s.getElem = some e)
    : ∃ off, s.getHash.table.elem off = some e := by
  unfold getElem at h
  dsimp only at h
  split at h
  . cases h
  . split at h
    . cases h
    . rename_i e' he
      split at h
      . cases h
      . cases h
        unfold LsShmHash.offset2iterator at he
        split at he
        . cases he
        . rename_i heq
          split at he
          . cases he
            exact ⟨_, heq⟩
          . cases he

theorem reply_of_cmd (hcmd : ¬ ChangeCmd (binCmd hdr))
    (hgat : binCmd hdr ≠ MC_BINCMD_GAT ∧ binCmd hdr ≠ MC_BINCMD_GATK)
    : (setupNoreplyCmd hdr.opcode).2 = false := by
  have hbin : (setupNoreplyCmd hdr.opcode).1 = binCmd hdr := by
    apply cmd_of_binCmd
    intro h
    rw [h] at hcmd
    exact hcmd (by decide)
  cases noreplyCase hdr.opcode with
  | reply hv => exact hv
  | change _ _ _ h => exact absurd (hbin ▸ h) hcmd
  | gat _ _ h =>
    rcases h with ⟨-, h⟩ | ⟨-, h⟩
    . exact absurd (hbin ▸ h) hgat.1
    . exact absurd (hbin ▸ h) hgat.2

theorem plain_of_cmd (hcount : binCmd hdr ≠ MC_BINCMD_INCREMENT ∧ binCmd hdr ≠ MC_BINCMD_DECREMENT)
    (hgat : binCmd hdr ≠ MC_BINCMD_GAT ∧ binCmd hdr ≠ MC_BINCMD_GATK)
    : ¬ s.Counts hdr ∧ ∀ bs, s.Headless hdr bs → hdr.Packets bs := by
  constructor
  . rintro ⟨-, h | h, -⟩
    . exact hcount.1 h
    . exact hcount.2 h
  . rintro bs ⟨-, h | h, -⟩
    . refine absurd ?_ hgat.1
      unfold binCmd
      rw [h]
      rfl
    . refine absurd ?_ hgat.2
      unfold binCmd
      rw [h]
      rfl

structure Prepared (s : McCall) (hdr : McBinCmdHdr) (t : McCall) : Prop where
  out : t.outv.out = s.conn.out
  noreply : t.outv.noreply = (setupNoreplyCmd hdr.opcode).2
  internal : t.outv.internal = false
  env : t.mc.env = s.mc.env
  key : t.mc.m_parms.key = s.reqKey hdr
  keyLen : t.mc.m_parms.key.length < 2 ^ 16
  buf : t.conn.m_bufIncoming.drop sizeofBinHdr = s.conn.m_bufIncoming.drop sizeofBinHdr
  valLen : (binCmd hdr = MC_BINCMD_TOUCH ∨ binCmd hdr = MC_BINCMD_GAT ∨ binCmd hdr = MC_BINCMD_GATK ∨
      binCmd hdr = MC_BINCMD_GET ∨ binCmd hdr = MC_BINCMD_GETK ∨ binCmd hdr = MC_BINCMD_GETKQ) →
    ∀ e, t.getElem = some e → e.valLen < 2 ^ 31

theorem prepared (hreq : s.ClientReq hdr) (hkeylen : hdr.keylen ≤ KEY_MAXLEN)
    (hloc : s.binSetup hdr = s.localSetup hdr) : Prepared s hdr (s.binSetup hdr).1.binStart := by
  have h24 : sizeofBinHdr ≤ s.conn.m_bufIncoming.length := le_trans (Nat.le_add_right _ _) hreq.received
  have hframe : SetupFrame s hdr (s.binSetup hdr) := by
    rw [hloc]
    exact localSetup_frame h24
  have hmulti := @multi_localSetup s hdr
  rw [← hloc] at hmulti
  refine ⟨?_, ?_, ?_, hframe.env, hframe.key, ?_, hframe.buf, ?_⟩
  . rw [outv_binStart, hframe.outv]
    rfl
  . rw [outv_binStart, hframe.outv]
  . rw [outv_binStart, hframe.outv]
    exact hreq.internal
  . show (s.binSetup hdr).1.mc.m_parms.key.length < 2 ^ 16
    rw [hframe.key]
    have : (s.reqKey hdr).length ≤ hdr.keylen := by
      simp only [reqKey, bufBytes, List.length_take]
      omega
    have : KEY_MAXLEN < 2 ^ 16 := by decide
    omega
  . intro hcmd e he
    obtain ⟨off, hoff⟩ := elem_of_getElem he
    have hslice : ∀ i, (s.binSetup hdr).1.binStart.sliceAt i = s.sliceAt i :=
      fun i => congrArg (LsMcHashMulti.m_pSlices · i) (hmulti hcmd)
    unfold getHash at hoff
    rw [hslice] at hoff
    exact hreq.valLen _ _ _ _ hoff

structure RunsHere (s : McCall) (hdr : McBinCmdHdr) (t : McCall) (pVal : Nat) (opt : LsMcUpdOpt)
    : Prop where
  sasl : s.saslRefuses hdr.opcode = false
  keylen : hdr.keylen ≤ KEY_MAXLEN
  opaqueWord : hdr.opaqueWord.length = 4
  setup : s.binSetup hdr = (t, .body pVal opt)
  prepared : Prepared s hdr t.binStart

variable {t : McCall} {pVal : Nat} {opt : LsMcUpdOpt}

theorem RunsHere.answersWell (h : RunsHere s hdr t pVal opt) {r : McCall}
    (hone : OneAnswer hdr t.binStart.outv r.outv) : s.AnswersWell hdr r :=
  hone.answersWell h.prepared.out h.prepared.noreply rfl

theorem answersWell_arith (h : RunsHere s hdr t pVal opt) (hreq : s.ClientReq hdr)
    (hcmd : binCmd hdr = MC_BINCMD_INCREMENT ∨ binCmd hdr = MC_BINCMD_DECREMENT)
    : s.AnswersWell hdr (t.binStart.doBinArithmetic hdr (binCmd hdr) opt) ↔
      ¬ s.Counts hdr ∧ ∀ bs, s.Headless hdr bs → hdr.Packets bs := by
  have hgat : binCmd hdr ≠ MC_BINCMD_GAT ∧ binCmd hdr ≠ MC_BINCMD_GATK := by
    rcases hcmd with h | h <;> rw [h] <;> decide
  have hbuf : sizeofBinHdr + 16 ≤ t.binStart.conn.m_bufIncoming.length := by
    have hextra : hdr.extralen = 20 := by
      have h := hreq.valid.extra
      unfold ExtraSize at h
      rw [if_neg (by rcases hcmd with h | h <;> rw [h] <;> decide),
        if_neg (by rcases hcmd with h | h <;> rw [h] <;> decide),
        if_neg (by rcases hcmd with h | h <;> rw [h] <;> decide), if_pos hcmd] at h
      exact h
    have hfits := hreq.valid.fits
    have hrecv := hreq.received
    unfold Received at hrecv
    have hlen := congrArg List.length h.prepared.buf
    simp only [List.length_drop] at hlen
    omega
  obtain ⟨htwo, hnum⟩ := out_doBinArithmetic h.opaqueWord h.prepared.internal hbuf (binCmd hdr) opt
  have hcounts : s.Counts hdr ↔ t.binStart.StoresNumber opt := by
    unfold Counts
    rw [h.setup]
    constructor
    . rintro ⟨-, -, pVal', opt', hbody', h⟩
      cases hbody'
      exact h
    . intro h'
      exact ⟨h.sasl, hcmd, pVal, opt, rfl, h'⟩
  have hheadless : ∀ bs, ¬ s.Headless hdr bs := by
    rintro bs ⟨-, h | h, -⟩
    . apply hgat.1
      unfold binCmd
      rw [h]
      rfl
    . apply hgat.2
      unfold binCmd
      rw [h]
      rfl
  by_cases hstores : t.binStart.StoresNumber opt
  . refine iff_of_false ?_ (fun h => h.1 (hcounts.mpr hstores))
    exact (htwo hstores).not_answersWell hcmd h.prepared.out h.prepared.noreply rfl
  . refine iff_of_true (h.answersWell (hnum hstores)) ⟨fun h => hstores (hcounts.mp h), fun bs h => ?_⟩
    exact absurd h (hheadless bs)

theorem answersWell_gat (h : RunsHere s hdr t pVal opt) (hno : (setupNoreplyCmd hdr.opcode).2 = true)
    (hchange : ¬ QuietChange hdr.opcode) (hcounts : ¬ s.Counts hdr)
    (hgat : hdr.opcode = MC_BINCMD_GATQ ∧ binCmd hdr = MC_BINCMD_GAT ∨
      hdr.opcode = MC_BINCMD_GATKQ ∧ binCmd hdr = MC_BINCMD_GATK)
    : s.AnswersWell hdr (t.binStart.doBinGet hdr (binCmd hdr) true) ↔
      ¬ s.Counts hdr ∧ ∀ bs, s.Headless hdr bs → hdr.Packets bs := by
  have hquiet : Quiet hdr.opcode := by
    rcases hgat with ⟨h, -⟩ | ⟨h, -⟩ <;> rw [h] <;> decide
  obtain ⟨hmiss, hhit⟩ := out_doBinGet_noreply h.opaqueWord h.prepared.internal
    (h.prepared.noreply.trans hno) (binCmd hdr) true
  cases hget : t.binStart.getElem with
  | none =>
    refine iff_of_true ?_ ⟨hcounts, fun bs hbs => ?_⟩
    . rcases hmiss hget with h' | h'
      . exact answersWell_nothing hquiet (h'.trans h.prepared.out)
      . exact h.answersWell h'
    . obtain ⟨-, -, -, e, he, -⟩ := hbs
      rw [h.setup, hget] at he
      cases he
  | some e =>
    have hraw := hhit e hget
    have hkeyPart : (if t.binStart.getKeyLen (binCmd hdr) ≠ 0 then s.reqKey hdr else []) =
        if hdr.opcode = MC_BINCMD_GATKQ then s.reqKey hdr else [] := by
      unfold getKeyLen
      rw [h.prepared.key]
      rcases hgat with ⟨h, h'⟩ | ⟨h, h'⟩
      . rw [h', h]
        rfl
      . rw [h', h, if_pos rfl]
        show (if (s.reqKey hdr).length ≠ 0 then s.reqKey hdr else []) = s.reqKey hdr
        split
        . rfl
        . rename_i hnil
          exact (List.eq_nil_of_length_eq_zero (not_not.mp hnil)).symm
    rw [h.prepared.out, h.prepared.key, hkeyPart] at hraw
    constructor
    . rintro ⟨bs, hout', hwell⟩
      have heq := List.append_cancel_left (hraw.symm.trans hout')
      refine ⟨hcounts, fun bs' hbs => ?_⟩
      obtain ⟨-, -, -, e', he', hbs'⟩ := hbs
      rw [h.setup] at he' hbs'
      rw [hget] at he'
      cases he'
      rw [hbs']
      exact heq ▸ hwell.packets
    . rintro ⟨-, hpk⟩
      refine ⟨_, hraw, hpk _ ⟨h.sasl, by tauto, ?_, e, ?_, ?_⟩, fun h => absurd hquiet h,
        fun h => absurd h hchange⟩
      . rw [h.setup]
        exact ⟨_, _, rfl⟩
      . rw [h.setup]
        exact hget
      . rw [h.setup]
        rfl

theorem answersWell_touch (h : RunsHere s hdr t pVal opt)
    (hcmd : binCmd hdr = MC_BINCMD_TOUCH ∨ binCmd hdr = MC_BINCMD_GAT ∨ binCmd hdr = MC_BINCMD_GATK)
    : s.AnswersWell hdr (t.binStart.doBinGet hdr (binCmd hdr) true) ↔
      ¬ s.Counts hdr ∧ ∀ bs, s.Headless hdr bs → hdr.Packets bs := by
  have hnc : ¬ ChangeCmd (binCmd hdr) := by rcases hcmd with h | h | h <;> rw [h] <;> decide
  have hcounts : ¬ s.Counts hdr := by
    rintro ⟨-, h', -⟩
    rcases hcmd with h | h | h <;> rw [h] at h' <;> exact absurd h' (by decide)
  have hbin : (setupNoreplyCmd hdr.opcode).1 = binCmd hdr :=
    cmd_of_binCmd (by rcases hcmd with h | h | h <;> rw [h] <;> decide)
  cases noreplyCase hdr.opcode with
  | reply hv _ hgat =>
    refine iff_of_true (h.answersWell ?_) ⟨hcounts, fun bs h => ?_⟩
    . exact oneAnswer_doBinGet h.opaqueWord h.prepared.internal (h.prepared.noreply.trans hv)
        h.prepared.keyLen (h.prepared.valLen (by tauto)) _ _
    . rcases h.2.1 with h | h
      . exact absurd h hgat.1
      . exact absurd h hgat.2
  | change _ _ _ h' => exact absurd (hbin ▸ h') hnc
  | gat hv hchange hgat =>
    rw [hbin] at hgat
    exact answersWell_gat h hv hchange hcounts hgat

theorem answersWell_runBinCmd (h : RunsHere s hdr t pVal opt) (hreq : s.ClientReq hdr)
    (hpassed : ¬ s.Passed hdr)
    : s.AnswersWell hdr (t.runBinCmd hdr (binCmd hdr) pVal opt).1 ↔
      ¬ s.Counts hdr ∧ ∀ bs, s.Headless hdr bs → hdr.Packets bs := by
  have hop := h.opaqueWord
  have hint := h.prepared.internal
  have hreply : ¬ ChangeCmd (binCmd hdr) →
      binCmd hdr ≠ MC_BINCMD_GAT ∧ binCmd hdr ≠ MC_BINCMD_GATK → t.binStart.outv.noreply = false :=
    fun hcmd hgat => h.prepared.noreply.trans (reply_of_cmd hcmd hgat)
  have hone : binCmd hdr ≠ MC_BINCMD_INCREMENT ∧ binCmd hdr ≠ MC_BINCMD_DECREMENT →
      binCmd hdr ≠ MC_BINCMD_GAT ∧ binCmd hdr ≠ MC_BINCMD_GATK →
      ∀ {r : McCall}, OneAnswer hdr t.binStart.outv r.outv →
      (s.AnswersWell hdr r ↔ ¬ s.Counts hdr ∧ ∀ bs, s.Headless hdr bs → hdr.Packets bs) :=
    fun hcount hgat _ hans => iff_of_true (h.answersWell hans) (plain_of_cmd hcount hgat)
  apply runBinCmd_cases (P := fun r => s.AnswersWell hdr r.1 ↔
    ¬ s.Counts hdr ∧ ∀ bs, s.Headless hdr bs → hdr.Packets bs)
  case htouch => exact answersWell_touch h
  case harith => exact answersWell_arith h hreq
  case hget =>
    intro hcmd
    apply hone
    . rcases hcmd with h | h | h <;> rw [h] <;> decide
    . rcases hcmd with h | h | h <;> rw [h] <;> decide
    . refine oneAnswer_doBinGet hop hint (hreply ?_ ?_) h.prepared.keyLen
        (h.prepared.valLen (by tauto)) _ _
      . rcases hcmd with h | h | h <;> rw [h] <;> decide
      . rcases hcmd with h | h | h <;> rw [h] <;> decide
  case hstore =>
    intro hcmd
    apply hone
    . rcases hcmd with h | h | h | h | h <;> rw [h] <;> decide
    . rcases hcmd with h | h | h | h | h <;> rw [h] <;> decide
    . exact oneAnswer_binStore hop hint _ _ _
  case hflush =>
    intro hcmd
    refine iff_of_true ?_ (plain_of_cmd (by rw [hcmd]; decide) (by rw [hcmd]; decide))
    have hflush : ¬ t.binStart.FlushPassed hdr := by
      intro hflush
      refine hpassed ⟨h.sasl, h.keylen, .inr ⟨hcmd, ?_, ?_⟩⟩
      . rw [h.setup]
        exact ⟨_, _, rfl⟩
      . rw [h.setup]
        exact hflush
    exact h.answersWell ((out_doBinFlush hop hint).2 hflush)
  case hstats =>
    intro hcmd
    refine iff_of_true ?_ (plain_of_cmd (by rw [hcmd]; decide) (by rw [hcmd]; decide))
    have hv : (setupNoreplyCmd hdr.opcode).2 = false := reply_of_cmd (by rw [hcmd]; decide) (by rw [hcmd]; decide)
    obtain ⟨bs, hbs, happend⟩ := packets_doBinStats hop hint (h.prepared.noreply.trans hv)
    rw [h.prepared.out] at happend
    refine ⟨bs, happend, hbs, fun _ h => absurd hcmd h, fun h => ?_⟩
    cases noreplyCase hdr.opcode with
    | reply _ hchange => exact absurd h hchange
    | change hno => exact absurd (hv.symm.trans hno) (by decide)
    | gat hno => exact absurd (hv.symm.trans hno) (by decide)
  case hauth =>
    intro hcmd
    apply hone
    . rcases hcmd with h | h <;> rw [h] <;> decide
    . rcases hcmd with h | h <;> rw [h] <;> decide
    . refine oneAnswer_doBinSaslAuth hop hint (hreply ?_ ?_) ?_
      . rcases hcmd with h | h <;> rw [h] <;> decide
      . rcases hcmd with h | h <;> rw [h] <;> decide
      . rw [h.prepared.env]
        exact hreq.result
  case hdelete =>
    intro hcmd
    apply hone
    . rw [hcmd]; decide
    . rw [hcmd]; decide
    . exact oneAnswer_doBinDelete hop hint
  case hquit =>
    intro hcmd
    apply hone
    . rw [hcmd]; decide
    . rw [hcmd]; decide
    . exact oneAnswer_binOkRespond hop hint
  case hnoop =>
    intro hcmd
    apply hone
    . rw [hcmd]; decide
    . rw [hcmd]; decide
    . exact oneAnswer_binOkRespond hop hint
  case hversion =>
    intro hcmd
    apply hone
    . rw [hcmd]; decide
    . rw [hcmd]; decide
    . exact oneAnswer_binTextRespond hop hint (hreply (by rw [hcmd]; decide) (by rw [hcmd]; decide)) 0
        .SUCCESS (bytes VERSION) (by decide)
  case hverbosity =>
    intro hcmd
    apply hone
    . rw [hcmd]; decide
    . rw [hcmd]; decide
    . exact oneAnswer_from (outv_setVerbose ..) (oneAnswer_binOkRespond hop
        (by rw [outv_setVerbose]; exact hint))
  case hlist =>
    intro hcmd _
    apply hone
    . rw [hcmd]; decide
    . rw [hcmd]; decide
    . exact oneAnswer_doBinSaslList hop hint (hreply (by rw [hcmd]; decide) (by rw [hcmd]; decide))
  case hnolist =>
    intro hcmd _
    apply hone
    . rw [hcmd]; decide
    . rw [hcmd]; decide
    . exact oneAnswer_binOkRespond hop hint
  case hunknown =>
    intro hntouch hnarith _
    apply hone
    . tauto
    . tauto
    . exact oneAnswer_binErrRespond hop hint (by decide)

theorem plain_of_setup (h : ∀ pVal opt, (s.binSetup hdr).2 ≠ .body pVal opt)
    : ¬ s.Counts hdr ∧ ∀ bs, s.Headless hdr bs → hdr.Packets bs := by
  constructor
  . rintro ⟨-, -, pVal, opt, hbody, -⟩
    exact h pVal opt hbody
  . rintro bs ⟨-, -, ⟨pVal, opt, hbody⟩, -⟩
    exact absurd hbody (h pVal opt)

theorem answersWell_err (hop : hdr.opaqueWord.length = 4) {t : McCall}
    (hv : t.outv = { s.outv with noreply := (setupNoreplyCmd hdr.opcode).2 })
    (hint : s.conn.internal = false) {err : McBinStat} (herr : err ≠ .SUCCESS)
    : s.AnswersWell hdr (t.binErrRespond hdr err) := by
  have hint' : t.outv.internal = false := by
    rw [hv]
    exact hint
  refine (oneAnswer_binErrRespond hop hint' herr).answersWell ?_ ?_ rfl
  . rw [hv]
    rfl
  . rw [hv]

theorem processBinReq_eq (hsasl : s.saslRefuses hdr.opcode = false) (consumed : Int)
    : (s.processBinReq hdr consumed).1 =
      match (s.binSetup hdr).2 with
      | .invalid => (s.binSetup hdr).1.binErrRespond hdr .EINVAL
      | .queued => (s.binSetup hdr).1
      | .forwarded => (s.binSetup hdr).1
      | .err stat => (s.binSetup hdr).1.binErrRespond hdr stat
      | .body pVal opt => ((s.binSetup hdr).1.runBinCmd hdr (binCmd hdr) pVal opt).1 := by
  unfold processBinReq
  rw [if_neg (by simp [hsasl])]
  show (match (s.binSetup hdr).2 with
    | .invalid => ((s.binSetup hdr).1.binErrRespond hdr .EINVAL, consumed)
    | .queued => ((s.binSetup hdr).1, -1)
    | .forwarded => ((s.binSetup hdr).1, consumed)
    | .err stat => ((s.binSetup hdr).1.binErrRespond hdr stat, consumed)
    | .body pVal opt =>
      if !((s.binSetup hdr).1.runBinCmd hdr (binCmd hdr) pVal opt).2 then
        (((s.binSetup hdr).1.runBinCmd hdr (binCmd hdr) pVal opt).1, 0)
      else (((s.binSetup hdr).1.runBinCmd hdr (binCmd hdr) pVal opt).1, _)).1 = _
  split
  . rfl
  . rfl
  . rfl
  . rfl
  . split <;> rfl

theorem isTidMaster_placed (h : s.IsSlave hdr = true) : (s.placed hdr).getHash.isTidMaster = false := by
  unfold IsSlave at h
  rw [Bool.not_eq_true'] at h
  exact h

theorem setupFrame_body (h24 : sizeofBinHdr ≤ s.conn.m_bufIncoming.length)
    (hbody : (s.binSetup hdr).2 = .body pVal opt) : SetupFrame s hdr (s.binSetup hdr) := by
  have hlocal : s.binSetup hdr = s.localSetup hdr := by
    rw [binSetup_eq] at hbody ⊢
    split at hbody
    . cases hbody
    . rename_i hkey
      split at hbody
      . cases hbody
      . rename_i hq
        split at hbody
        . cases hbody
        . rename_i hf
          rw [if_neg hkey, if_neg hq, if_neg hf]
  rw [hlocal]
  exact localSetup_frame h24

theorem Passed.not_stat (h : s.Passed hdr) : binCmd hdr ≠ MC_BINCMD_STAT := by
  intro hstat
  rcases h.2.2 with ⟨hm, -⟩ | ⟨hflush, -⟩
  . unfold McBinCmdHdr.toMaster at hm
    rw [hstat] at hm
    split at hm <;> exact absurd hm (by decide)
  . rw [hstat] at hflush
    exact absurd hflush (by decide)

theorem out_of_passed (hop : hdr.opaqueWord.length = 4) (hint : s.conn.internal = false)
    (h24 : sizeofBinHdr ≤ s.conn.m_bufIncoming.length) (h : s.Passed hdr) (consumed : Int)
    : (s.processBinReq hdr consumed).1.conn.out = s.conn.out ∧
      ¬ s.Counts hdr ∧ ∀ bs, s.Headless hdr bs → hdr.Packets bs := by
  obtain ⟨hsasl, hkey, hleft⟩ := h
  rw [processBinReq_eq hsasl]
  rcases hleft with ⟨hm, hbusy⟩ | ⟨hcmd, ⟨pVal, opt, hbody⟩, hflush⟩
  . by_cases hq : hdr.toMaster = true ∧ s.MasterBusy hdr = true
    . have hset : s.binSetup hdr = ((s.placed hdr).putWaitQ, .queued) := by
        rw [binSetup_eq, if_neg (by omega), if_pos hq]
      rw [hset]
      refine ⟨congrArg OutView.out (outv_putWaitQ (s.placed hdr)), plain_of_setup ?_⟩
      rw [hset]
      exact fun _ _ h => by cases h
    . obtain ⟨hslave, hconn⟩ := hbusy.resolve_left fun hb => hq ⟨hm, hb⟩
      have hset : s.binSetup hdr =
          (((s.placed hdr).fwdBinToRemote (s.placed hdr).conn.m_pSlice hdr).1, .forwarded) := by
        rw [binSetup_eq, if_neg (by omega), if_neg hq, if_pos ⟨hm, hslave⟩]
      obtain ⟨hout, -, -⟩ := out_fwdBinToRemote (s := s.placed hdr) hop hint (isTidMaster_placed hslave)
        (s.placed hdr).conn.m_pSlice
      rw [hset]
      refine ⟨congrArg OutView.out (hout hconn), plain_of_setup ?_⟩
      rw [hset]
      exact fun _ _ h => by cases h
  . have hframe : SetupFrame s hdr (s.binSetup hdr) := setupFrame_body h24 hbody
    have hint' : (s.binSetup hdr).1.binStart.outv.internal = false := by
      rw [outv_binStart, hframe.outv]
      exact hint
    have hout := (out_doBinFlush hop hint').1 hflush
    rw [outv_binStart, hframe.outv] at hout
    rw [hbody]
    dsimp only
    rw [hcmd]
    exact ⟨hout, plain_of_cmd (by rw [hcmd]; decide) (by rw [hcmd]; decide)⟩

theorem answersWell_here (hreq : s.ClientReq hdr) (hop : hdr.opaqueWord.length = 4)
    (hpassed : ¬ s.Passed hdr) (consumed : Int)
    : s.AnswersWell hdr (s.processBinReq hdr consumed).1 ↔
      ¬ s.Counts hdr ∧ ∀ bs, s.Headless hdr bs → hdr.Packets bs := by
  have h24 : sizeofBinHdr ≤ s.conn.m_bufIncoming.length := le_trans (Nat.le_add_right _ _) hreq.received
  cases hsasl : s.saslRefuses hdr.opcode
  . rw [processBinReq_eq hsasl]
    by_cases hkey : KEY_MAXLEN < hdr.keylen
    . have hset : s.binSetup hdr = (s.setNoreply (setupNoreplyCmd hdr.opcode).2, .invalid) := by
        rw [binSetup_eq, if_pos hkey]
      refine iff_of_true ?_ (plain_of_setup (by rw [hset]; exact fun _ _ h => by cases h))
      rw [hset]
      exact answersWell_err hop rfl hreq.internal (by decide)
    . have hkey' : hdr.keylen ≤ KEY_MAXLEN := by omega
      have hhanded : ¬ s.Handed hdr := fun h => hpassed ⟨hsasl, hkey', .inl h⟩
      have hq : ¬ (hdr.toMaster = true ∧ s.MasterBusy hdr = true) :=
        fun hq => hhanded ⟨hq.1, .inl hq.2⟩
      by_cases hf : hdr.toMaster = true ∧ s.IsSlave hdr = true
      . have hset : s.binSetup hdr =
            (((s.placed hdr).fwdBinToRemote (s.placed hdr).conn.m_pSlice hdr).1, .forwarded) := by
          rw [binSetup_eq, if_neg hkey, if_neg hq, if_pos hf]
        refine iff_of_true ?_ (plain_of_setup (by rw [hset]; exact fun _ _ h => by cases h))
        have hcut : s.CutOff hdr := by
          refine ⟨hf.1, ?_, hf.2, ?_⟩
          . cases hb : s.MasterBusy hdr
            . rfl
            . exact absurd ⟨hf.1, hb⟩ hq
          . cases hc : s.MasterConnected hdr
            . rfl
            . exact absurd ⟨hf.1, .inr ⟨hf.2, hc⟩⟩ hhanded
        rw [hset]
        dsimp only
        rw [fwdBinToRemote_cutOff hcut]
        exact answersWell_err hop rfl hreq.internal (by decide)
      . have hloc : s.binSetup hdr = s.localSetup hdr := by
          rw [binSetup_eq, if_neg hkey, if_neg hq, if_neg hf]
        have hframe : SetupFrame s hdr (s.localSetup hdr) := localSetup_frame h24
        rw [← hloc] at hframe
        by_cases hwrong : hdr.WrongExtra
        . have hinv := (localSetup_wrong (s := s) hwrong).1
          rw [← hloc] at hinv
          rw [hinv]
          exact iff_of_true (answersWell_err hop hframe.outv hreq.internal (by decide))
            (plain_of_setup (by rw [hinv]; exact fun _ _ h => by cases h))
        . obtain ⟨pVal, opt, hbody⟩ | ⟨stat, herr⟩ := localSetup_ok (s := s) hwrong
          . rw [← hloc] at hbody
            rw [hbody]
            exact answersWell_runBinCmd ⟨hsasl, hkey', hop, Prod.ext rfl hbody,
              prepared hreq hkey' hloc⟩ hreq hpassed
          . rw [← hloc] at herr
            rw [herr]
            exact iff_of_true (answersWell_err hop hframe.outv hreq.internal (hframe.err stat herr))
              (plain_of_setup (by rw [herr]; exact fun _ _ h => by cases h))
  . refine iff_of_true ?_ ⟨?_, ?_⟩
    . unfold processBinReq
      rw [if_pos hsasl]
      exact answersWell_err (s := s) (t := s.setNoreply (setupNoreplyCmd hdr.opcode).2) hop rfl
        hreq.internal (show McBinStat.AUTHERROR ≠ .SUCCESS by decide)
    . rintro ⟨h, -⟩
      exact absurd (hsasl.symm.trans h) (by decide)
    . rintro bs ⟨h, -⟩
      exact absurd (hsasl.symm.trans h) (by decide)

/--
What a request that is there as a whole appends, and when it is well formed.
-/
theorem answersWell_iff (hreq : s.ClientReq hdr) (hop : hdr.opaqueWord.length = 4) (consumed : Int)
    : s.AnswersWell hdr (s.processBinReq hdr consumed).1 ↔
      (s.Passed hdr → Quiet hdr.opcode) ∧ ¬ s.Counts hdr ∧ ∀ bs, s.Headless hdr bs → hdr.Packets bs := by
  by_cases hpassed : s.Passed hdr
  . have h24 : sizeofBinHdr ≤ s.conn.m_bufIncoming.length :=
      le_trans (Nat.le_add_right _ _) hreq.received
    obtain ⟨hout, hplain⟩ := out_of_passed hop hreq.internal h24 hpassed consumed
    constructor
    . rintro ⟨bs, hbs, hwell⟩
      refine ⟨fun _ => ?_, hplain⟩
      by_contra hquiet
      have hnil : bs = [] := List.append_cancel_left (hbs.symm.trans (hout.trans (List.append_nil _).symm))
      have hlen := (hwell.one hquiet hpassed.not_stat).length
      rw [hnil, List.length_nil] at hlen
      unfold sizeofBinHdr at hlen
      omega
    . rintro ⟨hquiet, -⟩
      exact answersWell_nothing (hquiet hpassed) hout
  . rw [answersWell_here hreq hop hpassed consumed]
    exact ⟨fun h => ⟨fun hp => absurd hp hpassed, h⟩, fun h => h.2⟩

end

theorem toInt32_le (n : Nat) : toInt32 n ≤ n := by
  unfold toInt32
  split <;> omega

def sampleGetK : McCall :=
  sampleCall ([MC_BINARY_REQ, UInt8.ofNat MC_BINCMD_GETK, 0, 1, 0, 0, 0, 0, 0, 0, 0, 1] ++
    List.replicate 12 0 ++ bytes "a")

theorem sampleGetK_clientReq : sampleGetK.ClientReq (McBinCmdHdr.ofBuf sampleGetK.conn.m_bufIncoming) where
  internal := rfl
  received := by unfold Received; decide +kernel
  valid := ⟨by decide +kernel, by decide +kernel⟩
  valLen i user off e he := by
    have hnone : ((sampleGetK.sliceAt i).m_hashByUser user).table.elem off = none := rfl
    rw [hnone] at he
    cases he
  result mech data result h := by cases h

def sampleCounterHash : Option LsShmHash :=
  sampleHash [Answer.clean 0xc00 64] (HashParm.clean false false)

theorem sampleCounterHash_isSome : sampleCounterHash.isSome = true := by decide

def sampleIncrement : McCall :=
  let multi := sampleMulti (sampleCounterHash.get sampleCounterHash_isSome) sampleParms
  (((McWorld.start multi sampleParms false false sampleEnv).step .accept).call 0).setBuf
    ([MC_BINARY_REQ, UInt8.ofNat MC_BINCMD_INCREMENT, 0, 1, 20, 0, 0, 0, 0, 0, 0, 21] ++
      List.replicate 12 0 ++ beBytes 8 1 ++ beBytes 8 5 ++ beBytes 4 0 ++ bytes "a")

theorem sampleIncrement_clientReq
    : sampleIncrement.ClientReq (McBinCmdHdr.ofBuf sampleIncrement.conn.m_bufIncoming) where
  internal := rfl
  received := by unfold Received; decide +kernel
  valid := ⟨by decide +kernel, by decide +kernel⟩
  valLen i user off e he := by
    have hnone : ((sampleIncrement.sliceAt i).m_hashByUser user).table.elem off = none := rfl
    rw [hnone] at he
    cases he
  result mech data result h := by cases h

end McCall

end Lsmcd
