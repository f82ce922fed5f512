import Lsmcd.Memcache.BinAnswer
import Lsmcd.Memcache.Hashes

/-!
A call without what an earlier command has left in it: what the parts of the handlers make of it.
-/

namespace Lsmcd

namespace McCall

/--
The call with the first `n` bytes of the buffer alone, and without the item of an earlier command. Its
value goes too unless `keep` is set.
-/
def own (s : McCall) (keep : Bool) (n : Nat) : McCall where
  mc := { s.mc with
    m_parms := { s.mc.m_parms with val := if keep then s.mc.m_parms.val else ⟨0, none⟩ }
    m_item := { x_exptime := 0, x_flags := 0 } }
  conn := { s.conn with m_bufIncoming := s.conn.m_bufIncoming.take n }

section

variable (s : McCall) {keep : Bool} {n : Nat}

theorem own_ite (c : Prop) [Decidable c] (a b : McCall)
    : (if c then a else b).own keep n = if c then a.own keep n else b.own keep n :=
  apply_ite (fun s : McCall => s.own keep n) c a b

theorem own_own : (s.own keep n).own keep n = s.own keep n := by
  unfold own
  dsimp only
  rw [List.take_take, Nat.min_self]
  cases keep <;> rfl

@[simp]
theorem sliceAt_own (i : Nat) : (s.own keep n).sliceAt i = s.sliceAt i := rfl

@[simp]
theorem getHash_own : (s.own keep n).getHash = s.getHash := rfl

@[simp]
theorem hkey_own : (s.own keep n).mc.m_hkey = s.mc.m_hkey := rfl

@[simp]
theorem key_own : (s.own keep n).mc.m_parms.key = s.mc.m_parms.key := rfl

@[simp]
theorem own_send (bs : List UInt8) : (s.send bs).own keep n = (s.own keep n).send bs := rfl

@[simp]
theorem own_setUndef : s.setUndef.own keep n = (s.own keep n).setUndef := rfl

@[simp]
theorem own_setNoreply (b : Bool) : (s.setNoreply b).own keep n = (s.own keep n).setNoreply b := rfl

@[simp]
theorem own_setSliceAt (i : Nat) (slice : LsMcHashSlice)
    : (s.setSliceAt i slice).own keep n = (s.own keep n).setSliceAt i slice := rfl

@[simp]
theorem own_setHashAt (i : Nat) (user : Option (List UInt8)) (hash : LsShmHash)
    : (s.setHashAt i user hash).own keep n = (s.own keep n).setHashAt i user hash := rfl

@[simp]
theorem own_setHash (hash : LsShmHash) : (s.setHash hash).own keep n = (s.own keep n).setHash hash := rfl

@[simp]
theorem own_setHdrAt (i : Nat) (f : LsMcHdr → LsMcHdr)
    : (s.setHdrAt i f).own keep n = (s.own keep n).setHdrAt i f := rfl

@[simp]
theorem own_notify (i : Nat) : (s.notify i).own keep n = (s.own keep n).notify i := rfl

@[simp]
theorem own_setKey (key : List UInt8) : (s.setKey key).own keep n = (s.own keep n).setKey key := rfl

@[simp]
theorem own_setRetcode (ret : UpdRet)
    : (s.setRetcode ret).own keep n = (s.own keep n).setRetcode ret := rfl

@[simp]
theorem own_setIterOff (off : Nat) : (s.setIterOff off).own keep n = (s.own keep n).setIterOff off := rfl

@[simp]
theorem own_setNeeded (k : Int) : (s.setNeeded k).own keep n = (s.own keep n).setNeeded k := rfl

@[simp]
theorem own_setRescas (cas : Nat) : (s.setRescas cas).own keep n = (s.own keep n).setRescas cas := rfl

@[simp]
theorem own_setItem (item : LsMcDataItem) : (s.setItem item).own keep n = s.own keep n := rfl

@[simp]
theorem own_setVal (len : Nat) : (s.setVal len).own false n = s.own false n := rfl

@[simp]
theorem own_setSlice (key : List UInt8) : (s.setSlice key).own keep n = (s.own keep n).setSlice key := rfl

@[simp]
theorem own_saveCas (e : LsShmHElem) : (s.saveCas e).own keep n = (s.own keep n).saveCas e := rfl

@[simp]
theorem own_ofHash (r : LsShmHash × Nat)
    : (s.ofHash r).1.own keep n = ((s.own keep n).ofHash r).1 := rfl

@[simp]
theorem own_stat (f : LsMcStats → LsMcStats) : (s.stat f).own keep n = (s.own keep n).stat f := by
  unfold stat
  rw [own_ite]
  rfl

@[simp]
theorem own_notifyChange : s.notifyChange.own keep n = (s.own keep n).notifyChange := by
  unfold notifyChange
  rw [own_ite]
  rfl

@[simp]
theorem own_binRespond (buf : List UInt8)
    : (s.binRespond buf).own keep n = (s.own keep n).binRespond buf := by
  unfold binRespond ackNoreply
  rw [own_ite, own_setNoreply, own_ite]
  rfl

@[simp]
theorem own_putWaitQ : s.putWaitQ.own keep n = (s.own keep n).putWaitQ := by
  unfold putWaitQ
  rw [own_ite]
  refine if_congr Iff.rfl rfl ?_
  dsimp only [own]
  split <;> rfl

@[simp]
theorem own_fwdCommand (i : Nat) (buf : List UInt8)
    : (s.fwdCommand i buf).own keep n = (s.own keep n).fwdCommand i buf := by
  unfold fwdCommand
  rw [own_ite]
  rfl

@[simp]
theorem own_binErrRespond (hdr : McBinCmdHdr) (err : McBinStat)
    : (s.binErrRespond hdr err).own keep n = (s.own keep n).binErrRespond hdr err := by
  unfold binErrRespond
  simp only [own_binRespond, own_setNoreply, own_setRescas, own_setIterOff]
  rfl

@[simp]
theorem own_binOkRespond (hdr : McBinCmdHdr)
    : (s.binOkRespond hdr).own keep n = (s.own keep n).binOkRespond hdr := by
  unfold binOkRespond
  rw [own_binRespond]
  rfl

@[simp]
theorem own_binTextRespond (hdr : McBinCmdHdr) (keylen : Nat) (status : McBinStat) (text : List UInt8)
    : (s.binTextRespond hdr keylen status text).own keep n =
      (s.own keep n).binTextRespond hdr keylen status text := by
  unfold binTextRespond
  rw [own_binRespond, own_binRespond]
  rfl

@[simp]
theorem own_binGetStat (doTouch hit : Bool)
    : (s.binGetStat doTouch hit).own keep n = (s.own keep n).binGetStat doTouch hit :=
  own_stat s _

@[simp]
theorem own_binDeleteStat (hit : Bool)
    : (s.binDeleteStat hit).own keep n = (s.own keep n).binDeleteStat hit :=
  own_stat s _

@[simp]
theorem own_binArithStat (cmd : Nat) (hit : Bool)
    : (s.binArithStat cmd hit).own keep n = (s.own keep n).binArithStat cmd hit :=
  own_stat s _

@[simp]
theorem own_binCasStat (ret : UpdRet) : (s.binCasStat ret).own keep n = (s.own keep n).binCasStat ret :=
  own_stat s _

@[simp]
theorem own_authStat (err : Bool) : (s.authStat err).own keep n = (s.own keep n).authStat err := by
  unfold authStat
  dsimp only
  rw [own_ite, own_stat, own_stat]

@[simp]
theorem own_setVerbose (level : Nat)
    : (s.setVerbose level).own keep n = (s.own keep n).setVerbose level := by
  unfold setVerbose
  rw [own_ite]
  rfl

@[simp]
theorem own_binGetMiss (hdr : McBinCmdHdr) (keyLen : Nat)
    : (s.binGetMiss hdr keyLen).own keep n = (s.own keep n).binGetMiss hdr keyLen := by
  unfold binGetMiss
  rw [own_ite, own_ite, own_binTextRespond, own_binErrRespond]
  rfl

@[simp]
theorem own_binGetHit (hdr : McBinCmdHdr) (cmd keyLen : Nat) (e : LsShmHElem)
    : (s.binGetHit hdr cmd keyLen e).own keep n = (s.own keep n).binGetHit hdr cmd keyLen e := by
  unfold binGetHit
  dsimp only
  simp only [own_ite, own_binRespond, own_saveCas, parms_binRespond]
  rfl

@[simp]
theorem own_flushOne : s.flushOne.own keep n = (s.own keep n).flushOne := by
  unfold flushOne
  rw [own_notifyChange, own_stat]
  rfl

theorem own_resetStatAt (i : Nat)
    : (resetStatAt s i).1.own keep n = (resetStatAt (s.own keep n) i).1 ∧
      (resetStatAt s i).2 = (resetStatAt (s.own keep n) i).2 := by
  unfold resetStatAt
  rw [sliceAt_own]
  split <;> exact ⟨rfl, rfl⟩

theorem own_multiFlushFunc (pThis : Bool) (i : Nat)
    : (multiFlushFunc pThis s i).1.own keep n = (multiFlushFunc pThis (s.own keep n) i).1 ∧
      (multiFlushFunc pThis s i).2 = (multiFlushFunc pThis (s.own keep n) i).2 := by
  unfold multiFlushFunc
  dsimp only
  rw [sliceAt_own]
  split
  . refine ⟨?_, rfl⟩
    by_cases hoff : (s.sliceAt i).x_iOff ≠ 0
    . simp only [if_pos hoff]
      rw [own_ite]
      rfl
    . simp only [if_neg hoff]
      rw [own_ite]
      rfl
  . split
    . exact ⟨rfl, rfl⟩
    . split <;> exact ⟨rfl, rfl⟩

theorem own_foreachSlice {f : McCall → Nat → McCall × Bool}
    (hf : ∀ s i, (f s i).1.own keep n = (f (s.own keep n) i).1 ∧ (f s i).2 = (f (s.own keep n) i).2)
    : (foreachSlice f s).1.own keep n = (foreachSlice f (s.own keep n)).1 ∧
      (foreachSlice f s).2 = (foreachSlice f (s.own keep n)).2 := by
  have hgo : ∀ (k i : Nat) (s : McCall),
      (foreachSlice.go f k i s).1.own keep n = (foreachSlice.go f k i (s.own keep n)).1 ∧
        (foreachSlice.go f k i s).2 = (foreachSlice.go f k i (s.own keep n)).2 := by
    intro k
    induction k with
    | zero => exact fun i s => ⟨rfl, rfl⟩
    | succ k ih =>
      intro i s
      obtain ⟨hstate, hret⟩ := hf s i
      unfold foreachSlice.go
      dsimp only
      rw [← hret, ← hstate]
      split
      . exact ih (i + 1) _
      . exact ⟨hstate, hret⟩
  exact hgo _ 0 s

@[simp]
theorem own_resetStats : s.resetStats.own keep n = (s.own keep n).resetStats := by
  unfold resetStats
  rw [own_ite, (own_foreachSlice s fun s i => own_resetStatAt s i).1, (own_resetStatAt s _).1]
  rfl

theorem curStats_own : (s.own keep n).curStats = s.curStats := by
  have hmulti : ∀ k i total, (s.own keep n).multiStat k i total = s.multiStat k i total := by
    intro k
    induction k with
    | zero => exact fun i total => rfl
    | succ k ih =>
      intro i total
      unfold multiStat
      rw [ih, sliceAt_own]
  unfold curStats
  rw [hmulti]
  rfl

theorem own_doBinDelete (hdr : McBinCmdHdr)
    : (s.doBinDelete hdr).own keep n = (s.own keep n).doBinDelete hdr := by
  unfold doBinDelete
  simp only [getHash_own, hkey_own, key_own]
  rw [own_ite]
  refine if_congr Iff.rfl ?_ ?_
  . simp only [own_binErrRespond, own_binDeleteStat, own_setIterOff]
  . split
    . simp only [own_binErrRespond, own_binDeleteStat, own_setIterOff]
    . rw [own_ite]
      refine if_congr Iff.rfl ?_ ?_
      . simp only [own_binErrRespond, own_notifyChange, own_binDeleteStat, own_setHash, own_setIterOff]
      . rw [own_ite]
        refine if_congr Iff.rfl ?_ ?_
        . simp only [own_binErrRespond, own_setIterOff]
        . simp only [own_binOkRespond, own_notifyChange, own_binDeleteStat, own_setHash, own_setIterOff]

theorem own_doBinVersion (hdr : McBinCmdHdr)
    : (s.doBinVersion hdr).own keep n = (s.own keep n).doBinVersion hdr :=
  own_binTextRespond s hdr _ _ _

theorem own_doBinSaslList (hdr : McBinCmdHdr)
    : (s.doBinSaslList hdr).own keep n = (s.own keep n).doBinSaslList hdr := by
  unfold doBinSaslList
  rw [own_ite]
  refine if_congr Iff.rfl (own_binErrRespond s hdr _) ?_
  dsimp only
  by_cases hopaque : hdr.opaqueWord = REBUILD_OPAQUE
  . simp only [if_pos hopaque]
    rw [own_ite]
    simp only [own_binErrRespond, own_binRespond, own_setHash, getHash_own]
    rfl
  . simp only [if_neg hopaque]
    rw [own_ite]
    simp only [own_binErrRespond, own_binRespond]
    rfl

theorem own_foldl_doBinStat1Send (hdr : McBinCmdHdr) (items : List (String × List UInt8))
    : (items.foldl (doBinStat1Send hdr) s).own keep n =
      items.foldl (doBinStat1Send hdr) (s.own keep n) := by
  induction items generalizing s with
  | nil => rfl
  | cons item items ih =>
    have hone : (doBinStat1Send hdr s item).own keep n = doBinStat1Send hdr (s.own keep n) item := by
      unfold doBinStat1Send
      rw [own_binRespond]
      rfl
    rw [List.foldl_cons, List.foldl_cons, ih, hone]

theorem own_putCas (e : LsShmHElem)
    : (s.putCas e).1.own keep n = ((s.own keep n).putCas e).1 ∧
      (s.putCas e).2 = ((s.own keep n).putCas e).2 := by
  unfold putCas getCas
  by_cases hcas : s.mc.m_mcparms.m_usecas = true
  . have hcas' : (s.own keep n).mc.m_mcparms.m_usecas = true := hcas
    rw [if_pos hcas, if_pos hcas']
    by_cases hoff : s.conn.m_iHdrOff ≠ 0
    . have hoff' : (s.own keep n).conn.m_iHdrOff ≠ 0 := hoff
      rw [if_pos hoff, if_pos hoff']
      exact ⟨rfl, rfl⟩
    . have hoff' : ¬ (s.own keep n).conn.m_iHdrOff ≠ 0 := hoff
      rw [if_neg hoff, if_neg hoff']
      exact ⟨rfl, rfl⟩
  . have hcas' : ¬ (s.own keep n).mc.m_mcparms.m_usecas = true := hcas
    rw [if_neg hcas, if_neg hcas']
    exact ⟨rfl, rfl⟩

end

/-!
Bytes of the buffer.
-/

theorem bufBytes_take (buf : List UInt8) {n p k : Nat} (h : p + k ≤ n)
    : bufBytes (buf.take n) p k = bufBytes buf p k := by
  unfold bufBytes
  rw [List.drop_take, List.take_take, Nat.min_eq_left (by omega)]

theorem byteAt_take (buf : List UInt8) {n p : Nat} (h : p < n) : byteAt (buf.take n) p = byteAt buf p := by
  unfold byteAt
  rw [List.getD_eq_getElem?_getD, List.getD_eq_getElem?_getD, List.getElem?_take_of_lt h]

theorem readBe_take (buf : List UInt8) {n p k : Nat} (h : p + k ≤ n)
    : readBe (buf.take n) p k = readBe buf p k := by
  induction k generalizing p with
  | zero => rfl
  | succ k ih => rw [readBe, readBe, byteAt_take buf (by omega), ih (by omega)]

theorem ofBuf_take (buf : List UInt8) {n : Nat} (h : sizeofBinHdr ≤ n)
    : McBinCmdHdr.ofBuf (buf.take n) = McBinCmdHdr.ofBuf buf := by
  unfold sizeofBinHdr at h
  have hword : ((buf.take n).drop 12).take 4 = (buf.drop 12).take 4 :=
    bufBytes_take buf (by omega : 12 + 4 ≤ n)
  unfold McBinCmdHdr.ofBuf
  simp only [hword, readBe_take buf (by omega : 1 + 1 ≤ n), readBe_take buf (by omega : 2 + 2 ≤ n),
    readBe_take buf (by omega : 4 + 1 ≤ n), readBe_take buf (by omega : 8 + 4 ≤ n),
    readBe_take buf (by omega : 16 + 8 ≤ n)]

section

variable {s : McCall} {hdr : McBinCmdHdr} {keep : Bool} {n : Nat}

theorem own_swapCas (h24 : sizeofBinHdr ≤ s.conn.m_bufIncoming.length) (hn : sizeofBinHdr ≤ n)
    : s.swapCas.own keep n = (s.own keep n).swapCas := by
  unfold sizeofBinHdr at h24 hn
  have hbuf : (s.conn.m_bufIncoming.take 16 ++ (bufBytes s.conn.m_bufIncoming 16 8).reverse ++
        s.conn.m_bufIncoming.drop 24).take n =
      (s.conn.m_bufIncoming.take n).take 16 ++ (bufBytes (s.conn.m_bufIncoming.take n) 16 8).reverse ++
        (s.conn.m_bufIncoming.take n).drop 24 := by
    have hlen : (s.conn.m_bufIncoming.take 16 ++ (bufBytes s.conn.m_bufIncoming 16 8).reverse).length =
        24 := by
      simp [bufBytes]
      omega
    rw [bufBytes_take _ (by omega), List.take_take, Nat.min_eq_left (by omega), List.take_append, hlen,
      List.take_of_length_le (by omega), List.drop_take]
  unfold swapCas own
  dsimp only
  rw [hbuf]

theorem own_fwdBinToRemote (hn : sizeofBinHdr + hdr.totbody ≤ n) (i : Nat)
    : (s.fwdBinToRemote i hdr).1.own keep n = ((s.own keep n).fwdBinToRemote i hdr).1 ∧
      (s.fwdBinToRemote i hdr).2 = ((s.own keep n).fwdBinToRemote i hdr).2 := by
  have htake : (s.own keep n).conn.m_bufIncoming.take (toInt32 (sizeofBinHdr + hdr.totbody)).toNat =
      s.conn.m_bufIncoming.take (toInt32 (sizeofBinHdr + hdr.totbody)).toNat := by
    have hle := toInt32_le (sizeofBinHdr + hdr.totbody)
    show (s.conn.m_bufIncoming.take n).take _ = _
    rw [List.take_take, Nat.min_eq_left (by omega)]
  unfold fwdBinToRemote
  dsimp only
  rw [getHash_own, sliceAt_own, htake]
  split
  . split
    . split
      . exact ⟨rfl, rfl⟩
      . exact ⟨own_fwdCommand s i _, rfl⟩
    . exact ⟨own_binErrRespond s hdr _, rfl⟩
  . exact ⟨rfl, rfl⟩

end

/-!
The operations on the hash read the value.
-/

section

variable (s : McCall) {n : Nat}

theorem parms_own : (s.own true n).mc.m_parms = s.mc.m_parms := rfl

theorem own_setVal_true (len : Nat) : (s.setVal len).own true n = (s.own true n).setVal len := rfl

theorem own_chkMemSz (arg : Nat)
    : (s.chkMemSz arg).1.own true n = ((s.own true n).chkMemSz arg).1 ∧
      (s.chkMemSz arg).2 = ((s.own true n).chkMemSz arg).2 := by
  have hitem : (s.own true n).chkItemSize s.mc.m_parms.val.len = s.chkItemSize s.mc.m_parms.val.len := rfl
  have hmore : (s.own true n).moreSize arg = s.moreSize arg := rfl
  have hhelper : (s.own true n).helperSize = s.helperSize := rfl
  have hmc : (s.own true n).mc.m_mcparms = s.mc.m_mcparms := rfl
  unfold chkMemSz
  dsimp only
  rw [getHash_own, hkey_own, parms_own, hitem, hmore, hhelper, hmc]
  split
  . split
    . exact ⟨rfl, rfl⟩
    . exact ⟨rfl, rfl⟩
  . split
    . exact ⟨rfl, rfl⟩
    . split
      . exact ⟨rfl, rfl⟩
      . split
        . exact ⟨rfl, rfl⟩
        . exact ⟨rfl, rfl⟩

theorem own_doHashInsert (opt : LsMcUpdOpt)
    : (s.doHashInsert opt).1.own true n = ((s.own true n).doHashInsert opt).1 ∧
      (s.doHashInsert opt).2 = ((s.own true n).doHashInsert opt).2 := by
  unfold doHashInsert
  dsimp only
  rw [getHash_own, hkey_own, parms_own]
  split
  . split
    . exact ⟨rfl, rfl⟩
    . split
      . exact ⟨rfl, rfl⟩
      . exact ⟨rfl, rfl⟩
  . exact ⟨rfl, rfl⟩

theorem own_updateElem (opt : LsMcUpdOpt) (iterOff : Nat) (e : LsShmHElem)
    : (s.updateElem opt iterOff e).1.own true n = ((s.own true n).updateElem opt iterOff e).1.own true n ∧
      (s.updateElem opt iterOff e).2 = ((s.own true n).updateElem opt iterOff e).2 := by
  unfold updateElem
  dsimp only
  rw [getHash_own, parms_own]
  split
  . exact ⟨(own_own s).symm, rfl⟩
  . split
    . split
      . exact ⟨(own_own s).symm, rfl⟩
      . refine ⟨?_, rfl⟩
        simp only [own_ofHash, own_setItem, own_setVal_true, own_own]
        rfl
    . split
      . split
        . refine ⟨?_, rfl⟩
          simp only [own_setHash, own_own]
        . split
          . refine ⟨?_, rfl⟩
            simp only [own_setHash, own_own]
          . refine ⟨?_, rfl⟩
            simp only [own_setHash, own_own]
      . refine ⟨?_, rfl⟩
        simp only [own_ofHash, own_own]
        rfl

theorem own_doHashUpdate (opt : LsMcUpdOpt)
    : (s.doHashUpdate opt).1.own true n = ((s.own true n).doHashUpdate opt).1.own true n ∧
      (s.doHashUpdate opt).2 = ((s.own true n).doHashUpdate opt).2 := by
  unfold doHashUpdate
  dsimp only
  rw [getHash_own, hkey_own, key_own]
  split
  . exact ⟨(own_own s).symm, rfl⟩
  . split
    . refine ⟨?_, rfl⟩
      simp only [own_setRetcode, own_own]
    . split
      . refine ⟨?_, rfl⟩
        simp only [own_setHash, own_own]
      . exact own_updateElem s opt _ _

end

end McCall

end Lsmcd
