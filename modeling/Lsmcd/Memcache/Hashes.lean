import Lsmcd.Shm.Adds
import Lsmcd.Memcache.Conn

/-!
The hashes of a process as what the handlers of commands change. All else that a handler does leaves
them alone.
-/

namespace Lsmcd

/--
The hashes of all slices and users with what does not change while commands are served.
-/
structure HashView where
  parms : LsMcParms
  env : McEnv
  hash : Nat → Option (List UInt8) → LsShmHash

namespace LsShmHash

variable {P : LsShmHElem → Prop}

theorem adds_tidGetNxtItems (s : LsShmHash) (tid : Nat) (mem : Mem) (n : Nat)
    : Adds P s (tidGetNxtItems s tid mem n).1.hash := by
  have hitem : ∀ (iBufSz fuel : Nat) (g : TidGet) (tid : Nat),
      Adds P g.hash (getNxtTidItemLoop iBufSz fuel g tid).1.hash := by
    intro iBufSz fuel
    induction fuel with
    | zero => exact fun g tid => .refl _
    | succ fuel ih =>
      intro g tid
      unfold getNxtTidItemLoop
      split
      . exact .refl _
      . dsimp only
        split
        . split
          . exact .refl _
          . split
            . exact (adds_eraseIteratorHelper _ _).trans (ih { g with hash := _, pBlk := 0 } _)
            . split <;> exact .refl _
        . split <;> exact .refl _
  have hloop : ∀ (fuel : Nat) (g : TidGet) (iBufSz : Nat),
      Adds P g.hash (tidGetNxtItemsLoop fuel g iBufSz).1.hash := by
    intro fuel
    induction fuel with
    | zero => exact fun g iBufSz => .refl _
    | succ fuel ih =>
      intro g iBufSz
      unfold tidGetNxtItemsLoop
      have hone : Adds P g.hash (getNxtTidItem g iBufSz).1.hash := hitem _ _ _ _
      dsimp only
      split
      . exact hone
      . exact hone.trans (ih { (getNxtTidItem g iBufSz).1 with pos := _ } _)
  have hend := hloop (n + 1) ⟨s, tid, 0, mem, 0⟩ n
  unfold tidGetNxtItems
  dsimp only
  split <;> exact hend

theorem adds_tidBatches (fuel : Nat) (s : LsShmHash) (tid : Nat) (mem : Mem)
    : Adds P s (McCall.tidBatches fuel s tid mem).1 := by
  induction fuel generalizing s tid mem with
  | zero => exact .refl s
  | succ fuel ih =>
    unfold McCall.tidBatches
    dsimp only
    split
    . exact adds_tidGetNxtItems s tid mem _
    . exact (adds_tidGetNxtItems s tid mem _).trans (ih _ _ _)

end LsShmHash

namespace McCall

def hashes (s : McCall) : HashView where
  parms := s.mc.m_mcparms
  env := s.mc.env
  hash := fun i => (s.sliceAt i).m_hashByUser

section

variable (s : McCall)

@[simp]
theorem hashes_send (bs : List UInt8) : (s.send bs).hashes = s.hashes := rfl

@[simp]
theorem hashes_setUndef : s.setUndef.hashes = s.hashes := rfl

@[simp]
theorem hashes_setNoreply (b : Bool) : (s.setNoreply b).hashes = s.hashes := rfl

@[simp]
theorem hashes_setKey (key : List UInt8) : (s.setKey key).hashes = s.hashes := rfl

@[simp]
theorem hashes_setVal (len : Nat) : (s.setVal len).hashes = s.hashes := rfl

@[simp]
theorem hashes_setRetcode (ret : UpdRet) : (s.setRetcode ret).hashes = s.hashes := rfl

@[simp]
theorem hashes_setIterOff (off : Nat) : (s.setIterOff off).hashes = s.hashes := rfl

@[simp]
theorem hashes_setItem (item : LsMcDataItem) : (s.setItem item).hashes = s.hashes := rfl

@[simp]
theorem hashes_setNeeded (n : Int) : (s.setNeeded n).hashes = s.hashes := rfl

@[simp]
theorem hashes_setRescas (cas : Nat) : (s.setRescas cas).hashes = s.hashes := rfl

@[simp]
theorem hashes_setBuf (buf : List UInt8) : (s.setBuf buf).hashes = s.hashes := rfl

@[simp]
theorem hashes_setStrt (buf : List UInt8) : (s.setStrt buf).hashes = s.hashes := rfl

@[simp]
theorem hashes_setSlice (key : List UInt8) : (s.setSlice key).hashes = s.hashes := rfl

@[simp]
theorem hashes_swapCas : s.swapCas.hashes = s.hashes := rfl

@[simp]
theorem hashes_notify (i : Nat) : (s.notify i).hashes = s.hashes := rfl

@[simp]
theorem hashes_respond (str : List UInt8) : (s.respond str).hashes = s.hashes := by
  unfold respond ackNoreply
  split
  . split <;> rfl
  . rfl

@[simp]
theorem hashes_sendResult (str : List UInt8) : (s.sendResult str).hashes = s.hashes := by
  unfold sendResult
  split <;> rfl

@[simp]
theorem hashes_binRespond (buf : List UInt8) : (s.binRespond buf).hashes = s.hashes := by
  unfold binRespond ackNoreply
  split
  . split <;> rfl
  . rfl

@[simp]
theorem hashes_putWaitQ : s.putWaitQ.hashes = s.hashes := by
  unfold putWaitQ
  split
  . rfl
  . dsimp only
    split <;> rfl

theorem sliceAt_setSliceAt (i j : Nat) (slice : LsMcHashSlice)
    : (s.setSliceAt i slice).sliceAt j = if j = i then slice else s.sliceAt j := by
  simp only [setSliceAt, setMulti, sliceAt, Function.update_apply]

theorem getHash_setHash (hash : LsShmHash) : (s.setHash hash).getHash = hash := by
  show ((s.setHashAt s.conn.m_pSlice s.conn.m_pHash hash).sliceAt s.conn.m_pSlice).m_hashByUser
    s.conn.m_pHash = hash
  unfold setHashAt
  dsimp only
  rw [sliceAt_setSliceAt, if_pos rfl]
  exact Function.update_self _ _ _

theorem hashes_setSliceAt {i : Nat} {slice : LsMcHashSlice}
    (h : slice.m_hashByUser = (s.sliceAt i).m_hashByUser) : (s.setSliceAt i slice).hashes = s.hashes := by
  have hhash : (fun j => ((s.setSliceAt i slice).sliceAt j).m_hashByUser) =
      fun j => (s.sliceAt j).m_hashByUser := by
    funext j
    rw [sliceAt_setSliceAt]
    split
    . rename_i hj
      rw [hj, h]
    . rfl
  unfold hashes
  rw [hhash]
  rfl

@[simp]
theorem hashes_setHdrAt (i : Nat) (f : LsMcHdr → LsMcHdr) : (s.setHdrAt i f).hashes = s.hashes :=
  hashes_setSliceAt s rfl

@[simp]
theorem hashes_stat (f : LsMcStats → LsMcStats) : (s.stat f).hashes = s.hashes := by
  unfold stat
  split
  . apply hashes_setHdrAt
  . rfl

theorem getHash_stat (f : LsMcStats → LsMcStats) : (s.stat f).getHash = s.getHash := by
  have hview : (s.stat f).hashes.hash = s.hashes.hash := by rw [hashes_stat]
  have hconn : (s.stat f).conn = s.conn := by
    unfold stat
    split <;> rfl
  show (s.stat f).hashes.hash (s.stat f).conn.m_pSlice (s.stat f).conn.m_pHash = s.getHash
  rw [hview, hconn]
  rfl

@[simp]
theorem hashes_notifyChange : s.notifyChange.hashes = s.hashes := by
  unfold notifyChange
  split <;> simp

@[simp]
theorem hashes_getCas : s.getCas.1.hashes = s.hashes := by
  unfold getCas
  split <;> simp

@[simp]
theorem hashes_putCas (e : LsShmHElem) : (s.putCas e).1.hashes = s.hashes := by
  unfold putCas
  split
  . exact hashes_getCas s
  . rfl

@[simp]
theorem hashes_fwdCommand (i : Nat) (buf : List UInt8) : (s.fwdCommand i buf).hashes = s.hashes := by
  unfold fwdCommand
  split
  . exact hashes_setSliceAt s rfl
  . rfl

@[simp]
theorem hashes_fwdToRemote (i pNxt : Nat) : (s.fwdToRemote i pNxt).1.hashes = s.hashes := by
  unfold fwdToRemote
  split
  . split <;> simp
  . rfl

@[simp]
theorem hashes_canProcessNow (key : List UInt8) : (s.canProcessNow key).1.hashes = s.hashes := by
  unfold canProcessNow
  dsimp only
  split <;> simp

theorem hashes_setHashAt (i : Nat) (user : Option (List UInt8)) (hash : LsShmHash)
    : (s.setHashAt i user hash).hashes =
      { s.hashes with
        hash := Function.update s.hashes.hash i (Function.update (s.hashes.hash i) user hash) } := by
  have hhash : (fun j => ((s.setHashAt i user hash).sliceAt j).m_hashByUser) =
      Function.update s.hashes.hash i (Function.update (s.hashes.hash i) user hash) := by
    funext j
    unfold setHashAt
    dsimp only
    rw [sliceAt_setSliceAt, Function.update_apply]
    split <;> rfl
  unfold hashes
  rw [hhash]
  rfl

end

section Binary

variable (s : McCall) (hdr : McBinCmdHdr)

@[simp]
theorem hashes_binErrRespond (err : McBinStat) : (s.binErrRespond hdr err).hashes = s.hashes := by
  simp [binErrRespond]

@[simp]
theorem hashes_binOkRespond : (s.binOkRespond hdr).hashes = s.hashes := by
  simp [binOkRespond]

@[simp]
theorem hashes_binTextRespond (keylen : Nat) (status : McBinStat) (text : List UInt8)
    : (s.binTextRespond hdr keylen status text).hashes = s.hashes := by
  simp [binTextRespond]

@[simp]
theorem hashes_fwdBinToRemote (i : Nat) : (s.fwdBinToRemote i hdr).1.hashes = s.hashes := by
  unfold fwdBinToRemote
  dsimp only
  split
  . split
    . split <;> simp
    . simp
  . rfl

@[simp]
theorem hashes_saveCas (e : LsShmHElem) : (s.saveCas e).hashes = s.hashes := by
  simp [saveCas]

@[simp]
theorem hashes_binGetMiss (keyLen : Nat) : (s.binGetMiss hdr keyLen).hashes = s.hashes := by
  unfold binGetMiss
  split
  . rfl
  . split <;> simp

@[simp]
theorem hashes_binGetStat (doTouch hit : Bool) : (s.binGetStat doTouch hit).hashes = s.hashes := by
  simp [binGetStat]

@[simp]
theorem hashes_binGetHit (cmd keyLen : Nat) (e : LsShmHElem)
    : (s.binGetHit hdr cmd keyLen e).hashes = s.hashes := by
  unfold binGetHit
  dsimp only
  generalize (if cmd = MC_BINCMD_TOUCH then [] else _) = val
  split
  . split <;> simp
  . split <;> simp

@[simp]
theorem hashes_binDeleteStat (hit : Bool) : (s.binDeleteStat hit).hashes = s.hashes := by
  simp [binDeleteStat]

@[simp]
theorem hashes_binArithStat (cmd : Nat) (hit : Bool) : (s.binArithStat cmd hit).hashes = s.hashes := by
  simp [binArithStat]

@[simp]
theorem hashes_binCasStat (ret : UpdRet) : (s.binCasStat ret).hashes = s.hashes := by
  simp [binCasStat]

@[simp]
theorem hashes_authStat (err : Bool) : (s.authStat err).hashes = s.hashes := by
  unfold authStat
  dsimp only
  split <;> simp

@[simp]
theorem hashes_setVerbose (level : Nat) : (s.setVerbose level).hashes = s.hashes := by
  unfold setVerbose
  split <;> simp

end Binary

end McCall

end Lsmcd
