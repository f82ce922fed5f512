import Lsmcd.Memcache.Conn

/-!
What a command can do to connections: it is queued, forwarded to a master, or changes the connection
to a master. All else that a handler does leaves the connections alone.
-/

namespace Lsmcd

/--
The part of the state that is about connections, without the bytes received and sent by the client.
-/
structure ConnView where
  id : Nat
  connected : Bool
  m_protocol : McProtocol
  internal : Bool
  remBusy : Bool
  respWait : Bool
  cmdWait : Bool
  m_pWaitQ : Option Nat
  m_pWaitTail : Option Nat
  link : Nat → Option Nat
  replication : Bool
  m_iCnt : Nat
  remote : Nat → LsMcRemote

namespace McCall

def view (s : McCall) : ConnView where
  id := s.conn.id
  connected := s.conn.connected
  m_protocol := s.conn.m_protocol
  internal := s.conn.internal
  remBusy := s.conn.remBusy
  respWait := s.conn.respWait
  cmdWait := s.conn.cmdWait
  m_pWaitQ := s.mc.m_pWaitQ
  m_pWaitTail := s.mc.m_pWaitTail
  link := s.mc.link
  replication := s.mc.m_bConfigReplication
  m_iCnt := s.mc.m_pHashMulti.m_iCnt
  remote := fun i => (s.sliceAt i).remote

@[simp]
theorem view_send (s : McCall) (bs : List UInt8) : (s.send bs).view = s.view := rfl

@[simp]
theorem view_setUndef (s : McCall) : s.setUndef.view = s.view := rfl

@[simp]
theorem view_setNoreply (s : McCall) (b : Bool) : (s.setNoreply b).view = s.view := rfl

@[simp]
theorem view_setKey (s : McCall) (key : List UInt8) : (s.setKey key).view = s.view := rfl

@[simp]
theorem view_setVal (s : McCall) (len : Nat) : (s.setVal len).view = s.view := rfl

@[simp]
theorem view_setRetcode (s : McCall) (ret : UpdRet) : (s.setRetcode ret).view = s.view := rfl

@[simp]
theorem view_setIterOff (s : McCall) (off : Nat) : (s.setIterOff off).view = s.view := rfl

@[simp]
theorem view_setItem (s : McCall) (item : LsMcDataItem) : (s.setItem item).view = s.view := rfl

@[simp]
theorem view_setNeeded (s : McCall) (n : Int) : (s.setNeeded n).view = s.view := rfl

@[simp]
theorem view_setRescas (s : McCall) (cas : Nat) : (s.setRescas cas).view = s.view := rfl

@[simp]
theorem view_setBuf (s : McCall) (buf : List UInt8) : (s.setBuf buf).view = s.view := rfl

@[simp]
theorem view_setStrt (s : McCall) (buf : List UInt8) : (s.setStrt buf).view = s.view := rfl

@[simp]
theorem view_setSlice (s : McCall) (key : List UInt8) : (s.setSlice key).view = s.view := rfl

@[simp]
theorem view_swapCas (s : McCall) : s.swapCas.view = s.view := rfl

@[simp]
theorem view_notify (s : McCall) (i : Nat) : (s.notify i).view = s.view := rfl

@[simp]
theorem view_respond (s : McCall) (str : List UInt8) : (s.respond str).view = s.view := by
  unfold respond ackNoreply
  split
  . split <;> rfl
  . rfl

@[simp]
theorem view_sendResult (s : McCall) (str : List UInt8) : (s.sendResult str).view = s.view := by
  unfold sendResult
  split <;> rfl

@[simp]
theorem view_binRespond (s : McCall) (buf : List UInt8) : (s.binRespond buf).view = s.view := by
  unfold binRespond ackNoreply
  split
  . split <;> rfl
  . rfl

theorem view_setSliceAt {s : McCall} {i : Nat} {slice : LsMcHashSlice}
    (h : slice.remote = (s.sliceAt i).remote) : (s.setSliceAt i slice).view = s.view := by
  have hremote : (fun j => ((s.setSliceAt i slice).sliceAt j).remote) =
      fun j => (s.sliceAt j).remote := by
    funext j
    by_cases hj : j = i
    . subst hj
      simp only [setSliceAt, setMulti, sliceAt, Function.update_self]
      exact h
    . simp only [setSliceAt, setMulti, sliceAt, Function.update_of_ne hj]
  unfold view
  rw [hremote]
  rfl

@[simp]
theorem view_setHashAt (s : McCall) (i : Nat) (user : Option (List UInt8)) (hash : LsShmHash)
    : (s.setHashAt i user hash).view = s.view := by
  apply view_setSliceAt
  rfl

@[simp]
theorem view_setHash (s : McCall) (hash : LsShmHash) : (s.setHash hash).view = s.view := by
  apply view_setHashAt

@[simp]
theorem view_setHdrAt (s : McCall) (i : Nat) (f : LsMcHdr → LsMcHdr)
    : (s.setHdrAt i f).view = s.view := by
  apply view_setSliceAt
  rfl

@[simp]
theorem view_stat (s : McCall) (f : LsMcStats → LsMcStats) : (s.stat f).view = s.view := by
  unfold stat
  split
  . apply view_setHdrAt
  . rfl

@[simp]
theorem view_notifyChange (s : McCall) : s.notifyChange.view = s.view := by
  unfold notifyChange
  split <;> simp

@[simp]
theorem view_getCas (s : McCall) : s.getCas.1.view = s.view := by
  unfold getCas
  split <;> simp

@[simp]
theorem view_ofHash (s : McCall) (r : LsShmHash × Nat) : (s.ofHash r).1.view = s.view := by
  apply view_setHash

@[simp]
theorem view_doHashInsert (s : McCall) (opt : LsMcUpdOpt) : (s.doHashInsert opt).1.view = s.view := by
  unfold doHashInsert
  dsimp only
  split
  . split
    . simp
    . split <;> simp
  . simp

@[simp]
theorem view_updateElem (s : McCall) (opt : LsMcUpdOpt) (off : Nat) (e : LsShmHElem)
    : (s.updateElem opt off e).1.view = s.view := by
  unfold updateElem
  dsimp only
  split
  . rfl
  . split
    . split <;> simp
    . split
      . split
        . simp
        . split <;> simp
      . simp

@[simp]
theorem view_doHashUpdate (s : McCall) (opt : LsMcUpdOpt) : (s.doHashUpdate opt).1.view = s.view := by
  unfold doHashUpdate
  dsimp only
  split
  . rfl
  . split
    . rfl
    . split <;> simp

@[simp]
theorem view_putCas (s : McCall) (e : LsShmHElem) : (s.putCas e).1.view = s.view := by
  unfold putCas
  split
  . exact view_getCas s
  . rfl

@[simp]
theorem view_dataItemUpdate (s : McCall) (buf : List UInt8)
    : (s.dataItemUpdate buf).view = s.view := by
  unfold dataItemUpdate
  dsimp only
  split
  . rfl
  . split <;> simp

@[simp]
theorem view_doDataUpdate (s : McCall) (buf : List UInt8) : (s.doDataUpdate buf).view = s.view := by
  unfold doDataUpdate
  dsimp only
  split
  . simp
  . split
    . split <;> simp
    . split
      . simp
      . split <;> simp

@[simp]
theorem view_chkMemSz (s : McCall) (arg : Nat) : (s.chkMemSz arg).1.view = s.view := by
  unfold chkMemSz
  dsimp only
  split
  . split <;> simp
  . split
    . rfl
    . split
      . rfl
      . split <;> simp

inductive RemoteChange (r : LsMcRemote) : LsMcRemote → Prop
  | sent (bs : List UInt8) : RemoteChange r { r with sent := bs }
  | close : RemoteChange r (closeRemote r)
  | connect (bs : List UInt8)
    : RemoteChange r { r with connected := true, m_protocol := .MC_INTERNAL, sent := bs }

/--
One state comes from another by the steps of a handler. `Q` and `F` are what is known when a step
queues or forwards the command.
-/
inductive Effs (Q F : Prop) : McCall → McCall → Prop
  | quiet {s t : McCall} (h : t.view = s.view) : Effs Q F s t
  | putWaitQ (h : Q) (s : McCall) : Effs Q F s s.putWaitQ
  | fwdCommand (h : F) (s : McCall) (i : Nat) (buf : List UInt8) : Effs Q F s (s.fwdCommand i buf)
  | remote (s : McCall) (i : Nat) (slice : LsMcHashSlice)
    (h : RemoteChange (s.sliceAt i).remote slice.remote) : Effs Q F s (s.setSliceAt i slice)
  | trans {s t u : McCall} (h₁ : Effs Q F s t) (h₂ : Effs Q F t u) : Effs Q F s u

variable {Q F : Prop}

theorem Effs.refl (s : McCall) : Effs Q F s s :=
  .quiet rfl

theorem Effs.then {s t u : McCall} (h : Effs Q F s t) (hview : u.view = t.view) : Effs Q F s u :=
  .trans h (.quiet hview)

theorem Effs.after {s t u : McCall} (hview : t.view = s.view) (h : Effs Q F t u) : Effs Q F s u :=
  .trans (.quiet hview) h

theorem Effs.mono {Q' F' : Prop} {s t : McCall} (h : Effs Q F s t) (hQ : Q → Q') (hF : F → F')
    : Effs Q' F' s t := by
  induction h with
  | quiet h => exact .quiet h
  | putWaitQ h s => exact .putWaitQ (hQ h) s
  | fwdCommand h s i buf => exact .fwdCommand (hF h) s i buf
  | remote s i slice h => exact .remote s i slice h
  | trans _ _ ih₁ ih₂ => exact .trans ih₁ ih₂

theorem view_canProcessNow {s : McCall} {key : List UInt8} (h : (s.canProcessNow key).2 = true)
    : (s.canProcessNow key).1.view = s.view := by
  revert h
  unfold canProcessNow
  dsimp only
  split
  . simp
  . simp

theorem effs_canProcessNow (s : McCall) (key : List UInt8) (hQ : (s.canProcessNow key).2 = false → Q)
    : Effs Q F s (s.canProcessNow key).1 := by
  revert hQ
  unfold canProcessNow
  dsimp only
  split
  . intro hQ
    exact Effs.after (view_setSlice s key) (.putWaitQ (hQ rfl) _)
  . intro _
    apply Effs.quiet
    simp

theorem effs_fwdToRemote (hF : F) (s : McCall) (i pNxt : Nat)
    : Effs Q F s (s.fwdToRemote i pNxt).1 := by
  unfold fwdToRemote
  split
  . split
    . exact .fwdCommand hF _ _ _
    . apply Effs.quiet
      simp
  . apply Effs.refl

theorem fwdToRemote_not {s : McCall} {i pNxt : Nat} (h : ¬ (s.fwdToRemote i pNxt).2 = true)
    : (s.fwdToRemote i pNxt).1 = s := by
  revert h
  unfold fwdToRemote
  split
  . split <;> simp
  . simp

@[simp]
theorem view_binErrRespond (s : McCall) (hdr : McBinCmdHdr) (err : McBinStat)
    : (s.binErrRespond hdr err).view = s.view := by
  simp [binErrRespond]

@[simp]
theorem view_binOkRespond (s : McCall) (hdr : McBinCmdHdr) : (s.binOkRespond hdr).view = s.view := by
  simp [binOkRespond]

theorem effs_fwdBinToRemote (s : McCall) (i : Nat) (hdr : McBinCmdHdr)
    (hF : (s.fwdBinToRemote i hdr).2 = true → F)
    : Effs Q F s (s.fwdBinToRemote i hdr).1 := by
  revert hF
  unfold fwdBinToRemote
  dsimp only
  split
  . split
    . split
      . intro _
        apply Effs.refl
      . intro hF
        exact .fwdCommand (hF rfl) _ _ _
    . intro _
      apply Effs.quiet
      simp
  . intro _
    apply Effs.refl

theorem effs_foldl {α : Type} {f : McCall → α → McCall} (hf : ∀ s a, Effs Q F s (f s a)) (as : List α)
    (s : McCall) : Effs Q F s (as.foldl f s) := by
  induction as generalizing s with
  | nil => apply Effs.refl
  | cons a as ih => exact .trans (hf s a) (ih (f s a))

theorem effs_foreachSlice {f : McCall → Nat → McCall × Bool} (hf : ∀ s i, Effs Q F s (f s i).1)
    (s : McCall) : Effs Q F s (foreachSlice f s).1 := by
  have hgo : ∀ n i s, Effs Q F s (foreachSlice.go f n i s).1 := by
    intro n
    induction n with
    | zero =>
      intro i s
      apply Effs.refl
    | succ n ih =>
      intro i s
      unfold foreachSlice.go
      dsimp only
      split
      . exact .trans (hf s i) (ih (i + 1) (f s i).1)
      . exact hf s i
  exact hgo s.mc.m_pHashMulti.m_iCnt 0 s

/--
A handler of the text protocol queues a command only when it returns -1, and forwards one only when it
returns how many bytes are used up.
-/
def CmdEffs (s : McCall) (r : McCall × Int) : Prop :=
  Effs (r.2 = -1) (0 ≤ r.2) s r.1

theorem CmdEffs.quiet {s : McCall} {r : McCall × Int} (h : r.1.view = s.view) : CmdEffs s r :=
  Effs.quiet h

theorem CmdEffs.of {s t : McCall} {n : Int} (h : Effs False False s t) : CmdEffs s (t, n) :=
  h.mono False.elim False.elim

theorem CmdEffs.after {s t : McCall} {r : McCall × Int} (hview : t.view = s.view) (h : CmdEffs t r)
    : CmdEffs s r :=
  Effs.after hview h

section Ascii

variable (s : McCall) (i : McInput)

theorem effs_getKey (arg : Nat) (s : McCall) (key : List UInt8) : Effs Q F s (getKey arg s key) := by
  apply Effs.quiet
  unfold getKey
  dsimp only
  split
  . simp
  . split
    . simp
    . split <;> simp

theorem effs_doCmdGet (arg : Nat) : CmdEffs s (s.doCmdGet i arg) := by
  unfold doCmdGet
  dsimp only
  split
  . apply CmdEffs.quiet
    simp
  . split
    . apply CmdEffs.quiet
      simp
    . apply CmdEffs.after (view_setNoreply s false)
      apply CmdEffs.of
      apply Effs.then _ (view_sendResult _ _)
      apply effs_foldl
      intro s key
      apply effs_getKey

@[simp]
theorem view_storeOp (arg cas : Nat) : (s.storeOp arg cas).view = s.view := by
  unfold storeOp
  dsimp only
  split
  . simp
  . split
    . simp
    . split
      . simp
      . split
        . simp
        . split <;> simp

@[simp]
theorem view_storeCmd (arg flags exptime length cas : Nat)
    : (s.storeCmd i arg flags exptime length cas).1.view = s.view := by
  unfold storeCmd
  dsimp only
  generalize (if arg = MC_BINCMD_APPEND ∨ arg = MC_BINCMD_PREPEND then length else _) = len
  split
  . simp
  . split <;> simp

theorem effs_fwdUpdate (length : Nat) : CmdEffs s (s.fwdUpdate i length) := by
  unfold fwdUpdate
  dsimp only
  split
  . exact Effs.fwdCommand (Int.natCast_nonneg _) _ _ _
  . apply CmdEffs.quiet
    simp

theorem effs_queued (s : McCall) (key : List UInt8)
    : CmdEffs s (((s.setKey key).canProcessNow key).1, -1) := by
  apply CmdEffs.after (view_setKey s key)
  exact effs_canProcessNow _ _ fun _ => rfl

theorem view_notQueued {s : McCall} {key : List UInt8}
    (h : ¬ (!((s.setKey key).canProcessNow key).2) = true)
    : ((s.setKey key).canProcessNow key).1.view = s.view := by
  rw [view_canProcessNow (by simpa using h), view_setKey]

theorem effs_doCmdUpdate (arg : Nat) : CmdEffs s (s.doCmdUpdate i arg) := by
  unfold doCmdUpdate
  dsimp only
  generalize i.tok (updateArgs i arg).key = key
  split
  . exact effs_queued _ _
  . rename_i h
    apply CmdEffs.after (view_notQueued h)
    split
    . apply CmdEffs.quiet
      simp
    . split
      . apply CmdEffs.quiet
        simp
      . split
        . apply CmdEffs.quiet
          simp
        . split
          . exact CmdEffs.after (view_setNoreply _ _) (effs_fwdUpdate _ i _)
          . apply CmdEffs.quiet
            simp

@[simp]
theorem view_arithmeticCmd (arg delta : Nat) : (s.arithmeticCmd arg delta).view = s.view := by
  unfold arithmeticCmd
  dsimp only
  generalize (if (s.setVal (s.parmAdjLen 0)).mc.m_mcparms.m_usecas then _ else arg) = flags
  split
  . simp
  . split
    . simp
    . split <;> simp

theorem effs_doCmdArithmetic (arg : Nat) : CmdEffs s (s.doCmdArithmetic i arg) := by
  unfold doCmdArithmetic
  dsimp only
  generalize i.tok (i.adv i.pStr).2 = key
  split
  . exact effs_queued _ _
  . rename_i h
    apply CmdEffs.after (view_notQueued h)
    split
    . apply CmdEffs.quiet
      simp
    . split
      . apply CmdEffs.quiet
        simp
      . split
        . apply effs_fwdToRemote
          exact Int.le_refl 0
        . rename_i hfwd
          apply CmdEffs.quiet
          simp [fwdToRemote_not hfwd]

@[simp]
theorem view_deleteElem : s.deleteElem.view = s.view := by
  unfold deleteElem
  dsimp only
  generalize (if s.getHash.find2 s.mc.m_hkey s.mc.m_parms.key = 0 then _ else _ : LsShmHash × Bool) = r
  split <;> simp

theorem effs_deleteCmd : CmdEffs s (s.deleteCmd i) := by
  unfold deleteCmd
  dsimp only
  split
  . apply effs_fwdToRemote
    exact Int.le_refl 0
  . rename_i hfwd
    apply CmdEffs.quiet
    simp [fwdToRemote_not hfwd]

theorem effs_doCmdDelete : CmdEffs s (s.doCmdDelete i) := by
  unfold doCmdDelete
  dsimp only
  generalize i.tok (i.adv i.pStr).2 = key
  split
  . apply CmdEffs.quiet
    simp
  . split
    . exact effs_queued _ _
    . rename_i h
      apply CmdEffs.after (view_notQueued h)
      split
      . apply effs_deleteCmd
      . split
        . apply CmdEffs.quiet
          simp
        . exact CmdEffs.after (view_setNoreply _ _) (effs_deleteCmd _ i)

@[simp]
theorem view_touchElem (exptime : Nat) : (s.touchElem exptime).view = s.view := by
  unfold touchElem
  dsimp only
  split
  . simp
  . split
    . simp
    . split <;> simp

theorem effs_doCmdTouch : CmdEffs s (s.doCmdTouch i) := by
  unfold doCmdTouch
  dsimp only
  generalize i.tok (i.adv i.pStr).2 = key
  split
  . apply CmdEffs.quiet
    simp
  . split
    . exact effs_queued _ _
    . rename_i h
      apply CmdEffs.after (view_notQueued h)
      split
      . apply CmdEffs.quiet
        simp
      . apply CmdEffs.after (view_setNoreply _ (i.isNoreply (i.adv (i.adv (i.adv i.pStr).1).1).2))
        split
        . apply effs_fwdToRemote
          exact Int.le_refl 0
        . rename_i hfwd
          apply CmdEffs.quiet
          simp [fwdToRemote_not hfwd]

theorem effs_resetStatAt (j : Nat) : Effs Q F s (resetStatAt s j).1 := by
  apply Effs.quiet
  unfold resetStatAt
  split <;> simp

theorem effs_resetStats : Effs Q F s s.resetStats := by
  unfold resetStats
  split
  . apply effs_foreachSlice
    intro s j
    apply effs_resetStatAt
  . apply effs_resetStatAt

theorem effs_doCmdStats : CmdEffs s (s.doCmdStats i) := by
  unfold doCmdStats
  split
  . apply CmdEffs.quiet
    simp
  . split
    . split
      . exact CmdEffs.of (Effs.then (effs_resetStats s) (by simp))
      . apply CmdEffs.quiet
        simp
    . apply CmdEffs.of
      apply effs_foldl
      intro s line
      apply Effs.quiet
      simp

theorem effs_multiFlushFunc (pThis : Bool) (j : Nat) : Effs Q F s (multiFlushFunc pThis s j).1 := by
  unfold multiFlushFunc
  dsimp only
  split
  . apply Effs.quiet
    split <;> split <;> simp
  . split
    . apply Effs.quiet
      simp
    . split
      . apply Effs.refl
      . apply Effs.remote
        apply RemoteChange.sent

@[simp]
theorem view_flushOne : s.flushOne.view = s.view := by
  simp [flushOne]

theorem effs_flushSlices : Effs Q F s (foreachSlice (multiFlushFunc true) s).1 := by
  apply effs_foreachSlice
  intro s j
  apply effs_multiFlushFunc

theorem effs_flushCmd : CmdEffs s (s.flushCmd i) := by
  unfold flushCmd
  dsimp only
  split
  . split
    . exact CmdEffs.of (Effs.then (effs_flushSlices s) (by simp))
    . exact CmdEffs.of (Effs.then (effs_flushSlices s) (by simp))
  . generalize (if s.mc.m_bConfigMultiUser then s.conn.m_pSlice else 0) = sl
    split
    . exact Effs.putWaitQ rfl s
    . by_cases hm : s.useMulti
      . apply CmdEffs.quiet
        simp [hm]
      . simp only [hm, Bool.not_false, if_true]
        split
        . exact effs_fwdToRemote (Int.le_refl 0) s sl i.pNxt
        . rename_i hfwd
          apply CmdEffs.quiet
          simp [fwdToRemote_not hfwd]

theorem effs_doCmdFlush : CmdEffs s (s.doCmdFlush i) := by
  unfold doCmdFlush
  split
  . apply CmdEffs.quiet
    simp
  . rename_i noreply pStr _
    cases noreply with
    | none =>
      dsimp only
      split
      . apply CmdEffs.quiet
        simp
      . apply effs_flushCmd
    | some n =>
      dsimp only
      split
      . apply CmdEffs.quiet
        simp
      . exact CmdEffs.after (view_setNoreply s n) (effs_flushCmd _ i)

@[simp]
theorem view_setVerbose (level : Nat) : (s.setVerbose level).view = s.view := by
  unfold setVerbose
  split <;> simp

theorem effs_doCmdVerbosity : CmdEffs s (s.doCmdVerbosity i) := by
  apply CmdEffs.quiet
  unfold doCmdVerbosity
  dsimp only
  split
  . simp
  . split
    . simp
    . split <;> simp

theorem effs_doCmdClear : CmdEffs s (s.doCmdClear i) := by
  unfold doCmdClear
  dsimp only
  split
  . apply Effs.refl
  . split
    . apply Effs.refl
    . apply CmdEffs.of
      unfold clearSlice
      split
      . apply Effs.refl
      . split
        . apply Effs.quiet
          simp
        . apply effs_multiFlushFunc

theorem effs_connectSlice (which : Nat) (addr : List UInt8) : Effs Q F s (s.connectSlice which addr).1 := by
  unfold connectSlice
  split
  . apply Effs.refl
  . rename_i text ok _
    dsimp only
    apply Effs.after (view_setHdrAt s which fun h => { h with x_dstaddr := text })
    generalize s.setHdrAt which (fun h => { h with x_dstaddr := text }) = s
    apply Effs.then (t := s.setSliceAt which _) _ (view_setHashAt _ _ _ _)
    apply Effs.remote
    cases ok
    . exact RemoteChange.sent _
    . exact RemoteChange.connect _

theorem effs_setSliceDst (which : Int) (pAddr : Option (List UInt8))
    : Effs Q F s (s.setSliceDst which pAddr).1 := by
  unfold setSliceDst
  split
  . apply Effs.refl
  . split
    . apply Effs.quiet
      simp
    . dsimp only
      split
      . apply Effs.quiet
        simp
      . generalize hs₁ : (if (s.sliceAt which.toNat).hdr.x_dstaddr ≠ [] then _ else s) = s₁
        have hclose : Effs Q F s s₁ := by
          subst hs₁
          split
          . apply Effs.remote
            apply RemoteChange.close
          . apply Effs.refl
        apply Effs.trans hclose
        generalize { (s.sliceAt which.toNat).m_hashByUser s₁.conn.m_pUser with slave := false } = hash
        split
        . apply Effs.quiet
          simp
        . exact Effs.after (view_setHashAt _ _ _ _) (effs_connectSlice _ _ _)

theorem effs_doCmdTest2 : CmdEffs s (s.doCmdTest2 i) := by
  unfold doCmdTest2
  dsimp only
  split
  . apply CmdEffs.quiet
    simp
  . split
    . apply CmdEffs.quiet
      simp
    . rename_i which _
      generalize (if (i.adv (i.adv i.pStr).1).2.len ≤ 0 then none else _) = addr
      split
      . exact CmdEffs.of (Effs.then (effs_setSliceDst s (toInt32 which) addr) (by simp))
      . exact CmdEffs.of (Effs.then (effs_setSliceDst s (toInt32 which) addr) (by simp))

theorem view_replBatches {indx : Nat} {r : McCall × List (Mem × Nat)}
    (h : s.replBatches indx = some r) : r.1.view = s.view := by
  unfold replBatches at h
  split at h
  . cases h
  . cases h
    simp

theorem effs_doCmdTest1 : CmdEffs s (s.doCmdTest1 i) := by
  unfold doCmdTest1
  dsimp only
  split
  . apply CmdEffs.quiet
    simp
  . rename_i r hr
    apply CmdEffs.quiet
    rw [view_replBatches _ hr]
    simp

theorem effs_doCmdPrintTids : CmdEffs s (s.doCmdPrintTids i) := by
  unfold doCmdPrintTids
  apply CmdEffs.quiet
  split
  . simp
  . rename_i r hr
    have hview := view_replBatches s hr
    split
    . simpa using hview
    . simpa using hview
    . split <;> simpa using hview

theorem view_doCmdVersion : (s.doCmdVersion i).1.view = s.view := by
  unfold doCmdVersion
  split <;> simp

theorem view_doCmdQuit : (s.doCmdQuit i).1.view = s.view := by
  unfold doCmdQuit
  split <;> simp

theorem effs_runCmd (p : LsMcCmdFunc) : CmdEffs s (s.runCmd i p) := by
  unfold runCmd
  cases p.func with
  | doCmdTest1 => apply effs_doCmdTest1
  | doCmdTest2 => apply effs_doCmdTest2
  | doCmdPrintTids => apply effs_doCmdPrintTids
  | doCmdGet => apply effs_doCmdGet
  | doCmdUpdate => apply effs_doCmdUpdate
  | doCmdArithmetic => apply effs_doCmdArithmetic
  | doCmdDelete => apply effs_doCmdDelete
  | doCmdTouch => apply effs_doCmdTouch
  | doCmdStats => apply effs_doCmdStats
  | doCmdFlush => apply effs_doCmdFlush
  | doCmdVersion => exact .quiet (view_doCmdVersion s i)
  | doCmdQuit => exact .quiet (view_doCmdQuit s i)
  | notImplemented =>
    apply CmdEffs.quiet
    simp [notImplemented]
  | doCmdVerbosity => apply effs_doCmdVerbosity
  | doCmdClear => apply effs_doCmdClear

/--
What `processIncoming` makes of a command: one that was queued is kept in the buffer, and one that was
forwarded does not close the connection.
-/
def DispatchEffs (s : McCall) (r : McCall × Int) : Prop :=
  Effs (r.2 = -1) (r.2 ≠ 0) s r.1

theorem effs_finish {s : McCall} {r : McCall × Int} (endp : Nat) (h : CmdEffs s r)
    : DispatchEffs s (finish endp r) := by
  unfold finish
  split
  . apply Effs.mono h
    . intro hq
      omega
    . intro hf hz
      dsimp only at hz
      omega
  . split
    . refine Effs.then (Effs.mono h ?_ ?_) (view_setBuf _ _)
      . intro _
        rfl
      . omega
    . apply Effs.mono h
      . omega
      . omega

theorem effs_processLine (endp : Nat) : DispatchEffs s (s.processLine endp) := by
  unfold processLine
  dsimp only
  split
  . apply Effs.quiet
    simp
  . split
    . apply Effs.quiet
      simp
    . split
      . apply Effs.quiet
        simp
      . apply effs_finish
        apply CmdEffs.after _ (effs_runCmd _ _ _)
        simp

theorem effs_processCmd : DispatchEffs s s.processCmd := by
  unfold processCmd
  dsimp only
  split
  . apply Effs.quiet
    simp
  . split
    . apply Effs.refl
    . exact Effs.after (view_setBuf _ _) (effs_processLine _ _)

end Ascii

section Binary

variable (s : McCall) (hdr : McBinCmdHdr)

def binStart : McCall :=
  (s.setRetcode .DONE).setRescas 0

@[simp]
theorem view_binStart : s.binStart.view = s.view := rfl

theorem runBinCmd_cases {P : McCall × Bool → Prop} (cmd pVal : Nat) (opt : LsMcUpdOpt)
    (htouch : cmd = MC_BINCMD_TOUCH ∨ cmd = MC_BINCMD_GAT ∨ cmd = MC_BINCMD_GATK →
      P (s.binStart.doBinGet hdr cmd true, true))
    (hget : cmd = MC_BINCMD_GET ∨ cmd = MC_BINCMD_GETK ∨ cmd = MC_BINCMD_GETKQ →
      P (s.binStart.doBinGet hdr cmd false, true))
    (hstore : cmd = MC_BINCMD_SET ∨ cmd = MC_BINCMD_ADD ∨ cmd = MC_BINCMD_REPLACE ∨
        cmd = MC_BINCMD_APPEND ∨ cmd = MC_BINCMD_PREPEND →
      P (s.binStart.binStore hdr cmd pVal opt, true))
    (hdelete : cmd = MC_BINCMD_DELETE → P (s.binStart.doBinDelete hdr, true))
    (harith : cmd = MC_BINCMD_INCREMENT ∨ cmd = MC_BINCMD_DECREMENT →
      P (s.binStart.doBinArithmetic hdr cmd opt, true))
    (hquit : cmd = MC_BINCMD_QUIT → P (s.binStart.binOkRespond hdr, false))
    (hflush : cmd = MC_BINCMD_FLUSH → P (s.binStart.doBinFlush hdr, true))
    (hnoop : cmd = MC_BINCMD_NOOP → P (s.binStart.binOkRespond hdr, true))
    (hversion : cmd = MC_BINCMD_VERSION → P (s.binStart.doBinVersion hdr, true))
    (hstats : cmd = MC_BINCMD_STAT → P (s.binStart.doBinStats hdr, true))
    (hverbosity : cmd = MC_BINCMD_VERBOSITY →
      P ((s.binStart.setVerbose (readBe s.conn.m_bufIncoming sizeofBinHdr 4)).binOkRespond hdr, true))
    (hlist : cmd = MC_BINCMD_SASL_LIST → s.mc.m_mcparms.m_usesasl = true →
      P (s.binStart.doBinSaslList hdr, true))
    (hnolist : cmd = MC_BINCMD_SASL_LIST → s.mc.m_mcparms.m_usesasl = false →
      P (s.binStart.binOkRespond hdr, true))
    (hauth : cmd = MC_BINCMD_SASL_AUTH ∨ cmd = MC_BINCMD_SASL_STEP →
      P (s.binStart.doBinSaslAuth hdr, true))
    (hunknown : ¬ (cmd = MC_BINCMD_TOUCH ∨ cmd = MC_BINCMD_GAT ∨ cmd = MC_BINCMD_GATK) →
      ¬ (cmd = MC_BINCMD_INCREMENT ∨ cmd = MC_BINCMD_DECREMENT) → cmd ≠ MC_BINCMD_FLUSH →
      P (s.binStart.binErrRespond hdr .UNKNOWNCMD, true))
    : P (s.runBinCmd hdr cmd pVal opt) := by
  unfold runBinCmd
  apply iteInduction htouch
  intro hntouch
  apply iteInduction hget
  intro _
  apply iteInduction hstore
  intro _
  apply iteInduction hdelete
  intro _
  apply iteInduction harith
  intro hnarith
  apply iteInduction hquit
  intro _
  apply iteInduction hflush
  intro hnflush
  apply iteInduction hnoop
  intro _
  apply iteInduction hversion
  intro _
  apply iteInduction hstats
  intro _
  apply iteInduction hverbosity
  intro _
  apply iteInduction
  . intro hcmd
    apply iteInduction
    . intro hsasl
      exact hnolist hcmd (by simpa [setRescas, setRetcode] using hsasl)
    . intro hsasl
      exact hlist hcmd (by simpa [setRescas, setRetcode] using hsasl)
  . intro _
    exact iteInduction hauth fun _ => hunknown hntouch hnarith hnflush

@[simp]
theorem view_binTextRespond (keylen : Nat) (status : McBinStat) (text : List UInt8)
    : (s.binTextRespond hdr keylen status text).view = s.view := by
  simp [binTextRespond]

theorem fwdBinToRemote_not {s : McCall} {i : Nat} {hdr : McBinCmdHdr}
    (h : ¬ (s.fwdBinToRemote i hdr).2 = true) : (s.fwdBinToRemote i hdr).1 = s := by
  revert h
  unfold fwdBinToRemote
  dsimp only
  split
  . split
    . split <;> simp
    . simp
  . simp

theorem effs_binSlice (remote : Bool) (key : List UInt8)
    (hQ : (s.binSlice remote hdr key).2 = some .queued → Q)
    (hF : (s.binSlice remote hdr key).2 = some .forwarded → F)
    : Effs Q F s (s.binSlice remote hdr key).1 := by
  revert hQ hF
  unfold binSlice
  dsimp only
  split
  . split
    . intro hQ _
      exact effs_canProcessNow s key fun _ => hQ rfl
    . rename_i h
      have hview : (s.canProcessNow key).1.view = s.view := view_canProcessNow (by simpa using h)
      split
      . intro _ hF
        exact Effs.after hview (effs_fwdBinToRemote _ _ hdr fun _ => hF rfl)
      . rename_i hfwd
        intro _ _
        rw [fwdBinToRemote_not hfwd]
        exact .quiet hview
  . intro _ _
    apply Effs.quiet
    simp

@[simp]
theorem view_setupExtras (cmd pReqX pVal : Nat)
    : (s.setupExtras hdr cmd pReqX pVal).1.view = s.view := by
  unfold setupExtras
  dsimp only
  split
  . split
    . rfl
    . split <;> simp
  . split
    . split <;> simp
    . split
      . split <;> simp
      . split
        . split <;> simp
        . split
          . split <;> simp
          . rfl

@[simp]
theorem view_binKey (p keyLen : Nat) : (s.binKey p keyLen).view = s.view := by
  unfold binKey
  dsimp only
  split <;> simp

theorem effs_setupBinCmd (cmd : Nat) (hQ : (s.setupBinCmd hdr cmd).2 = .queued → Q)
    (hF : (s.setupBinCmd hdr cmd).2 = .forwarded → F)
    : Effs Q F s (s.setupBinCmd hdr cmd).1 := by
  revert hQ hF
  unfold setupBinCmd
  dsimp only
  split
  . intro _ _
    apply Effs.refl
  . split
    . generalize hs₁ : s.binKey sizeofBinHdr hdr.keylen = s₁
      have hview : s₁.view = s.view := by
        rw [← hs₁, view_binKey]
      split
      . rename_i ret hret
        intro hQ hF
        apply Effs.after hview
        apply effs_binSlice
        . intro h
          exact hQ (Option.some.inj (hret.symm.trans h))
        . intro h
          exact hF (Option.some.inj (hret.symm.trans h))
      . rename_i hret
        intro _ _
        apply Effs.after hview
        apply Effs.then _ (view_swapCas _)
        apply effs_binSlice
        . intro h
          cases hret.symm.trans h
        . intro h
          cases hret.symm.trans h
    . generalize hs₁ : s.binKey (sizeofBinHdr + hdr.extralen) hdr.keylen = s₁
      have hview : s₁.view = s.view := by
        rw [← hs₁, view_binKey]
      split
      . rename_i ret hret
        intro hQ hF
        apply Effs.after hview
        apply effs_binSlice
        . intro h
          exact hQ (Option.some.inj (hret.symm.trans h))
        . intro h
          exact hF (Option.some.inj (hret.symm.trans h))
      . rename_i hret
        intro _ _
        apply Effs.after hview
        refine Effs.then (effs_binSlice s₁ hdr (isRemoteEligible cmd) s₁.mc.m_parms.key ?_ ?_) ?_
        . intro h
          cases hret.symm.trans h
        . intro h
          cases hret.symm.trans h
        . rw [view_setupExtras, view_swapCas, view_setVal]

@[simp]
theorem view_binGetMiss (keyLen : Nat) : (s.binGetMiss hdr keyLen).view = s.view := by
  unfold binGetMiss
  split
  . rfl
  . split <;> simp

@[simp]
theorem view_binGetStat (doTouch hit : Bool) : (s.binGetStat doTouch hit).view = s.view := by
  simp [binGetStat]

@[simp]
theorem view_saveCas (e : LsShmHElem) : (s.saveCas e).view = s.view := by
  simp [saveCas]

@[simp]
theorem view_binGetHit (cmd keyLen : Nat) (e : LsShmHElem)
    : (s.binGetHit hdr cmd keyLen e).view = s.view := by
  unfold binGetHit
  dsimp only
  generalize (if cmd = MC_BINCMD_TOUCH then [] else _) = val
  split
  . split <;> simp
  . split <;> simp

@[simp]
theorem view_doBinGet (cmd : Nat) (doTouch : Bool) : (s.doBinGet hdr cmd doTouch).view = s.view := by
  unfold doBinGet
  dsimp only
  generalize (if cmd = MC_BINCMD_GATK ∨ cmd = MC_BINCMD_GETK then _ else 0) = keyLen
  split
  . simp
  . split
    . simp
    . split
      . simp
      . split <;> simp

@[simp]
theorem view_doBinDataUpdate (buf : List UInt8) : (s.doBinDataUpdate buf hdr).view = s.view := by
  unfold doBinDataUpdate
  dsimp only
  split
  . simp
  . split
    . simp
    . split
      . simp
      . split <;> simp

@[simp]
theorem view_binDeleteStat (hit : Bool) : (s.binDeleteStat hit).view = s.view := by
  simp [binDeleteStat]

@[simp]
theorem view_doBinDelete : (s.doBinDelete hdr).view = s.view := by
  unfold doBinDelete
  dsimp only
  split
  . simp
  . split
    . simp
    . split
      . simp
      . split <;> simp

@[simp]
theorem view_binNumRespond (text newval : List UInt8)
    : (s.binNumRespond hdr text newval).view = s.view := by
  simp [binNumRespond]

@[simp]
theorem view_binArithStat (cmd : Nat) (hit : Bool) : (s.binArithStat cmd hit).view = s.view := by
  simp [binArithStat]

@[simp]
theorem view_binArithInit (cmd : Nat) : (s.binArithInit hdr cmd).view = s.view := by
  unfold binArithInit
  dsimp only
  split
  . simp
  . split <;> simp

@[simp]
theorem view_doBinArithmetic (cmd : Nat) (opt : LsMcUpdOpt)
    : (s.doBinArithmetic hdr cmd opt).view = s.view := by
  unfold doBinArithmetic
  dsimp only
  split
  . simp
  . split
    . simp
    . split
      . simp
      . split <;> simp

theorem cmdWait_putWaitQ : s.putWaitQ.conn.cmdWait = true := by
  unfold putWaitQ
  split
  . assumption
  . rfl

theorem effs_doBinFlush (hQ : (s.doBinFlush hdr).conn.cmdWait = true → Q)
    (hF : F) : Effs Q F s (s.doBinFlush hdr) := by
  revert hQ
  unfold doBinFlush
  dsimp only
  split
  . intro _
    apply Effs.quiet
    simp
  . split
    . intro _
      split
      . exact Effs.then (effs_flushSlices s) (by simp)
      . exact Effs.then (effs_flushSlices s) (by simp)
    . generalize (if s.mc.m_bConfigMultiUser then s.conn.m_pSlice else 0) = sl
      split
      . intro hQ
        exact .putWaitQ (hQ (cmdWait_putWaitQ s)) s
      . intro _
        by_cases hm : s.useMulti
        . apply Effs.quiet
          simp [hm]
        . simp only [hm, Bool.not_false, if_true]
          split
          . exact effs_fwdBinToRemote s sl hdr fun _ => hF
          . rename_i hfwd
            apply Effs.quiet
            simp [fwdBinToRemote_not hfwd]

@[simp]
theorem view_doBinVersion : (s.doBinVersion hdr).view = s.view := by
  simp [doBinVersion]

theorem effs_doBinStats : Effs Q F s (s.doBinStats hdr) := by
  unfold doBinStats
  split
  . apply Effs.quiet
    simp
  . split
    . exact Effs.then (effs_resetStats s) (by simp)
    . apply Effs.then _ (view_binOkRespond _ hdr)
      apply effs_foldl
      intro s item
      apply Effs.quiet
      simp [doBinStat1Send]

@[simp]
theorem view_doBinSaslList : (s.doBinSaslList hdr).view = s.view := by
  unfold doBinSaslList
  dsimp only
  split
  . simp
  . generalize hs₁ : (if hdr.opaqueWord = REBUILD_OPAQUE then _ else s) = s₁
    have hview : s₁.view = s.view := by
      subst hs₁
      split <;> simp
    split
    . simpa using hview
    . simpa using hview

@[simp]
theorem view_authStat (err : Bool) : (s.authStat err).view = s.view := by
  unfold authStat
  dsimp only
  split <;> simp

@[simp]
theorem view_doBinSaslAuth : (s.doBinSaslAuth hdr).view = s.view := by
  unfold doBinSaslAuth
  dsimp only
  split
  . exact view_binErrRespond s hdr .UNKNOWNCMD
  . generalize hs₁ : (if hdr.totbody < hdr.keylen then s.setUndef else s) = s₁
    have hview : s₁.view = s.view := by
      subst hs₁
      split <;> rfl
    split
    . simp
    . split
      . simp only [view_authStat, view_binTextRespond]
        exact hview
      . split
        . simpa using hview
        . simpa using hview
      . simpa using hview

@[simp]
theorem view_binCasStat (ret : UpdRet) : (s.binCasStat ret).view = s.view := by
  simp [binCasStat]

@[simp]
theorem view_binStore (cmd pVal : Nat) (opt : LsMcUpdOpt)
    : (s.binStore hdr cmd pVal opt).view = s.view := by
  unfold binStore
  dsimp only
  split
  . simp
  . split
    . simp
    . split
      . split <;> simp
      . simp

theorem effs_runBinCmd (cmd pVal : Nat) (opt : LsMcUpdOpt)
    (hQ : (s.runBinCmd hdr cmd pVal opt).1.conn.cmdWait = true →
      (s.runBinCmd hdr cmd pVal opt).2 = true → Q)
    (hF : (s.runBinCmd hdr cmd pVal opt).2 = true → F)
    : Effs Q F s (s.runBinCmd hdr cmd pVal opt).1 := by
  revert hQ hF
  apply runBinCmd_cases (P := fun r => (r.1.conn.cmdWait = true → r.2 = true → Q) →
    (r.2 = true → F) → Effs Q F s r.1)
  case hflush =>
    intro _ hQ hF
    exact Effs.after (view_binStart s) (effs_doBinFlush _ hdr (hQ · rfl) (hF rfl))
  case hstats =>
    intros
    exact Effs.after (view_binStart s) (effs_doBinStats _ hdr)
  all_goals
    intros
    apply Effs.after (view_binStart s)
    apply Effs.quiet
    simp

/--
A request that fills 2 ^ 32 bytes. Its length is 0 as an `int`.
-/
def wrapsBody : Prop :=
  toInt32 (sizeofBinHdr + (McBinCmdHdr.ofBuf s.conn.m_bufIncoming).totbody) = 0

theorem effs_processBinReq (consumed : Int)
    : Effs ((s.processBinReq hdr consumed).2 = -1)
      ((s.processBinReq hdr consumed).2 ≠ 0 ∨ consumed = 0) s (s.processBinReq hdr consumed).1 := by
  unfold processBinReq
  dsimp only
  split
  . apply Effs.quiet
    simp
  . apply Effs.after (view_setNoreply s (setupNoreplyCmd hdr.opcode).2)
    generalize s.setNoreply (setupNoreplyCmd hdr.opcode).2 = s
    generalize hr : s.setupBinCmd hdr (binCmd hdr) = r
    have hsetup : ∀ {Q F : Prop}, (r.2 = .queued → Q) → (r.2 = .forwarded → F) →
        Effs Q F s r.1 := by
      intro Q F hQ hF
      subst hr
      exact effs_setupBinCmd s hdr _ hQ hF
    have hany : consumed ≠ 0 ∨ consumed = 0 := (em _).symm
    split
    . apply Effs.then _ (view_binErrRespond _ _ _)
      apply hsetup <;> simp [*]
    . apply hsetup <;> simp [*]
    . apply hsetup <;> simp [*]
    . apply Effs.then _ (view_binErrRespond _ _ _)
      apply hsetup <;> simp [*]
    . rename_i pVal opt hbody
      have hbase : ∀ {Q F : Prop}, Effs Q F s r.1 := by
        intro Q F
        apply hsetup <;> simp [hbody]
      split
      . rename_i hclose
        apply Effs.trans hbase
        apply effs_runBinCmd
        . intro _ hopen
          simp [hopen] at hclose
        . intro hopen
          simp [hopen] at hclose
      . apply Effs.trans hbase
        apply effs_runBinCmd
        . intro hwait _
          simp [hwait]
        . intro _
          split
          . simp
          . exact hany

theorem effs_processBinCmd : Effs (s.processBinCmd.2 = -1) (s.processBinCmd.2 ≠ 0 ∨ s.wrapsBody) s
    s.processBinCmd.1 := by
  unfold processBinCmd
  dsimp only
  split
  . apply Effs.refl
  . split
    . apply Effs.refl
    . apply effs_processBinReq

end Binary

theorem effs_dispatch (s : McCall)
    : Effs (s.dispatch.2 = -1) (s.dispatch.2 ≠ 0 ∨ s.conn.m_protocol = .MC_BINARY ∧ s.wrapsBody) s
      s.dispatch.1 := by
  unfold dispatch
  split
  . exact (effs_processCmd s).mono id .inl
  . rename_i hbin
    apply (effs_processBinCmd s).mono id
    exact Or.imp_right fun hwrap => ⟨hbin, hwrap⟩
  . apply Effs.refl

end McCall

end Lsmcd
