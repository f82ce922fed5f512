import Lsmcd.Memcache.BinAnswer
import Lsmcd.Memcache.WaitQueue

/-!
The length of a binary request: when it is compared and returned as the number it is.
-/

namespace Lsmcd

def McBinCmdHdr.size (hdr : McBinCmdHdr) : Nat :=
  sizeofBinHdr + hdr.totbody

namespace McCall

def FlushWaits (s : McCall) (hdr : McBinCmdHdr) : Prop :=
  ¬ (0 < hdr.extralen ∧ s.mc.m_item.x_exptime ≠ 0) ∧ s.statsAggregate = false ∧
    s.useMulti = false ∧ s.getHash.isTidMaster = false ∧
    (s.sliceAt (if s.mc.m_bConfigMultiUser then s.conn.m_pSlice else 0)).remote.remBusy = true

section

variable (s : McCall) (hdr : McBinCmdHdr)

def AtHandler : Prop :=
  s.saslRefuses hdr.opcode = false ∧ ∃ pVal opt, (s.binSetup hdr).2 = .body pVal opt

def WaitsForMaster : Prop :=
  s.saslRefuses hdr.opcode = false ∧ ((s.binSetup hdr).2 = .queued ∨
    (∃ pVal opt, (s.binSetup hdr).2 = .body pVal opt) ∧ binCmd hdr = MC_BINCMD_FLUSH ∧
      (s.binSetup hdr).1.FlushWaits hdr)

end

/--
`processBinCmd` acts only on a request that is there as a whole, and says how many bytes it has used: all
of the request, or none because the connection is closed, or because the request waits and nothing
has happened yet. The loop of `processIncoming` stays inside the buffer.
-/
structure LengthExact (s : McCall) (hdr : McBinCmdHdr) : Prop where
  acts : s.Complete → hdr.size ≤ s.conn.m_bufIncoming.length
  waits : s.conn.m_bufIncoming.length < hdr.size → s.processBinCmd = (s, -1)
  used : hdr.size ≤ s.conn.m_bufIncoming.length →
    s.processBinCmd.2 = hdr.size ∨ s.processBinCmd.2 = 0 ∨
      s.processBinCmd.2 = -1 ∧ s.WaitsForMaster hdr ∧
        s.processBinCmd.1.mc.m_pHashMulti = s.mc.m_pHashMulti ∧
        s.processBinCmd.1.conn.out = s.conn.out
  inside : 0 < s.processBinCmd.2 → s.processBinCmd.2 ≤ s.conn.m_bufIncoming.length

/--
The condition of `lengthExact_iff`: the length fits into an `int`, and a request that is not itself queued
does not come to its handler on a connection that waits.
-/
def LengthFits (s : McCall) (hdr : McBinCmdHdr) : Prop :=
  s.conn.m_bufIncoming.length < sizeofBinHdr ∨
    hdr.size < 2 ^ 31 ∧ (hdr.size ≤ s.conn.m_bufIncoming.length → s.AtHandler hdr →
      binCmd hdr ≠ MC_BINCMD_QUIT → ¬ s.WaitsForMaster hdr → s.conn.cmdWait = false)

section

variable {s : McCall} {hdr : McBinCmdHdr}

theorem doBinFlush_waits (h : s.FlushWaits hdr) : s.doBinFlush hdr = s.putWaitQ := by
  obtain ⟨hext, hagg, hmulti, hmaster, hbusy⟩ := h
  unfold doBinFlush
  dsimp only
  rw [if_neg hext, if_neg (by simp [hagg]), if_pos (by simp [hmulti, hmaster, hbusy])]

theorem cmdWait_doBinFlush (h : ¬ s.FlushWaits hdr)
    : (s.doBinFlush hdr).conn.cmdWait = s.conn.cmdWait := by
  apply Effs.cmdWait (F := True)
  revert h
  unfold doBinFlush FlushWaits
  dsimp only
  generalize (if s.mc.m_bConfigMultiUser then s.conn.m_pSlice else 0) = sl
  intro h
  split
  . apply Effs.quiet
    simp
  . rename_i hext
    split
    . split
      . exact (effs_flushSlices s).then (view_binOkRespond _ hdr)
      . exact (effs_flushSlices s).then (view_binErrRespond _ hdr _)
    . rename_i hagg
      have hagg' : s.statsAggregate = false := by simpa using hagg
      have hwait : ¬ ((!s.useMulti) = true ∧ (!s.getHash.isTidMaster) = true ∧
          (s.sliceAt sl).remote.remBusy = true) := by
        rintro ⟨hmulti, hmaster, hbusy⟩
        exact h ⟨hext, hagg', by simpa using hmulti, by simpa using hmaster, hbusy⟩
      rw [if_neg hwait]
      cases s.useMulti with
      | true =>
        apply Effs.quiet
        simp
      | false =>
        simp only [Bool.not_false, if_true]
        split
        . exact effs_fwdBinToRemote s sl hdr fun _ => trivial
        . rename_i hfwd
          apply Effs.quiet
          simp [fwdBinToRemote_not hfwd]

theorem cmdWait_of_view {t : McCall} (h : t.view = s.view) : t.conn.cmdWait = s.conn.cmdWait :=
  congrArg ConnView.cmdWait h

theorem cmdWait_runBinCmd {cmd : Nat} (h : ¬ (cmd = MC_BINCMD_FLUSH ∧ s.FlushWaits hdr)) (pVal : Nat)
    (opt : LsMcUpdOpt) : (s.runBinCmd hdr cmd pVal opt).1.conn.cmdWait = s.conn.cmdWait := by
  apply runBinCmd_cases (P := fun r => r.1.conn.cmdWait = s.conn.cmdWait)
  case hflush =>
    intro hcmd
    apply cmdWait_doBinFlush (s := s.binStart)
    exact fun hwaits => h ⟨hcmd, hwaits⟩
  case hstats =>
    intro _
    have heffs : Effs False True s.binStart (s.binStart.doBinStats hdr) := effs_doBinStats s.binStart hdr
    exact heffs.cmdWait
  all_goals
    intros
    apply cmdWait_of_view
    simp

theorem runBinCmd_open (cmd pVal : Nat) (opt : LsMcUpdOpt)
    : (s.runBinCmd hdr cmd pVal opt).2 = !decide (cmd = MC_BINCMD_QUIT) := by
  by_cases hquit : cmd = MC_BINCMD_QUIT
  . subst hquit
    rfl
  . have hopen : (s.runBinCmd hdr cmd pVal opt).2 = true := by
      apply runBinCmd_cases (P := fun r => r.2 = true)
      case hquit => exact fun h => absurd h hquit
      all_goals
        intros
        rfl
    rw [hopen]
    simp [hquit]

theorem processBinReq_setup (hsasl : s.saslRefuses hdr.opcode = false) (consumed : Int)
    : s.processBinReq hdr consumed =
      match (s.binSetup hdr).2 with
      | .invalid => ((s.binSetup hdr).1.binErrRespond hdr .EINVAL, consumed)
      | .queued => ((s.binSetup hdr).1, -1)
      | .forwarded => ((s.binSetup hdr).1, consumed)
      | .err stat => ((s.binSetup hdr).1.binErrRespond hdr stat, consumed)
      | .body pVal opt =>
        let q := (s.binSetup hdr).1.runBinCmd hdr (binCmd hdr) pVal opt
        if !q.2 then (q.1, 0) else (q.1, if q.1.conn.cmdWait then -1 else consumed) := by
  unfold processBinReq
  rw [if_neg (by simp [hsasl])]
  rfl

theorem binSetup_body {pVal : Nat} {opt : LsMcUpdOpt} (h : (s.binSetup hdr).2 = .body pVal opt)
    : s.binSetup hdr = s.localSetup hdr := by
  have heq := binSetup_eq s hdr
  revert heq
  split
  . intro heq
    cases heq ▸ h
  . split
    . intro heq
      cases heq ▸ h
    . split
      . intro heq
        cases heq ▸ h
      . exact id

theorem localSetup_flush (h : binCmd hdr = MC_BINCMD_FLUSH)
    : (s.localSetup hdr).1.mc.m_pHashMulti = s.mc.m_pHashMulti ∧
      (s.localSetup hdr).1.conn.out = s.conn.out := by
  unfold localSetup
  rw [h]
  split
  . exact ⟨rfl, rfl⟩
  . dsimp only
    unfold setupExtras
    rw [if_neg (by decide), if_pos (by decide)]
    split <;> exact ⟨rfl, rfl⟩

theorem putWaitQ_frame
    : s.putWaitQ.mc.m_pHashMulti = s.mc.m_pHashMulti ∧ s.putWaitQ.conn.out = s.conn.out := by
  unfold putWaitQ
  split
  . exact ⟨rfl, rfl⟩
  . dsimp only
    split <;> exact ⟨rfl, rfl⟩

theorem localSetup_not_queued : (s.localSetup hdr).2 ≠ .queued := by
  by_cases hwrong : hdr.WrongExtra
  . rw [(localSetup_wrong hwrong).1]
    exact fun h => nomatch h
  . obtain ⟨pVal, opt, h⟩ | ⟨stat, h⟩ := localSetup_ok (s := s) hwrong
    . rw [h]
      exact fun h => nomatch h
    . rw [h]
      exact fun h => nomatch h

theorem binSetup_queued (h : (s.binSetup hdr).2 = .queued)
    : (s.binSetup hdr).1 = (s.placed hdr).putWaitQ := by
  have heq := binSetup_eq s hdr
  revert heq
  split
  . intro heq
    cases heq ▸ h
  . split
    . intro heq
      rw [heq]
    . split
      . intro heq
        cases heq ▸ h
      . intro heq
        exact absurd (heq ▸ h) localSetup_not_queued

theorem used_iff (n : Nat)
    : ((s.processBinReq hdr n).2 = n ∨ (s.processBinReq hdr n).2 = 0 ∨
        (s.processBinReq hdr n).2 = -1 ∧ s.WaitsForMaster hdr ∧
          (s.processBinReq hdr n).1.mc.m_pHashMulti = s.mc.m_pHashMulti ∧
          (s.processBinReq hdr n).1.conn.out = s.conn.out) ↔
      (s.AtHandler hdr → binCmd hdr ≠ MC_BINCMD_QUIT → ¬ s.WaitsForMaster hdr → s.conn.cmdWait = false) := by
  cases hsasl : s.saslRefuses hdr.opcode with
  | true =>
    have hret : (s.processBinReq hdr n).2 = 0 := by
      unfold processBinReq
      rw [if_pos hsasl]
    constructor
    . rintro - ⟨hno, -⟩
      rw [hsasl] at hno
      cases hno
    . exact fun _ => .inr (.inl hret)
  | false =>
    rw [processBinReq_setup hsasl]
    cases hset : (s.binSetup hdr).2 with
    | invalid => simp [AtHandler, hset]
    | forwarded => simp [AtHandler, hset]
    | err stat => simp [AtHandler, hset]
    | queued =>
      obtain ⟨hmulti, hout⟩ := putWaitQ_frame (s := s.placed hdr)
      dsimp only
      rw [binSetup_queued hset]
      constructor
      . rintro - ⟨-, pVal, opt, hbody⟩
        rw [hset] at hbody
        cases hbody
      . exact fun _ => .inr (.inr ⟨rfl, ⟨hsasl, .inl hset⟩, hmulti, hout⟩)
    | body pVal opt =>
      have hat : s.AtHandler hdr := ⟨hsasl, pVal, opt, hset⟩
      have hwait : (s.binSetup hdr).1.conn.cmdWait = s.conn.cmdWait := by
        have heffs : Effs False True (s.setNoreply (setupNoreplyCmd hdr.opcode).2) (s.binSetup hdr).1 :=
          effs_setupBinCmd _ hdr _ (fun h => nomatch hset.symm.trans h) fun _ => trivial
        exact heffs.cmdWait
      dsimp only
      rw [runBinCmd_open]
      by_cases hquit : binCmd hdr = MC_BINCMD_QUIT
      . simp [hquit]
      . have hopen : (!!decide (binCmd hdr = MC_BINCMD_QUIT)) = false := by simp [hquit]
        simp only [hopen, Bool.false_eq_true, if_false]
        by_cases hflush : binCmd hdr = MC_BINCMD_FLUSH ∧ (s.binSetup hdr).1.FlushWaits hdr
        . -- the flush is put into the wait queue, and nothing was done before
          have hrun : ((s.binSetup hdr).1.runBinCmd hdr (binCmd hdr) pVal opt).1 =
              (s.binSetup hdr).1.binStart.putWaitQ := by
            rw [hflush.1]
            exact doBinFlush_waits (s := (s.binSetup hdr).1.binStart) hflush.2
          have hw : s.WaitsForMaster hdr := ⟨hsasl, .inr ⟨⟨pVal, opt, hset⟩, hflush⟩⟩
          obtain ⟨hmulti, hout⟩ := putWaitQ_frame (s := (s.binSetup hdr).1.binStart)
          obtain ⟨hmulti', hout'⟩ := localSetup_flush (s := s) hflush.1
          rw [← binSetup_body hset] at hmulti' hout'
          rw [hrun, if_pos (cmdWait_putWaitQ _)]
          constructor
          . exact fun _ _ _ hno => absurd hw hno
          . exact fun _ => .inr (.inr ⟨rfl, hw, hmulti.trans hmulti', hout.trans hout'⟩)
        . have hw : ¬ s.WaitsForMaster hdr := by
            rintro ⟨-, hq | ⟨-, hf⟩⟩
            . rw [hset] at hq
              cases hq
            . exact hflush hf
          rw [cmdWait_runBinCmd hflush, hwait]
          cases hcmd : s.conn.cmdWait with
          | false => simp
          | true =>
            simp only [if_true, hat, hw, not_false_eq_true, hquit, ne_eq, forall_const, Bool.true_eq_false,
              false_and, and_false, or_false, iff_false, not_or]
            omega

theorem toInt32_size_le (htot : hdr.totbody < 2 ^ 32) (hlarge : 2 ^ 31 ≤ hdr.size)
    : toInt32 hdr.size < sizeofBinHdr := by
  unfold McBinCmdHdr.size sizeofBinHdr toInt32 at *
  split <;> omega

theorem toInt32_size (hfit : hdr.size < 2 ^ 31) : toInt32 hdr.size = hdr.size := by
  unfold toInt32
  split <;> omega

theorem complete_iff (hfit : (McBinCmdHdr.ofBuf s.conn.m_bufIncoming).size < 2 ^ 31)
    : s.Complete ↔ (McBinCmdHdr.ofBuf s.conn.m_bufIncoming).size ≤ s.conn.m_bufIncoming.length := by
  have hint := toInt32_size hfit
  unfold McBinCmdHdr.size at hint hfit ⊢
  unfold Complete
  rw [hint]
  omega

theorem processBinCmd_waits (h : ¬ s.Complete) : s.processBinCmd = (s, -1) := by
  unfold Complete at h
  unfold processBinCmd
  dsimp only
  split
  . rfl
  . rename_i hlen
    rw [if_pos]
    rw [not_and, Int.not_le] at h
    exact h (Nat.le_of_not_lt hlen)

theorem processBinReq_le (s : McCall) (hdr : McBinCmdHdr) (consumed : Int)
    : (s.processBinReq hdr consumed).2 = consumed ∨ (s.processBinReq hdr consumed).2 ≤ 0 := by
  cases hsasl : s.saslRefuses hdr.opcode with
  | true =>
    unfold processBinReq
    rw [if_pos hsasl]
    simp
  | false =>
    rw [processBinReq_setup hsasl]
    cases (s.binSetup hdr).2 with
    | body pVal opt =>
      dsimp only
      split
      . simp
      . split <;> simp
    | _ => simp

theorem processBinCmd_inside (h : 0 < s.processBinCmd.2) : s.processBinCmd.2 ≤ s.conn.m_bufIncoming.length := by
  by_cases hc : s.Complete
  . rw [processBinCmd_complete hc] at h ⊢
    have hle := processBinReq_le s (McBinCmdHdr.ofBuf s.conn.m_bufIncoming)
      (toInt32 (sizeofBinHdr + (McBinCmdHdr.ofBuf s.conn.m_bufIncoming).totbody))
    have hlen := hc.2
    omega
  . rw [processBinCmd_waits hc] at h
    cases h

end

/--
A binary request is handled at its true length if this fits into an `int` and no earlier request of the
connection waits.
-/
theorem lengthExact_iff (s : McCall) (hlen : s.conn.m_bufIncoming.length < 2 ^ 31)
    : s.LengthExact (McBinCmdHdr.ofBuf s.conn.m_bufIncoming) ↔
      s.LengthFits (McBinCmdHdr.ofBuf s.conn.m_bufIncoming) := by
  have htot : (McBinCmdHdr.ofBuf s.conn.m_bufIncoming).totbody < 2 ^ 32 :=
    readBe_lt s.conn.m_bufIncoming 8 4
  generalize hhdr : McBinCmdHdr.ofBuf s.conn.m_bufIncoming = hdr at htot
  have h24 : sizeofBinHdr ≤ hdr.size := Nat.le_add_right _ _
  by_cases hshort : s.conn.m_bufIncoming.length < sizeofBinHdr
  . -- not even the header is there
    have hc : ¬ s.Complete := fun h => Nat.not_lt.mpr h.1 hshort
    have hret := processBinCmd_waits hc
    refine iff_of_true ⟨fun h => absurd h hc, fun _ => hret, fun h => ?_, processBinCmd_inside⟩ (.inl hshort)
    omega
  . by_cases hfit : hdr.size < 2 ^ 31
    . have hiff := complete_iff (s := s) (hhdr ▸ hfit)
      rw [hhdr] at hiff
      have hright : s.LengthFits hdr ↔ (hdr.size ≤ s.conn.m_bufIncoming.length → s.AtHandler hdr →
          binCmd hdr ≠ MC_BINCMD_QUIT → ¬ s.WaitsForMaster hdr → s.conn.cmdWait = false) := by
        unfold LengthFits
        rw [or_iff_right hshort, and_iff_right hfit]
      rw [hright]
      by_cases hle : hdr.size ≤ s.conn.m_bufIncoming.length
      . have hreq : s.processBinCmd = s.processBinReq hdr hdr.size := by
          rw [processBinCmd_complete (hiff.mpr hle), hhdr]
          exact congrArg _ (toInt32_size hfit)
        constructor
        . intro h _
          rw [← used_iff hdr.size, ← hreq]
          exact h.used hle
        . intro h
          refine ⟨fun _ => hle, fun hlt => ?_, fun _ => ?_, processBinCmd_inside⟩
          . omega
          . rw [hreq]
            exact (used_iff hdr.size).mpr (h hle)
      . have hret := processBinCmd_waits fun h => hle (hiff.mp h)
        exact iff_of_true ⟨hiff.mp, fun _ => hret, fun h => absurd h hle, processBinCmd_inside⟩
          fun h => absurd h hle
    . -- the length is narrowed to one that the buffer has
      have hc : s.Complete := by
        refine ⟨Nat.le_of_not_lt hshort, ?_⟩
        rw [hhdr]
        have hint := toInt32_size_le htot (Nat.le_of_not_lt hfit)
        unfold McBinCmdHdr.size at hint
        omega
      refine iff_of_false (fun h => ?_) fun h => ?_
      . have := h.acts hc
        omega
      . rcases h with h | h
        . exact hshort h
        . exact hfit h.1

def sampleHuge : McCall :=
  sampleCall ([MC_BINARY_REQ, UInt8.ofNat MC_BINCMD_NOOP, 0, 0, 0, 0, 0, 0, 0x80, 0, 0, 0] ++
    List.replicate 12 0)

theorem lengthExact_iff_sample
    : sampleHuge.LengthExact (McBinCmdHdr.ofBuf sampleHuge.conn.m_bufIncoming) ↔
      sampleHuge.LengthFits (McBinCmdHdr.ofBuf sampleHuge.conn.m_bufIncoming) :=
  lengthExact_iff sampleHuge (by decide +kernel)

/--
The `noop` is executed with a length below 0.
-/
theorem not_lengthExact_huge : ¬ sampleHuge.LengthExact (McBinCmdHdr.ofBuf sampleHuge.conn.m_bufIncoming) := by
  intro h
  have hc : sampleHuge.Complete := ⟨by decide +kernel, by decide +kernel⟩
  exact absurd (h.acts hc) (by decide +kernel)

end McCall

end Lsmcd
