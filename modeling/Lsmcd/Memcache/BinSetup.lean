import Lsmcd.Memcache.Sasl

/-!
Which bytes a binary request is executed with.
-/

namespace Lsmcd

def ExtraSize (cmd extralen : Nat) : Prop :=
  if cmd = MC_BINCMD_REPLACE ∨ cmd = MC_BINCMD_ADD ∨ cmd = MC_BINCMD_SET then extralen = 8
  else if cmd = MC_BINCMD_TOUCH ∨ cmd = MC_BINCMD_GAT ∨ cmd = MC_BINCMD_GATK ∨
      cmd = MC_BINCMD_VERBOSITY then extralen = 4
  else if cmd = MC_BINCMD_FLUSH then extralen = 0 ∨ extralen = 4
  else if cmd = MC_BINCMD_INCREMENT ∨ cmd = MC_BINCMD_DECREMENT then extralen = 20
  else extralen = 0

instance (cmd extralen : Nat) : Decidable (ExtraSize cmd extralen) := by
  unfold ExtraSize
  infer_instance

def checkedExtra (cmd : Nat) : Option Nat :=
  if cmd = MC_BINCMD_REPLACE ∨ cmd = MC_BINCMD_ADD ∨ cmd = MC_BINCMD_SET then some 8
  else if cmd = MC_BINCMD_TOUCH ∨ cmd = MC_BINCMD_GAT ∨ cmd = MC_BINCMD_GATK ∨
      cmd = MC_BINCMD_FLUSH then some 4
  else if cmd = MC_BINCMD_INCREMENT ∨ cmd = MC_BINCMD_DECREMENT then some 20
  else if cmd = MC_BINCMD_VERBOSITY then some 4
  else none

def KnownCmd (cmd : Nat) : Prop :=
  cmd ∈ [MC_BINCMD_GET, MC_BINCMD_SET, MC_BINCMD_ADD, MC_BINCMD_REPLACE, MC_BINCMD_DELETE,
    MC_BINCMD_INCREMENT, MC_BINCMD_DECREMENT, MC_BINCMD_QUIT, MC_BINCMD_FLUSH, MC_BINCMD_NOOP,
    MC_BINCMD_VERSION, MC_BINCMD_GETK, MC_BINCMD_GETKQ, MC_BINCMD_APPEND, MC_BINCMD_PREPEND,
    MC_BINCMD_STAT, MC_BINCMD_VERBOSITY, MC_BINCMD_TOUCH, MC_BINCMD_GAT, MC_BINCMD_GATK,
    MC_BINCMD_SASL_LIST, MC_BINCMD_SASL_AUTH, MC_BINCMD_SASL_STEP]

instance : DecidablePred KnownCmd := fun cmd =>
  inferInstanceAs (Decidable (cmd ∈ _))

structure McBinCmdHdr.Valid (hdr : McBinCmdHdr) : Prop where
  fits : hdr.extralen + hdr.keylen ≤ hdr.totbody
  extra : ExtraSize (McCall.binCmd hdr) hdr.extralen

def McBinCmdHdr.vallen (hdr : McBinCmdHdr) : Nat :=
  hdr.totbody - hdr.keylen - hdr.extralen

def McBinCmdHdr.pKey (hdr : McBinCmdHdr) : Nat :=
  if hdr.totbody = hdr.keylen then sizeofBinHdr else sizeofBinHdr + hdr.extralen

def McBinCmdHdr.toMaster (hdr : McBinCmdHdr) : Bool :=
  if hdr.totbody = hdr.keylen then McCall.binCmd hdr = MC_BINCMD_DELETE
  else isRemoteEligible (McCall.binCmd hdr)

def McBinCmdHdr.WrongExtra (hdr : McBinCmdHdr) : Prop :=
  hdr.totbody ≠ hdr.keylen ∧ ∃ n, checkedExtra (McCall.binCmd hdr) = some n ∧ hdr.extralen ≠ n

def McBinCmdHdr.NoValue (hdr : McBinCmdHdr) : Prop :=
  (McCall.binCmd hdr = MC_BINCMD_APPEND ∨ McCall.binCmd hdr = MC_BINCMD_PREPEND) ∧
    hdr.totbody = hdr.keylen

namespace McCall

/--
The call with a value and an item that an earlier command has left behind.
-/
def withLeft (s : McCall) (val : ValParm) (item : LsMcDataItem) : McCall :=
  { s with mc := { s.mc with m_parms := { s.mc.m_parms with val := val }, m_item := item } }

section

variable (s : McCall) (hdr : McBinCmdHdr)

def reqKey : List UInt8 :=
  bufBytes s.conn.m_bufIncoming hdr.pKey hdr.keylen

def Received : Prop :=
  sizeofBinHdr + hdr.totbody ≤ s.conn.m_bufIncoming.length

def KeyInBuffer : Prop :=
  hdr.pKey + hdr.keylen ≤ s.conn.m_bufIncoming.length

def MasterBusy : Bool :=
  let slice := s.sliceAt (s.setSlice (s.reqKey hdr)).conn.m_pSlice
  s.mc.m_bConfigReplication && !(slice.m_hashByUser none).isTidMaster && slice.remote.remBusy

def IsSlave : Bool :=
  !(s.setSlice (s.reqKey hdr)).getHash.isTidMaster

def MasterConnected : Bool :=
  (s.sliceAt (s.setSlice (s.reqKey hdr)).conn.m_pSlice).remote.connected

def Handed : Prop :=
  hdr.toMaster = true ∧ (s.MasterBusy hdr = true ∨ s.IsSlave hdr = true ∧ s.MasterConnected hdr = true)

def CutOff : Prop :=
  hdr.toMaster = true ∧ s.MasterBusy hdr = false ∧ s.IsSlave hdr = true ∧ s.MasterConnected hdr = false

def binSetup : McCall × BinSetup :=
  (s.setNoreply (setupNoreplyCmd hdr.opcode).2).setupBinCmd hdr (binCmd hdr)

def Executes : Prop :=
  s.saslRefuses hdr.opcode = false ∧ KnownCmd (binCmd hdr) ∧ (s.binSetup hdr).2 ≠ .invalid ∧
    ((s.binSetup hdr).2 = .forwarded → s.MasterConnected hdr = true)

end

/--
What the handler of a request takes from `m_parms`, `m_item`, the options and the buffer is what the
body of the request has at the place of it.
-/
def OwnArg (buf : List UInt8) (hdr : McBinCmdHdr) (cmd : Nat) (r : McCall) (pVal : Nat)
    (opt : LsMcUpdOpt) : Prop :=
  if cmd = MC_BINCMD_REPLACE ∨ cmd = MC_BINCMD_ADD ∨ cmd = MC_BINCMD_SET then
    pVal = sizeofBinHdr + hdr.extralen + hdr.keylen ∧
      r.mc.m_parms.val.len = r.parmAdjLen hdr.vallen ∧
      r.mc.m_item = { x_exptime := readBe buf (sizeofBinHdr + 4) 4, x_flags := readBe buf sizeofBinHdr 4 }
  else if cmd = MC_BINCMD_TOUCH ∨ cmd = MC_BINCMD_GAT ∨ cmd = MC_BINCMD_GATK ∨
      cmd = MC_BINCMD_FLUSH ∧ hdr.extralen = 4 then
    r.mc.m_item.x_exptime = readBe buf sizeofBinHdr 4
  else if cmd = MC_BINCMD_INCREMENT ∨ cmd = MC_BINCMD_DECREMENT then
    r.mc.m_parms.val.len = r.parmAdjLen 0 ∧ opt.m_value = readBe buf sizeofBinHdr 8 ∧
      opt.m_cas = hdr.cas
  else if cmd = MC_BINCMD_APPEND ∨ cmd = MC_BINCMD_PREPEND then
    pVal = sizeofBinHdr + hdr.extralen + hdr.keylen ∧ r.mc.m_parms.val.len = hdr.vallen ∧
      opt.m_cas = hdr.cas
  else True

/--
What `setupBinCmd` has set up is the key, the extras and the value of the body `body`.
-/
def OwnSetup (buf : List UInt8) (hdr : McBinCmdHdr) (r : McCall × BinSetup) : Prop :=
  r.1.mc.m_parms.key = bufBytes buf (sizeofBinHdr + hdr.extralen) hdr.keylen ∧
    r.1.conn.m_bufIncoming.drop sizeofBinHdr = buf.drop sizeofBinHdr ∧
    match r.2 with
    | .body pVal opt => OwnArg buf hdr (binCmd hdr) r.1 pVal opt
    | .err _ => r.1.mc.m_parms.val.len = hdr.vallen
    | _ => True

def RefusedBy (s : McCall) (hdr : McBinCmdHdr) (r : McCall) : Prop :=
  ∃ x err, err ≠ .SUCCESS ∧ r = binErrRespond x hdr err ∧
    x.mc.m_pHashMulti = s.mc.m_pHashMulti ∧ x.conn.out = s.conn.out

/--
The condition of `usesOwnBytes_iff`, on the header and the state before the request.
-/
def KeepsToBody (s : McCall) (hdr : McBinCmdHdr) : Prop :=
  s.saslRefuses hdr.opcode = true ∨ KEY_MAXLEN < hdr.keylen ∨
    s.KeyInBuffer hdr ∧
      (¬ KnownCmd (binCmd hdr) ∨ s.CutOff hdr ∨ hdr.WrongExtra ∧ ¬ s.Handed hdr) ∨
    hdr.Valid ∧ s.Received hdr ∧ ¬ hdr.NoValue

section

variable {s : McCall} {hdr : McBinCmdHdr}

def markKey (s : McCall) (p keyLen : Nat) : McCall :=
  { s with mc := { s.mc with
    m_parms := { s.mc.m_parms with key := bufBytes s.conn.m_bufIncoming p keyLen }
    undef := s.mc.undef || decide (s.conn.m_bufIncoming.length < p + keyLen) } }

theorem binKey_eq_markKey (p keyLen : Nat) : s.binKey p keyLen = s.markKey p keyLen := by
  unfold binKey markKey setKey setUndef
  dsimp only
  split
  . rename_i h
    simp [h]
  . rename_i h
    simp [h]

def placed (s : McCall) (hdr : McBinCmdHdr) : McCall :=
  ((s.setNoreply (setupNoreplyCmd hdr.opcode).2).markKey hdr.pKey hdr.keylen).setSlice (s.reqKey hdr)

def localSetup (s : McCall) (hdr : McBinCmdHdr) : McCall × BinSetup :=
  if hdr.totbody = hdr.keylen then ((s.placed hdr).swapCas, .body sizeofBinHdr s.mc.env.updOpt)
  else
    let len := (hdr.totbody + 2 ^ 33 - hdr.keylen - hdr.extralen) % 2 ^ 32
    ((s.placed hdr).setVal len).swapCas.setupExtras hdr (binCmd hdr) sizeofBinHdr
      (sizeofBinHdr + hdr.extralen + hdr.keylen)

theorem binSlice_eq (remote : Bool) (hdr : McBinCmdHdr) (key : List UInt8)
    : s.binSlice remote hdr key =
      if remote = true then
        if (s.setSlice key).mc.m_bConfigReplication &&
            !(((s.setSlice key).sliceAt (s.setSlice key).conn.m_pSlice).m_hashByUser none).isTidMaster &&
            ((s.setSlice key).sliceAt (s.setSlice key).conn.m_pSlice).remote.remBusy then
          ((s.setSlice key).putWaitQ, some .queued)
        else if (s.setSlice key).getHash.isTidMaster = false then
          (((s.setSlice key).fwdBinToRemote (s.setSlice key).conn.m_pSlice hdr).1, some .forwarded)
        else (s.setSlice key, none)
      else (s.setSlice key, none) := by
  unfold binSlice canProcessNow
  dsimp only
  split
  . split
    . rfl
    . unfold fwdBinToRemote
      cases (s.setSlice key).getHash.isTidMaster
      . simp only [Bool.not_true, Bool.false_eq_true, if_false, Bool.not_false, if_true]
        split
        . split <;> rfl
        . rfl
      . simp
  . rfl

theorem binSlice_placed
    : ((s.setNoreply (setupNoreplyCmd hdr.opcode).2).markKey hdr.pKey hdr.keylen).binSlice hdr.toMaster
        hdr (s.reqKey hdr) =
      if hdr.toMaster = true ∧ s.MasterBusy hdr = true then ((s.placed hdr).putWaitQ, some .queued)
      else if hdr.toMaster = true ∧ s.IsSlave hdr = true then
        (((s.placed hdr).fwdBinToRemote (s.placed hdr).conn.m_pSlice hdr).1, some .forwarded)
      else (s.placed hdr, none) := by
  have hbusy : ((s.placed hdr).mc.m_bConfigReplication &&
      !(((s.placed hdr).sliceAt (s.placed hdr).conn.m_pSlice).m_hashByUser none).isTidMaster &&
      ((s.placed hdr).sliceAt (s.placed hdr).conn.m_pSlice).remote.remBusy) = s.MasterBusy hdr := rfl
  have hslave : (s.placed hdr).getHash.isTidMaster = !s.IsSlave hdr := by
    simp only [IsSlave, Bool.not_not]
    rfl
  rw [binSlice_eq]
  unfold placed at hbusy hslave ⊢
  rw [hbusy, hslave]
  cases hdr.toMaster <;> cases s.MasterBusy hdr <;> cases s.IsSlave hdr <;> simp

theorem binSetup_eq (s : McCall) (hdr : McBinCmdHdr)
    : s.binSetup hdr =
      if KEY_MAXLEN < hdr.keylen then (s.setNoreply (setupNoreplyCmd hdr.opcode).2, .invalid)
      else if hdr.toMaster = true ∧ s.MasterBusy hdr = true then ((s.placed hdr).putWaitQ, .queued)
      else if hdr.toMaster = true ∧ s.IsSlave hdr = true then
        (((s.placed hdr).fwdBinToRemote (s.placed hdr).conn.m_pSlice hdr).1, .forwarded)
      else s.localSetup hdr := by
  have hslice := @binSlice_placed s hdr
  have hkey : ((s.setNoreply (setupNoreplyCmd hdr.opcode).2).markKey hdr.pKey hdr.keylen).mc.m_parms.key =
      s.reqKey hdr := rfl
  unfold binSetup setupBinCmd localSetup
  simp only [binKey_eq_markKey]
  split
  . rfl
  . by_cases hbody : hdr.totbody = hdr.keylen
    . have hp : hdr.pKey = sizeofBinHdr := if_pos hbody
      have hm : hdr.toMaster = decide (binCmd hdr = MC_BINCMD_DELETE) := if_pos hbody
      rw [if_pos hbody, if_pos hbody, ← hm, ← hp]
      rw [hkey, hslice]
      by_cases hq : hdr.toMaster = true ∧ s.MasterBusy hdr = true
      . rw [if_pos hq, if_pos hq]
      . rw [if_neg hq, if_neg hq]
        by_cases hf : hdr.toMaster = true ∧ s.IsSlave hdr = true
        . rw [if_pos hf, if_pos hf]
        . rw [if_neg hf, if_neg hf]
          rfl
    . have hp : hdr.pKey = sizeofBinHdr + hdr.extralen := if_neg hbody
      have hm : hdr.toMaster = isRemoteEligible (binCmd hdr) := if_neg hbody
      rw [if_neg hbody, if_neg hbody, ← hm, ← hp]
      rw [hkey, hslice]
      by_cases hq : hdr.toMaster = true ∧ s.MasterBusy hdr = true
      . rw [if_pos hq, if_pos hq]
      . rw [if_neg hq, if_neg hq]
        by_cases hf : hdr.toMaster = true ∧ s.IsSlave hdr = true
        . rw [if_pos hf, if_pos hf]
        . rw [if_neg hf, if_neg hf]

theorem setupExtras_wrong {cmd n : Nat} (hcheck : checkedExtra cmd = some n) (hne : hdr.extralen ≠ n)
    (pReqX pVal : Nat) : s.setupExtras hdr cmd pReqX pVal = (s, .invalid) := by
  unfold checkedExtra at hcheck
  unfold setupExtras
  split at hcheck
  . rename_i hset
    cases hcheck
    simp only [if_pos hset, if_pos hne]
  . rename_i hset
    rw [if_neg hset]
    split at hcheck
    . rename_i htouch
      cases hcheck
      rw [if_pos htouch, if_pos hne]
    . rename_i htouch
      rw [if_neg htouch]
      split at hcheck
      . rename_i hincr
        cases hcheck
        rw [if_pos hincr, if_pos hne]
      . rename_i hincr
        split at hcheck
        . rename_i hverb
          cases hcheck
          rw [if_neg hincr, if_neg (by rw [hverb]; decide), if_pos hverb, if_pos hne]
        . cases hcheck

section

variable (arg : Nat)

theorem chkMemSz_frame
    : (s.chkMemSz arg).1.mc.m_parms = s.mc.m_parms ∧ (s.chkMemSz arg).1.conn = s.conn ∧
      (s.chkMemSz arg).1.mc.m_mcparms = s.mc.m_mcparms := by
  unfold chkMemSz
  dsimp only
  split
  . split
    . exact ⟨rfl, rfl, rfl⟩
    . exact ⟨rfl, rfl, rfl⟩
  . split
    . exact ⟨rfl, rfl, rfl⟩
    . split
      . exact ⟨rfl, rfl, rfl⟩
      . split
        . exact ⟨rfl, rfl, rfl⟩
        . exact ⟨rfl, rfl, rfl⟩

end

theorem setupExtras_own {cmd : Nat} (hok : ∀ n, checkedExtra cmd = some n → hdr.extralen = n)
    : let r := s.setupExtras hdr cmd sizeofBinHdr (sizeofBinHdr + hdr.extralen + hdr.keylen)
      r.1.mc.m_parms.key = s.mc.m_parms.key ∧ r.1.conn = s.conn ∧
        ((∃ pVal opt, r.2 = .body pVal opt ∧
            (s.mc.m_parms.val.len = hdr.vallen → OwnArg s.conn.m_bufIncoming hdr cmd r.1 pVal opt)) ∨
          ∃ stat, r.2 = .err stat ∧ r.1.mc.m_parms.val.len = s.mc.m_parms.val.len) := by
  obtain ⟨hparms, hconn, hmc⟩ := chkMemSz_frame (s := s) cmd
  unfold checkedExtra at hok
  unfold setupExtras OwnArg
  dsimp only
  by_cases hset : cmd = MC_BINCMD_REPLACE ∨ cmd = MC_BINCMD_ADD ∨ cmd = MC_BINCMD_SET
  . simp only [if_pos hset, Option.some.injEq, forall_eq'] at hok ⊢
    rw [if_neg (not_not.mpr hok)]
    split
    . exact ⟨congrArg StrPair.key hparms, hconn, .inr ⟨_, rfl, by rw [hparms]⟩⟩
    . have hkey : (s.chkMemSz cmd).1.mc.m_parms.key = s.mc.m_parms.key := by rw [hparms]
      refine ⟨hkey, hconn, .inl ⟨_, _, rfl, fun hval => ⟨rfl, ?_, rfl⟩⟩⟩
      show (s.chkMemSz cmd).1.mc.m_parms.val.len + _ = hdr.vallen + _
      rw [hparms, hval]
      rfl
  . simp only [if_neg hset] at hok ⊢
    by_cases htouch : cmd = MC_BINCMD_TOUCH ∨ cmd = MC_BINCMD_GAT ∨ cmd = MC_BINCMD_GATK ∨
        cmd = MC_BINCMD_FLUSH
    . simp only [if_pos htouch, Option.some.injEq, forall_eq'] at hok ⊢
      rw [if_neg (not_not.mpr hok)]
      refine ⟨rfl, rfl, .inl ⟨_, _, rfl, fun _ => ?_⟩⟩
      rw [if_pos (by tauto)]
      rfl
    . have htouch' : ¬ (cmd = MC_BINCMD_TOUCH ∨ cmd = MC_BINCMD_GAT ∨ cmd = MC_BINCMD_GATK ∨
          cmd = MC_BINCMD_FLUSH ∧ hdr.extralen = 4) := by tauto
      simp only [if_neg htouch, if_neg htouch'] at hok ⊢
      by_cases hincr : cmd = MC_BINCMD_INCREMENT ∨ cmd = MC_BINCMD_DECREMENT
      . simp only [if_pos hincr, Option.some.injEq, forall_eq'] at hok ⊢
        rw [if_neg (not_not.mpr hok)]
        exact ⟨rfl, rfl, .inl ⟨_, _, rfl, fun _ => ⟨rfl, rfl, rfl⟩⟩⟩
      . simp only [if_neg hincr] at hok ⊢
        by_cases happend : cmd = MC_BINCMD_APPEND ∨ cmd = MC_BINCMD_PREPEND
        . simp only [if_pos happend]
          split
          . exact ⟨congrArg StrPair.key hparms, hconn, .inr ⟨_, rfl, by rw [hparms]⟩⟩
          . exact ⟨congrArg StrPair.key hparms, hconn, .inl ⟨_, _, rfl, fun hval =>
              ⟨rfl, by rw [hparms, hval], rfl⟩⟩⟩
        . simp only [if_neg happend]
          split
          . rename_i hverb
            simp only [if_pos hverb, Option.some.injEq, forall_eq'] at hok
            rw [if_neg (not_not.mpr hok)]
            exact ⟨rfl, rfl, .inl ⟨_, _, rfl, fun _ => trivial⟩⟩
          . exact ⟨rfl, rfl, .inl ⟨_, _, rfl, fun _ => trivial⟩⟩

theorem localSetup_wrong (h : hdr.WrongExtra)
    : (s.localSetup hdr).2 = .invalid ∧
      (s.localSetup hdr).1.mc.m_pHashMulti = s.mc.m_pHashMulti ∧
      (s.localSetup hdr).1.conn.out = s.conn.out := by
  obtain ⟨hbody, n, hcheck, hne⟩ := h
  unfold localSetup
  rw [if_neg hbody]
  dsimp only
  rw [setupExtras_wrong hcheck hne]
  exact ⟨rfl, rfl, rfl⟩

theorem localSetup_ok (h : ¬ hdr.WrongExtra)
    : (∃ pVal opt, (s.localSetup hdr).2 = .body pVal opt) ∨ ∃ stat, (s.localSetup hdr).2 = .err stat := by
  unfold localSetup
  by_cases hbody : hdr.totbody = hdr.keylen
  . rw [if_pos hbody]
    exact .inl ⟨_, _, rfl⟩
  . rw [if_neg hbody]
    have hok : ∀ n, checkedExtra (binCmd hdr) = some n → hdr.extralen = n := by
      intro n hcheck
      by_contra hne
      exact h ⟨hbody, n, hcheck, hne⟩
    obtain ⟨-, -, ⟨pVal, opt, h, -⟩ | ⟨stat, h, -⟩⟩ := setupExtras_own (s := ((s.placed hdr).setVal
      ((hdr.totbody + 2 ^ 33 - hdr.keylen - hdr.extralen) % 2 ^ 32)).swapCas) hok
    . exact .inl ⟨pVal, opt, h⟩
    . exact .inr ⟨stat, h⟩

theorem executes_iff
    : s.Executes hdr ↔ s.saslRefuses hdr.opcode = false ∧ KnownCmd (binCmd hdr) ∧
      hdr.keylen ≤ KEY_MAXLEN ∧ ¬ s.CutOff hdr ∧ (s.Handed hdr ∨ ¬ hdr.WrongExtra) := by
  unfold Executes CutOff Handed
  rw [binSetup_eq]
  by_cases hkey : KEY_MAXLEN < hdr.keylen
  . rw [if_pos hkey]
    simp only [ne_eq, not_true_eq_false, false_and, and_false, false_iff]
    omega
  . rw [if_neg hkey]
    have hkey' : hdr.keylen ≤ KEY_MAXLEN := by omega
    by_cases hq : hdr.toMaster = true ∧ s.MasterBusy hdr = true
    . rw [if_pos hq]
      simp [hkey', hq.1, hq.2]
    . rw [if_neg hq]
      by_cases hf : hdr.toMaster = true ∧ s.IsSlave hdr = true
      . have hbusy : s.MasterBusy hdr = false := by
          cases h : s.MasterBusy hdr
          . rfl
          . exact absurd ⟨hf.1, h⟩ hq
        rw [if_pos hf]
        cases h : s.MasterConnected hdr <;> simp [hkey', hf.1, hf.2, hbusy]
      . rw [if_neg hf]
        by_cases hwrong : hdr.WrongExtra
        . constructor
          . rintro ⟨-, -, hne, -⟩
            exact absurd (localSetup_wrong hwrong).1 hne
          . rintro ⟨-, -, -, -, ⟨hm, hb | ⟨hs, -⟩⟩ | hok⟩
            . exact absurd ⟨hm, hb⟩ hq
            . exact absurd ⟨hm, hs⟩ hf
            . exact absurd hwrong hok
        . obtain ⟨pVal, opt, h⟩ | ⟨stat, h⟩ := localSetup_ok (s := s) hwrong
          . simp [h, hkey', hwrong]
            tauto
          . simp [h, hkey', hwrong]
            tauto

theorem localSetup_unknown (h : ¬ KnownCmd (binCmd hdr))
    : (∃ pVal opt, (s.localSetup hdr).2 = .body pVal opt) ∧
      (s.localSetup hdr).1.mc.m_pHashMulti = s.mc.m_pHashMulti ∧
      (s.localSetup hdr).1.conn.out = s.conn.out := by
  unfold localSetup
  by_cases hbody : hdr.totbody = hdr.keylen
  . rw [if_pos hbody]
    exact ⟨⟨_, _, rfl⟩, rfl, rfl⟩
  . rw [if_neg hbody]
    simp only [KnownCmd, List.mem_cons, List.not_mem_nil, or_false, not_or] at h
    have hextras : ∀ (t : McCall) (pReqX pVal : Nat),
        t.setupExtras hdr (binCmd hdr) pReqX pVal = (t, .body pVal t.mc.env.updOpt) := by
      intro t pReqX pVal
      simp [setupExtras, h]
    dsimp only
    rw [hextras]
    exact ⟨⟨_, _, rfl⟩, rfl, rfl⟩

theorem runBinCmd_unknown {cmd : Nat} (h : ¬ KnownCmd cmd) (pVal : Nat) (opt : LsMcUpdOpt)
    : s.runBinCmd hdr cmd pVal opt = (s.binStart.binErrRespond hdr .UNKNOWNCMD, true) := by
  simp only [KnownCmd, List.mem_cons, List.not_mem_nil, or_false, not_or] at h
  simp [runBinCmd, binStart, h]

theorem not_toMaster (h : ¬ KnownCmd (binCmd hdr)) : hdr.toMaster = false := by
  simp only [KnownCmd, List.mem_cons, List.not_mem_nil, or_false, not_or] at h
  unfold McBinCmdHdr.toMaster
  split
  . simp [h]
  . simp [isRemoteEligible, h]

theorem fwdBinToRemote_cutOff (h : s.CutOff hdr)
    : ((s.placed hdr).fwdBinToRemote (s.placed hdr).conn.m_pSlice hdr).1 =
      (s.placed hdr).binErrRespond hdr .REMOTEERROR := by
  obtain ⟨-, -, hslave, hconn⟩ := h
  have hslave' : (!(s.placed hdr).getHash.isTidMaster) = true := hslave
  have hconn' : ((s.placed hdr).sliceAt (s.placed hdr).conn.m_pSlice).remote.connected = false := hconn
  unfold fwdBinToRemote
  rw [if_pos hslave', if_neg (by simp [hconn'])]

theorem binSetup_local (hkey : hdr.keylen ≤ KEY_MAXLEN)
    (h : hdr.toMaster = true → s.MasterBusy hdr = false ∧ s.IsSlave hdr = false)
    : s.binSetup hdr = s.localSetup hdr := by
  rw [binSetup_eq, if_neg (by omega), if_neg, if_neg]
  . rintro ⟨hm, hs⟩
    rw [(h hm).2] at hs
    cases hs
  . rintro ⟨hm, hb⟩
    rw [(h hm).1] at hb
    cases hb

theorem local_of_not_handed (hhanded : ¬ s.Handed hdr) (hcut : ¬ s.CutOff hdr) (hm : hdr.toMaster = true)
    : s.MasterBusy hdr = false ∧ s.IsSlave hdr = false := by
  unfold Handed at hhanded
  unfold CutOff at hcut
  cases hb : s.MasterBusy hdr <;> cases hs : s.IsSlave hdr <;> cases hc : s.MasterConnected hdr <;>
    simp_all

theorem processBinReq_after (s : McCall) (hdr : McBinCmdHdr) (consumed : Int)
    : s.processBinReq hdr consumed =
      if s.saslRefuses hdr.opcode then (s.binErrRespond hdr .AUTHERROR, 0)
      else match (s.binSetup hdr).2 with
        | .invalid => ((s.binSetup hdr).1.binErrRespond hdr .EINVAL, consumed)
        | .queued => ((s.binSetup hdr).1, -1)
        | .forwarded => ((s.binSetup hdr).1, consumed)
        | .err stat => ((s.binSetup hdr).1.binErrRespond hdr stat, consumed)
        | .body pVal opt =>
          let q := (s.binSetup hdr).1.runBinCmd hdr (binCmd hdr) pVal opt
          if !q.2 then (q.1, 0)
          else (q.1, if q.1.conn.cmdWait then -1 else consumed) := rfl

theorem refused_of_not_executes (hex : ¬ s.Executes hdr) (consumed : Int)
    : s.RefusedBy hdr (s.processBinReq hdr consumed).1 := by
  rw [processBinReq_after]
  by_cases hsasl : s.saslRefuses hdr.opcode = true
  . rw [if_pos hsasl]
    exact ⟨s, .AUTHERROR, by decide, rfl, rfl, rfl⟩
  . rw [if_neg hsasl]
    by_cases hkey : KEY_MAXLEN < hdr.keylen
    . rw [binSetup_eq, if_pos hkey]
      exact ⟨_, .EINVAL, by decide, rfl, rfl, rfl⟩
    . have hkey' : hdr.keylen ≤ KEY_MAXLEN := by omega
      by_cases hknown : KnownCmd (binCmd hdr)
      . by_cases hcut : s.CutOff hdr
        . have hset : s.binSetup hdr = ((s.placed hdr).binErrRespond hdr .REMOTEERROR, .forwarded) := by
            rw [binSetup_eq, if_neg hkey, if_neg (by simp [hcut.2.1]), if_pos ⟨hcut.1, hcut.2.2.1⟩,
              fwdBinToRemote_cutOff hcut]
          rw [hset]
          exact ⟨s.placed hdr, .REMOTEERROR, by decide, rfl, rfl, rfl⟩
        . have hhanded : ¬ s.Handed hdr ∧ hdr.WrongExtra := by
            rw [executes_iff] at hex
            have hsasl' : s.saslRefuses hdr.opcode = false := by simpa using hsasl
            tauto
          obtain ⟨hinv, hmulti, hout⟩ := localSetup_wrong (s := s) hhanded.2
          rw [binSetup_local hkey' (local_of_not_handed hhanded.1 hcut), hinv]
          exact ⟨_, .EINVAL, by decide, rfl, hmulti, hout⟩
      . obtain ⟨⟨pVal, opt, hret⟩, hmulti, hout⟩ := localSetup_unknown (s := s) hknown
        rw [binSetup_local hkey' (by simp [not_toMaster hknown]), hret]
        dsimp only
        rw [runBinCmd_unknown hknown]
        exact ⟨_, .UNKNOWNCMD, by decide, rfl, hmulti, hout⟩

theorem readBe_congr {buf buf' : List UInt8} (h : buf.drop sizeofBinHdr = buf'.drop sizeofBinHdr) (n : Nat)
    {p : Nat} (hp : sizeofBinHdr ≤ p) : readBe buf p n = readBe buf' p n := by
  induction n generalizing p with
  | zero => rfl
  | succ n ih =>
    have hbyte : byteAt buf p = byteAt buf' p := by
      have hget := congrArg (fun l => l.getD (p - sizeofBinHdr) 0) h
      simp only [List.getD_eq_getElem?_getD, List.getElem?_drop, Nat.add_sub_cancel' hp] at hget
      simpa only [byteAt, List.getD_eq_getElem?_getD] using hget
    simp only [readBe, hbyte]
    rw [ih (Nat.le_succ_of_le hp)]

theorem readBe_lt (buf : List UInt8) (p n : Nat) : readBe buf p n < 256 ^ n := by
  induction n generalizing p with
  | zero => simp [readBe]
  | succ n ih =>
    have hbyte := (byteAt buf p).toNat_lt
    have hmul : (byteAt buf p).toNat * 256 ^ n ≤ 255 * 256 ^ n := Nat.mul_le_mul_right _ (by omega)
    have hrest := ih (p + 1)
    rw [readBe, Nat.pow_succ]
    omega

theorem drop_swapCas (h : sizeofBinHdr ≤ s.conn.m_bufIncoming.length)
    : s.swapCas.conn.m_bufIncoming.drop sizeofBinHdr = s.conn.m_bufIncoming.drop sizeofBinHdr := by
  have hlen : (s.conn.m_bufIncoming.take 16 ++ (bufBytes s.conn.m_bufIncoming 16 8).reverse).length =
      sizeofBinHdr := by
    simp only [sizeofBinHdr] at h ⊢
    simp [bufBytes]
    omega
  unfold swapCas
  dsimp only
  rw [List.drop_append_of_le_length (by omega), List.drop_eq_nil_of_le (by omega)]
  rfl

theorem ownArg_congr {buf buf' : List UInt8} (h : buf.drop sizeofBinHdr = buf'.drop sizeofBinHdr)
    {cmd : Nat} {r : McCall} {pVal : Nat} {opt : LsMcUpdOpt} (hown : OwnArg buf hdr cmd r pVal opt)
    : OwnArg buf' hdr cmd r pVal opt := by
  unfold OwnArg at hown ⊢
  rw [← readBe_congr h 4 (Nat.le_add_right _ _), ← readBe_congr h 4 (Nat.le_refl _),
    ← readBe_congr h 8 (Nat.le_refl _)]
  exact hown

theorem ownArg_noExtra (hvalid : hdr.Valid) (hbody : hdr.totbody = hdr.keylen) (hno : ¬ hdr.NoValue)
    {buf : List UInt8} {r : McCall} {pVal : Nat} {opt : LsMcUpdOpt}
    : OwnArg buf hdr (binCmd hdr) r pVal opt := by
  have hextra : hdr.extralen = 0 := by
    have := hvalid.fits
    omega
  have hsize := hvalid.extra
  unfold ExtraSize at hsize
  rw [hextra] at hsize
  unfold OwnArg
  split
  . rename_i hset
    rw [if_pos hset] at hsize
    cases hsize
  . rename_i hset
    rw [if_neg hset] at hsize
    split
    . rename_i htouch
      rw [hextra] at htouch
      rw [if_pos (by tauto)] at hsize
      cases hsize
    . rename_i htouch
      split
      . rename_i hincr
        rw [if_neg (by rcases hincr with h | h <;> rw [h] <;> decide),
          if_neg (by rcases hincr with h | h <;> rw [h] <;> decide), if_pos hincr] at hsize
        cases hsize
      . split
        . rename_i happend
          exact absurd ⟨happend, hbody⟩ hno
        . trivial

theorem parms_putWaitQ : s.putWaitQ.mc.m_parms = s.mc.m_parms ∧
    s.putWaitQ.conn.m_bufIncoming = s.conn.m_bufIncoming := by
  unfold putWaitQ
  split
  . exact ⟨rfl, rfl⟩
  . refine ⟨?_, rfl⟩
    dsimp only
    split <;> rfl

theorem parms_binRespond (buf : List UInt8)
    : (s.binRespond buf).mc.m_parms = s.mc.m_parms ∧
      (s.binRespond buf).conn.m_bufIncoming = s.conn.m_bufIncoming := by
  unfold binRespond ackNoreply
  split
  . split <;> exact ⟨rfl, rfl⟩
  . exact ⟨rfl, rfl⟩

theorem parms_fwdBinToRemote (i : Nat)
    : (s.fwdBinToRemote i hdr).1.mc.m_parms = s.mc.m_parms ∧
      (s.fwdBinToRemote i hdr).1.conn.m_bufIncoming = s.conn.m_bufIncoming := by
  unfold fwdBinToRemote fwdCommand
  split
  . split
    . dsimp only
      split
      . exact ⟨rfl, rfl⟩
      . split <;> exact ⟨rfl, rfl⟩
    . unfold binErrRespond
      simp only [parms_binRespond]
      exact ⟨rfl, rfl⟩
  . exact ⟨rfl, rfl⟩

theorem reqKey_of_valid (hvalid : hdr.Valid)
    : s.reqKey hdr = bufBytes s.conn.m_bufIncoming (sizeofBinHdr + hdr.extralen) hdr.keylen := by
  unfold reqKey McBinCmdHdr.pKey
  split
  . have hextra : hdr.extralen = 0 := by
      have := hvalid.fits
      omega
    rw [hextra]
    rfl
  . rfl

theorem vallen_eq (hvalid : hdr.Valid) (htot : hdr.totbody < 2 ^ 32)
    : (hdr.totbody + 2 ^ 33 - hdr.keylen - hdr.extralen) % 2 ^ 32 = hdr.vallen := by
  have := hvalid.fits
  unfold McBinCmdHdr.vallen
  omega

theorem ownSetup_local (h24 : sizeofBinHdr ≤ s.conn.m_bufIncoming.length) (htot : hdr.totbody < 2 ^ 32)
    (hvalid : hdr.Valid) (hno : ¬ hdr.NoValue) (hwrong : ¬ hdr.WrongExtra)
    : OwnSetup s.conn.m_bufIncoming hdr (s.localSetup hdr) := by
  have hkey := reqKey_of_valid (s := s) hvalid
  unfold localSetup
  by_cases hbody : hdr.totbody = hdr.keylen
  . rw [if_pos hbody]
    exact ⟨hkey, drop_swapCas (s := s.placed hdr) h24, ownArg_noExtra hvalid hbody hno⟩
  . rw [if_neg hbody]
    dsimp only
    rw [vallen_eq hvalid htot]
    have hok : ∀ n, checkedExtra (binCmd hdr) = some n → hdr.extralen = n := by
      intro n hcheck
      by_contra hne
      exact hwrong ⟨hbody, n, hcheck, hne⟩
    have hdrop := drop_swapCas (s := (s.placed hdr).setVal hdr.vallen) h24
    obtain ⟨hparms, hconn, ⟨pVal, opt, hret, hown⟩ | ⟨stat, hret, hlen⟩⟩ :=
      setupExtras_own (s := ((s.placed hdr).setVal hdr.vallen).swapCas) hok
    . refine ⟨hparms.trans hkey, by rw [hconn]; exact hdrop, ?_⟩
      rw [hret]
      exact ownArg_congr hdrop (hown rfl)
    . refine ⟨hparms.trans hkey, by rw [hconn]; exact hdrop, ?_⟩
      rw [hret]
      exact hlen

theorem ownSetup_of_valid (h24 : sizeofBinHdr ≤ s.conn.m_bufIncoming.length) (htot : hdr.totbody < 2 ^ 32)
    (hvalid : hdr.Valid) (hno : ¬ hdr.NoValue) (hex : s.Executes hdr)
    : OwnSetup s.conn.m_bufIncoming hdr (s.binSetup hdr) := by
  have hkey := reqKey_of_valid (s := s) hvalid
  rw [executes_iff] at hex
  obtain ⟨-, -, hlen, hcut, hok⟩ := hex
  rw [binSetup_eq, if_neg (by omega)]
  split
  . obtain ⟨hparms, hbuf⟩ := parms_putWaitQ (s := s.placed hdr)
    exact ⟨by rw [hparms]; exact hkey, by rw [hbuf]; rfl, trivial⟩
  . rename_i hbusy
    split
    . obtain ⟨hparms, hbuf⟩ := @parms_fwdBinToRemote (s.placed hdr) hdr
        (s.placed hdr).conn.m_pSlice
      exact ⟨by rw [hparms]; exact hkey, by rw [hbuf]; rfl, trivial⟩
    . rename_i hslave
      apply ownSetup_local h24 htot hvalid hno
      rcases hok with ⟨hm, hb | ⟨hs, -⟩⟩ | hok
      . exact absurd ⟨hm, hb⟩ hbusy
      . exact absurd ⟨hm, hs⟩ hslave
      . exact hok

theorem not_ownSetup_noValue (hno : hdr.NoValue) (hex : s.Executes hdr)
    : ¬ ∀ val item, OwnSetup s.conn.m_bufIncoming hdr ((s.withLeft val item).binSetup hdr) := by
  intro hown
  obtain ⟨happend, hbody⟩ := hno
  have hlen : hdr.keylen ≤ KEY_MAXLEN := (executes_iff.mp hex).2.2.1
  have hm : hdr.toMaster = false := by
    unfold McBinCmdHdr.toMaster
    rw [if_pos hbody]
    rcases happend with h | h <;> rw [h] <;> decide
  obtain ⟨-, -, harg⟩ := hown ⟨hdr.vallen + 1, none⟩ s.mc.m_item
  rw [binSetup_local hlen (by simp [hm]), localSetup, if_pos hbody] at harg
  dsimp only at harg
  unfold OwnArg at harg
  rw [if_neg (by rcases happend with h | h <;> rw [h] <;> decide), if_neg, if_neg, if_pos happend] at harg
  . have hval : hdr.vallen + 1 = hdr.vallen := harg.2.1
    omega
  . rcases happend with h | h <;> rw [h] <;> decide
  . rintro (h' | h' | h' | ⟨h', -⟩) <;> rcases happend with h | h <;> rw [h] at h' <;> revert h' <;> decide

def Complete (s : McCall) : Prop :=
  sizeofBinHdr ≤ s.conn.m_bufIncoming.length ∧
    toInt32 (sizeofBinHdr + (McBinCmdHdr.ofBuf s.conn.m_bufIncoming).totbody) ≤
      (s.conn.m_bufIncoming.length : Int)

theorem processBinCmd_complete (h : s.Complete)
    : s.processBinCmd = s.processBinReq (McBinCmdHdr.ofBuf s.conn.m_bufIncoming)
      (toInt32 (sizeofBinHdr + (McBinCmdHdr.ofBuf s.conn.m_bufIncoming).totbody)) := by
  unfold processBinCmd
  dsimp only
  rw [if_neg (Nat.not_lt.mpr h.1), if_neg (Int.not_lt.mpr h.2)]

end

def sampleCall (buf : List UInt8) : McCall :=
  let multi := sampleMulti (sampleSliceHash.get sampleSliceHash_isSome) sampleParms
  (((McWorld.start multi sampleParms false false sampleEnv).step .accept).call 0).setBuf buf

end McCall

end Lsmcd
