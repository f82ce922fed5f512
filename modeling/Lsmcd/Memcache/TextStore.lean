import Lsmcd.Memcache.BinAnswer
import Lsmcd.Memcache.Dispatch

/-!
A storage command of the text protocol, the data that follows its line, and its answer.
-/

namespace Lsmcd

def IsLine (str : List UInt8) : Prop :=
  str.drop (str.length - 2) = [CR, LF] ∧ LF ∉ str.take (str.length - 2)

instance : DecidablePred IsLine := fun _ => inferInstanceAs (Decidable (_ ∧ _))

def OutView.text (v : OutView) (str : List UInt8) : OutView :=
  if v.noreply then
    { v with noreply := false, out := v.out ++ (if v.internal then McCall.htons 2 else []) }
  else { v with out := v.out ++ (if v.internal then McCall.lenNbuf str else str) }

namespace McCall

variable {s : McCall} {str : List UInt8}

theorem outv_respond (s : McCall) (str : List UInt8) : (s.respond str).outv = s.outv.text str := by
  unfold respond OutView.text ackNoreply
  cases hnoreply : s.mc.m_noreply with
  | true =>
    cases hint : s.conn.internal with
    | true => simp [outv, hnoreply, hint, send, setNoreply]
    | false => simp [outv, hnoreply, hint, setNoreply]
  | false => simp [outv, hnoreply, send]

def StoreArg (arg : Nat) : Prop :=
  arg = MC_BINCMD_ADD ∨ arg = MC_BINCMD_SET ∨ arg = MC_BINCMD_REPLACE ∨ arg = MC_BINCMD_APPEND ∨
    arg = MC_BINCMD_PREPEND ∨ arg = MC_BINCMD_REPLACE ||| LSMC_WITHCAS

instance : DecidablePred StoreArg := fun _ => inferInstanceAs (Decidable (_ ∨ _))

theorem mem_of_matchCmd {pCmd : List UInt8} {iPossible iOffset : Nat} {p : LsMcCmdFunc}
    (h : matchCmd pCmd iPossible iOffset = some p) : p ∈ s_LsMcCmdFuncs := by
  unfold matchCmd at h
  split at h
  . cases h
  . rename_i q hq
    split at h
    . cases h
      exact List.mem_of_getElem? hq
    . cases h

theorem getCmdFunction_some {pCmd : List UInt8} {p : LsMcCmdFunc} (h : getCmdFunction pCmd = some p)
    : 3 ≤ pCmd.length ∧ p ∈ s_LsMcCmdFuncs := by
  unfold getCmdFunction at h
  dsimp only at h
  split at h
  . cases h
  . refine ⟨by omega, ?_⟩
    repeat' split at h
    all_goals first
      | exact mem_of_matchCmd h
      | exact List.mem_of_getElem? h
      | cases h

theorem storeArg_of_func {p : LsMcCmdFunc} (h : p ∈ s_LsMcCmdFuncs) (hfunc : p.func = .doCmdUpdate)
    : StoreArg p.arg := by
  have hall : ∀ p ∈ s_LsMcCmdFuncs, p.func = .doCmdUpdate → StoreArg p.arg := by decide
  exact hall p h hfunc

theorem retcode_stat (s : McCall) (f : LsMcStats → LsMcStats)
    : (s.stat f).mc.m_retcode = s.mc.m_retcode ∧ (s.stat f).mc.m_iterOff = s.mc.m_iterOff := by
  unfold stat
  split <;> exact ⟨rfl, rfl⟩

theorem iRetcode_doHashUpdate {opt : LsMcUpdOpt} (h : opt.m_iFlags &&& LSMC_CMDMASK = MC_BINCMD_REPLACE)
    (hoff : (s.doHashUpdate opt).2.2 ≠ 0) : (s.doHashUpdate opt).2.1.m_iRetcode = .DONE := by
  revert hoff
  unfold doHashUpdate
  dsimp only
  split
  . intro hoff
    exact absurd rfl hoff
  . split
    . intro hoff
      exact absurd rfl hoff
    . split
      . intro hoff
        exact absurd rfl hoff
      . unfold updateElem
        dsimp only
        split
        . intro hoff
          exact absurd rfl hoff
        . rw [h, if_neg (by decide), if_neg (by decide)]
          intro _
          rfl

def OneLine (v w : OutView) : Prop :=
  ∃ line, IsLine line ∧ w = v.text line

def Reports (s : McCall) : Prop :=
  s.mc.m_iterOff ≠ 0 → s.mc.m_retcode ≠ .NONE

theorem reports_storeOp {arg : Nat} (h : StoreArg arg) (cas : Nat) : (s.storeOp arg cas).Reports := by
  unfold storeOp Reports
  dsimp only
  by_cases hadd : arg = MC_BINCMD_ADD
  . rw [if_pos hadd]
    exact fun _ => nofun
  by_cases hset : arg = MC_BINCMD_SET
  . rw [if_neg hadd, if_pos hset]
    exact fun _ => nofun
  rw [if_neg hadd, if_neg hset]
  by_cases hreplace : arg = MC_BINCMD_REPLACE
  . rw [if_pos hreplace]
    exact fun _ => nofun
  by_cases happend : arg = MC_BINCMD_APPEND
  . rw [if_neg hreplace, if_pos happend]
    exact fun _ => nofun
  by_cases hprepend : arg = MC_BINCMD_PREPEND
  . rw [if_neg hreplace, if_neg happend, if_pos hprepend]
    exact fun _ => nofun
  -- what is left is `cas`
  have hcas : arg = MC_BINCMD_REPLACE ||| LSMC_WITHCAS := by
    rcases h with h | h | h | h | h | h
    . exact absurd h hadd
    . exact absurd h hset
    . exact absurd h hreplace
    . exact absurd h happend
    . exact absurd h hprepend
    . exact h
  rw [if_neg hreplace, if_neg happend, if_neg hprepend,
    if_neg (fun hor => hor.1.elim happend hprepend), (retcode_stat _ _).1, (retcode_stat _ _).2]
  intro hoff
  have hcmd : arg &&& LSMC_CMDMASK = MC_BINCMD_REPLACE := by
    rw [hcas]
    decide
  have hdone := iRetcode_doHashUpdate hcmd hoff
  intro hnone
  have hdone := hdone.symm.trans hnone
  cases hdone

theorem outv_storeOp (arg cas : Nat) : (s.storeOp arg cas).outv = s.outv := by
  unfold storeOp
  dsimp only
  split
  . simp
  . split
    . simp
    . split
      . simp
      . split
        . simp
        . split <;> simp

theorem retcode_dataItemUpdate (buf : List UInt8)
    : (s.dataItemUpdate buf).mc.m_retcode = .INTERNAL_ERROR ∨
      (s.dataItemUpdate buf).mc.m_retcode = s.mc.m_retcode := by
  have hcas : ∀ (t : McCall) (e : LsShmHElem), (t.putCas e).1.mc.m_retcode = t.mc.m_retcode := by
    intro t e
    unfold putCas getCas
    split
    . dsimp only
      split <;> rfl
    . rfl
  unfold dataItemUpdate
  dsimp only
  split
  . exact Or.inl rfl
  . apply Or.inr
    refine (hcas _ _).trans ?_
    split <;> rfl

theorem retcode_notifyChange : s.notifyChange.mc.m_retcode = s.mc.m_retcode := by
  unfold notifyChange
  split <;> rfl

theorem oneLine_respond (h : IsLine str) : OneLine s.outv (s.respond str).outv :=
  ⟨str, h, outv_respond s str⟩

theorem oneLine_doDataUpdate (h : s.Reports) (buf : List UInt8)
    : OneLine s.outv (s.doDataUpdate buf).outv := by
  unfold doDataUpdate
  dsimp only
  split
  . exact oneLine_respond (by decide)
  . split
    . rename_i hoff
      have hret : ((s.setKey []).dataItemUpdate buf).notifyChange.mc.m_retcode ≠ .NONE := by
        rw [retcode_notifyChange]
        rcases retcode_dataItemUpdate (s := s.setKey []) buf with hint | hsame
        . rw [hint]
          decide
        . rw [hsame]
          exact h hoff
      rw [if_pos hret, outv_setIterOff]
      have hview : ((s.setKey []).dataItemUpdate buf).notifyChange.outv = s.outv := by simp
      rw [← hview]
      exact oneLine_respond (by decide)
    . split
      . exact oneLine_respond (by decide)
      . split <;> exact oneLine_respond (by decide)

theorem storeCmd_spec {arg : Nat} (h : StoreArg arg) (i : McInput) (flags exptime length cas : Nat)
    : OneLine s.outv (s.storeCmd i arg flags exptime length cas).1.outv ∧
      (s.storeCmd i arg flags exptime length cas).2 = dataLen length := by
  unfold storeCmd
  dsimp only
  generalize hstart : (s.setItem { x_exptime := exptime, x_flags := flags }).setVal
    (if arg = MC_BINCMD_APPEND ∨ arg = MC_BINCMD_PREPEND then length else
      (s.setItem { x_exptime := exptime, x_flags := flags }).parmAdjLen length) = t
  have hview : (t.chkMemSz arg).1.outv = s.outv := by
    rw [← hstart]
    simp
  rw [← hview]
  split
  . exact ⟨oneLine_respond (by decide), rfl⟩
  . split
    . exact ⟨oneLine_respond (by decide), rfl⟩
    . refine ⟨?_, rfl⟩
      have hpre : (((t.chkMemSz arg).1.stat fun st => { st with set_cmds := st.set_cmds + 1 }).storeOp
          arg cas).outv = (t.chkMemSz arg).1.outv := by
        rw [outv_storeOp, outv_stat]
      rw [← hpre]
      have hneeded : ∀ u : McCall, u.Reports →
          OneLine u.outv ((u.setNeeded length).doDataUpdate i.data).outv := fun u hu =>
        oneLine_doDataUpdate (s := u.setNeeded length) hu i.data
      exact hneeded _ (reports_storeOp h cas)

section Buf

variable (s)

theorem buf_respond (str : List UInt8)
    : (s.respond str).conn.m_bufIncoming = s.conn.m_bufIncoming := by
  unfold respond ackNoreply
  split
  . split <;> rfl
  . rfl

theorem buf_stat (f : LsMcStats → LsMcStats) : (s.stat f).conn.m_bufIncoming = s.conn.m_bufIncoming := by
  unfold stat
  split <;> rfl

theorem buf_notifyChange : s.notifyChange.conn.m_bufIncoming = s.conn.m_bufIncoming := by
  unfold notifyChange
  split <;> rfl

theorem buf_chkMemSz (arg : Nat)
    : (s.chkMemSz arg).1.conn.m_bufIncoming = s.conn.m_bufIncoming := by
  unfold chkMemSz
  dsimp only
  split
  . split <;> rfl
  . split
    . rfl
    . split
      . rfl
      . split <;> rfl

theorem buf_doHashInsert (opt : LsMcUpdOpt)
    : (s.doHashInsert opt).1.conn.m_bufIncoming = s.conn.m_bufIncoming := by
  unfold doHashInsert
  dsimp only
  split
  . split
    . rfl
    . split <;> rfl
  . rfl

theorem buf_storeOp (arg cas : Nat)
    : (s.storeOp arg cas).conn.m_bufIncoming = s.conn.m_bufIncoming := by
  unfold storeOp
  dsimp only
  split
  . exact buf_doHashInsert ..
  . split
    . rfl
    . split
      . exact buf_doHashUpdate ..
      . split
        . exact buf_doHashUpdate ..
        . split
          . exact buf_doHashUpdate ..
          . rw [buf_stat]
            exact buf_doHashUpdate ..

theorem buf_dataItemUpdate (buf : List UInt8)
    : (s.dataItemUpdate buf).conn.m_bufIncoming = s.conn.m_bufIncoming := by
  have hcas : ∀ (t : McCall) (e : LsShmHElem),
      (t.putCas e).1.conn.m_bufIncoming = t.conn.m_bufIncoming := by
    intro t e
    unfold putCas getCas
    split
    . dsimp only
      split <;> rfl
    . rfl
  unfold dataItemUpdate
  dsimp only
  split
  . rfl
  . refine (hcas _ _).trans ?_
    split <;> rfl

theorem buf_doDataUpdate (buf : List UInt8)
    : (s.doDataUpdate buf).conn.m_bufIncoming = s.conn.m_bufIncoming := by
  have hupdate : ((s.setKey []).dataItemUpdate buf).notifyChange.conn.m_bufIncoming =
      s.conn.m_bufIncoming := by
    rw [buf_notifyChange, buf_dataItemUpdate]
    rfl
  unfold doDataUpdate
  dsimp only
  split
  . exact buf_respond ..
  . split
    . split
      . exact (buf_respond ..).trans hupdate
      . exact hupdate
    . split
      . exact buf_respond ..
      . split <;> exact buf_respond ..

theorem buf_storeCmd (i : McInput) (arg flags exptime length cas : Nat)
    : (s.storeCmd i arg flags exptime length cas).1.conn.m_bufIncoming = s.conn.m_bufIncoming := by
  unfold storeCmd
  dsimp only
  generalize hstart : (s.setItem { x_exptime := exptime, x_flags := flags }).setVal
    (if arg = MC_BINCMD_APPEND ∨ arg = MC_BINCMD_PREPEND then length else
      (s.setItem { x_exptime := exptime, x_flags := flags }).parmAdjLen length) = t
  have hbuf : (t.chkMemSz arg).1.conn.m_bufIncoming = s.conn.m_bufIncoming := by
    rw [buf_chkMemSz, ← hstart]
    rfl
  split
  . exact (buf_respond ..).trans hbuf
  . split
    . exact (buf_respond ..).trans hbuf
    . have hneeded : ∀ (t : McCall) (n : Int),
          (t.setNeeded n).conn.m_bufIncoming = t.conn.m_bufIncoming := fun _ _ => rfl
      rw [buf_doDataUpdate, hneeded, buf_storeOp, buf_stat]
      exact hbuf

end Buf

end McCall

/--
A line without a command: it has no token before its last byte, which `processCmd` leaves out.
-/
def EmptyLine (line : List UInt8) : Prop :=
  ∀ b ∈ line.dropLast, b = SP

inductive EmptyLines : List UInt8 → Prop
  | nil : EmptyLines []
  | cons {line rest : List UInt8} (hlf : LF ∉ line) (hline : EmptyLine line) (h : EmptyLines rest)
    : EmptyLines (line ++ LF :: rest)

section Tokens

variable {buf : List UInt8}

theorem memchr_spec {ch : UInt8} {n p r : Nat} (h : memchr.go buf ch n p = some r)
    : p ≤ r ∧ r < p + n ∧ byteAt buf r = ch := by
  induction n generalizing p with
  | zero => cases h
  | succ n ih =>
    rw [memchr.go] at h
    split at h
    . rename_i hat
      cases h
      exact ⟨Nat.le_refl _, by omega, hat⟩
    . obtain ⟨hle, hlt, hat⟩ := ih h
      exact ⟨by omega, by omega, hat⟩

theorem le_skipSpaces (n p : Nat) : p ≤ skipSpaces.go buf n p := by
  induction n generalizing p with
  | zero => exact Nat.le_refl _
  | succ n ih =>
    rw [skipSpaces.go]
    split
    . exact Nat.le_of_succ_le (ih (p + 1))
    . exact Nat.le_refl _

theorem advToken_end {pStr pStrEnd : Nat} (h : pStrEnd ≤ pStr)
    : advToken buf pStr pStrEnd = (pStrEnd, ⟨pStrEnd, 0⟩) := by
  have hle : pStr ≤ skipSpaces buf pStr pStrEnd := le_skipSpaces _ _
  unfold advToken
  dsimp only
  rw [if_pos (Nat.le_trans h hle)]

end Tokens

namespace McCall

theorem drop_cutLine (buf : List UInt8) (endp : Nat)
    : (cutLine buf endp).drop (endp + 1) = buf.drop (endp + 1) := by
  unfold cutLine
  dsimp only
  split
  . rw [List.drop_set_of_lt (by omega), List.drop_set_of_lt (by omega)]
  . rw [List.drop_set_of_lt (by omega)]

/--
The first line of the buffer is a storage command whose fields can be read: its line feed is at
`endp`, its handler gets `i` and `arg`.
-/
structure StoreLine (s : McCall) (endp : Nat) (i : McInput) (arg : Nat) : Prop where
  line : memchr s.conn.m_bufIncoming LF 0 s.conn.m_bufIncoming.length = some endp
  input : i = ⟨cutLine s.conn.m_bufIncoming endp,
    (advToken (cutLine s.conn.m_bufIncoming endp) 0 (endp - 1)).1, endp - 1, endp + 1⟩
  cmd : (getCmdFunction (tokBytes i.buf (advToken i.buf 0 (endp - 1)).2)).map
    (fun p => (p.func, p.arg)) = some (.doCmdUpdate, arg)
  fields : (updateArgs i arg).badcmdline = false
  length_nonneg : 0 ≤ (updateArgs i arg).length
  length_le : (updateArgs i arg).length ≤ INT_MAX - 2

def IsMaster (s : McCall) : Prop :=
  ∀ i user, ((s.sliceAt i).m_hashByUser user).isTidMaster = true

def TextRefused (s : McCall) : Prop :=
  s.mc.m_mcparms.m_usesasl = true ∧ s.mc.m_mcparms.m_anonymous = false

def handed (s : McCall) (endp : Nat) (i : McInput) : McCall :=
  (((s.setBuf (cutLine s.conn.m_bufIncoming endp)).setStrt (cutLine s.conn.m_bufIncoming endp)).setSlice
    i.args)

variable {s : McCall}

theorem textRefused_eq_false (h : ¬ s.TextRefused)
    : (s.mc.m_mcparms.m_usesasl && !s.mc.m_mcparms.m_anonymous) = false := by
  unfold TextRefused at h
  cases husesasl : s.mc.m_mcparms.m_usesasl with
  | false => rfl
  | true =>
    cases hanon : s.mc.m_mcparms.m_anonymous with
    | false => exact absurd ⟨husesasl, hanon⟩ h
    | true => rfl

theorem processCmd_storeLine {endp arg : Nat} {i : McInput} (h : s.StoreLine endp i arg)
    (hsasl : ¬ s.TextRefused) : s.processCmd = finish endp ((s.handed endp i).doCmdUpdate i arg) := by
  have hinput := h.input
  have hcmd := h.cmd
  have hfields := h.fields
  obtain ⟨p, hget, hp⟩ := Option.map_eq_some_iff.mp hcmd
  obtain ⟨hlen, -⟩ := getCmdFunction_some hget
  obtain ⟨hfunc, rfl⟩ := Prod.mk.inj hp
  -- a command has a token, and its arguments start before the end of the line
  have htok : (advToken (cutLine s.conn.m_bufIncoming endp) 0 (endp - 1)).2.len ≠ 0 := by
    intro hz
    rw [hinput] at hlen
    unfold tokBytes at hlen
    rw [hz] at hlen
    simp at hlen
  have hstart : ¬ endp - 1 < (advToken (cutLine s.conn.m_bufIncoming endp) 0 (endp - 1)).1 := by
    intro hlt
    have hend : ∀ q, i.pStrEnd ≤ q → i.adv q = (i.pStrEnd, ⟨i.pStrEnd, 0⟩) := fun q hq =>
      advToken_end hq
    have hle : i.pStrEnd ≤ i.pStr := by
      rw [hinput]
      exact Nat.le_of_lt hlt
    unfold updateArgs at hfields
    dsimp only at hfields
    simp [hend _ hle, hend i.pStrEnd (Nat.le_refl _)] at hfields
  rw [hinput] at hget
  unfold processCmd
  rw [textRefused_eq_false hsasl, if_neg Bool.false_ne_true]
  dsimp only
  rw [h.line]
  unfold processLine
  dsimp only [setBuf, setStrt]
  rw [if_neg htok, hget]
  dsimp only
  rw [if_neg hstart, ← hinput]
  unfold runCmd
  rw [hfunc]
  rfl

/--
The data of a storage command ends as it should. No data is followed by a line feed, and the byte
before it does not matter: a line of one byte is taken for an empty one.
-/
def ChunkEnds (data : List UInt8) (length : Nat) : Prop :=
  (length ≠ 0 → byteAt data length = CR) ∧ byteAt data (length + 1) = LF

instance (data : List UInt8) (length : Nat) : Decidable (ChunkEnds data length) :=
  inferInstanceAs (Decidable (_ ∧ _))

theorem doCmdUpdate_spec {arg : Nat} (hmaster : s.IsMaster) (i : McInput) (harg : StoreArg arg)
    (hfields : (updateArgs i arg).badcmdline = false) {length : Nat}
    (hlength : (updateArgs i arg).length = length) (hle : (length : Int) ≤ INT_MAX - 2)
    (hdata : length + 2 ≤ i.data.length)
    : (s.doCmdUpdate i arg).1.conn.m_bufIncoming = s.conn.m_bufIncoming ∧
      if length ≠ 0 ∧ ¬ ChunkEnds i.data length then
        (s.doCmdUpdate i arg).2 = 0 ∧
          (s.doCmdUpdate i arg).1.outv = { s.outv with noreply := (updateArgs i arg).noreply }
      else
        (s.doCmdUpdate i arg).2 = dataLen length ∧
          OneLine { s.outv with noreply := (updateArgs i arg).noreply } (s.doCmdUpdate i arg).1.outv := by
  have hbyte : ∀ k, byteAt i.buf (i.pNxt + k) = byteAt i.data k := by
    intro k
    unfold byteAt McInput.data
    rw [List.getD_eq_getElem?_getD, List.getD_eq_getElem?_getD, List.getElem?_drop]
  have hiLen : ¬ i.iLen < length + 2 := by
    unfold McInput.data at hdata
    rw [List.length_drop] at hdata
    exact Nat.not_lt.mpr hdata
  have hnow : ∀ key, ((s.setKey key).canProcessNow key) = ((s.setKey key).setSlice key, true) := by
    intro key
    unfold canProcessNow
    dsimp only
    have hm : ((((s.setKey key).setSlice key).sliceAt
        ((s.setKey key).setSlice key).conn.m_pSlice).m_hashByUser none).isTidMaster = true :=
      hmaster _ none
    rw [hm, if_neg (by simp)]
  unfold doCmdUpdate
  dsimp only
  rw [hnow]
  dsimp only
  generalize hstart : ((s.setKey (i.tok (updateArgs i arg).key)).setSlice
    (i.tok (updateArgs i arg).key)).setNoreply (updateArgs i arg).noreply = t
  have hview : t.outv = { s.outv with noreply := (updateArgs i arg).noreply } := by
    rw [← hstart]
    rfl
  have hbuf : t.conn.m_bufIncoming = s.conn.m_bufIncoming := by
    rw [← hstart]
    rfl
  have hm : t.getHash.isTidMaster = true := by
    rw [← hstart]
    exact hmaster _ _
  rw [if_neg (by decide), hfields, hlength, if_neg (by
    rintro (h | h | h)
    . cases h
    . omega
    . omega), Int.toNat_natCast, if_neg fun h => hiLen h.2, hm]
  have hends : (length ≠ 0 ∧ (byteAt i.buf (i.pNxt + length) ≠ CR ∨
      byteAt i.buf (i.pNxt + length + 1) ≠ LF)) ↔ (length ≠ 0 ∧ ¬ ChunkEnds i.data length) := by
    rw [Nat.add_assoc, hbyte, hbyte]
    unfold ChunkEnds
    constructor
    . rintro ⟨hne, h⟩
      exact ⟨hne, fun hc => h.elim (fun h => h (hc.1 hne)) fun h => h hc.2⟩
    . rintro ⟨hne, h⟩
      refine ⟨hne, ?_⟩
      by_contra hc
      rw [not_or, not_not, not_not] at hc
      exact h ⟨fun _ => hc.1, hc.2⟩
  by_cases hbad : length ≠ 0 ∧ ¬ ChunkEnds i.data length
  . rw [if_pos (hends.mpr hbad), if_pos hbad]
    exact ⟨hbuf, rfl, hview⟩
  . rw [if_neg fun h => hbad (hends.mp h), if_neg hbad, if_neg (by decide)]
    obtain ⟨hline, hret⟩ := storeCmd_spec (s := t) harg i (updateArgs i arg).flags
      (updateArgs i arg).exptime length (updateArgs i arg).cas
    rw [← hview]
    exact ⟨(buf_storeCmd ..).trans hbuf, hret, hline⟩

theorem emptyLines_two (a b : UInt8) : EmptyLines [a, b] ↔ b = LF := by
  constructor
  . intro h
    generalize hl : [a, b] = l at h
    cases h with
    | nil => cases hl
    | @cons line rest hlf hline h =>
      cases line with
      | nil =>
        -- the first byte ends a line, so the second one is a line of its own
        obtain ⟨-, rfl⟩ := List.cons.inj hl
        generalize hl' : [b] = l' at h
        cases h with
        | nil => cases hl'
        | @cons line' rest' _ _ _ =>
          cases line' with
          | nil => exact (List.cons.inj hl').1
          | cons c line' => simp at hl'
      | cons c line =>
        cases line with
        | nil => exact (List.cons.inj (List.cons.inj hl).2).1
        | cons d line => simp at hl
  . rintro rfl
    by_cases ha : a = LF
    . rw [ha]
      exact @EmptyLines.cons [] _ (by simp) (by simp [EmptyLine]) (@EmptyLines.cons [] _ (by simp)
        (by simp [EmptyLine]) .nil)
    . exact @EmptyLines.cons [a] _ (by simpa using Ne.symm ha) (by simp [EmptyLine]) .nil

/--
After a storage command the loop of `processIncoming` goes on behind its data, of which at most lines
without a command are left, and the client has got one line, or nothing with `noreply`.
-/
structure Framed (s : McCall) (endp length : Nat) (noreply : Bool) : Prop where
  next : 0 < s.processCmd.2 ∧ ∃ pre, EmptyLines pre ∧ (consume s.processCmd).conn.m_bufIncoming =
    pre ++ s.conn.m_bufIncoming.drop (endp + 1 + (length + 2))
  answered : ∃ line, IsLine line ∧
    s.processCmd.1.conn.out = s.conn.out ++ if noreply then [] else line

/--
The data ends as it should, or nobody waits for an answer and the data has no command in it.
-/
def Delimited (data : List UInt8) (length : Nat) (noreply : Bool) : Prop :=
  ChunkEnds data length ∨ (length ≠ 0 ∧ noreply = true ∧ EmptyLines (data.take (length + 2)))

theorem not_isLine_nil : ¬ IsLine [] := by decide

theorem out_text {v : OutView} (hint : v.internal = false) (str : List UInt8)
    : (v.text str).out = v.out ++ if v.noreply then [] else str := by
  unfold OutView.text
  rw [hint]
  split <;> rfl

theorem drop_eq_append_iff {data pre : List UInt8} {n m : Nat} (hn : n ≤ m) (hm : m ≤ data.length)
    : data.drop n = pre ++ data.drop m ↔ pre = (data.take m).drop n := by
  have hsplit : data.drop n = (data.take m).drop n ++ data.drop m := by
    rw [← List.drop_append_of_le_length (by rw [List.length_take]; omega), List.take_append_drop]
  rw [hsplit]
  constructor
  . intro h
    exact (List.append_cancel_right h).symm
  . rintro rfl
    rfl

/--
A storage command is framed by its length if and only if its data ends as it should (or is nothing but
empty lines behind a `noreply`).
-/
theorem textFramed_iff {endp arg : Nat} {i : McInput} (h : s.StoreLine endp i arg) (hmaster : s.IsMaster)
    (hsasl : ¬ s.TextRefused) (hclient : s.conn.internal = false) {length : Nat}
    (hlength : (updateArgs i arg).length = length)
    (hdata : length + 2 ≤ (s.conn.m_bufIncoming.drop (endp + 1)).length)
    : s.Framed endp length (updateArgs i arg).noreply ↔
      Delimited (s.conn.m_bufIncoming.drop (endp + 1)) length (updateArgs i arg).noreply := by
  have hcmd := processCmd_storeLine h hsasl
  have hsource : i.data = s.conn.m_bufIncoming.drop (endp + 1) := by
    rw [h.input]
    exact drop_cutLine _ _
  obtain ⟨p, hget, hp⟩ := Option.map_eq_some_iff.mp h.cmd
  obtain ⟨hfunc, harg⟩ := Prod.mk.inj hp
  have hstore : StoreArg arg := harg ▸ storeArg_of_func (getCmdFunction_some hget).2 hfunc
  obtain ⟨hbuf, hspec⟩ := doCmdUpdate_spec (s := s.handed endp i) hmaster i hstore h.fields hlength
    (hlength ▸ h.length_le) (by rw [hsource]; exact hdata)
  rw [hsource] at hspec
  have hview : (s.handed endp i).outv = s.outv := rfl
  rw [hview] at hspec
  have hbuf : ((s.handed endp i).doCmdUpdate i arg).1.conn.m_bufIncoming =
      cutLine s.conn.m_bufIncoming endp := hbuf
  generalize hr : (s.handed endp i).doCmdUpdate i arg = r at hcmd hbuf hspec
  generalize hnoreply : (updateArgs i arg).noreply = noreply at hspec ⊢
  generalize hd : s.conn.m_bufIncoming.drop (endp + 1) = data at hdata hspec hsource ⊢
  have hrest : s.conn.m_bufIncoming.drop (endp + 1 + (length + 2)) = data.drop (length + 2) := by
    rw [← hd, List.drop_drop]
  -- where the loop goes on when the handler takes `n` bytes of the data
  have hconsume : ∀ n : Nat, r.2 = n → s.processCmd.1 = r.1 ∧ 0 < s.processCmd.2 ∧
      (consume s.processCmd).conn.m_bufIncoming = data.drop n := by
    intro n hn
    have hfinish : s.processCmd = (r.1, ((endp + 1 : Nat) : Int) + n) := by
      rw [hcmd]
      unfold finish
      rw [hn, if_pos (Int.natCast_nonneg n)]
    rw [hfinish]
    refine ⟨rfl, by dsimp only; omega, ?_⟩
    change r.1.conn.m_bufIncoming.drop (((endp + 1 : Nat) : Int) + n).toNat = _
    rw [hbuf, ← Int.natCast_add, Int.toNat_natCast, ← List.drop_drop, drop_cutLine, hd]
  by_cases hbad : length ≠ 0 ∧ ¬ ChunkEnds data length
  . -- nothing is taken and nothing is answered
    rw [if_pos hbad] at hspec
    obtain ⟨hret, houtv⟩ := hspec
    obtain ⟨hcall, hpos, hnext⟩ := hconsume 0 hret
    have hout : s.processCmd.1.conn.out = s.conn.out := by
      rw [hcall]
      exact congrArg OutView.out houtv
    constructor
    . intro hframed
      obtain ⟨-, pre, hpre, hsplit⟩ := hframed.next
      obtain ⟨line, hline, hans⟩ := hframed.answered
      rw [hnext, hrest, drop_eq_append_iff (Nat.zero_le _) hdata, List.drop_zero] at hsplit
      refine Or.inr ⟨hbad.1, ?_, hsplit ▸ hpre⟩
      cases noreply with
      | true => rfl
      | false =>
        rw [hout, if_neg Bool.false_ne_true] at hans
        have hnil : line = [] := by simpa using hans
        exact absurd (hnil ▸ hline) not_isLine_nil
    . rintro (hends | ⟨-, rfl, hempty⟩)
      . exact absurd hends hbad.2
      . refine ⟨⟨hpos, _, hempty, ?_⟩, bytes "STORED\r\n", by decide, ?_⟩
        . rw [hnext, hrest, drop_eq_append_iff (Nat.zero_le _) hdata]
          rfl
        . rw [hout, if_pos rfl, List.append_nil]
  . rw [if_neg hbad] at hspec
    obtain ⟨hret, line, hline, houtv⟩ := hspec
    obtain ⟨hcall, hpos, hnext⟩ := hconsume _ hret
    have hanswered : ∃ line, IsLine line ∧
        s.processCmd.1.conn.out = s.conn.out ++ if noreply then [] else line := by
      refine ⟨line, hline, ?_⟩
      rw [hcall]
      exact (congrArg OutView.out houtv).trans (out_text hclient line)
    by_cases hz : length = 0
    . -- the line feed behind no data is left to be read
      subst hz
      have hnone : dataLen 0 = 0 := rfl
      rw [hnone] at hnext
      obtain ⟨a, b, hab⟩ : ∃ a b, data.take 2 = [a, b] := by
        cases data with
        | nil => simp at hdata
        | cons a data =>
          cases data with
          | nil => simp at hdata
          | cons b data => exact ⟨a, b, rfl⟩
      have hb : byteAt data 1 = b := by
        have htake : byteAt (data.take 2) 1 = b := by
          rw [hab]
          rfl
        rw [← htake]
        simp [byteAt, List.getD_eq_getElem?_getD]
      constructor
      . intro hframed
        obtain ⟨-, pre, hpre, hsplit⟩ := hframed.next
        rw [hnext, hrest, drop_eq_append_iff (Nat.zero_le _) hdata] at hsplit
        rw [hsplit] at hpre
        change EmptyLines (data.take 2) at hpre
        rw [hab, emptyLines_two] at hpre
        exact Or.inl ⟨fun h => absurd rfl h, hb.trans hpre⟩
      . rintro (hends | ⟨h, -⟩)
        . refine ⟨⟨hpos, data.take 2, ?_, ?_⟩, hanswered⟩
          . rw [hab, emptyLines_two, ← hb]
            exact hends.2
          . rw [hnext, hrest, drop_eq_append_iff (Nat.zero_le _) hdata]
            rfl
        . exact absurd rfl h
    . have hends : ChunkEnds data length := by
        by_contra h
        exact hbad ⟨hz, h⟩
      refine iff_of_true ⟨⟨hpos, [], .nil, ?_⟩, hanswered⟩ (Or.inl hends)
      rw [hnext, hrest]
      unfold dataLen
      rw [if_pos hz]
      rfl

section Sample

def sampleSet (data : List UInt8) : McCall :=
  sampleCall (bytes "set a 0 0 1\r\n" ++ data)

def sampleInput (data : List UInt8) : McInput :=
  ⟨cutLine (sampleSet data).conn.m_bufIncoming 12,
    (advToken (cutLine (sampleSet data).conn.m_bufIncoming 12) 0 11).1, 11, 13⟩

theorem sampleSet_isMaster (data : List UInt8) : (sampleSet data).IsMaster := by
  intro i user
  have hmaster : (sampleSliceHash.get sampleSliceHash_isSome).isTidMaster = true := by decide +kernel
  exact hmaster

theorem textFramed_sample
    : (sampleSet (bytes "x\r\n")).Framed 12 1 (updateArgs (sampleInput (bytes "x\r\n")) 1).noreply :=
  (@textFramed_iff (sampleSet (bytes "x\r\n")) 12 MC_BINCMD_SET (sampleInput (bytes "x\r\n"))
    ⟨by decide +kernel, rfl, by decide +kernel, by decide +kernel, by decide +kernel, by decide +kernel⟩
    (sampleSet_isMaster _) (fun h => nomatch h.1) rfl 1 (by decide +kernel) (by decide +kernel)).mpr
    (Or.inl (by decide +kernel))

/--
The data block that ends in other bytes is read as a command.
-/
theorem not_framed_bad_chunk
    : (sampleSet (bytes "xyz")).StoreLine 12 (sampleInput (bytes "xyz")) MC_BINCMD_SET ∧
      (sampleSet (bytes "xyz")).IsMaster ∧
      ¬ (sampleSet (bytes "xyz")).Framed 12 1 (updateArgs (sampleInput (bytes "xyz")) 1).noreply := by
  refine ⟨⟨by decide +kernel, rfl, by decide +kernel, by decide +kernel, by decide +kernel,
    by decide +kernel⟩, sampleSet_isMaster _, ?_⟩
  intro h
  obtain ⟨line, hline, hout⟩ := h.answered
  have hnone : (sampleSet (bytes "xyz")).processCmd.1.conn.out = [] := by decide +kernel
  have hreply : (updateArgs (sampleInput (bytes "xyz")) 1).noreply = false := by decide +kernel
  rw [hnone, hreply, if_neg Bool.false_ne_true] at hout
  have hnil : line = [] := (List.append_eq_nil_iff.mp hout.symm).2
  exact absurd (hnil ▸ hline) not_isLine_nil

end Sample

end McCall

end Lsmcd
