import Lsmcd.Memcache.OwnView

/-!
What the answer to a binary request and the store after it depend on: the bytes of its own body.
-/

namespace Lsmcd

namespace McCall

section

variable {s t : McCall} {hdr : McBinCmdHdr} {keep : Bool} {n : Nat}

theorem of_own {β : Type} (h : t.own keep n = s.own keep n) (f : McCall → β)
    (hf : ∀ u : McCall, f (u.own keep n) = f u) : f t = f s := by
  rw [← hf t, h, hf s]

theorem own_ite_congr {c d : Prop} [Decidable c] [Decidable d] {a b a' b' : McCall} (h : c ↔ d)
    (ha : a.own keep n = a'.own keep n) (hb : b.own keep n = b'.own keep n)
    : (if c then a else b).own keep n = (if d then a' else b').own keep n := by
  rw [own_ite, own_ite]
  exact if_congr h ha hb

def copyLen (s : McCall) (e : LsShmHElem) : Nat :=
  if s.mc.m_retcode = .APPEND ∨ s.mc.m_retcode = .PREPEND then s.mc.m_parms.val.len
  else (mcIter2data e s.mc.m_mcparms.m_usecas).2.toNat

def SameCopy (s : McCall) (bs bt : List UInt8) : Prop :=
  ∀ e, s.getHash.offset2iterator s.mc.m_iterOff = some e → bt.take (s.copyLen e) = bs.take (s.copyLen e)

theorem putBytes_congr (e : LsShmHElem) (off : Nat) {k : Nat} {bs bt : List UInt8} (h : bt.take k = bs.take k)
    : e.putBytes off k bt = e.putBytes off k bs := by
  have hget : ∀ i, i < k → bt.getD i 0 = bs.getD i 0 := by
    intro i hi
    rw [← byteAt, ← byteAt, ← byteAt_take bt hi, h, byteAt_take bs hi]
  unfold LsShmHElem.putBytes
  congr 1
  funext i
  split
  . rename_i hi
    exact hget _ (by omega)
  . rfl

theorem own_dataItemUpdate (h : t.own keep n = s.own keep n)
    (hval : s.mc.m_retcode = .APPEND ∨ s.mc.m_retcode = .PREPEND → t.mc.m_parms.val = s.mc.m_parms.val)
    (hitem : ¬ (s.mc.m_retcode = .APPEND ∨ s.mc.m_retcode = .PREPEND) → t.mc.m_item = s.mc.m_item)
    {bs bt : List UInt8} (hcopy : s.SameCopy bs bt)
    : (t.dataItemUpdate bt).own keep n = (s.dataItemUpdate bs).own keep n := by
  have hhash := of_own h getHash fun _ => rfl
  have hoff := of_own h (fun u => u.mc.m_iterOff) fun _ => rfl
  have hret := of_own h (fun u => u.mc.m_retcode) fun _ => rfl
  have hmc := of_own h (fun u => u.mc.m_mcparms) fun _ => rfl
  have hput : ∀ (s' t' : McCall) (e : LsShmHElem), t'.own keep n = s'.own keep n →
      (t'.putCas e).1.own keep n = (s'.putCas e).1.own keep n ∧ (t'.putCas e).2 = (s'.putCas e).2 := by
    intro s' t' e h'
    rw [(own_putCas t' e).1, (own_putCas s' e).1, (own_putCas t' e).2, (own_putCas s' e).2, h']
    exact ⟨rfl, rfl⟩
  unfold SameCopy copyLen at hcopy
  unfold dataItemUpdate
  dsimp only
  rw [hhash, hoff, hret, hmc]
  split
  . simp only [own_setRetcode, h]
  . rename_i e he
    have hcopy := hcopy e he
    by_cases hap : s.mc.m_retcode = .APPEND ∨ s.mc.m_retcode = .PREPEND
    . simp only [if_pos hap] at hcopy ⊢
      obtain ⟨hstate, helem⟩ := hput s t e h
      rw [hval hap]
      simp only [own_setNeeded, own_setHash, hstate, helem, Int.toNat_natCast, putBytes_congr _ _ hcopy]
    . simp only [if_neg hap] at hcopy ⊢
      have hne : ¬ s.mc.m_retcode = .APPEND := fun happend => hap (.inl happend)
      rw [hitem hap]
      generalize absExptime s.mc.m_item (s.getHash.getLruLasttime s.mc.m_iterOff) = item
      obtain ⟨hstate, helem⟩ := hput (s.setItem item) (t.setItem item) (e.setItem item) h
      simp only [own_setNeeded, own_setHash, hstate, helem, putBytes_congr _ _ hcopy, if_neg hne]

theorem own_false (h : t.own keep n = s.own keep n) : t.own false n = s.own false n := by
  refine of_own h (fun u => u.own false n) fun u => ?_
  unfold own
  dsimp only
  rw [List.take_take, Nat.min_self]
  rfl

theorem item_stat (f : LsMcStats → LsMcStats) : (s.stat f).mc.m_item = s.mc.m_item := by
  unfold stat
  split <;> rfl

theorem buf_of_own (h : t.own keep n = s.own keep n)
    : t.conn.m_bufIncoming.take n = s.conn.m_bufIncoming.take n :=
  congrArg (fun u : McCall => u.conn.m_bufIncoming) h

theorem readBe_of_own (h : t.own keep n = s.own keep n) {p k : Nat} (hp : p + k ≤ n)
    : readBe t.conn.m_bufIncoming p k = readBe s.conn.m_bufIncoming p k := by
  rw [← readBe_take _ hp, buf_of_own h, readBe_take _ hp]

theorem bufBytes_of_own (h : t.own keep n = s.own keep n) {p k : Nat} (hp : p + k ≤ n)
    : bufBytes t.conn.m_bufIncoming p k = bufBytes s.conn.m_bufIncoming p k := by
  rw [← bufBytes_take _ hp, buf_of_own h, bufBytes_take _ hp]

theorem own_doBinDataUpdate (h : t.own keep n = s.own keep n) {bs bt : List UInt8}
    (hval : s.mc.m_iterOff ≠ 0 → s.mc.m_retcode = .APPEND ∨ s.mc.m_retcode = .PREPEND →
      t.mc.m_parms.val = s.mc.m_parms.val)
    (hitem : s.mc.m_iterOff ≠ 0 → ¬ (s.mc.m_retcode = .APPEND ∨ s.mc.m_retcode = .PREPEND) →
      t.mc.m_item = s.mc.m_item)
    (hcopy : s.mc.m_iterOff ≠ 0 → s.SameCopy bs bt)
    : (t.doBinDataUpdate bt hdr).own keep n = (s.doBinDataUpdate bs hdr).own keep n := by
  have hkey : (t.setKey []).own keep n = (s.setKey []).own keep n := by
    rw [own_setKey, own_setKey, h]
  have hoff := of_own hkey (fun u => u.mc.m_iterOff) fun _ => rfl
  have hret := of_own hkey (fun u => u.mc.m_retcode) fun _ => rfl
  unfold doBinDataUpdate
  dsimp only
  rw [hoff, hret]
  by_cases h0 : s.mc.m_iterOff ≠ 0
  . have hdata := own_dataItemUpdate hkey (hval h0) (hitem h0) (hcopy h0)
    have h0' : (s.setKey []).mc.m_iterOff ≠ 0 := h0
    rw [if_pos h0', if_pos h0']
    simp only [own_setIterOff, own_binOkRespond, own_notifyChange, hdata]
  . have h0' : ¬ (s.setKey []).mc.m_iterOff ≠ 0 := h0
    rw [if_neg h0', if_neg h0']
    simp only [own_ite, own_binErrRespond, hkey]

theorem own_binNumRespond (h : t.own keep n = s.own keep n)
    (hitem : s.mc.m_iterOff ≠ 0 → t.mc.m_item = s.mc.m_item) (text newval : List UInt8)
    : (t.binNumRespond hdr text newval).own keep n = (s.binNumRespond hdr text newval).own keep n := by
  have hnone : (t.setRetcode .NONE).own keep n = (s.setRetcode .NONE).own keep n := by
    rw [own_setRetcode, own_setRetcode, h]
  have hne : ¬ ((s.setRetcode .NONE).mc.m_retcode = .APPEND ∨ (s.setRetcode .NONE).mc.m_retcode = .PREPEND) :=
    by rintro (h | h) <;> cases h
  have hdata : ((t.setRetcode .NONE).doBinDataUpdate text hdr).own keep n =
      ((s.setRetcode .NONE).doBinDataUpdate text hdr).own keep n := own_doBinDataUpdate hnone
    (fun _ happend => absurd happend hne) (fun h0 _ => hitem h0) (fun _ _ _ => rfl)
  have hres := of_own hdata (fun u => u.binResHdr hdr 0 0 8 .SUCCESS) fun _ => rfl
  unfold binNumRespond
  dsimp only
  rw [hres, own_binRespond, own_binRespond, hdata]

theorem own_binArithInit (h : t.own false n = s.own false n) (hn : sizeofBinHdr + 20 ≤ n) (cmd : Nat)
    : (t.binArithInit hdr cmd).own false n = (s.binArithInit hdr cmd).own false n := by
  have hexp := readBe_of_own h (p := sizeofBinHdr + 16) (k := 4) (by omega)
  have hnum := readBe_of_own h (p := sizeofBinHdr + 8) (k := 8) (by omega)
  have hbytes := bufBytes_of_own h (p := sizeofBinHdr + 8) (k := 8) (by omega)
  have hinit : ∀ exptime text,
      (t.initCall exptime text).own false n = (s.initCall exptime text).own false n := by
    intro exptime text
    refine of_own h (fun u => (u.initCall exptime text).own false n) fun u => ?_
    unfold initCall
    simp only [own_setIterOff, own_ofHash, own_setVal, own_setItem, own_own]
    rfl
  have hitem : ∀ exptime text, (t.initCall exptime text).mc.m_item = (s.initCall exptime text).mc.m_item :=
    fun _ _ => rfl
  have hoff : t.initOff = s.initOff := by
    unfold initOff
    rw [hnum]
    exact of_own h (fun u => (u.getHash.doInsert (u.getHash.find2 u.mc.m_hkey u.mc.m_parms.key) u.mc.m_hkey
      { u.mc.m_parms with val := ⟨u.parmAdjLen _, none⟩ }).2) fun _ => rfl
  rw [binArithInit_eq, binArithInit_eq, hexp, hnum, hbytes, hoff]
  dsimp only
  split
  . simp only [own_binErrRespond, own_binArithStat, h]
  . split
    . exact own_binNumRespond (hinit _ _) (fun _ => hitem _ _) _ _
    . simp only [own_binErrRespond, hinit]

theorem doHashUpdate_of_ne_zero {opt : LsMcUpdOpt} (h0 : (s.doHashUpdate opt).2.2 ≠ 0)
    : ∃ e, s.getHash.offset2iterator (s.getHash.find2 s.mc.m_hkey s.mc.m_parms.key) = some e ∧
      s.doHashUpdate opt = s.updateElem opt (s.getHash.find2 s.mc.m_hkey s.mc.m_parms.key) e := by
  unfold doHashUpdate at h0 ⊢
  dsimp only at h0 ⊢
  split at h0
  . exact absurd rfl h0
  . rename_i hfind
    rw [if_neg hfind]
    split at h0
    . exact absurd rfl h0
    . rename_i e he
      split at h0
      . exact absurd rfl h0
      . rename_i hexp
        rw [if_neg hexp]
        exact ⟨e, he, rfl⟩

theorem item_updateElem {opt : LsMcUpdOpt} {off : Nat} {e : LsShmHElem}
    (hcmd : opt.m_iFlags &&& LSMC_CMDMASK = MC_BINCMD_INCREMENT ∨
      opt.m_iFlags &&& LSMC_CMDMASK = MC_BINCMD_DECREMENT)
    (h0 : (s.updateElem opt off e).2.2 ≠ 0) : (s.updateElem opt off e).1.mc.m_item = e.dataItem := by
  unfold updateElem at h0 ⊢
  dsimp only at h0 ⊢
  split at h0
  . exact absurd rfl h0
  . rename_i hcas
    simp only [if_neg hcas, if_pos hcmd]
    split at h0
    . exact absurd rfl h0
    . rfl

theorem updateElem_replace {opt : LsMcUpdOpt} {off : Nat} {e : LsShmHElem}
    (hcmd : opt.m_iFlags &&& LSMC_CMDMASK = MC_BINCMD_REPLACE) (h0 : (s.updateElem opt off e).2.2 ≠ 0)
    : s.updateElem opt off e =
      ((s.ofHash (s.getHash.doUpdate off s.mc.m_hkey s.mc.m_parms)).1, { opt with m_iRetcode := .DONE },
        (s.getHash.doUpdate off s.mc.m_hkey s.mc.m_parms).2) := by
  unfold updateElem at h0 ⊢
  dsimp only at h0 ⊢
  rw [hcmd] at h0 ⊢
  split at h0
  . exact absurd rfl h0
  . rename_i hcas
    rw [if_neg hcas]
    rfl

theorem not_count {opt : LsMcUpdOpt} (hcmd : opt.m_iFlags &&& LSMC_CMDMASK = MC_BINCMD_REPLACE ∨
      opt.m_iFlags &&& LSMC_CMDMASK = MC_BINCMD_APPEND ∨ opt.m_iFlags &&& LSMC_CMDMASK = MC_BINCMD_PREPEND)
    : ¬ (opt.m_iFlags &&& LSMC_CMDMASK = MC_BINCMD_INCREMENT ∨
      opt.m_iFlags &&& LSMC_CMDMASK = MC_BINCMD_DECREMENT) := by
  rcases hcmd with h | h | h <;> rw [h] <;> decide

theorem updateElem_append {opt : LsMcUpdOpt} {off : Nat} {e : LsShmHElem}
    (hcmd : opt.m_iFlags &&& LSMC_CMDMASK = MC_BINCMD_APPEND ∨
      opt.m_iFlags &&& LSMC_CMDMASK = MC_BINCMD_PREPEND) (h0 : (s.updateElem opt off e).2.2 ≠ 0)
    : (s.updateElem opt off e).2.1 = opt := by
  have hincr := not_count (.inr hcmd)
  unfold updateElem at h0 ⊢
  dsimp only at h0 ⊢
  split at h0
  . exact absurd rfl h0
  . rename_i hcas
    rw [if_neg hcas, if_neg hincr, if_pos hcmd]
    split at h0
    . rename_i hdone
      rw [if_pos hdone]
    . rename_i hdone
      rw [if_neg hdone]
      split at h0
      . exact absurd rfl h0
      . rfl

theorem same_doHashUpdate (h : t.own true n = s.own true n) (opt : LsMcUpdOpt)
    : (t.doHashUpdate opt).1.own true n = (s.doHashUpdate opt).1.own true n ∧
      (t.doHashUpdate opt).2 = (s.doHashUpdate opt).2 := by
  rw [(own_doHashUpdate t opt).1, (own_doHashUpdate t opt).2, h, ← (own_doHashUpdate s opt).1,
    ← (own_doHashUpdate s opt).2]
  exact ⟨rfl, rfl⟩

theorem item_doHashUpdate {opt : LsMcUpdOpt}
    (hcmd : opt.m_iFlags &&& LSMC_CMDMASK = MC_BINCMD_INCREMENT ∨
      opt.m_iFlags &&& LSMC_CMDMASK = MC_BINCMD_DECREMENT)
    (h : t.own true n = s.own true n) (h0 : (s.doHashUpdate opt).2.2 ≠ 0)
    : (t.doHashUpdate opt).1.mc.m_item = (s.doHashUpdate opt).1.mc.m_item := by
  have hret := (same_doHashUpdate h opt).2
  obtain ⟨e, he, hupd⟩ := doHashUpdate_of_ne_zero h0
  obtain ⟨e', he', hupd'⟩ := doHashUpdate_of_ne_zero (s := t) (by rw [hret]; exact h0)
  have hsame := of_own h (fun u => u.getHash.offset2iterator (u.getHash.find2 u.mc.m_hkey
    u.mc.m_parms.key)) fun _ => rfl
  rw [he, he'] at hsame
  cases hsame
  rw [hupd, hupd']
  rw [hupd] at h0
  rw [item_updateElem hcmd h0, item_updateElem hcmd]
  rw [← hupd', hret, hupd]
  exact h0

theorem own_doBinArithmetic (h : t.own true n = s.own true n) (hn : sizeofBinHdr + 20 ≤ n) {opt : LsMcUpdOpt}
    (hcmd : opt.m_iFlags &&& LSMC_CMDMASK = MC_BINCMD_INCREMENT ∨
      opt.m_iFlags &&& LSMC_CMDMASK = MC_BINCMD_DECREMENT) (cmd : Nat)
    : (t.doBinArithmetic hdr cmd opt).own false n = (s.doBinArithmetic hdr cmd opt).own false n := by
  obtain ⟨hstate, hret⟩ := same_doHashUpdate h opt
  have hfalse : ((t.doHashUpdate opt).1.setIterOff (s.doHashUpdate opt).2.2).own false n =
      ((s.doHashUpdate opt).1.setIterOff (s.doHashUpdate opt).2.2).own false n := by
    rw [own_setIterOff, own_setIterOff, own_false hstate]
  unfold doBinArithmetic
  dsimp only
  rw [hret]
  by_cases h0 : (s.doHashUpdate opt).2.2 ≠ 0
  . rw [if_pos h0, if_pos h0]
    apply own_binNumRespond
    . rw [own_binArithStat, own_binArithStat, hfalse]
    . intro _
      unfold binArithStat
      rw [item_stat, item_stat]
      exact item_doHashUpdate hcmd h h0
  . rw [if_neg h0, if_neg h0]
    simp only [own_ite, own_binErrRespond, hfalse, own_binArithInit hfalse hn]

theorem sameCopy_of_valLen {k : Nat} {bs bt : List UInt8} (hbytes : bt.take k = bs.take k)
    (hret : ¬ (s.mc.m_retcode = .APPEND ∨ s.mc.m_retcode = .PREPEND))
    (hlen : ∀ e, s.getHash.offset2iterator s.mc.m_iterOff = some e → e.valLen = k + s.sizeofItem)
    : s.SameCopy bs bt := by
  intro e he
  have hcopy : s.copyLen e = k := by
    have hval := hlen e he
    unfold copyLen mcIter2data
    rw [if_neg hret]
    unfold sizeofItem at hval
    dsimp only
    split at hval <;> simp_all
  rw [hcopy]
  exact hbytes

theorem valLen_ofHash {k : Nat} {r : LsShmHash × Nat} (h : LsShmHash.HasLen k r) {e : LsShmHElem}
    (he : (s.ofHash r).1.getHash.offset2iterator r.2 = some e) : e.valLen = k := by
  unfold ofHash at he
  dsimp only at he
  rw [getHash_setHash] at he
  exact h.valLen he

theorem valLen_doHashInsert {opt : LsMcUpdOpt} {e : LsShmHElem}
    (he : (s.doHashInsert opt).1.getHash.offset2iterator (s.doHashInsert opt).2.2 = some e)
    : e.valLen = s.mc.m_parms.val.len := by
  unfold doHashInsert at he
  dsimp only at he
  split at he
  . split at he
    . rename_i hnone
      have he : s.getHash.offset2iterator _ = some e := he
      rw [hnone] at he
      cases he
    . split at he
      . exact valLen_ofHash (LsShmHash.hasLen_doSet _ _ _ _) he
      . rw [LsShmHash.offset2iterator_zero] at he
        cases he
  . exact valLen_ofHash (LsShmHash.hasLen_doInsert _ _ _ _) he

theorem iRetcode_doHashInsert {opt : LsMcUpdOpt} (h : opt.m_iRetcode = .DONE)
    : ¬ ((s.doHashInsert opt).2.1.m_iRetcode = .APPEND ∨ (s.doHashInsert opt).2.1.m_iRetcode = .PREPEND) := by
  unfold doHashInsert
  dsimp only
  split
  . split
    . rintro (h | h) <;> cases h
    . split
      . rintro (h | h) <;> cases h
      . rintro (h | h) <;> cases h
  . rw [h]
    rintro (h | h) <;> cases h

structure Stores (s : McCall) (cmd k : Nat) (opt : LsMcUpdOpt) : Prop where
  set : cmd = MC_BINCMD_REPLACE ∨ cmd = MC_BINCMD_ADD ∨ cmd = MC_BINCMD_SET →
    s.mc.m_parms.val.len = k + s.sizeofItem ∧ opt.m_iRetcode = .DONE
  replace : cmd = MC_BINCMD_REPLACE → opt.m_iFlags &&& LSMC_CMDMASK = MC_BINCMD_REPLACE
  append : cmd = MC_BINCMD_APPEND ∨ cmd = MC_BINCMD_PREPEND →
    s.mc.m_parms.val.len = k ∧ opt.m_iFlags &&& LSMC_CMDMASK = cmd ∧
      (opt.m_iRetcode = .APPEND ∨ opt.m_iRetcode = .PREPEND)

theorem own_storeData (h : t.own true n = s.own true n) (hitem : t.mc.m_item = s.mc.m_item)
    (hret : s.mc.m_iterOff ≠ 0 → ¬ (s.mc.m_retcode = .APPEND ∨ s.mc.m_retcode = .PREPEND)) {k : Nat}
    {bs bt : List UInt8} (hbytes : bt.take k = bs.take k)
    (hlen : ∀ e, s.getHash.offset2iterator s.mc.m_iterOff = some e → e.valLen = k + s.sizeofItem)
    : (t.doBinDataUpdate bt hdr).own false n = (s.doBinDataUpdate bs hdr).own false n :=
  own_false (own_doBinDataUpdate h (fun h0 happend => absurd happend (hret h0)) (fun _ _ => hitem)
    (fun h0 => sameCopy_of_valLen hbytes (hret h0) hlen))

def setCall (s : McCall) : McCall :=
  let r := s.ofHash (s.getHash.doSet (s.getHash.find2 s.mc.m_hkey s.mc.m_parms.key) s.mc.m_hkey
    s.mc.m_parms)
  r.1.setIterOff r.2

theorem own_setCall (h : t.own true n = s.own true n) (hitem : t.mc.m_item = s.mc.m_item)
    (hret : s.mc.m_retcode = .DONE) {k : Nat} {bs bt : List UInt8} (hbytes : bt.take k = bs.take k)
    (hlen : s.mc.m_parms.val.len = k + s.sizeofItem)
    : (t.setCall.doBinDataUpdate bt hdr).own false n = (s.setCall.doBinDataUpdate bs hdr).own false n := by
  refine own_storeData (of_own h (fun u => u.setCall.own true n) fun u => ?_) hitem (fun _ => ?_) hbytes
    fun e he => ?_
  . unfold setCall
    simp only [own_setIterOff, own_ofHash, own_own]
    rfl
  . show ¬ (s.mc.m_retcode = .APPEND ∨ s.mc.m_retcode = .PREPEND)
    rw [hret]
    rintro (h | h) <;> cases h
  . exact (valLen_ofHash (LsShmHash.hasLen_doSet _ _ _ _) he).trans hlen

theorem frame_doHashInsert (opt : LsMcUpdOpt)
    : (s.doHashInsert opt).1.mc.m_item = s.mc.m_item ∧
      (s.doHashInsert opt).1.sizeofItem = s.sizeofItem := by
  unfold doHashInsert
  dsimp only
  split
  . split
    . exact ⟨rfl, rfl⟩
    . split
      . exact ⟨rfl, rfl⟩
      . exact ⟨rfl, rfl⟩
  . exact ⟨rfl, rfl⟩

theorem own_binAdd (h : t.own true n = s.own true n) (hitem : t.mc.m_item = s.mc.m_item)
    {opt : LsMcUpdOpt} (hret : opt.m_iRetcode = .DONE) {k : Nat} {bs bt : List UInt8}
    (hbytes : bt.take k = bs.take k) (hlen : s.mc.m_parms.val.len = k + s.sizeofItem)
    : ((((t.doHashInsert opt).1.setIterOff (t.doHashInsert opt).2.2).setRetcode
        (t.doHashInsert opt).2.1.m_iRetcode).doBinDataUpdate bt hdr).own false n =
      ((((s.doHashInsert opt).1.setIterOff (s.doHashInsert opt).2.2).setRetcode
        (s.doHashInsert opt).2.1.m_iRetcode).doBinDataUpdate bs hdr).own false n := by
  have hstate : (t.doHashInsert opt).1.own true n = (s.doHashInsert opt).1.own true n := by
    rw [(own_doHashInsert t opt).1, h, ← (own_doHashInsert s opt).1]
  have hsame : (t.doHashInsert opt).2 = (s.doHashInsert opt).2 := by
    rw [(own_doHashInsert t opt).2, h, ← (own_doHashInsert s opt).2]
  rw [hsame]
  refine own_storeData ?_ ?_ (fun _ => iRetcode_doHashInsert hret) hbytes fun e he => ?_
  . rw [own_setRetcode, own_setRetcode, own_setIterOff, own_setIterOff, hstate]
  . exact ((frame_doHashInsert opt).1.trans hitem).trans (frame_doHashInsert opt).1.symm
  . refine (valLen_doHashInsert he).trans ?_
    show _ = k + (s.doHashInsert opt).1.sizeofItem
    rw [(frame_doHashInsert opt).2, hlen]

theorem cmd_stat (f : LsMcStats → LsMcStats)
    : (s.stat f).mc.toLsMcCmdInProgress = s.mc.toLsMcCmdInProgress ∧
      (s.stat f).sizeofItem = s.sizeofItem := by
  unfold stat
  split <;> exact ⟨rfl, rfl⟩

theorem frame_doHashUpdate {opt : LsMcUpdOpt}
    (hcmd : ¬ (opt.m_iFlags &&& LSMC_CMDMASK = MC_BINCMD_INCREMENT ∨
      opt.m_iFlags &&& LSMC_CMDMASK = MC_BINCMD_DECREMENT))
    : (s.doHashUpdate opt).1.mc.m_item = s.mc.m_item ∧
      (s.doHashUpdate opt).1.mc.m_parms = s.mc.m_parms ∧
      (s.doHashUpdate opt).1.sizeofItem = s.sizeofItem := by
  have hupd : ∀ off e, (s.updateElem opt off e).1.mc.m_item = s.mc.m_item ∧
      (s.updateElem opt off e).1.mc.m_parms = s.mc.m_parms ∧
      (s.updateElem opt off e).1.sizeofItem = s.sizeofItem := by
    intro off e
    unfold updateElem
    dsimp only
    rw [if_neg hcmd]
    split
    . exact ⟨rfl, rfl, rfl⟩
    . split
      . split
        . exact ⟨rfl, rfl, rfl⟩
        . split
          . exact ⟨rfl, rfl, rfl⟩
          . exact ⟨rfl, rfl, rfl⟩
      . exact ⟨rfl, rfl, rfl⟩
  unfold doHashUpdate
  dsimp only
  split
  . exact ⟨rfl, rfl, rfl⟩
  . split
    . exact ⟨rfl, rfl, rfl⟩
    . split
      . exact ⟨rfl, rfl, rfl⟩
      . exact hupd _ _

def replaceCall (s : McCall) (hdr : McBinCmdHdr) (opt : LsMcUpdOpt) : McCall :=
  let r := s.doHashUpdate opt
  let s := (r.1.setIterOff r.2.2).setRetcode r.2.1.m_iRetcode
  if hdr.cas ≠ 0 then s.binCasStat r.2.1.m_iRetcode else s

theorem replaceCall_frame (s : McCall) (hdr : McBinCmdHdr) (opt : LsMcUpdOpt)
    : let r := s.doHashUpdate opt
      (s.replaceCall hdr opt).mc.m_item = r.1.mc.m_item ∧
        (s.replaceCall hdr opt).mc.m_iterOff = r.2.2 ∧
        (s.replaceCall hdr opt).mc.m_retcode = r.2.1.m_iRetcode ∧
        (s.replaceCall hdr opt).getHash = r.1.getHash ∧
        (s.replaceCall hdr opt).sizeofItem = r.1.sizeofItem := by
  unfold replaceCall binCasStat
  dsimp only
  split
  . rw [getHash_stat, (cmd_stat _).1, (cmd_stat _).2]
    exact ⟨rfl, rfl, rfl, rfl, rfl⟩
  . exact ⟨rfl, rfl, rfl, rfl, rfl⟩

theorem own_replaceCall (h : t.own true n = s.own true n) (hitem : t.mc.m_item = s.mc.m_item)
    {opt : LsMcUpdOpt} (hcmd : opt.m_iFlags &&& LSMC_CMDMASK = MC_BINCMD_REPLACE) {k : Nat}
    {bs bt : List UInt8} (hbytes : bt.take k = bs.take k)
    (hlen : s.mc.m_parms.val.len = k + s.sizeofItem)
    : ((t.replaceCall hdr opt).doBinDataUpdate bt hdr).own false n =
      ((s.replaceCall hdr opt).doBinDataUpdate bs hdr).own false n := by
  obtain ⟨hstate, hsame⟩ := same_doHashUpdate h opt
  have hincr := not_count (.inl hcmd)
  obtain ⟨hitemS, hoffS, hretS, hhashS, hsizeS⟩ := replaceCall_frame s hdr opt
  have hfound : (s.doHashUpdate opt).2.2 ≠ 0 →
      s.doHashUpdate opt = ((s.ofHash (s.getHash.doUpdate (s.getHash.find2 s.mc.m_hkey
        s.mc.m_parms.key) s.mc.m_hkey s.mc.m_parms)).1, { opt with m_iRetcode := .DONE },
        (s.getHash.doUpdate (s.getHash.find2 s.mc.m_hkey s.mc.m_parms.key) s.mc.m_hkey
          s.mc.m_parms).2) := by
    intro h0
    obtain ⟨e, -, hupd⟩ := doHashUpdate_of_ne_zero h0
    rw [hupd] at h0 ⊢
    exact updateElem_replace hcmd h0
  refine own_storeData ?_ ?_ (fun h0 => ?_) hbytes fun e he => ?_
  . unfold replaceCall
    dsimp only
    rw [hsame, own_ite, own_ite]
    simp only [own_binCasStat, own_setRetcode, own_setIterOff, hstate]
  . rw [hitemS, (replaceCall_frame t hdr opt).1, (frame_doHashUpdate hincr).1,
      (frame_doHashUpdate hincr).1, hitem]
  . rw [hoffS] at h0
    rw [hretS, hfound h0]
    rintro (h | h) <;> cases h
  . rw [hhashS, hoffS] at he
    rw [hsizeS, (frame_doHashUpdate hincr).2.2, ← hlen]
    have h0 : (s.doHashUpdate opt).2.2 ≠ 0 := by
      intro h0
      rw [h0, LsShmHash.offset2iterator_zero] at he
      cases he
    rw [hfound h0] at he
    exact valLen_ofHash (LsShmHash.hasLen_doUpdate _ _ _ _) he

def appendCall (s : McCall) (opt : LsMcUpdOpt) : McCall :=
  let r := s.doHashUpdate opt
  let ret := if r.2.1.m_iRetcode = .NOTFOUND then UpdRet.DONE else r.2.1.m_iRetcode
  (r.1.setIterOff r.2.2).setRetcode ret

theorem own_appendCall (h : t.own true n = s.own true n) {opt : LsMcUpdOpt}
    (hcmd : opt.m_iFlags &&& LSMC_CMDMASK = MC_BINCMD_APPEND ∨
      opt.m_iFlags &&& LSMC_CMDMASK = MC_BINCMD_PREPEND)
    (hret : opt.m_iRetcode = .APPEND ∨ opt.m_iRetcode = .PREPEND) {bs bt : List UInt8}
    (hbytes : bt.take s.mc.m_parms.val.len = bs.take s.mc.m_parms.val.len)
    : ((t.appendCall opt).doBinDataUpdate bt hdr).own false n =
      ((s.appendCall opt).doBinDataUpdate bs hdr).own false n := by
  obtain ⟨hstate, hsame⟩ := same_doHashUpdate h opt
  have hincr := not_count (.inr hcmd)
  have hcall : (t.appendCall opt).own true n = (s.appendCall opt).own true n := by
    unfold appendCall
    dsimp only
    rw [hsame]
    simp only [own_setRetcode, own_setIterOff, hstate]
  have hdone : (s.appendCall opt).mc.m_iterOff ≠ 0 →
      (s.appendCall opt).mc.m_retcode = .APPEND ∨ (s.appendCall opt).mc.m_retcode = .PREPEND := by
    intro h0
    have h0 : (s.doHashUpdate opt).2.2 ≠ 0 := h0
    obtain ⟨e, -, hupd⟩ := doHashUpdate_of_ne_zero h0
    have hopt : (s.doHashUpdate opt).2.1 = opt := by
      rw [hupd] at h0 ⊢
      exact updateElem_append hcmd h0
    show (if (s.doHashUpdate opt).2.1.m_iRetcode = .NOTFOUND then UpdRet.DONE
        else (s.doHashUpdate opt).2.1.m_iRetcode) = .APPEND ∨
      (if (s.doHashUpdate opt).2.1.m_iRetcode = .NOTFOUND then UpdRet.DONE
        else (s.doHashUpdate opt).2.1.m_iRetcode) = .PREPEND
    rw [hopt]
    rcases hret with h | h <;> rw [h] <;> decide
  refine own_false (own_doBinDataUpdate hcall (fun _ _ => of_own hcall (fun u => u.mc.m_parms.val)
    fun _ => rfl) (fun h0 hne => absurd (hdone h0) hne) fun h0 e _ => ?_)
  have hlen : (s.appendCall opt).copyLen e = s.mc.m_parms.val.len := by
    unfold copyLen
    rw [if_pos (hdone h0)]
    show (s.doHashUpdate opt).1.mc.m_parms.val.len = _
    rw [(frame_doHashUpdate hincr).2.1]
  rw [hlen]
  exact hbytes

theorem own_binStore (h : t.own true n = s.own true n) {cmd k pVal : Nat} {opt : LsMcUpdOpt}
    (hstore : s.Stores cmd k opt) (hret : s.mc.m_retcode = .DONE)
    (hitem : cmd = MC_BINCMD_REPLACE ∨ cmd = MC_BINCMD_ADD ∨ cmd = MC_BINCMD_SET →
      t.mc.m_item = s.mc.m_item) (hpos : pVal + k ≤ n)
    (hcmd : cmd = MC_BINCMD_SET ∨ cmd = MC_BINCMD_ADD ∨ cmd = MC_BINCMD_REPLACE ∨
      cmd = MC_BINCMD_APPEND ∨ cmd = MC_BINCMD_PREPEND)
    : (t.binStore hdr cmd pVal opt).own false n = (s.binStore hdr cmd pVal opt).own false n := by
  have hbytes : (t.conn.m_bufIncoming.drop pVal).take k = (s.conn.m_bufIncoming.drop pVal).take k :=
    bufBytes_of_own h hpos
  have hstat : ∀ f, (t.stat f).own true n = (s.stat f).own true n := by
    intro f
    rw [own_stat, own_stat, h]
  have hparms : ∀ (u : McCall) f, (u.stat f).mc.m_parms = u.mc.m_parms := fun u f =>
    congrArg (fun c : LsMcCmdInProgress => c.m_parms) (cmd_stat f).1
  have hretcode : ∀ (u : McCall) f, (u.stat f).mc.m_retcode = u.mc.m_retcode := fun u f =>
    congrArg (fun c : LsMcCmdInProgress => c.m_retcode) (cmd_stat f).1
  have hitems : cmd = MC_BINCMD_REPLACE ∨ cmd = MC_BINCMD_ADD ∨ cmd = MC_BINCMD_SET →
      ∀ f, (t.stat f).mc.m_item = (s.stat f).mc.m_item := by
    intro hset f
    rw [item_stat, item_stat, hitem hset]
  have hlens : cmd = MC_BINCMD_REPLACE ∨ cmd = MC_BINCMD_ADD ∨ cmd = MC_BINCMD_SET →
      ∀ f, (s.stat f).mc.m_parms.val.len = k + (s.stat f).sizeofItem := by
    intro hset f
    rw [hparms, (cmd_stat f).2, (hstore.set hset).1]
  unfold binStore
  dsimp only
  by_cases hset : cmd = MC_BINCMD_SET
  . rw [if_pos hset, if_pos hset]
    exact own_setCall (hstat _) (hitems (by omega) _) (by rw [hretcode]; exact hret) hbytes
      (hlens (by omega) _)
  . rw [if_neg hset, if_neg hset]
    by_cases hadd : cmd = MC_BINCMD_ADD
    . rw [if_pos hadd, if_pos hadd]
      exact own_binAdd (hstat _) (hitems (by omega) _) (hstore.set (by omega)).2 hbytes
        (hlens (by omega) _)
    . rw [if_neg hadd, if_neg hadd]
      by_cases hreplace : cmd = MC_BINCMD_REPLACE
      . rw [if_pos hreplace, if_pos hreplace]
        exact own_replaceCall (hstat _) (hitems (by omega) _) (hstore.replace hreplace) hbytes
          (hlens (by omega) _)
      . rw [if_neg hreplace, if_neg hreplace]
        have happend : cmd = MC_BINCMD_APPEND ∨ cmd = MC_BINCMD_PREPEND := by omega
        obtain ⟨hlen, hflags, hopt⟩ := hstore.append happend
        refine own_appendCall (hstat _) (by rw [hflags]; exact happend) hopt ?_
        rw [hparms, hlen]
        exact hbytes

theorem own_doBinGet (h : t.own keep n = s.own keep n) (cmd : Nat) {doTouch : Bool}
    (hitem : doTouch = true → t.mc.m_item.x_exptime = s.mc.m_item.x_exptime)
    : (t.doBinGet hdr cmd doTouch).own keep n = (s.doBinGet hdr cmd doTouch).own keep n := by
  have hhash := of_own h getHash fun _ => rfl
  have hhkey := of_own h (fun u => u.mc.m_hkey) fun _ => rfl
  have hkey := of_own h (fun u => u.mc.m_parms.key) fun _ => rfl
  have hmiss : ∀ (s t : McCall) keyLen, t.own keep n = s.own keep n →
      ((t.binGetStat doTouch false).binGetMiss hdr keyLen).own keep n =
        ((s.binGetStat doTouch false).binGetMiss hdr keyLen).own keep n := by
    intro s t keyLen h
    simp only [own_binGetMiss, own_binGetStat, h]
  have hoff : ∀ off, (t.setIterOff off).own keep n = (s.setIterOff off).own keep n := by
    intro off
    rw [own_setIterOff, own_setIterOff, h]
  unfold doBinGet
  dsimp only
  rw [hhash, hhkey, hkey]
  by_cases hfind : s.getHash.find2 s.mc.m_hkey s.mc.m_parms.key = 0
  . rw [if_pos hfind, if_pos hfind]
    exact hmiss _ _ _ (hoff _)
  . rw [if_neg hfind, if_neg hfind]
    split
    . simp only [own_binErrRespond, hoff]
    . rename_i e _
      by_cases hexp : isExpired s.getHash e = true
      . rw [if_pos hexp, if_pos hexp]
        apply hmiss
        simp only [own_notifyChange, own_setHash, hoff]
      . rw [if_neg hexp, if_neg hexp]
        cases doTouch with
        | false =>
          simp only [Bool.false_eq_true, if_false, own_binGetHit, own_binGetStat, hoff]
        | true =>
          have hexptime : (t.setIterOff (s.getHash.find2 s.mc.m_hkey s.mc.m_parms.key)).mc.m_item.x_exptime =
            (s.setIterOff (s.getHash.find2 s.mc.m_hkey s.mc.m_parms.key)).mc.m_item.x_exptime := hitem rfl
          simp only [if_true, hexptime, own_binGetHit, own_binGetStat, own_notifyChange, own_setHash, hoff]

theorem own_doBinFlush (h : t.own keep n = s.own keep n) (hn : sizeofBinHdr + hdr.totbody ≤ n)
    (hitem : 0 < hdr.extralen → t.mc.m_item.x_exptime = s.mc.m_item.x_exptime)
    : (t.doBinFlush hdr).own keep n = (s.doBinFlush hdr).own keep n := by
  have hcond : (0 < hdr.extralen ∧ t.mc.m_item.x_exptime ≠ 0) ↔
      (0 < hdr.extralen ∧ s.mc.m_item.x_exptime ≠ 0) :=
    and_congr_right fun hextra => by rw [hitem hextra]
  have hagg := of_own h statsAggregate fun _ => rfl
  have huse := of_own h useMulti fun _ => rfl
  have hhash := of_own h getHash fun _ => rfl
  have hslice := of_own h sliceAt fun _ => rfl
  have huser := of_own h (fun u => u.mc.m_bConfigMultiUser) fun _ => rfl
  have hpslice := of_own h (fun u => u.conn.m_pSlice) fun _ => rfl
  have hall : ∀ u : McCall, (foreachSlice (multiFlushFunc true) u).1.own keep n =
        (foreachSlice (multiFlushFunc true) (u.own keep n)).1 ∧
      (foreachSlice (multiFlushFunc true) u).2 = (foreachSlice (multiFlushFunc true) (u.own keep n)).2 :=
    fun u => own_foreachSlice u fun s i => own_multiFlushFunc s true i
  have hfwd : ∀ i, (t.fwdBinToRemote i hdr).1.own keep n = (s.fwdBinToRemote i hdr).1.own keep n ∧
      (t.fwdBinToRemote i hdr).2 = (s.fwdBinToRemote i hdr).2 := by
    intro i
    have hown : ∀ u : McCall, (u.fwdBinToRemote i hdr).1.own keep n = ((u.own keep n).fwdBinToRemote i hdr).1 ∧
        (u.fwdBinToRemote i hdr).2 = ((u.own keep n).fwdBinToRemote i hdr).2 :=
      fun u => own_fwdBinToRemote hn i
    rw [(hown t).1, (hown s).1, (hown t).2, (hown s).2, h]
    exact ⟨rfl, rfl⟩
  unfold doBinFlush
  dsimp only
  rw [hagg, huse, hhash, hslice, huser, hpslice]
  refine own_ite_congr hcond ?_ (own_ite_congr Iff.rfl ?_ ?_)
  . simp only [own_binErrRespond, h]
  . rw [(hall t).2, (hall s).2, h]
    refine own_ite_congr Iff.rfl ?_ ?_
    . simp only [own_binOkRespond, (hall t).1, (hall s).1, h]
    . simp only [own_binErrRespond, (hall t).1, (hall s).1, h]
  . generalize (if s.mc.m_bConfigMultiUser then s.conn.m_pSlice else 0) = sl
    refine own_ite_congr Iff.rfl ?_ ?_
    . rw [own_putWaitQ, own_putWaitQ, h]
    . by_cases hone : (!s.useMulti) = true
      . simp only [if_pos hone]
        rw [(hfwd sl).2]
        refine own_ite_congr Iff.rfl (hfwd sl).1 ?_
        simp only [own_binOkRespond, own_flushOne, (hfwd sl).1]
      . simp only [if_neg hone]
        refine own_ite_congr Iff.rfl h ?_
        simp only [own_binOkRespond, own_flushOne, h]

theorem own_doBinStats (h : t.own keep n = s.own keep n) (hn : sizeofBinHdr + hdr.keylen ≤ n)
    : (t.doBinStats hdr).own keep n = (s.doBinStats hdr).own keep n := by
  have hkey : (hdr.keylen = 5 ∧ bufBytes t.conn.m_bufIncoming sizeofBinHdr 5 = bytes "reset") ↔
      (hdr.keylen = 5 ∧ bufBytes s.conn.m_bufIncoming sizeofBinHdr 5 = bytes "reset") :=
    and_congr_right fun hlen => by rw [bufBytes_of_own h (by omega)]
  have hhdr := of_own h (fun u => u.conn.m_iHdrOff) fun _ => rfl
  have hstats := of_own h curStats fun u => curStats_own u
  have henv := of_own h (fun u => u.mc.env) fun _ => rfl
  unfold doBinStats
  rw [hhdr, hstats, henv]
  refine own_ite_congr Iff.rfl ?_ (own_ite_congr hkey ?_ ?_)
  . simp only [own_binErrRespond, h]
  . simp only [own_binOkRespond, own_resetStats, h]
  . simp only [own_binOkRespond, own_foldl_doBinStat1Send, h]

theorem own_doBinSaslAuth (h : t.own keep n = s.own keep n) (hfit : hdr.keylen ≤ hdr.totbody)
    (hn : sizeofBinHdr + hdr.totbody ≤ n)
    : (t.doBinSaslAuth hdr).own keep n = (s.doBinSaslAuth hdr).own keep n := by
  have hmech : bufBytes t.conn.m_bufIncoming sizeofBinHdr hdr.keylen =
      bufBytes s.conn.m_bufIncoming sizeofBinHdr hdr.keylen := bufBytes_of_own h (by omega)
  have hdata : bufBytes t.conn.m_bufIncoming (sizeofBinHdr + hdr.keylen) (hdr.totbody - hdr.keylen) =
      bufBytes s.conn.m_bufIncoming (sizeofBinHdr + hdr.keylen) (hdr.totbody - hdr.keylen) :=
    bufBytes_of_own h (by omega)
  have hmc := of_own h (fun u => u.mc.m_mcparms) fun _ => rfl
  have henv := of_own h (fun u => u.mc.env) fun _ => rfl
  unfold doBinSaslAuth
  dsimp only
  rw [if_neg (Nat.not_lt.mpr hfit), if_neg (Nat.not_lt.mpr hfit), hmech, hdata, hmc, henv]
  refine own_ite_congr Iff.rfl ?_ (own_ite_congr Iff.rfl ?_ ?_)
  . let clear := fun u : McCall => ({ u with conn := { u.conn with m_pUser := none } } : McCall)
    have hclear : ∀ u, (clear u).own keep n = clear (u.own keep n) := fun _ => rfl
    show (clear (t.binErrRespond hdr .UNKNOWNCMD)).own keep n =
      (clear (s.binErrRespond hdr .UNKNOWNCMD)).own keep n
    rw [hclear, hclear, own_binErrRespond, own_binErrRespond, h]
  . simp only [own_binErrRespond, h]
  . split
    . rename_i user _
      let login := fun u : McCall => ({ u with conn := { u.conn with
        authenticated := true
        saslUser := some user
        m_pUser := if u.mc.m_bConfigMultiUser then some user else u.conn.m_pUser } } : McCall)
      have hlogin : ∀ u, (login u).own keep n = login (u.own keep n) := fun _ => rfl
      show (((login t).binTextRespond hdr 0 .SUCCESS (bytes "Authenticated")).authStat false).own keep n =
        (((login s).binTextRespond hdr 0 .SUCCESS (bytes "Authenticated")).authStat false).own keep n
      simp only [own_authStat, own_binTextRespond, hlogin, h]
    . rename_i result _
      have hres := of_own h (fun u => u.binResHdr hdr 0 0 result.length .AUTHCONTINUE) fun _ => rfl
      rw [hres]
      refine own_ite_congr Iff.rfl ?_ ?_
      . simp only [own_binRespond, h]
      . simp only [own_binRespond, h]
    . simp only [own_authStat, own_binErrRespond, h]

structure SameReq (n : Nat) (hdr : McBinCmdHdr) (cmd k pVal : Nat) (opt : LsMcUpdOpt) (s t : McCall) : Prop where
  own : t.own false n = s.own false n
  fits : hdr.extralen + hdr.keylen ≤ hdr.totbody
  size : sizeofBinHdr + hdr.totbody ≤ n
  exptime : cmd = MC_BINCMD_TOUCH ∨ cmd = MC_BINCMD_GAT ∨ cmd = MC_BINCMD_GATK ∨
    cmd = MC_BINCMD_FLUSH ∧ 0 < hdr.extralen → t.mc.m_item.x_exptime = s.mc.m_item.x_exptime
  item : cmd = MC_BINCMD_REPLACE ∨ cmd = MC_BINCMD_ADD ∨ cmd = MC_BINCMD_SET → t.mc.m_item = s.mc.m_item
  val : cmd = MC_BINCMD_REPLACE ∨ cmd = MC_BINCMD_ADD ∨ cmd = MC_BINCMD_SET ∨ cmd = MC_BINCMD_APPEND ∨
    cmd = MC_BINCMD_PREPEND ∨ cmd = MC_BINCMD_INCREMENT ∨ cmd = MC_BINCMD_DECREMENT →
    t.mc.m_parms.val = s.mc.m_parms.val
  stores : s.Stores cmd k opt
  pos : cmd = MC_BINCMD_REPLACE ∨ cmd = MC_BINCMD_ADD ∨ cmd = MC_BINCMD_SET ∨ cmd = MC_BINCMD_APPEND ∨
    cmd = MC_BINCMD_PREPEND → pVal + k ≤ n
  count : cmd = MC_BINCMD_INCREMENT ∨ cmd = MC_BINCMD_DECREMENT →
    hdr.extralen = 20 ∧ opt.m_iFlags &&& LSMC_CMDMASK = cmd
  level : cmd = MC_BINCMD_VERBOSITY → hdr.extralen = 4

theorem own_true (h : t.own false n = s.own false n) (hval : t.mc.m_parms.val = s.mc.m_parms.val)
    : t.own true n = s.own true n := by
  have hset : ∀ u : McCall, u.own true n = { u.own false n with
      mc := { (u.own false n).mc with
        m_parms := { (u.own false n).mc.m_parms with val := u.mc.m_parms.val } } } := fun _ => rfl
  rw [hset t, hset s, h, hval]

def SameRes {β : Type} (n : Nat) (r r' : McCall × β) : Prop :=
  r'.1.own false n = r.1.own false n ∧ r'.2 = r.2

theorem SameRes.ite {β : Type} {c : Prop} [Decidable c] {a b a' b' : McCall × β} (ha : c → SameRes n a a')
    (hb : ¬ c → SameRes n b b') : SameRes n (if c then a else b) (if c then a' else b') := by
  split
  . rename_i h
    exact ha h
  . rename_i h
    exact hb h

theorem own_runBinCmd {cmd k pVal : Nat} {opt : LsMcUpdOpt} (h : SameReq n hdr cmd k pVal opt s t)
    : SameRes n (s.runBinCmd hdr cmd pVal opt) (t.runBinCmd hdr cmd pVal opt) := by
  have hstart : t.binStart.own false n = s.binStart.own false n := by
    unfold binStart
    simp only [own_setRescas, own_setRetcode, h.own]
  have hok : (t.binStart.binOkRespond hdr).own false n = (s.binStart.binOkRespond hdr).own false n := by
    rw [own_binOkRespond, own_binOkRespond, hstart]
  have hfit := h.fits
  have hsize := h.size
  show SameRes n (if _ then _ else _) (if _ then _ else _)
  -- the requests for the value of a key
  refine .ite (fun hcmd => ⟨own_doBinGet hstart cmd fun _ => h.exptime (by omega), rfl⟩) fun _ => ?_
  refine .ite (fun _ => ⟨own_doBinGet hstart cmd fun htouch => (by cases htouch), rfl⟩) fun _ => ?_
  -- those that change it
  refine .ite (fun hcmd => ?_) fun _ => ?_
  . have hstores : s.binStart.Stores cmd k opt := ⟨h.stores.set, h.stores.replace, h.stores.append⟩
    exact ⟨own_binStore (own_true hstart (h.val (by omega))) hstores rfl (fun hset => h.item (by omega))
      (h.pos (by omega)) hcmd, rfl⟩
  refine .ite (fun _ => ⟨?_, rfl⟩) fun _ => ?_
  . show (t.binStart.doBinDelete hdr).own false n = (s.binStart.doBinDelete hdr).own false n
    rw [own_doBinDelete, own_doBinDelete, hstart]
  refine .ite (fun hcmd => ?_) fun _ => ?_
  . obtain ⟨hextra, hflags⟩ := h.count hcmd
    exact ⟨own_doBinArithmetic (own_true hstart (h.val (by omega))) (by omega) (by rw [hflags]; exact hcmd)
      cmd, rfl⟩
  -- those about no key
  refine .ite (fun _ => ⟨hok, rfl⟩) fun _ => ?_
  refine .ite (fun hflush => ?_) fun _ => ?_
  . exact ⟨own_doBinFlush hstart hsize fun hextra => h.exptime (by omega), rfl⟩
  refine .ite (fun _ => ⟨hok, rfl⟩) fun _ => ?_
  refine .ite (fun _ => ⟨?_, rfl⟩) fun _ => ?_
  . show (t.binStart.doBinVersion hdr).own false n = (s.binStart.doBinVersion hdr).own false n
    rw [own_doBinVersion, own_doBinVersion, hstart]
  refine .ite (fun _ => ⟨own_doBinStats hstart (by omega), rfl⟩) fun _ => ?_
  refine .ite (fun hverb => ⟨?_, rfl⟩) fun _ => ?_
  . have hextra := h.level hverb
    have hlevel : readBe t.binStart.conn.m_bufIncoming sizeofBinHdr 4 =
      readBe s.binStart.conn.m_bufIncoming sizeofBinHdr 4 := readBe_of_own hstart (by omega)
    show ((t.binStart.setVerbose (readBe t.binStart.conn.m_bufIncoming sizeofBinHdr 4)).binOkRespond
        hdr).own false n =
      ((s.binStart.setVerbose (readBe s.binStart.conn.m_bufIncoming sizeofBinHdr 4)).binOkRespond
        hdr).own false n
    rw [hlevel, own_binOkRespond, own_binOkRespond, own_setVerbose, own_setVerbose, hstart]
  refine .ite (fun _ => ?_) fun _ => ?_
  . have hmc : t.binStart.mc.m_mcparms = s.binStart.mc.m_mcparms :=
      of_own hstart (fun u => u.mc.m_mcparms) fun _ => rfl
    show SameRes n (if (!s.binStart.mc.m_mcparms.m_usesasl) = true then _ else _)
      (if (!t.binStart.mc.m_mcparms.m_usesasl) = true then _ else _)
    rw [hmc]
    refine .ite (fun _ => ⟨hok, rfl⟩) fun _ => ⟨?_, rfl⟩
    show (t.binStart.doBinSaslList hdr).own false n = (s.binStart.doBinSaslList hdr).own false n
    rw [own_doBinSaslList, own_doBinSaslList, hstart]
  refine .ite (fun _ => ⟨own_doBinSaslAuth hstart (by omega) hsize, rfl⟩) fun _ => ⟨?_, rfl⟩
  show (t.binStart.binErrRespond hdr .UNKNOWNCMD).own false n =
    (s.binStart.binErrRespond hdr .UNKNOWNCMD).own false n
  rw [own_binErrRespond, own_binErrRespond, hstart]

structure SameSetup (n : Nat) (hdr : McBinCmdHdr) (cmd : Nat) (r r' : McCall × BinSetup) : Prop where
  res : SameRes n r r'
  body : ∀ pVal opt, r.2 = .body pVal opt → SameReq n hdr cmd hdr.vallen pVal opt r.1 r'.1

theorem SameRes.refuse {r r' : McCall × BinSetup} (h : SameRes n r r') (hret : ∀ pVal opt, r.2 ≠ .body pVal opt)
    (cmd : Nat) : SameSetup n hdr cmd r r' :=
  ⟨h, fun pVal opt hbody => absurd hbody (hret pVal opt)⟩

theorem SameReq.setup {cmd pVal : Nat} {opt : LsMcUpdOpt} (h : SameReq n hdr cmd hdr.vallen pVal opt s t)
    : SameSetup n hdr cmd (s, .body pVal opt) (t, .body pVal opt) where
  res := ⟨h.own, rfl⟩
  body := by
    intro pVal' opt' hbody
    cases hbody
    exact h

theorem binCmds : MC_BINCMD_SET = 1 ∧ MC_BINCMD_ADD = 2 ∧ MC_BINCMD_REPLACE = 3 ∧ MC_BINCMD_INCREMENT = 5 ∧
    MC_BINCMD_DECREMENT = 6 ∧ MC_BINCMD_FLUSH = 8 ∧ MC_BINCMD_APPEND = 14 ∧ MC_BINCMD_PREPEND = 15 ∧
    MC_BINCMD_VERBOSITY = 27 ∧ MC_BINCMD_TOUCH = 28 ∧ MC_BINCMD_GAT = 29 ∧ MC_BINCMD_GATK = 35 := by
  decide

theorem casOpt_cmd {cmd : Nat} (hcmd : cmd = MC_BINCMD_APPEND ∨ cmd = MC_BINCMD_PREPEND ∨
    cmd = MC_BINCMD_INCREMENT ∨ cmd = MC_BINCMD_DECREMENT) (cas : Nat)
    : (s.casOpt cmd cas).m_iFlags &&& LSMC_CMDMASK = cmd := by
  unfold casOpt
  dsimp only
  split
  . rcases hcmd with h | h | h | h <;> rw [h] <;> decide
  . rcases hcmd with h | h | h | h <;> rw [h] <;> decide

theorem same_chkMemSz (h : t.own true n = s.own true n) (cmd : Nat)
    : (t.chkMemSz cmd).1.own true n = (s.chkMemSz cmd).1.own true n ∧
      (t.chkMemSz cmd).2 = (s.chkMemSz cmd).2 := by
  rw [(own_chkMemSz t cmd).1, (own_chkMemSz t cmd (n := n)).2, h, ← (own_chkMemSz s cmd).1,
    ← (own_chkMemSz s cmd (n := n)).2]
  exact ⟨rfl, rfl⟩

theorem refused_chkMemSz (h : t.own true n = s.own true n) (cmd : Nat)
    : SameSetup n hdr cmd ((s.chkMemSz cmd).1, .err (s.chkMemSz cmd).2)
      ((t.chkMemSz cmd).1, .err (s.chkMemSz cmd).2) := by
  have hres : SameRes n ((s.chkMemSz cmd).1, BinSetup.err (s.chkMemSz cmd).2)
      ((t.chkMemSz cmd).1, BinSetup.err (s.chkMemSz cmd).2) := ⟨own_false (same_chkMemSz h cmd).1, rfl⟩
  exact hres.refuse (fun _ _ hbody => by cases hbody) cmd

theorem same_setupSet (h : t.own true n = s.own true n) {cmd : Nat}
    (hvalid : hdr.extralen + hdr.keylen ≤ hdr.totbody) (hn : sizeofBinHdr + hdr.totbody ≤ n)
    (hlen : s.mc.m_parms.val.len = hdr.vallen)
    (hset : cmd = MC_BINCMD_REPLACE ∨ cmd = MC_BINCMD_ADD ∨ cmd = MC_BINCMD_SET) (hextra : hdr.extralen = 8)
    : SameSetup n hdr cmd
      (s.setupExtras hdr cmd sizeofBinHdr (sizeofBinHdr + hdr.extralen + hdr.keylen))
      (t.setupExtras hdr cmd sizeofBinHdr (sizeofBinHdr + hdr.extralen + hdr.keylen)) := by
  have hcmds := binCmds
  obtain ⟨hchk, hstat⟩ := same_chkMemSz h cmd
  have hexp : readBe t.conn.m_bufIncoming (sizeofBinHdr + 4) 4 =
    readBe s.conn.m_bufIncoming (sizeofBinHdr + 4) 4 := readBe_of_own h (by omega)
  have hflags : readBe t.conn.m_bufIncoming sizeofBinHdr 4 =
    readBe s.conn.m_bufIncoming sizeofBinHdr 4 := readBe_of_own h (by omega)
  have hopt := of_own h (fun u => u.mc.env.updOpt) fun _ => rfl
  unfold setupExtras
  dsimp only
  rw [if_pos hset, if_pos hset, if_neg (not_not.mpr hextra), if_neg (not_not.mpr hextra), hstat, hexp, hflags,
    hopt]
  by_cases hok : (s.chkMemSz cmd).2 ≠ .SUCCESS
  . rw [if_pos hok, if_pos hok]
    exact refused_chkMemSz h cmd
  . rw [if_neg hok, if_neg hok]
    generalize ({ x_exptime := _, x_flags := _ } : LsMcDataItem) = item
    have hadj := of_own hchk (fun u => (u.setItem item).parmAdjLen (u.setItem item).mc.m_parms.val.len)
      fun _ => rfl
    rw [hadj]
    have hvallen : (s.chkMemSz cmd).1.mc.m_parms.val.len = hdr.vallen := by
      rw [(chkMemSz_frame cmd).1, hlen]
    refine SameReq.setup
      { own := own_false (s := (s.chkMemSz cmd).1) (t := (t.chkMemSz cmd).1) hchk
        fits := hvalid
        size := hn
        exptime := fun h => by omega
        item := fun _ => rfl
        val := fun _ => rfl
        stores := ⟨fun _ => ⟨?_, rfl⟩, fun hreplace => ?_, fun h => by omega⟩
        pos := fun _ => ?_
        count := fun h => by omega
        level := fun h => by omega }
    . show (s.chkMemSz cmd).1.mc.m_parms.val.len + _ = _
      rw [hvallen]
      rfl
    . rw [if_pos hreplace, hreplace]
      exact (by decide : MC_BINCMD_REPLACE &&& LSMC_CMDMASK = MC_BINCMD_REPLACE)
    . unfold McBinCmdHdr.vallen
      omega

theorem same_setupAppend (h : t.own true n = s.own true n) {cmd : Nat}
    (hvalid : hdr.extralen + hdr.keylen ≤ hdr.totbody) (hn : sizeofBinHdr + hdr.totbody ≤ n)
    (hlen : s.mc.m_parms.val.len = hdr.vallen)
    (happend : cmd = MC_BINCMD_APPEND ∨ cmd = MC_BINCMD_PREPEND)
    : SameSetup n hdr cmd
      (s.setupExtras hdr cmd sizeofBinHdr (sizeofBinHdr + hdr.extralen + hdr.keylen))
      (t.setupExtras hdr cmd sizeofBinHdr (sizeofBinHdr + hdr.extralen + hdr.keylen)) := by
  have hcmds := binCmds
  obtain ⟨hchk, hstat⟩ := same_chkMemSz h cmd
  have hopt : (t.chkMemSz cmd).1.casOpt cmd hdr.cas = (s.chkMemSz cmd).1.casOpt cmd hdr.cas :=
    of_own hchk (fun u => u.casOpt cmd hdr.cas) fun _ => rfl
  have hset : ¬ (cmd = MC_BINCMD_REPLACE ∨ cmd = MC_BINCMD_ADD ∨ cmd = MC_BINCMD_SET) := by omega
  have htouch : ¬ (cmd = MC_BINCMD_TOUCH ∨ cmd = MC_BINCMD_GAT ∨ cmd = MC_BINCMD_GATK ∨
    cmd = MC_BINCMD_FLUSH) := by omega
  have hcount : ¬ (cmd = MC_BINCMD_INCREMENT ∨ cmd = MC_BINCMD_DECREMENT) := by omega
  unfold setupExtras
  dsimp only
  rw [if_neg hset, if_neg hset, if_neg htouch, if_neg htouch, if_neg hcount, if_neg hcount, if_pos happend,
    if_pos happend, hstat, hopt]
  by_cases hok : (s.chkMemSz cmd).2 ≠ .SUCCESS
  . rw [if_pos hok, if_pos hok]
    exact refused_chkMemSz h cmd
  . rw [if_neg hok, if_neg hok]
    have hvallen : (s.chkMemSz cmd).1.mc.m_parms.val.len = hdr.vallen := by
      rw [(chkMemSz_frame cmd).1, hlen]
    refine SameReq.setup
      { own := own_false hchk
        fits := hvalid
        size := hn
        exptime := fun h => by omega
        item := fun h => absurd h hset
        val := fun _ => of_own hchk (fun u => u.mc.m_parms.val) fun _ => rfl
        stores := ⟨fun h => absurd h hset, fun h => by omega, fun _ => ⟨hvallen, ?_, ?_⟩⟩
        pos := fun _ => ?_
        count := fun h => absurd h hcount
        level := fun h => by omega }
    . exact casOpt_cmd (by omega) hdr.cas
    . dsimp only
      split
      . exact .inl rfl
      . exact .inr rfl
    . unfold McBinCmdHdr.vallen
      omega

theorem same_setupExtras (h : t.own true n = s.own true n) {cmd : Nat}
    (hvalid : hdr.extralen + hdr.keylen ≤ hdr.totbody) (hn : sizeofBinHdr + hdr.totbody ≤ n)
    (hlen : s.mc.m_parms.val.len = hdr.vallen) (hok : ∀ k, checkedExtra cmd = some k → hdr.extralen = k)
    : SameSetup n hdr cmd
      (s.setupExtras hdr cmd sizeofBinHdr (sizeofBinHdr + hdr.extralen + hdr.keylen))
      (t.setupExtras hdr cmd sizeofBinHdr (sizeofBinHdr + hdr.extralen + hdr.keylen)) := by
  have hcmds := binCmds
  have hopt : t.mc.env.updOpt = s.mc.env.updOpt := of_own h (fun u => u.mc.env.updOpt) fun _ => rfl
  unfold checkedExtra at hok
  by_cases hset : cmd = MC_BINCMD_REPLACE ∨ cmd = MC_BINCMD_ADD ∨ cmd = MC_BINCMD_SET
  . rw [if_pos hset] at hok
    exact same_setupSet h hvalid hn hlen hset (hok 8 rfl)
  rw [if_neg hset] at hok
  by_cases happend : cmd = MC_BINCMD_APPEND ∨ cmd = MC_BINCMD_PREPEND
  . exact same_setupAppend h hvalid hn hlen happend
  by_cases htouch : cmd = MC_BINCMD_TOUCH ∨ cmd = MC_BINCMD_GAT ∨ cmd = MC_BINCMD_GATK ∨
      cmd = MC_BINCMD_FLUSH
  . rw [if_pos htouch] at hok
    have hextra := hok 4 rfl
    have hexp : readBe t.conn.m_bufIncoming sizeofBinHdr 4 = readBe s.conn.m_bufIncoming sizeofBinHdr 4 :=
      readBe_of_own h (by omega)
    unfold setupExtras
    dsimp only
    rw [if_neg hset, if_neg hset, if_pos htouch, if_pos htouch, if_neg (not_not.mpr hextra),
      if_neg (not_not.mpr hextra), hexp, hopt]
    exact SameReq.setup
      { own := own_false h
        fits := hvalid
        size := hn
        exptime := fun _ => rfl
        item := fun h => absurd h hset
        val := fun h => by omega
        stores := ⟨fun h => absurd h hset, fun h => by omega, fun h => absurd h happend⟩
        pos := fun h => by omega
        count := fun h => by omega
        level := fun h => by omega }
  rw [if_neg htouch] at hok
  by_cases hcount : cmd = MC_BINCMD_INCREMENT ∨ cmd = MC_BINCMD_DECREMENT
  . rw [if_pos hcount] at hok
    have hextra := hok 20 rfl
    have hdelta : readBe t.conn.m_bufIncoming sizeofBinHdr 8 = readBe s.conn.m_bufIncoming sizeofBinHdr 8 :=
      readBe_of_own h (by omega)
    have hadj : t.parmAdjLen 0 = s.parmAdjLen 0 := of_own h (fun u => u.parmAdjLen 0) fun _ => rfl
    have hcas : t.casOpt cmd hdr.cas = s.casOpt cmd hdr.cas :=
      of_own h (fun u => u.casOpt cmd hdr.cas) fun _ => rfl
    unfold setupExtras
    dsimp only
    rw [if_neg hset, if_neg hset, if_neg htouch, if_neg htouch, if_pos hcount, if_pos hcount,
      if_neg (not_not.mpr hextra), if_neg (not_not.mpr hextra), hdelta, hadj, hcas]
    exact SameReq.setup
      { own := (own_false h : t.own false n = s.own false n)
        fits := hvalid
        size := hn
        exptime := fun h => by omega
        item := fun h => absurd h hset
        val := fun _ => rfl
        stores := ⟨fun h => absurd h hset, fun h => by omega, fun h => absurd h happend⟩
        pos := fun h => by omega
        count := fun _ => ⟨hextra, casOpt_cmd (by omega) hdr.cas⟩
        level := fun h => by omega }
  rw [if_neg hcount] at hok
  have hplain : (cmd = MC_BINCMD_VERBOSITY → hdr.extralen = 4) →
      SameSetup n hdr cmd (s, .body (sizeofBinHdr + hdr.extralen + hdr.keylen) s.mc.env.updOpt)
        (t, .body (sizeofBinHdr + hdr.extralen + hdr.keylen) s.mc.env.updOpt) := fun hlevel =>
    SameReq.setup
      { own := own_false h
        fits := hvalid
        size := hn
        exptime := fun h => by omega
        item := fun h => absurd h hset
        val := fun h => by omega
        stores := ⟨fun h => absurd h hset, fun h => by omega, fun h => absurd h happend⟩
        pos := fun h => by omega
        count := fun h => absurd h hcount
        level := hlevel }
  unfold setupExtras
  dsimp only
  rw [if_neg hset, if_neg hset, if_neg htouch, if_neg htouch, if_neg hcount, if_neg hcount, if_neg happend,
    if_neg happend, hopt]
  by_cases hverb : cmd = MC_BINCMD_VERBOSITY
  . rw [if_pos hverb] at hok
    have hextra := hok 4 rfl
    rw [if_pos hverb, if_pos hverb, if_neg (not_not.mpr hextra), if_neg (not_not.mpr hextra)]
    exact hplain fun _ => hextra
  . rw [if_neg hverb, if_neg hverb]
    exact hplain fun h => absurd h hverb

theorem plain_of_noExtra (hvalid : hdr.Valid) (hbody : hdr.totbody = hdr.keylen) (hno : ¬ hdr.NoValue)
    : ¬ (binCmd hdr = MC_BINCMD_REPLACE ∨ binCmd hdr = MC_BINCMD_ADD ∨ binCmd hdr = MC_BINCMD_SET) ∧
      ¬ (binCmd hdr = MC_BINCMD_APPEND ∨ binCmd hdr = MC_BINCMD_PREPEND) ∧
      ¬ (binCmd hdr = MC_BINCMD_TOUCH ∨ binCmd hdr = MC_BINCMD_GAT ∨ binCmd hdr = MC_BINCMD_GATK) ∧
      ¬ (binCmd hdr = MC_BINCMD_INCREMENT ∨ binCmd hdr = MC_BINCMD_DECREMENT) ∧
      binCmd hdr ≠ MC_BINCMD_VERBOSITY ∧ hdr.extralen = 0 := by
  have hcmds := binCmds
  have hextra : hdr.extralen = 0 := by
    have := hvalid.fits
    omega
  have hsize := hvalid.extra
  unfold McBinCmdHdr.NoValue at hno
  unfold ExtraSize at hsize
  rw [hextra] at hsize
  split at hsize
  . omega
  . rename_i hset
    split at hsize
    . omega
    . rename_i htouch
      refine ⟨hset, fun h => hno ⟨h, hbody⟩, by tauto, ?_, by tauto, hextra⟩
      split at hsize
      . omega
      . split at hsize
        . omega
        . assumption

theorem own_placed (hpos : hdr.pKey + hdr.keylen ≤ n) (hlen : n ≤ s.conn.m_bufIncoming.length)
    : (s.placed hdr).own keep n = (s.own keep n).placed hdr ∧ (s.own keep n).reqKey hdr = s.reqKey hdr := by
  have hkey : (s.own keep n).reqKey hdr = s.reqKey hdr := bufBytes_take _ hpos
  have hin : ∀ u : McCall, n ≤ u.conn.m_bufIncoming.length → u.placed hdr =
      ((u.setNoreply (setupNoreplyCmd hdr.opcode).2).setKey (u.reqKey hdr)).setSlice (u.reqKey hdr) := by
    intro u hu
    unfold placed
    rw [← binKey_eq_markKey]
    unfold binKey
    dsimp only
    rw [if_neg]
    . rfl
    . show ¬ u.conn.m_bufIncoming.length < hdr.pKey + hdr.keylen
      omega
  have hlen' : n ≤ (s.own keep n).conn.m_bufIncoming.length := by
    show n ≤ (s.conn.m_bufIncoming.take n).length
    rw [List.length_take, Nat.min_eq_left hlen]
  refine ⟨?_, hkey⟩
  rw [hin s hlen, hin _ hlen', hkey]
  rfl

theorem same_localSetup (h24 : sizeofBinHdr ≤ s.conn.m_bufIncoming.length)
    (h24' : sizeofBinHdr ≤ t.conn.m_bufIncoming.length) (htot : hdr.totbody < 2 ^ 32) (hvalid : hdr.Valid)
    (hno : ¬ hdr.NoValue) (hwrong : ¬ hdr.WrongExtra) (hn : sizeofBinHdr + hdr.totbody ≤ n)
    (h : (t.placed hdr).own false n = (s.placed hdr).own false n)
    : SameSetup n hdr (binCmd hdr) (s.localSetup hdr) (t.localSetup hdr) := by
  have hswap : ∀ (u : McCall) keep, sizeofBinHdr ≤ u.conn.m_bufIncoming.length →
      u.swapCas.own keep n = (u.own keep n).swapCas := fun u keep hu =>
    own_swapCas hu (by omega)
  have hcmds := binCmds
  unfold localSetup
  by_cases hbody : hdr.totbody = hdr.keylen
  . have hopt : t.mc.env.updOpt = s.mc.env.updOpt :=
      of_own h (fun u => u.mc.env.updOpt) fun _ => rfl
    obtain ⟨hset, happend, htouch, hcount, hverb, hextra⟩ := plain_of_noExtra hvalid hbody hno
    rw [if_pos hbody, if_pos hbody, hopt]
    exact SameReq.setup
      { own := by
          rw [hswap (t.placed hdr) _ h24', hswap (s.placed hdr) _ h24, h]
        fits := hvalid.fits
        size := hn
        exptime := fun h => by omega
        item := fun h => absurd h hset
        val := fun h => by omega
        stores := ⟨fun h => absurd h hset, fun h => by omega, fun h => absurd h happend⟩
        pos := fun h => by omega
        count := fun h => absurd h hcount
        level := fun h => absurd h hverb }
  . rw [if_neg hbody, if_neg hbody]
    dsimp only
    rw [vallen_eq hvalid htot]
    have hval : ((t.placed hdr).setVal hdr.vallen).own true n = ((s.placed hdr).setVal hdr.vallen).own true n :=
      own_true h rfl
    refine same_setupExtras ?_ hvalid.fits hn rfl fun k hcheck => ?_
    . rw [hswap ((t.placed hdr).setVal hdr.vallen) _ h24', hswap ((s.placed hdr).setVal hdr.vallen) _ h24,
        hval]
    . by_contra hne
      exact hwrong ⟨hbody, k, hcheck, hne⟩

theorem keyPos_le (hvalid : hdr.Valid) : hdr.pKey + hdr.keylen ≤ sizeofBinHdr + hdr.totbody := by
  have hfits := hvalid.fits
  unfold McBinCmdHdr.pKey
  split <;> omega

theorem same_binSetup (h : t.own false n = s.own false n) (hn : n = sizeofBinHdr + hdr.totbody)
    (hlen : n ≤ s.conn.m_bufIncoming.length) (hlen' : n ≤ t.conn.m_bufIncoming.length)
    (htot : hdr.totbody < 2 ^ 32) (hvalid : hdr.Valid) (hno : ¬ hdr.NoValue) (hex : s.Executes hdr)
    : SameSetup n hdr (binCmd hdr) (s.binSetup hdr) (t.binSetup hdr) := by
  have hpos : hdr.pKey + hdr.keylen ≤ n := hn ▸ keyPos_le hvalid
  have hplaced : (t.placed hdr).own false n = (s.placed hdr).own false n := by
    rw [(own_placed hpos hlen).1, (own_placed hpos hlen').1, h]
  have hkey : ∀ u : McCall, (u.own false n).reqKey hdr = u.reqKey hdr := fun u => bufBytes_take _ hpos
  have hbusy : t.MasterBusy hdr = s.MasterBusy hdr := by
    refine of_own h (fun u => u.MasterBusy hdr) fun u => ?_
    unfold MasterBusy
    rw [hkey]
    rfl
  have hslave : t.IsSlave hdr = s.IsSlave hdr := by
    refine of_own h (fun u => u.IsSlave hdr) fun u => ?_
    unfold IsSlave
    rw [hkey]
    rfl
  rw [executes_iff] at hex
  obtain ⟨-, -, hkeylen, -, hok⟩ := hex
  rw [binSetup_eq, binSetup_eq, if_neg (Nat.not_lt.mpr hkeylen), if_neg (Nat.not_lt.mpr hkeylen), hbusy, hslave]
  by_cases hq : hdr.toMaster = true ∧ s.MasterBusy hdr = true
  . rw [if_pos hq, if_pos hq]
    have hres : SameRes n ((s.placed hdr).putWaitQ, BinSetup.queued) ((t.placed hdr).putWaitQ, .queued) :=
      ⟨by rw [own_putWaitQ, own_putWaitQ, hplaced], rfl⟩
    exact hres.refuse (fun _ _ hbody => by cases hbody) _
  . rw [if_neg hq, if_neg hq]
    by_cases hf : hdr.toMaster = true ∧ s.IsSlave hdr = true
    . rw [if_pos hf, if_pos hf]
      have hslice : (t.placed hdr).conn.m_pSlice = (s.placed hdr).conn.m_pSlice :=
        of_own hplaced (fun u => u.conn.m_pSlice) fun _ => rfl
      have hres : SameRes n
          (((s.placed hdr).fwdBinToRemote (s.placed hdr).conn.m_pSlice hdr).1, BinSetup.forwarded)
          (((t.placed hdr).fwdBinToRemote (t.placed hdr).conn.m_pSlice hdr).1, .forwarded) := by
        refine ⟨?_, rfl⟩
        rw [(own_fwdBinToRemote hn.ge _).1, (own_fwdBinToRemote hn.ge _).1, hplaced, hslice]
      exact hres.refuse (fun _ _ hbody => by cases hbody) _
    . rw [if_neg hf, if_neg hf]
      refine same_localSetup (by omega) (by omega) htot hvalid hno ?_ hn.ge hplaced
      rcases hok with ⟨hm, hb | ⟨hs, -⟩⟩ | hok
      . exact absurd ⟨hm, hb⟩ hq
      . exact absurd ⟨hm, hs⟩ hf
      . exact hok

theorem same_processBinReq (h : t.own false n = s.own false n) (hn : n = sizeofBinHdr + hdr.totbody)
    (hlen : n ≤ s.conn.m_bufIncoming.length) (hlen' : n ≤ t.conn.m_bufIncoming.length)
    (htot : hdr.totbody < 2 ^ 32) (hvalid : hdr.Valid) (hno : ¬ hdr.NoValue) (hex : s.Executes hdr)
    (consumed : Int) : SameRes n (s.processBinReq hdr consumed) (t.processBinReq hdr consumed) := by
  have hsasl : t.saslRefuses hdr.opcode = false :=
    (of_own h (fun u => u.saslRefuses hdr.opcode) fun _ => rfl).trans hex.1
  obtain ⟨⟨hstate, hret⟩, hbody⟩ := same_binSetup h hn hlen hlen' htot hvalid hno hex
  rw [processBinReq_after, processBinReq_after, hex.1, hsasl, if_neg Bool.false_ne_true,
    if_neg Bool.false_ne_true, hret]
  generalize hs : s.binSetup hdr = r at hstate hret hbody ⊢
  obtain ⟨u, ret⟩ := r
  generalize (t.binSetup hdr).1 = v at hstate hret hbody ⊢
  cases ret with
  | invalid => exact ⟨by simp only [own_binErrRespond, hstate], rfl⟩
  | queued => exact ⟨hstate, rfl⟩
  | forwarded => exact ⟨hstate, rfl⟩
  | err stat => exact ⟨by simp only [own_binErrRespond, hstate], rfl⟩
  | body pVal opt =>
    obtain ⟨hrun, hclose⟩ := own_runBinCmd (hbody pVal opt rfl)
    have hwait := of_own hrun (fun u => u.conn.cmdWait) fun _ => rfl
    dsimp only
    rw [hclose, hwait]
    exact .ite (fun _ => ⟨hrun, rfl⟩) fun _ => ⟨hrun, rfl⟩

end

/--
What `f` answers and leaves behind is the same for every call with the same first `n` bytes in its
buffer, whatever value and item an earlier command has left behind and whatever bytes follow.
-/
def KeepsTo (s : McCall) (n : Nat) (f : McCall → McCall × Int) : Prop :=
  ∀ t : McCall, t.own false n = s.own false n → SameRes n (f s) (f t)

/--
A request is executed by `f` only if it is valid, and then with the bytes of its own body, whatever an
earlier command has left behind and whatever follows the body. Any other request is answered with an
error.
-/
def OwnReq (s : McCall) (hdr : McBinCmdHdr) (f : McCall → McCall × Int) : Prop :=
  (s.Executes hdr → hdr.Valid ∧ s.Received hdr ∧
    (∀ val item, OwnSetup s.conn.m_bufIncoming hdr ((s.withLeft val item).binSetup hdr)) ∧
    s.KeepsTo (sizeofBinHdr + hdr.totbody) f) ∧
  (¬ s.Executes hdr → s.RefusedBy hdr (f s).1 ∧
    (s.saslRefuses hdr.opcode = true ∨ KEY_MAXLEN < hdr.keylen ∨ s.KeyInBuffer hdr))

section

variable {s : McCall} {hdr : McBinCmdHdr}

theorem KeepsToBody.of_ownReq {f : McCall → McCall × Int} (h : s.OwnReq hdr f) : s.KeepsToBody hdr := by
  obtain ⟨hexec, hrefuse⟩ := h
  by_cases hex : s.Executes hdr
  . obtain ⟨hvalid, hrecv, hown, -⟩ := hexec hex
    exact .inr (.inr (.inr ⟨hvalid, hrecv, fun hno => not_ownSetup_noValue hno hex hown⟩))
  . obtain ⟨-, hin⟩ := hrefuse hex
    rw [executes_iff] at hex
    unfold KeepsToBody
    have hsasl := Bool.not_eq_true (s.saslRefuses hdr.opcode)
    have hkey := Nat.not_lt (a := KEY_MAXLEN) (b := hdr.keylen)
    tauto

theorem KeepsToBody.valid (h : s.KeepsToBody hdr) (hex : s.Executes hdr)
    : hdr.Valid ∧ s.Received hdr ∧ ¬ hdr.NoValue := by
  rw [executes_iff] at hex
  unfold KeepsToBody at h
  have hsasl := Bool.not_eq_true (s.saslRefuses hdr.opcode)
  have hkey := Nat.not_lt (a := KEY_MAXLEN) (b := hdr.keylen)
  tauto

theorem KeepsToBody.inBuffer (h : s.KeepsToBody hdr)
    : s.saslRefuses hdr.opcode = true ∨ KEY_MAXLEN < hdr.keylen ∨ s.KeyInBuffer hdr := by
  rcases h with h | h | ⟨h, -⟩ | ⟨hvalid, hrecv, -⟩
  . exact .inl h
  . exact .inr (.inl h)
  . exact .inr (.inr h)
  . exact .inr (.inr ((keyPos_le hvalid).trans hrecv))

theorem keepsTo_processBinCmd (hcomplete : s.Complete) (hhdr : hdr = McBinCmdHdr.ofBuf s.conn.m_bufIncoming)
    (hex : s.Executes hdr) (hvalid : hdr.Valid) (hrecv : s.Received hdr) (hno : ¬ hdr.NoValue)
    : s.KeepsTo (sizeofBinHdr + hdr.totbody) processBinCmd := by
  intro t h
  have htot : hdr.totbody < 2 ^ 32 := by
    rw [hhdr]
    exact readBe_lt s.conn.m_bufIncoming 8 4
  have hlen : sizeofBinHdr + hdr.totbody ≤ t.conn.m_bufIncoming.length := by
    have htake := congrArg List.length (buf_of_own h)
    unfold Received at hrecv
    rw [List.length_take, List.length_take] at htake
    omega
  have hhdr' : McBinCmdHdr.ofBuf t.conn.m_bufIncoming = hdr := by
    rw [← ofBuf_take _ (Nat.le_add_right sizeofBinHdr hdr.totbody), buf_of_own h,
      ofBuf_take _ (Nat.le_add_right sizeofBinHdr hdr.totbody), hhdr]
  have hcomplete' : t.Complete := by
    refine ⟨by omega, ?_⟩
    rw [hhdr']
    have hle := toInt32_le (sizeofBinHdr + hdr.totbody)
    omega
  rw [processBinCmd_complete hcomplete, processBinCmd_complete hcomplete', hhdr', ← hhdr]
  exact same_processBinReq h rfl hrecv hlen htot hvalid hno hex _

end

def UsesOwnBytes (s : McCall) : Prop :=
  s.Complete → s.OwnReq (McBinCmdHdr.ofBuf s.conn.m_bufIncoming) processBinCmd

/--
A set of the key "a" whose body is the key alone.
-/
def sampleSetCall : McCall :=
  sampleCall
    ([MC_BINARY_REQ, UInt8.ofNat MC_BINCMD_SET, 0, 1, 0, 0, 0, 0, 0, 0, 0, 1] ++ List.replicate 12 0 ++
      bytes "a")

end McCall

end Lsmcd
