import Lsmcd.Memcache.LockBalance

/-!
The locks in the binary protocol, and the condition under which a command leaves all locks as it found
them.
-/

namespace Lsmcd

open LockTrace

namespace McCall

variable {s : McCall} {hdr : McBinCmdHdr}

def BinStoring (cmd : Nat) : Prop :=
  cmd = MC_BINCMD_SET ∨ cmd = MC_BINCMD_ADD ∨ cmd = MC_BINCMD_REPLACE ∨ cmd = MC_BINCMD_APPEND ∨
    cmd = MC_BINCMD_PREPEND

instance : DecidablePred BinStoring := fun _ => inferInstanceAs (Decidable (_ ∨ _))

def binStoreStart (s : McCall) : McCall :=
  s.binStart.stat fun st => { st with set_cmds := st.set_cmds + 1 }

def binInitStart (s : McCall) : McCall :=
  let buf := s.conn.m_bufIncoming
  let text := decimal (readBe buf (sizeofBinHdr + 8) 8)
  (s.setItem { x_exptime := readBe buf (sizeofBinHdr + 16) 4, x_flags := 0 }).setVal (s.parmAdjLen text.length)

/--
A storage request does what the locks allow: without a value it has not taken the lock, and must not
store; with one it must enter a sound element.
-/
def BinStoreSafe (s : McCall) (hdr : McBinCmdHdr) (cmd : Nat) (opt : LsMcUpdOpt) : Prop :=
  if hdr.totbody = hdr.keylen then
    (cmd = MC_BINCMD_ADD → s.InsertIdle) ∧ (cmd ≠ MC_BINCMD_ADD → cmd ≠ MC_BINCMD_SET → s.UpdateIdle opt)
  else s.StoreSound cmd opt

def InitSound (s : McCall) : Prop :=
  let u := s.binInitStart
  readBe s.conn.m_bufIncoming (sizeofBinHdr + 16) 4 ≠ 0xffffffff →
    (u.getHash.doInsert (u.getHash.find2 u.mc.m_hkey u.mc.m_parms.key) u.mc.m_hkey u.mc.m_parms).2 ≠ 0 →
      u.getHash.Sound u.mc.m_parms.key.length u.mc.m_parms.val.len

structure BinArithSafe (s : McCall) (opt : LsMcUpdOpt) : Prop where
  update : s.UpdateSound opt
  init : (s.doHashUpdate opt).2.2 = 0 → (s.doHashUpdate opt).2.1.m_iRetcode = .NOTFOUND →
    ((s.doHashUpdate opt).1.setIterOff (s.doHashUpdate opt).2.2).InitSound

structure BinBodySafe (s : McCall) (hdr : McBinCmdHdr) (cmd : Nat) (opt : LsMcUpdOpt) : Prop where
  store : BinStoring cmd → s.binStoreStart.BinStoreSafe hdr cmd opt
  arith : cmd = MC_BINCMD_INCREMENT ∨ cmd = MC_BINCMD_DECREMENT → s.binStart.BinArithSafe opt

section Store

variable (cmd : Nat) (opt : LsMcUpdOpt)

theorem binStored_intact (h : s.Ready) (hdr : McBinCmdHdr)
    : (s.binStored hdr cmd opt).IterIntact ↔ s.StoreSound cmd opt := by
  unfold binStored StoreSound
  dsimp only
  by_cases hset : cmd = MC_BINCMD_SET
  . rw [if_pos hset, if_neg (by rw [hset]; decide), if_pos hset]
    exact iterIntact_set h _ (getHash_setHash s _) rfl
  . rw [if_neg hset, if_neg hset]
    split
    . exact iterIntact_insert h opt _ rfl rfl
    . split
      . split
        . refine iterIntact_update h opt _ (getHash_stat _ _) ?_
          unfold binCasStat stat
          split <;> rfl
        . exact iterIntact_update h opt _ rfl rfl
      . exact iterIntact_update h opt _ rfl rfl

theorem sameKey_binStored (s : McCall) (hdr : McBinCmdHdr) : SameKey s (s.binStored hdr cmd opt) := by
  unfold binStored
  dsimp only
  split
  . exact ⟨rfl, rfl, rfl⟩
  . split
    . exact (sameKey_doHashInsert s opt).trans ⟨rfl, rfl, rfl⟩
    . have hupd := sameKey_doHashUpdate s opt
      split
      . split
        . refine SameKey.trans ?_ (sameKey_stat _ _)
          exact hupd.trans ⟨rfl, rfl, rfl⟩
        . exact hupd.trans ⟨rfl, rfl, rfl⟩
      . exact hupd.trans ⟨rfl, rfl, rfl⟩

theorem ready_binStart (h : s.Ready) : s.binStart.Ready := h.after ⟨rfl, rfl, rfl⟩ h.sane rfl

theorem ready_binStoreStart (h : s.Ready) : s.binStoreStart.Ready := (ready_binStart h).stat _

theorem sameKey_binStoreStart (s : McCall) : SameKey s s.binStoreStart := by
  have hstart : SameKey s s.binStart := ⟨rfl, rfl, rfl⟩
  exact hstart.trans (sameKey_stat s.binStart _)

def binOpLocks (s : McCall) (cmd : Nat) (opt : LsMcUpdOpt) : LockOps :=
  let hash := s.getHash
  let iterOff := hash.find2 s.mc.m_hkey s.mc.m_parms.key
  if cmd = MC_BINCMD_SET then autoLocks s.hashId (1 + hash.doSetAsserts iterOff s.mc.m_hkey s.mc.m_parms)
  else if cmd = MC_BINCMD_ADD then s.doHashInsertLocks
  else s.doHashUpdateLocks opt

theorem binStoreLocks_eq (s : McCall) (hdr : McBinCmdHdr)
    : s.binStart.binStoreLocks hdr cmd opt =
      s.binStoreStart.binOpLocks cmd opt ++ (s.binStoreStart.binStored hdr cmd opt).doBinDataUpdateLocks := rfl

theorem inner_binOpLocks (s : McCall) : Inner s.hashId (s.binOpLocks cmd opt) :=
  inner_ite (fun _ => inner_autoLocks _ _)
    (fun _ => inner_ite (fun _ => inner_doHashInsertLocks s) (fun _ => inner_doHashUpdateLocks s opt))

theorem balanced_binStore_value (h : s.Ready) (hbody : hdr.totbody ≠ hdr.keylen) {k : HashId} {t : LockOps}
    (ht : Inner k t) (hk : s.hashId = k)
    : TraceBalanced (lock k ++ (t ++ s.binStart.binStoreLocks hdr cmd opt)) ↔
      s.binStoreStart.BinStoreSafe hdr cmd opt := by
  have hstart := sameKey_binStoreStart s
  have hin := inner_binOpLocks cmd opt s.binStoreStart
  have hafter := hstart.trans (sameKey_binStored cmd opt s.binStoreStart hdr)
  rw [hstart.hashId, hk] at hin
  unfold BinStoreSafe
  rw [binStoreLocks_eq, ← List.append_assoc t,
    balanced_doBinDataUpdate (ht.append hin) (hafter.hashId.trans hk), if_neg hbody]
  exact binStored_intact cmd opt (ready_binStoreStart h) hdr

theorem balanced_binStore_key (h : s.Ready) (hlru : s.getHash.flagLru = true) (hbody : hdr.totbody = hdr.keylen)
    : TraceBalanced (s.binStart.binStoreLocks hdr cmd opt) ↔ s.binStoreStart.BinStoreSafe hdr cmd opt := by
  have hready := ready_binStoreStart h
  have hflag : s.binStoreStart.getHash.flagLru = true := by
    unfold binStoreStart
    rw [getHash_stat]
    exact hlru
  rw [binStoreLocks_eq]
  unfold BinStoreSafe
  rw [if_pos hbody]
  generalize s.binStoreStart = u at *
  have hdata := balanced_autoUpdate (u.binStored hdr cmd opt)
  unfold binOpLocks
  dsimp only
  by_cases hset : cmd = MC_BINCMD_SET
  . have hadd : cmd ≠ MC_BINCMD_ADD := by
      rw [hset]
      decide
    rw [if_pos hset]
    exact ⟨fun _ => ⟨fun ha => absurd ha hadd, fun _ hs => absurd hset hs⟩,
      fun _ => (balanced_autoLocks _ _).append hdata⟩
  . rw [if_neg hset]
    by_cases hadd : cmd = MC_BINCMD_ADD
    . rw [if_pos hadd, balanced_autoInsert hdata, doHashInsertAsserts_eq_zero hready hflag]
      exact ⟨fun hi => ⟨fun _ => hi, fun hne => absurd hadd hne⟩, fun hs => hs.1 hadd⟩
    . rw [if_neg hadd, balanced_autoHashUpdate hdata, doHashUpdateAsserts_eq_zero hflag]
      exact ⟨fun hi => ⟨fun ha => absurd ha hadd, fun _ _ => hi⟩, fun hs => hs.2 hadd hset⟩

end Store

section Arithmetic

variable {k : HashId} {t : LockOps}

theorem balanced_binArithInit (hrep : ∃ E, LsShmHash.Rep s.getHash E)
    (hkey : s.mc.m_hkey = s.getHash.m_hf s.mc.m_parms.key) (ht : Inner k t) (hk : s.hashId = k) (cmd : Nat)
    : TraceBalanced (lock k ++ (t ++ s.binArithInitLocks cmd)) ↔ s.InitSound := by
  unfold binArithInitLocks InitSound
  dsimp only
  by_cases hexp : readBe s.conn.m_bufIncoming (sizeofBinHdr + 16) 4 = 0xffffffff
  . have hstat : (s.binArithStat cmd false).hashId = k := by
      rw [← hk]
      unfold binArithStat stat
      split <;> rfl
    rw [if_pos hexp, hstat]
    exact ⟨fun _ hne => absurd hexp hne, fun _ => balanced_section (keeps_of_inner ht)⟩
  . rw [if_neg hexp, ← binInitStart]
    have hstart : SameKey s s.binInitStart := ⟨rfl, rfl, rfl⟩
    have hhash : s.binInitStart.getHash = s.getHash := rfl
    have hkey' : s.binInitStart.mc.m_hkey = s.binInitStart.getHash.m_hf s.binInitStart.mc.m_parms.key := hkey
    have hk' : s.binInitStart.hashId = k := hk
    rw [← hhash] at hrep
    generalize s.binInitStart = u at *
    have hin : ∀ n, Inner k (t ++ autoLocks u.hashId n) := by
      intro n
      rw [hk']
      exact ht.append (inner_autoLocks k n)
    rw [← List.append_assoc t]
    have hintact : ∀ v : McCall, v.getHash = (u.getHash.doInsert (u.getHash.find2 u.mc.m_hkey u.mc.m_parms.key)
        u.mc.m_hkey u.mc.m_parms).1 → v.mc.m_iterOff = (u.getHash.doInsert (u.getHash.find2 u.mc.m_hkey
        u.mc.m_parms.key) u.mc.m_hkey u.mc.m_parms).2 → (v.IterIntact ↔ ((u.getHash.doInsert (u.getHash.find2
        u.mc.m_hkey u.mc.m_parms.key) u.mc.m_hkey u.mc.m_parms).2 ≠ 0 →
          u.getHash.Sound u.mc.m_parms.key.length u.mc.m_parms.val.len)) := by
      intro v hv hoff
      unfold IterIntact
      rw [hv, hoff]
      exact imp_congr_right fun h0 => doInsert_sound hrep hkey' h0
    refine (balanced_doBinDataUpdate (hin _) ?_).trans ?_
    . exact hk'
    . refine (hintact _ ?_ ?_).trans ?_
      . exact getHash_setHash u _
      . rfl
      . exact ⟨fun hs _ => hs, fun hs => hs hexp⟩

theorem balanced_doBinArithmetic (h : s.Ready) (cmd : Nat) (opt : LsMcUpdOpt)
    : TraceBalanced (s.doBinArithmeticLocks cmd opt) ↔ s.BinArithSafe opt := by
  have hin := inner_doHashUpdateLocks s opt
  have hsame := sameKey_doHashUpdate s opt
  have hvac : ¬ (s.doHashUpdate opt).2.2 ≠ 0 → s.UpdateSound opt := fun h0 hne => absurd hne h0
  unfold doBinArithmeticLocks
  dsimp only
  by_cases h0 : (s.doHashUpdate opt).2.2 ≠ 0
  . rw [if_pos h0]
    have hset : SameKey s ((s.doHashUpdate opt).1.setIterOff (s.doHashUpdate opt).2.2) :=
      hsame.trans ⟨rfl, rfl, rfl⟩
    have hafter : SameKey s ((((s.doHashUpdate opt).1.setIterOff (s.doHashUpdate opt).2.2).binArithStat cmd
        true).setRetcode .NONE) := (hset.trans (sameKey_stat _ _)).trans ⟨rfl, rfl, rfl⟩
    have hintact : ((((s.doHashUpdate opt).1.setIterOff (s.doHashUpdate opt).2.2).binArithStat cmd
        true).setRetcode .NONE).IterIntact ↔ s.UpdateSound opt := by
      apply iterIntact_update h opt
      . exact getHash_stat _ _
      . unfold binArithStat stat
        split <;> rfl
    rw [balanced_doBinDataUpdate hin hafter.hashId, hintact]
    exact ⟨fun hs => ⟨hs, fun hz => absurd hz h0⟩, fun hs => hs.update⟩
  . rw [if_neg h0]
    have hz := not_not.mp h0
    by_cases hret : (s.doHashUpdate opt).2.1.m_iRetcode = .NOTFOUND
    . rw [if_pos hret]
      obtain ⟨hrep, hf⟩ := doHashUpdate_notFound h hz hret
      have hkey : (s.doHashUpdate opt).1.mc.m_hkey =
          (s.doHashUpdate opt).1.getHash.m_hf (s.doHashUpdate opt).1.mc.m_parms.key := by
        rw [hsame.hkey, hsame.key, hf, h.hkey]
      rw [balanced_binArithInit (s := (s.doHashUpdate opt).1.setIterOff (s.doHashUpdate opt).2.2) hrep hkey hin
        hsame.hashId]
      exact ⟨fun hs => ⟨hvac h0, fun _ _ => hs⟩, fun hs => hs.init hz hret⟩
    . rw [if_neg hret]
      exact ⟨fun _ => ⟨hvac h0, fun _ hr => absurd hr hret⟩, fun _ => balanced_section (keeps_of_inner hin)⟩

end Arithmetic

section Others

variable (hdr)

theorem Ready.found (h : s.Ready) {iter : Option LsShmHElem}
    (hiter : s.getHash.offset2iterator (s.getHash.find2 s.mc.m_hkey s.mc.m_parms.key) = iter)
    (hoff : ¬ s.getHash.find2 s.mc.m_hkey s.mc.m_parms.key = 0) : iter.isSome = true := by
  rw [h.find2] at hiter hoff
  rw [← hiter]
  exact h.sane.isSome hoff

theorem balanced_doBinGet (h : s.Ready) : TraceBalanced s.doBinGetLocks := by
  unfold doBinGetLocks
  dsimp only
  apply balanced_locked
  apply (inner_autoLocks _ _).append
  apply inner_ite (fun _ => inner_nil)
  intro hoff
  split
  . rename_i hnone
    exact nomatch h.found hnone hoff
  . exact inner_ite (fun _ => inner_autoLocks _ _) (fun _ => inner_nil)

theorem balanced_doBinDelete (h : s.Ready) : TraceBalanced (s.doBinDeleteLocks hdr) := by
  unfold doBinDeleteLocks
  dsimp only
  apply balanced_locked
  apply (inner_autoLocks _ _).append
  apply inner_ite (fun _ => inner_nil)
  intro hoff
  split
  . rename_i hnone
    exact nomatch h.found hnone hoff
  . apply inner_ite (fun _ => inner_autoLocks _ _)
    exact fun _ => inner_ite (fun _ => inner_nil) (fun _ => inner_autoLocks _ _)

variable (s)

theorem balanced_doBinFlush : TraceBalanced (s.doBinFlushLocks hdr) := by
  apply balanced_ite (fun _ => balanced_nil)
  intro _
  apply balanced_ite
  . exact fun _ => balanced_foreach s balanced_multiFlush _ _
  . intro _
    apply balanced_ite (fun _ => balanced_nil)
    exact fun _ => balanced_ite (fun _ => balanced_nil) (fun _ => balanced_flushOne _)

theorem balanced_doBinStats : TraceBalanced (s.doBinStatsLocks hdr) := by
  apply balanced_ite (fun _ => balanced_nil)
  exact fun _ => balanced_ite (fun _ => balanced_resetStats s) (fun _ => balanced_curStats s)

theorem balanced_doBinSaslList : TraceBalanced (s.doBinSaslListLocks hdr) := by
  apply balanced_ite (fun _ => balanced_nil)
  exact fun _ => balanced_ite (fun _ => balanced_locked inner_nil) (fun _ => balanced_nil)

theorem balanced_doBinSaslAuth : TraceBalanced (s.doBinSaslAuthLocks hdr) := by
  apply balanced_ite (fun _ => balanced_nil)
  intro _
  apply balanced_ite (fun _ => balanced_nil)
  intro _
  dsimp only
  split
  . exact balanced_nil
  . exact balanced_locked inner_nil

end Others

section Body

variable (cmd : Nat) (opt : LsMcUpdOpt)

theorem balanced_runBin (h : s.Ready) (hno : ¬ BinStoring cmd)
    : TraceBalanced (s.runBinLocks hdr cmd opt) ↔ s.BinBodySafe hdr cmd opt := by
  have hready := ready_binStart h
  have htrue : ∀ {P : Prop}, P → ¬ (cmd = MC_BINCMD_INCREMENT ∨ cmd = MC_BINCMD_DECREMENT) →
      (P ↔ s.BinBodySafe hdr cmd opt) :=
    fun hP ha => ⟨fun _ => ⟨fun hs => absurd hs hno, fun hi => absurd hi ha⟩, fun _ => hP⟩
  unfold runBinLocks
  dsimp only
  split
  . rename_i hget
    apply htrue (balanced_doBinGet hready)
    rintro (rfl | rfl) <;> revert hget <;> decide
  . split
    . rename_i hstore
      exact absurd hstore hno
    . split
      . rename_i hdel
        apply htrue (balanced_doBinDelete hdr hready)
        rw [hdel]
        decide
      . split
        . rename_i harith
          rw [balanced_doBinArithmetic hready]
          exact ⟨fun hs => ⟨fun hst => absurd hst hno, fun _ => hs⟩, fun hs => hs.arith harith⟩
        . rename_i harith
          have hrest := fun {P : Prop} (hP : P) => htrue hP harith
          split
          . exact hrest (balanced_doBinFlush _ hdr)
          . split
            . exact hrest (balanced_doBinStats _ hdr)
            . split
              . exact hrest (balanced_doBinSaslList _ hdr)
              . split
                . exact hrest (balanced_doBinSaslAuth _ hdr)
                . exact hrest balanced_nil

theorem not_get_of_storing {cmd : Nat} (h : BinStoring cmd) : ¬ (cmd = MC_BINCMD_TOUCH ∨ cmd = MC_BINCMD_GAT ∨
    cmd = MC_BINCMD_GATK ∨ cmd = MC_BINCMD_GET ∨ cmd = MC_BINCMD_GETK ∨ cmd = MC_BINCMD_GETKQ) := by
  rcases h with rfl | rfl | rfl | rfl | rfl <;> decide

theorem not_arith_of_storing {cmd : Nat} (h : BinStoring cmd)
    : ¬ (cmd = MC_BINCMD_INCREMENT ∨ cmd = MC_BINCMD_DECREMENT) := by
  rcases h with rfl | rfl | rfl | rfl | rfl <;> decide

theorem runBinLocks_store (s : McCall) (hstore : BinStoring cmd)
    : s.runBinLocks hdr cmd opt = s.binStart.binStoreLocks hdr cmd opt := by
  unfold runBinLocks
  dsimp only
  rw [if_neg (not_get_of_storing hstore)]
  exact if_pos hstore

theorem binBodySafe_store (s : McCall) (hstore : BinStoring cmd)
    : s.BinBodySafe hdr cmd opt ↔ s.binStoreStart.BinStoreSafe hdr cmd opt :=
  ⟨fun hs => hs.store hstore, fun hs => ⟨fun _ => hs, fun ha => absurd ha (not_arith_of_storing hstore)⟩⟩

theorem balanced_runBin_key (h : s.Ready) (hlru : s.getHash.flagLru = true) (hbody : hdr.totbody = hdr.keylen)
    : TraceBalanced (s.runBinLocks hdr cmd opt) ↔ s.BinBodySafe hdr cmd opt := by
  by_cases hstore : BinStoring cmd
  . rw [runBinLocks_store cmd opt s hstore, binBodySafe_store cmd opt s hstore]
    exact balanced_binStore_key cmd opt h hlru hbody
  . exact balanced_runBin cmd opt h hstore

end Body

section Setup

variable (s : McCall) (hdr : McBinCmdHdr)

theorem setupBinLocks_eq
    : (s.setNoreply (setupNoreplyCmd hdr.opcode).2).setupBinLocks hdr (binCmd hdr) =
      if KEY_MAXLEN < hdr.keylen then []
      else if hdr.totbody = hdr.keylen then []
      else if hdr.toMaster = true ∧ s.MasterBusy hdr = true then []
      else if hdr.toMaster = true ∧ s.IsSlave hdr = true then []
      else ((s.placed hdr).setVal (binLen hdr)).swapCas.setupExtrasLocks hdr (binCmd hdr) := by
  have hslice := @binSlice_placed s hdr
  have hkey : ((s.setNoreply (setupNoreplyCmd hdr.opcode).2).markKey hdr.pKey hdr.keylen).mc.m_parms.key =
      s.reqKey hdr := rfl
  unfold setupBinLocks
  simp only [binKey_eq_markKey]
  split
  . rfl
  . by_cases hbody : hdr.totbody = hdr.keylen
    . rw [if_pos hbody, if_pos hbody]
    . have hp : hdr.pKey = sizeofBinHdr + hdr.extralen := if_neg hbody
      have hm : hdr.toMaster = isRemoteEligible (binCmd hdr) := if_neg hbody
      rw [if_neg hbody, if_neg hbody, ← hm, ← hp]
      rw [hkey, hslice]
      by_cases hq : hdr.toMaster = true ∧ s.MasterBusy hdr = true
      . rw [if_pos hq, if_pos hq]
      . rw [if_neg hq, if_neg hq]
        by_cases hf : hdr.toMaster = true ∧ s.IsSlave hdr = true
        . rw [if_pos hf, if_pos hf]
        . rw [if_neg hf, if_neg hf, binLen]

end Setup

def BinSafe (s : McCall) (hdr : McBinCmdHdr) : Prop :=
  s.saslRefuses hdr.opcode = false → ∀ pVal opt, (s.binSetup hdr).2 = .body pVal opt →
    (s.binSetup hdr).1.BinBodySafe hdr (binCmd hdr) opt

def bodyLocks (r : McCall × BinSetup) (hdr : McBinCmdHdr) (cmd : Nat) : LockOps :=
  match r.2 with
  | .err _ => unlock r.1.hashId
  | .body _ opt => r.1.runBinLocks hdr cmd opt
  | _ => []

theorem processBinReqLocks_eq (s : McCall) (hdr : McBinCmdHdr)
    : s.processBinReqLocks hdr = if s.saslRefuses hdr.opcode then []
      else (s.setNoreply (setupNoreplyCmd hdr.opcode).2).setupBinLocks hdr (binCmd hdr) ++
        bodyLocks (s.binSetup hdr) hdr (binCmd hdr) := by
  unfold processBinReqLocks
  rfl

theorem balanced_setupExtras (h : s.Ready) (hbody : hdr.totbody ≠ hdr.keylen) (cmd pReqX pVal : Nat)
    : TraceBalanced (s.setupExtrasLocks hdr cmd ++ bodyLocks (s.setupExtras hdr cmd pReqX pVal) hdr cmd) ↔
      ∀ p opt, (s.setupExtras hdr cmd pReqX pVal).2 = .body p opt →
        (s.setupExtras hdr cmd pReqX pVal).1.BinBodySafe hdr cmd opt := by
  have hchk := inner_chkMemSzLocks s cmd
  have hsame := sameKey_chkMemSz s cmd
  -- the request passes its size check, or gives the lock back
  have hpass : BinStoring cmd → ∀ (u : McCall) (pVal : Nat) (opt : LsMcUpdOpt), u.Ready → SameKey s u →
      (TraceBalanced (lock s.hashId ++ s.chkMemSzLocks cmd ++ bodyLocks (u, .body pVal opt) hdr cmd) ↔
        ∀ p opt', BinSetup.body pVal opt = .body p opt' → u.BinBodySafe hdr cmd opt') := by
    intro hst u pVal opt hu hk
    have hvalue := balanced_binStore_value cmd opt hu hbody hchk hk.hashId
    rw [List.append_assoc]
    show TraceBalanced (lock s.hashId ++ (s.chkMemSzLocks cmd ++ u.runBinLocks hdr cmd opt)) ↔ _
    rw [runBinLocks_store cmd opt u hst, hvalue, ← binBodySafe_store cmd opt u hst]
    refine ⟨?_, fun hs => hs pVal opt rfl⟩
    rintro hs p opt' ⟨⟩
    exact hs
  have hfail : TraceBalanced (lock s.hashId ++ s.chkMemSzLocks cmd ++ unlock (s.chkMemSz cmd).1.hashId) := by
    rw [hsame.hashId, List.append_assoc]
    exact balanced_section (keeps_of_inner hchk)
  have hplain : ¬ BinStoring cmd → ∀ (u : McCall) (pVal : Nat) (opt : LsMcUpdOpt), u.Ready →
      (TraceBalanced ([] ++ bodyLocks (u, .body pVal opt) hdr cmd) ↔
        ∀ p opt', BinSetup.body pVal opt = .body p opt' → u.BinBodySafe hdr cmd opt') := by
    intro hst u pVal opt hu
    rw [List.nil_append]
    refine (balanced_runBin cmd opt hu hst).trans ⟨?_, fun hs => hs pVal opt rfl⟩
    rintro hs p opt' ⟨⟩
    exact hs
  have hinvalid : TraceBalanced ([] ++ bodyLocks (s, .invalid) hdr cmd) ↔
      ∀ p opt, BinSetup.invalid = .body p opt → s.BinBodySafe hdr cmd opt :=
    ⟨fun _ _ _ hb => (by cases hb), fun _ => balanced_nil⟩
  unfold setupExtrasLocks setupExtras
  dsimp only
  split
  . rename_i hcmd
    have hst : BinStoring cmd := by
      rcases hcmd with rfl | rfl | rfl <;> decide
    split
    . exact hinvalid
    . by_cases hs : (s.chkMemSz cmd).2 = .SUCCESS
      . rw [if_neg (not_not.mpr hs)]
        have hready := (h.chkMemSz cmd).1
        apply hpass hst
        . exact hready.after ⟨rfl, rfl, rfl⟩ hready.sane rfl
        . exact hsame.trans ⟨rfl, rfl, rfl⟩
      . rw [if_pos hs]
        exact ⟨fun _ _ _ hb => (by cases hb), fun _ => hfail⟩
  . rename_i hset
    by_cases hgrow : cmd = MC_BINCMD_APPEND ∨ cmd = MC_BINCMD_PREPEND
    . have hst : BinStoring cmd := by
        rcases hgrow with rfl | rfl <;> decide
      have hextra : ¬ (cmd = MC_BINCMD_TOUCH ∨ cmd = MC_BINCMD_GAT ∨ cmd = MC_BINCMD_GATK ∨ cmd = MC_BINCMD_FLUSH) := by
        rcases hgrow with rfl | rfl <;> decide
      rw [if_pos hgrow, if_neg hextra, if_neg (not_arith_of_storing hst), if_pos hgrow]
      by_cases hs : (s.chkMemSz cmd).2 = .SUCCESS
      . rw [if_neg (not_not.mpr hs)]
        exact hpass hst _ _ _ (h.chkMemSz _).1 hsame
      . rw [if_pos hs]
        exact ⟨fun _ _ _ hb => (by cases hb), fun _ => hfail⟩
    . have hst : ¬ BinStoring cmd := by
        rintro (hc | hc | hc | hc | hc)
        . exact hset (Or.inr (Or.inr hc))
        . exact hset (Or.inr (Or.inl hc))
        . exact hset (Or.inl hc)
        . exact hgrow (Or.inl hc)
        . exact hgrow (Or.inr hc)
      have hkeep : ∀ u : McCall, SameKey s u → u.getHash = s.getHash → u.Ready :=
        fun u hk hu => h.after hk (hu ▸ h.sane) (by rw [hu])
      rw [if_neg hgrow]
      split
      . split
        . exact hinvalid
        . exact hplain hst _ _ _ (hkeep _ ⟨rfl, rfl, rfl⟩ rfl)
      . split
        . split
          . exact hinvalid
          . exact hplain hst _ _ _ (hkeep _ ⟨rfl, rfl, rfl⟩ rfl)
        . split
          . split
            . exact hinvalid
            . exact hplain hst _ _ _ h
          . exact hplain hst _ _ _ h

theorem Ready.swapCas (h : s.Ready) : s.swapCas.Ready := h.after ⟨rfl, rfl, rfl⟩ h.sane rfl

theorem Ready.setVal (h : s.Ready) (len : Nat) : (s.setVal len).Ready := h.after ⟨rfl, rfl, rfl⟩ h.sane rfl

theorem getHash_swapCas (s : McCall) : s.swapCas.getHash = s.getHash := rfl

section Request

variable (h : s.Intact)
include h

theorem Intact.placed (hdr : McBinCmdHdr) : (s.placed hdr).Ready ∧ (s.placed hdr).getHash.flagLru = true := by
  obtain ⟨hsane, hf, hlru⟩ := h (s.placed hdr).conn.m_pSlice (s.placed hdr).conn.m_pHash
  exact ⟨⟨hsane, (congrFun hf (s.reqKey hdr)).symm⟩, hlru⟩

theorem balanced_localSetup (hdr : McBinCmdHdr)
    : TraceBalanced ((if hdr.totbody = hdr.keylen then []
        else ((s.placed hdr).setVal (binLen hdr)).swapCas.setupExtrasLocks hdr (binCmd hdr)) ++
        bodyLocks (s.localSetup hdr) hdr (binCmd hdr)) ↔
      ∀ pVal opt, (s.localSetup hdr).2 = .body pVal opt →
        (s.localSetup hdr).1.BinBodySafe hdr (binCmd hdr) opt := by
  obtain ⟨hready, hlru⟩ := h.placed hdr
  by_cases hbody : hdr.totbody = hdr.keylen
  . have hswap := hready.swapCas
    have hflag : (s.placed hdr).swapCas.getHash.flagLru = true := by rw [getHash_swapCas, hlru]
    rw [if_pos hbody, localSetup_key hbody, List.nil_append]
    generalize (s.placed hdr).swapCas = u at *
    refine (balanced_runBin_key (binCmd hdr) _ hswap hflag hbody).trans ⟨?_, fun hs => hs _ _ rfl⟩
    rintro hs p opt ⟨⟩
    exact hs
  . rw [if_neg hbody, localSetup_value hbody]
    exact balanced_setupExtras (hready.setVal (binLen hdr)).swapCas hbody _ _ _

theorem balanced_processBinReq (hdr : McBinCmdHdr)
    : TraceBalanced (s.processBinReqLocks hdr) ↔ s.BinSafe hdr := by
  have hlocal := balanced_localSetup h hdr
  rw [processBinReqLocks_eq]
  unfold BinSafe
  cases hsasl : s.saslRefuses hdr.opcode with
  | true => exact ⟨fun _ hb => (nomatch hb), fun _ => balanced_nil⟩
  | false =>
    have hnone : ∀ (u : McCall) (ret : BinSetup), (∀ p opt, ret ≠ .body p opt) → (∀ st, ret ≠ .err st) →
        (TraceBalanced ([] ++ bodyLocks (u, ret) hdr (binCmd hdr)) ↔
          (false = false → ∀ p opt, ret = .body p opt → u.BinBodySafe hdr (binCmd hdr) opt)) := by
      intro u ret hb he
      refine ⟨fun _ _ p opt hret => absurd hret (hb p opt), fun _ => ?_⟩
      cases ret with
      | err st => exact absurd rfl (he st)
      | body p opt => exact absurd rfl (hb p opt)
      | _ => exact balanced_nil
    rw [if_neg (by decide), setupBinLocks_eq, binSetup_eq]
    by_cases hkey : KEY_MAXLEN < hdr.keylen
    . rw [if_pos hkey, if_pos hkey]
      exact hnone _ _ nofun nofun
    . rw [if_neg hkey, if_neg hkey]
      by_cases hq : hdr.toMaster = true ∧ s.MasterBusy hdr = true
      . rw [if_pos hq, if_pos hq, ite_self]
        exact hnone _ _ nofun nofun
      . rw [if_neg hq, if_neg hq]
        by_cases hf : hdr.toMaster = true ∧ s.IsSlave hdr = true
        . rw [if_pos hf, if_pos hf, ite_self]
          exact hnone _ _ nofun nofun
        . rw [if_neg hf, if_neg hf, hlocal]
          exact ⟨fun hs _ => hs, fun hs => hs rfl⟩

theorem balanced_processBinCmd : TraceBalanced s.processBinCmdLocks ↔
    (s.Complete → s.BinSafe (McBinCmdHdr.ofBuf s.conn.m_bufIncoming)) := by
  unfold processBinCmdLocks Complete
  dsimp only
  split
  . exact ⟨fun _ hc => absurd hc.1 (by omega), fun _ => balanced_nil⟩
  . split
    . exact ⟨fun _ hc => absurd hc.2 (by omega), fun _ => balanced_nil⟩
    . rename_i h24 htot
      rw [balanced_processBinReq h]
      exact ⟨fun hs _ => hs, fun hs => hs ⟨by omega, by omega⟩⟩

end Request

/--
The lines and the requests that leave the locks as they found them, with the automatic mode on.
-/
theorem balanced_iff_safe (h : s.Intact)
    : (TraceBalanced s.processCmdLocks ↔ s.TextSafe) ∧
      (TraceBalanced s.processBinCmdLocks ↔
        (s.Complete → s.BinSafe (McBinCmdHdr.ofBuf s.conn.m_bufIncoming))) :=
  ⟨balanced_processCmd h, balanced_processBinCmd h⟩

def sampleItemHash : Option LsShmHash :=
  sampleHash [Answer.clean 0x1000 80] (HashParm.clean true false)

theorem sampleItemHash_isSome : sampleItemHash.isSome = true := by decide

def sampleItemCall (buf : List UInt8) : McCall :=
  let multi := sampleMulti (sampleItemHash.get sampleItemHash_isSome) sampleParms
  (((McWorld.start multi sampleParms false false sampleEnv).step .accept).call 0).setBuf buf

theorem sampleItemCall_intact (buf : List UInt8) : (sampleItemCall buf).Intact := by
  intro i user
  refine ⟨⟨[], sampleHash_rep (Option.some_get sampleItemHash_isSome).symm, ?_⟩, rfl, rfl⟩
  intro x e he
  have hnone : (sampleItemHash.get sampleItemHash_isSome).table.elem x = none := rfl
  cases hnone.symm.trans he

def sampleSetLine : McCall :=
  sampleItemCall (bytes "set a 0 0 1\r\nx\r\n")

def sampleSetReq : McCall :=
  sampleItemCall
    ([MC_BINARY_REQ, UInt8.ofNat MC_BINCMD_SET, 0, 1, 8, 0, 0, 0, 0, 0, 0, 10] ++ List.replicate 20 0 ++
      bytes "ax")

theorem balanced_iff_safe_sample
    : (TraceBalanced sampleSetLine.processCmdLocks ∧ sampleSetLine.processCmd.1.conn.out = bytes "STORED\r\n") ∧
      TraceBalanced sampleSetReq.processBinCmdLocks ∧
      sampleSetReq.processBinCmd.1.getHash.valueOf (bytes "a") ≠ none := by
  refine ⟨⟨?_, by decide +kernel⟩, ?_, by decide +kernel⟩
  . apply (balanced_iff_safe (sampleItemCall_intact _)).1.mpr
    intro p i hline _
    have hsound : ∀ q ∈ sampleSetLine.textLine, q.1.func = .doCmdUpdate ∧
        ∀ u ∈ (sampleSetLine.lineCall q.2).updateCall q.2 q.1.arg,
          u.StoreCmdSound q.1.arg (updateArgs q.2 q.1.arg).flags (updateArgs q.2 q.1.arg).exptime
            (updateArgs q.2 q.1.arg).length.toNat (updateArgs q.2 q.1.arg).cas := by
      unfold StoreCmdSound
      decide +kernel
    obtain ⟨hfunc, hupd⟩ := hsound _ hline
    exact ⟨fun _ u hu => hupd u hu, fun ha => by cases hfunc.symm.trans ha⟩
  . apply (balanced_iff_safe (sampleItemCall_intact _)).2.mpr
    intro _ _ pVal opt _
    have hset : let hdr := McBinCmdHdr.ofBuf sampleSetReq.conn.m_bufIncoming
        (sampleSetReq.binSetup hdr).1.binStoreStart.SetSound := by
      decide +kernel
    exact (binBodySafe_store _ opt _ (by decide +kernel)).mpr hset

/--
An `add` of the key "a" whose body is the key alone: the lock is not taken, and the insertion asserts that
it is.
-/
def sampleKeyAdd : McCall :=
  sampleItemCall
    ([MC_BINARY_REQ, UInt8.ofNat MC_BINCMD_ADD, 0, 1, 0, 0, 0, 0, 0, 0, 0, 1] ++ List.replicate 12 0 ++
      bytes "a")

theorem not_balanced_keyAdd
    : sampleKeyAdd.Intact ∧ sampleKeyAdd.mc.m_bConfigReplication = false ∧
      ¬ TraceBalanced sampleKeyAdd.processBinCmdLocks := by
  refine ⟨sampleItemCall_intact _, rfl, fun h => ?_⟩
  have hnone : (run sampleKeyAdd.processBinCmdLocks free).isNone = true := by decide +kernel
  rw [TraceBalanced, Keeps] at h
  rw [h] at hnone
  cases hnone

end McCall

end Lsmcd
