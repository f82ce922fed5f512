import Lsmcd.Memcache.Items

/-!
When the commands leave the locks of the hashes as they found them.
-/

namespace Lsmcd

open LockTrace

section Traces

variable {k : HashId} {t : LockOps} {n : Nat}

theorem mem_asserts {p : HashId × LockOp} (h : p ∈ asserts k n) : p = (k, .isLocked) :=
  List.eq_of_mem_replicate h

theorem inner_asserts (k : HashId) (n : Nat) : Inner k (asserts k n) :=
  fun _ hp => Or.inr (Or.inr (mem_asserts hp))

theorem inner_autoLocks (k : HashId) (n : Nat) : Inner k (autoLocks k n) :=
  inner_auto (inner_asserts k n)

theorem balanced_autoLocks (k : HashId) (n : Nat) : TraceBalanced (autoLocks k n) :=
  balanced_auto fun _ => mem_asserts

theorem balanced_asserts_append {u : LockOps}
    : TraceBalanced (asserts k n ++ u) ↔ n = 0 ∧ TraceBalanced u := by
  cases n with
  | zero => exact ⟨fun h => ⟨rfl, h⟩, And.right⟩
  | succ n =>
    have hrun : run (asserts k (n + 1) ++ u) free = none := run_isLocked_free k _
    constructor
    . intro h
      rw [TraceBalanced, Keeps, hrun] at h
      cases h
    . exact fun h => absurd h.1 (Nat.succ_ne_zero n)

theorem run_lock_owned (k : HashId) (t : LockOps) : run ((k, .lock) :: t) (owns k) = none := by
  have hk : owns k k = .owned := Function.update_self ..
  rw [run, hk]
  rfl

theorem balanced_locked {s : McCall} (h : Inner s.hashId t) : TraceBalanced (s.locked t) :=
  balanced_section (keeps_of_inner h)

theorem balanced_relock (ht : Inner k t) {P : Prop} [Decidable P]
    : TraceBalanced (lock k ++ (t ++ ((if P then [] else [(k, .lock)]) ++ unlock k))) ↔ P := by
  have hkeep := keeps_of_inner ht
  by_cases hP : P
  . rw [if_pos hP, List.nil_append]
    exact ⟨fun _ => hP, fun _ => balanced_section hkeep⟩
  . rw [if_neg hP, TraceBalanced, Keeps, run_locked, hkeep.run_append]
    constructor
    . intro h
      have hnone := run_lock_owned k (unlock k)
      cases hnone.symm.trans h
    . exact fun h => absurd h hP

theorem inner_ite {P : Prop} [Decidable P] {u : LockOps} (ht : P → Inner k t) (hu : ¬ P → Inner k u)
    : Inner k (if P then t else u) := by
  split
  . exact ht ‹_›
  . exact hu ‹_›

theorem balanced_ite {P : Prop} [Decidable P] {u : LockOps} (ht : P → TraceBalanced t)
    (hu : ¬ P → TraceBalanced u)
    : TraceBalanced (if P then t else u) := by
  split
  . exact ht ‹_›
  . exact hu ‹_›

end Traces

namespace LsShmHash

theorem isSome_setElem (s : LsShmHash) {off : Nat} {e e' : LsShmHElem} (he : s.offset2iterator off = some e)
    (hlen : e'.x_iLen = e.x_iLen) (hval : e'.x_iValOff = e.x_iValOff)
    : ((s.setTable (·.setElem off (some e'))).offset2iterator off).isSome = true := by
  have helem := elem_of_offset2iterator he
  unfold offset2iterator at he ⊢
  rw [helem] at he
  rw [show (s.setTable (·.setElem off (some e'))).table.elem off = some e' from Function.update_self ..]
  dsimp only at he ⊢
  rw [hlen, hval]
  split at he
  . rename_i hok
    change (if (s.shm.offset2ptr off && LsShmHElem.iterOk s.shm off e.x_iLen e.x_iValOff) = true then some e'
      else none).isSome = true
    rw [if_pos hok]
    rfl
  . cases he

end LsShmHash

namespace McCall

variable {s : McCall}

def SetSound (s : McCall) : Prop :=
  let hash := s.getHash
  (hash.doSet (hash.find2 s.mc.m_hkey s.mc.m_parms.key) s.mc.m_hkey s.mc.m_parms).2 ≠ 0 →
    hash.Sound s.mc.m_parms.key.length s.mc.m_parms.val.len

instance (s : McCall) : Decidable s.SetSound := inferInstanceAs (Decidable (_ → _))

def InsertSound (s : McCall) (opt : LsMcUpdOpt) : Prop :=
  (s.doHashInsert opt).2.2 ≠ 0 → s.getHash.Sound s.mc.m_parms.key.length s.mc.m_parms.val.len

instance (s : McCall) (opt : LsMcUpdOpt) : Decidable (s.InsertSound opt) := inferInstanceAs (Decidable (_ → _))

def ElemSound (s : McCall) (opt : LsMcUpdOpt) (iterOff : Nat) (e : LsShmHElem) : Prop :=
  let cmd := opt.m_iFlags &&& LSMC_CMDMASK
  if cmd = MC_BINCMD_APPEND ∨ cmd = MC_BINCMD_PREPEND then s.getHash.GrowSound iterOff s.mc.m_parms.val.len
  else ∀ n ∈ updSize opt s.mc.m_parms.val.len e, s.getHash.Sound s.mc.m_parms.key.length n

instance (s : McCall) (opt : LsMcUpdOpt) (iterOff : Nat) (e : LsShmHElem)
    : Decidable (s.ElemSound opt iterOff e) := by
  unfold ElemSound
  infer_instance

def UpdateSound (s : McCall) (opt : LsMcUpdOpt) : Prop :=
  (s.doHashUpdate opt).2.2 ≠ 0 →
    ∀ e ∈ s.getHash.offset2iterator (s.getHash.find2 s.mc.m_hkey s.mc.m_parms.key),
      s.ElemSound opt (s.getHash.find2 s.mc.m_hkey s.mc.m_parms.key) e

instance (s : McCall) (opt : LsMcUpdOpt) : Decidable (s.UpdateSound opt) := inferInstanceAs (Decidable (_ → _))

theorem doSet_sound (h : s.Ready)
    (h0 : (s.getHash.doSet (s.getHash.find2 s.mc.m_hkey s.mc.m_parms.key) s.mc.m_hkey s.mc.m_parms).2 ≠ 0)
    : ((s.getHash.doSet (s.getHash.find2 s.mc.m_hkey s.mc.m_parms.key) s.mc.m_hkey s.mc.m_parms).1.offset2iterator
        (s.getHash.doSet (s.getHash.find2 s.mc.m_hkey s.mc.m_parms.key) s.mc.m_hkey s.mc.m_parms).2).isSome = true ↔
      s.getHash.Sound s.mc.m_parms.key.length s.mc.m_parms.val.len := by
  obtain ⟨E, hrep⟩ := h.sane.rep
  rw [h.find2, h.hkey] at h0 ⊢
  exact LsShmHash.doSet_isSome hrep h0

theorem doInsert_sound (hrep : ∃ E, LsShmHash.Rep s.getHash E) (hkey : s.mc.m_hkey = s.getHash.m_hf s.mc.m_parms.key)
    (h0 : (s.getHash.doInsert (s.getHash.find2 s.mc.m_hkey s.mc.m_parms.key) s.mc.m_hkey s.mc.m_parms).2 ≠ 0)
    : ((s.getHash.doInsert (s.getHash.find2 s.mc.m_hkey s.mc.m_parms.key) s.mc.m_hkey
          s.mc.m_parms).1.offset2iterator
        (s.getHash.doInsert (s.getHash.find2 s.mc.m_hkey s.mc.m_parms.key) s.mc.m_hkey
          s.mc.m_parms).2).isSome = true ↔
      s.getHash.Sound s.mc.m_parms.key.length s.mc.m_parms.val.len := by
  obtain ⟨E, hrep⟩ := hrep
  rw [hkey] at h0 ⊢
  exact LsShmHash.doInsert_isSome hrep h0

theorem doHashInsert_sound (h : s.Ready) {opt : LsMcUpdOpt} (h0 : (s.doHashInsert opt).2.2 ≠ 0)
    : ((s.doHashInsert opt).1.getHash.offset2iterator (s.doHashInsert opt).2.2).isSome = true ↔
      s.getHash.Sound s.mc.m_parms.key.length s.mc.m_parms.val.len := by
  have hfound : s.getHash.find2 s.mc.m_hkey s.mc.m_parms.key ≠ 0 →
      s.getHash.offset2iterator (s.getHash.find2 s.mc.m_hkey s.mc.m_parms.key) ≠ none := by
    rw [h.find2]
    intro hne hnone
    have hsome := h.sane.isSome hne
    rw [hnone] at hsome
    cases hsome
  have hset := doSet_sound h
  have hins := doInsert_sound h.sane.rep h.hkey
  revert h0
  unfold doHashInsert
  dsimp only
  split
  . rename_i hne
    split
    . rename_i hnone
      exact absurd hnone (hfound hne)
    . split
      . intro h0
        dsimp only [ofHash] at h0 ⊢
        rw [getHash_setHash]
        exact hset h0
      . exact fun h0 => absurd rfl h0
  . intro h0
    dsimp only [ofHash] at h0 ⊢
    rw [getHash_setHash]
    exact hins h0

theorem updateElem_sound (h : s.Ready) {opt : LsMcUpdOpt} {e : LsShmHElem}
    (hoff : s.getHash.findKey s.mc.m_parms.key ≠ 0)
    (h0 : (s.updateElem opt (s.getHash.findKey s.mc.m_parms.key) e).2.2 ≠ 0)
    : ((s.updateElem opt (s.getHash.findKey s.mc.m_parms.key) e).1.getHash.offset2iterator
        (s.updateElem opt (s.getHash.findKey s.mc.m_parms.key) e).2.2).isSome = true ↔
      s.ElemSound opt (s.getHash.findKey s.mc.m_parms.key) e := by
  obtain ⟨E, hrep⟩ := h.sane.rep
  have hset : ∀ n, (s.getHash.doSet (s.getHash.findKey s.mc.m_parms.key) s.mc.m_hkey
        ⟨s.mc.m_parms.key, ⟨n, none⟩⟩).2 ≠ 0 →
      (((s.getHash.doSet (s.getHash.findKey s.mc.m_parms.key) s.mc.m_hkey
          ⟨s.mc.m_parms.key, ⟨n, none⟩⟩).1.offset2iterator
        (s.getHash.doSet (s.getHash.findKey s.mc.m_parms.key) s.mc.m_hkey
          ⟨s.mc.m_parms.key, ⟨n, none⟩⟩).2).isSome = true ↔ s.getHash.Sound s.mc.m_parms.key.length n) := by
    intro n h0
    rw [h.hkey] at h0 ⊢
    exact LsShmHash.doSet_isSome (v := ⟨n, none⟩) hrep h0
  have hsame := fun h0 => (h.hkey ▸ LsShmHash.doSet_isSome (v := s.mc.m_parms.val) hrep) h0
  have hgrow := @LsShmHash.iterGrowValue_isSome _ _ s.mc.m_parms.key hrep s.mc.m_parms.val.len false
  revert h0
  unfold updateElem ElemSound updSize
  dsimp only
  generalize s.getHash.findKey s.mc.m_parms.key = off at *
  split
  . exact fun h0 => absurd rfl h0
  . split
    . rename_i harith
      have hng : ¬ (opt.m_iFlags &&& LSMC_CMDMASK = MC_BINCMD_APPEND ∨
          opt.m_iFlags &&& LSMC_CMDMASK = MC_BINCMD_PREPEND) := by
        rcases harith with harith | harith <;> rw [harith] <;> decide
      rw [if_neg hng]
      cases hnum : mcIter2num e (opt.m_iFlags &&& LSMC_USECAS ≠ 0) with
      | none => exact fun h0 => absurd rfl h0
      | some num =>
        dsimp only
        intro h0
        dsimp only [ofHash] at h0 ⊢
        rw [getHash_setHash]
        simp only [Option.map_some, Option.mem_def, Option.some.injEq, forall_eq']
        rw [LsShmHash.doUpdate_eq _ hoff] at h0 ⊢
        exact hset _ h0
    . split
      . rename_i hcmd
        generalize hr : s.getHash.iterGrowValue off s.mc.m_parms.val.len false = r at hgrow
        split
        . intro h0
          dsimp only at h0 ⊢
          rw [getHash_setHash]
          exact hgrow h0
        . rename_i hr0
          split
          . exact fun h0 => absurd rfl h0
          . rename_i e' he'
            intro h0
            dsimp only at h0 ⊢
            rw [getHash_setHash, ← hgrow h0, he']
            simp only [Option.isSome_some, iff_true]
            exact LsShmHash.isSome_setElem _ he' rfl rfl
      . intro h0
        dsimp only [ofHash] at h0 ⊢
        rw [getHash_setHash]
        simp only [Option.mem_def, Option.some.injEq, forall_eq']
        rw [LsShmHash.doUpdate_eq _ hoff] at h0 ⊢
        exact hsame h0

theorem doHashUpdate_sound (h : s.Ready) {opt : LsMcUpdOpt} (h0 : (s.doHashUpdate opt).2.2 ≠ 0)
    : ((s.doHashUpdate opt).1.getHash.offset2iterator (s.doHashUpdate opt).2.2).isSome = true ↔
      s.UpdateSound opt := by
  have hupd : s.UpdateSound opt ↔
      ∀ e ∈ s.getHash.offset2iterator (s.getHash.find2 s.mc.m_hkey s.mc.m_parms.key),
        s.ElemSound opt (s.getHash.find2 s.mc.m_hkey s.mc.m_parms.key) e :=
    ⟨fun hs => hs h0, fun hs _ => hs⟩
  rw [hupd]
  revert h0
  unfold doHashUpdate
  dsimp only
  rw [h.find2]
  split
  . exact fun h0 => absurd rfl h0
  . rename_i hoff
    split
    . exact fun h0 => absurd rfl h0
    . rename_i e he
      split
      . exact fun h0 => absurd rfl h0
      . intro h0
        rw [he]
        simp only [Option.mem_def, Option.some.injEq, forall_eq']
        exact updateElem_sound h hoff h0

theorem updateElem_notFound (h : s.Ready) {opt : LsMcUpdOpt} {e : LsShmHElem}
    (hoff : s.getHash.findKey s.mc.m_parms.key ≠ 0)
    (h0 : (s.updateElem opt (s.getHash.findKey s.mc.m_parms.key) e).2.2 = 0)
    (hret : (s.updateElem opt (s.getHash.findKey s.mc.m_parms.key) e).2.1.m_iRetcode = .NOTFOUND)
    : LsShmHash.StillRep s.getHash (s.updateElem opt (s.getHash.findKey s.mc.m_parms.key) e).1.getHash := by
  obtain ⟨E, hrep⟩ := h.sane.rep
  have hset : ∀ v : ValParm, (s.getHash.doSet (s.getHash.findKey s.mc.m_parms.key) s.mc.m_hkey
        ⟨s.mc.m_parms.key, v⟩).2 = 0 →
      LsShmHash.StillRep s.getHash (s.getHash.doSet (s.getHash.findKey s.mc.m_parms.key) s.mc.m_hkey
        ⟨s.mc.m_parms.key, v⟩).1 := by
    intro v h0
    rw [h.hkey] at h0 ⊢
    exact LsShmHash.doSet_failed hrep h0
  have hgrow := @LsShmHash.iterGrowValue_failed _ _ s.mc.m_parms.key hrep s.mc.m_parms.val.len false
  revert h0 hret
  unfold updateElem
  dsimp only
  generalize s.getHash.findKey s.mc.m_parms.key = off at *
  split
  . exact fun _ hret => by cases hret
  . split
    . split
      . exact fun _ hret => by cases hret
      . intro h0 _
        dsimp only [ofHash] at h0 ⊢
        rw [getHash_setHash]
        rw [LsShmHash.doUpdate_eq _ hoff] at h0 ⊢
        exact hset _ h0
    . split
      . split
        . intro h0 _
          dsimp only at h0 ⊢
          rw [getHash_setHash]
          exact hgrow h0
        . split
          . exact fun _ hret => by cases hret
          . rename_i hr0 _ _ _
            intro h0 _
            exact absurd (Or.inl h0) hr0
      . intro h0 _
        dsimp only [ofHash] at h0 ⊢
        rw [getHash_setHash]
        rw [LsShmHash.doUpdate_eq _ hoff] at h0 ⊢
        exact hset _ h0

theorem doHashUpdate_notFound (h : s.Ready) {opt : LsMcUpdOpt} (h0 : (s.doHashUpdate opt).2.2 = 0)
    (hret : (s.doHashUpdate opt).2.1.m_iRetcode = .NOTFOUND)
    : LsShmHash.StillRep s.getHash (s.doHashUpdate opt).1.getHash := by
  obtain ⟨E, hrep⟩ := h.sane.rep
  revert h0 hret
  unfold doHashUpdate
  dsimp only
  rw [h.find2]
  split
  . exact fun _ _ => hrep.still
  . rename_i hoff
    split
    . exact fun _ _ => hrep.still
    . rename_i e he
      split
      . intro _ _
        rw [getHash_setHash]
        obtain ⟨hsane, hthin⟩ := h.sane.erase (LsShmHash.elem_of_offset2iterator he)
        exact ⟨hsane.rep, hthin.parm.hf⟩
      . exact updateElem_notFound h hoff

def IterIntact (s : McCall) : Prop :=
  s.mc.m_iterOff ≠ 0 → (s.getHash.offset2iterator s.mc.m_iterOff).isSome = true

instance (s : McCall) : Decidable s.IterIntact := inferInstanceAs (Decidable (_ → _))

def storeOpt (s : McCall) (arg cas : Nat) : LsMcUpdOpt :=
  { s.mc.env.updOpt with
    m_iFlags := if (arg = MC_BINCMD_APPEND ∨ arg = MC_BINCMD_PREPEND) ∧ s.mc.m_mcparms.m_usecas
      then arg ||| LSMC_USECAS else arg
    m_cas := cas }

def StoreSound (s : McCall) (arg : Nat) (opt : LsMcUpdOpt) : Prop :=
  if arg = MC_BINCMD_ADD then s.InsertSound opt
  else if arg = MC_BINCMD_SET then s.SetSound
  else s.UpdateSound opt

instance (s : McCall) (arg : Nat) (opt : LsMcUpdOpt) : Decidable (s.StoreSound arg opt) := by
  unfold StoreSound
  infer_instance

theorem iterIntact_set (h : s.Ready) (u : McCall)
    (hu : u.getHash = (s.getHash.doSet (s.getHash.find2 s.mc.m_hkey s.mc.m_parms.key) s.mc.m_hkey s.mc.m_parms).1)
    (hoff : u.mc.m_iterOff =
      (s.getHash.doSet (s.getHash.find2 s.mc.m_hkey s.mc.m_parms.key) s.mc.m_hkey s.mc.m_parms).2)
    : u.IterIntact ↔ s.SetSound := by
  unfold IterIntact SetSound
  rw [hu, hoff]
  exact imp_congr_right fun h0 => doSet_sound h h0

theorem iterIntact_insert (h : s.Ready) (opt : LsMcUpdOpt) (u : McCall)
    (hu : u.getHash = (s.doHashInsert opt).1.getHash) (hoff : u.mc.m_iterOff = (s.doHashInsert opt).2.2)
    : u.IterIntact ↔ s.InsertSound opt := by
  unfold IterIntact InsertSound
  rw [hu, hoff]
  exact imp_congr_right fun h0 => doHashInsert_sound h h0

theorem iterIntact_update (h : s.Ready) (opt : LsMcUpdOpt) (u : McCall)
    (hu : u.getHash = (s.doHashUpdate opt).1.getHash) (hoff : u.mc.m_iterOff = (s.doHashUpdate opt).2.2)
    : u.IterIntact ↔ s.UpdateSound opt := by
  have hvac : ¬ (s.doHashUpdate opt).2.2 ≠ 0 → s.UpdateSound opt := fun h0 hne => absurd hne h0
  unfold IterIntact
  rw [hu, hoff]
  constructor
  . intro hsome
    by_cases h0 : (s.doHashUpdate opt).2.2 ≠ 0
    . exact (doHashUpdate_sound h h0).mp (hsome h0)
    . exact hvac h0
  . exact fun hsound h0 => (doHashUpdate_sound h h0).mpr hsound

theorem storeOp_intact (h : s.Ready) (arg cas : Nat)
    : (s.storeOp arg cas).IterIntact ↔ s.StoreSound arg (s.storeOpt arg cas) := by
  unfold storeOp StoreSound
  dsimp only
  rw [← storeOpt]
  generalize s.storeOpt arg cas = opt
  split
  . exact iterIntact_insert h opt _ rfl rfl
  . split
    . exact iterIntact_set h _ (getHash_setHash s _) rfl
    . split
      . exact iterIntact_update h opt _ rfl rfl
      . split
        . exact iterIntact_update h opt _ rfl rfl
        . split
          . exact iterIntact_update h opt _ rfl rfl
          . refine iterIntact_update h opt _ (getHash_stat _ _) ?_
            unfold stat
            split <;> rfl

theorem sameKey_storeOp (s : McCall) (arg cas : Nat) : SameKey s (s.storeOp arg cas) := by
  unfold storeOp
  dsimp only
  split
  . exact (sameKey_doHashInsert s _).trans ⟨rfl, rfl, rfl⟩
  . split
    . exact ⟨rfl, rfl, rfl⟩
    . have hupd := fun opt => sameKey_doHashUpdate s opt
      split
      . exact (hupd _).trans ⟨rfl, rfl, rfl⟩
      . split
        . exact (hupd _).trans ⟨rfl, rfl, rfl⟩
        . split
          . exact (hupd _).trans ⟨rfl, rfl, rfl⟩
          . refine SameKey.trans ?_ (sameKey_stat _ _)
            exact (hupd _).trans ⟨rfl, rfl, rfl⟩

section Inner

variable (s : McCall)

theorem inner_doHashInsertLocks : Inner s.hashId s.doHashInsertLocks :=
  (inner_autoLocks _ _).append (inner_asserts _ _)

theorem inner_doHashUpdateLocks (opt : LsMcUpdOpt) : Inner s.hashId (s.doHashUpdateLocks opt) := by
  apply (inner_autoLocks _ _).append
  split
  . exact inner_nil
  . exact inner_ite (fun _ => inner_autoLocks _ _) (fun _ => inner_asserts _ _)

theorem inner_chkMemSzLocks (arg : Nat) : Inner s.hashId (s.chkMemSzLocks arg) := by
  unfold chkMemSzLocks
  dsimp only
  split
  . split
    . exact (inner_autoLocks _ _).append (inner_ite (fun _ => inner_autoLocks _ _) fun _ => inner_nil)
    . exact inner_nil
  . exact inner_ite (fun _ => inner_nil) (fun _ => inner_autoLocks _ _)

theorem inner_storeOpLocks (arg cas : Nat) : Inner s.hashId (s.storeOpLocks arg cas) := by
  unfold storeOpLocks
  exact inner_ite (fun _ => inner_doHashInsertLocks s)
    (fun _ => inner_ite (fun _ => inner_autoLocks _ _) (fun _ => inner_doHashUpdateLocks s _))

end Inner

section DataUpdate

variable {k : HashId} {t : LockOps} {u : McCall}

theorem balanced_doBinDataUpdate (ht : Inner k t) (hk : u.hashId = k)
    : TraceBalanced (lock k ++ (t ++ u.doBinDataUpdateLocks)) ↔ u.IterIntact := by
  rw [← balanced_relock ht (P := u.IterIntact)]
  unfold doBinDataUpdateLocks dataItemUpdateLocks
  rw [hk]
  by_cases h0 : u.mc.m_iterOff ≠ 0
  . by_cases hsome : (u.getHash.offset2iterator u.mc.m_iterOff).isSome = true
    . rw [if_pos h0, if_pos hsome, if_pos (show u.IterIntact from fun _ => hsome)]
    . rw [if_pos h0, if_neg hsome, if_neg (show ¬ u.IterIntact from fun hi => hsome (hi h0))]
  . rw [if_neg h0, if_pos (show u.IterIntact from fun hne => absurd hne h0)]

theorem balanced_doDataUpdate (ht : Inner k t) (hk : u.hashId = k)
    : TraceBalanced (lock k ++ (t ++ u.doDataUpdateLocks)) ↔ u.mc.m_parms.key = [] ∨ u.IterIntact := by
  have hbin := balanced_doBinDataUpdate ht hk
  unfold doDataUpdateLocks
  by_cases hkey : u.mc.m_parms.key.length ≤ 0
  . rw [if_pos hkey, hk]
    have hnil : u.mc.m_parms.key = [] := List.length_eq_zero_iff.mp (Nat.le_zero.mp hkey)
    exact ⟨fun _ => Or.inl hnil, fun _ => balanced_section (keeps_of_inner ht)⟩
  . have hne : u.mc.m_parms.key ≠ [] := fun hnil => hkey (by rw [hnil]; rfl)
    rw [if_neg hkey, or_iff_right hne, ← hbin]
    unfold doBinDataUpdateLocks
    split <;> rfl

end DataUpdate

def storeStart (s : McCall) (arg flags exptime length : Nat) : McCall :=
  let s := s.setItem { x_exptime := exptime, x_flags := flags }
  s.setVal (if arg = MC_BINCMD_APPEND ∨ arg = MC_BINCMD_PREPEND then length else s.parmAdjLen length)

def StoreCmdSound (s : McCall) (arg flags exptime length cas : Nat) : Prop :=
  let r := (s.storeStart arg flags exptime length).chkMemSz arg
  let u := r.1.stat fun st => { st with set_cmds := st.set_cmds + 1 }
  r.2 = .SUCCESS → s.mc.m_parms.key = [] ∨ u.StoreSound arg (u.storeOpt arg cas)

theorem balanced_storeCmd (h : s.Ready) (arg flags exptime length cas : Nat)
    : TraceBalanced (s.storeCmdLocks arg flags exptime length cas) ↔
      s.StoreCmdSound arg flags exptime length cas := by
  have hstart : (s.storeStart arg flags exptime length).Ready := h.after ⟨rfl, rfl, rfl⟩ h.sane rfl
  have hkey : SameKey s (s.storeStart arg flags exptime length) := ⟨rfl, rfl, rfl⟩
  unfold storeCmdLocks StoreCmdSound
  dsimp only
  rw [show (s.setItem { x_exptime := exptime, x_flags := flags }).setVal _ =
    s.storeStart arg flags exptime length from rfl]
  generalize s.storeStart arg flags exptime length = t at *
  have hchk := inner_chkMemSzLocks t arg
  have hsame := hkey.trans (sameKey_chkMemSz t arg)
  rw [hkey.hashId] at hchk
  rw [hkey.hashId]
  by_cases hs : (t.chkMemSz arg).2 = .SUCCESS
  . have hready := (hstart.chkMemSz arg).1.stat fun st => { st with set_cmds := st.set_cmds + 1 }
    have hstat := hsame.trans (sameKey_stat (t.chkMemSz arg).1 fun st => { st with set_cmds := st.set_cmds + 1 })
    rw [if_neg (not_not.mpr hs)]
    generalize (t.chkMemSz arg).1.stat _ = u at *
    have hop := inner_storeOpLocks u arg cas
    rw [hstat.hashId] at hop
    have hafter : SameKey s ((u.storeOp arg cas).setNeeded length) :=
      (hstat.trans (sameKey_storeOp u arg cas)).trans ⟨rfl, rfl, rfl⟩
    have hintact : ((u.storeOp arg cas).setNeeded length).IterIntact ↔ u.StoreSound arg (u.storeOpt arg cas) :=
      storeOp_intact hready arg cas
    rw [← List.append_assoc (t.chkMemSzLocks arg), balanced_doDataUpdate (hchk.append hop) hafter.hashId, hintact,
      hafter.key]
    exact ⟨fun hsound _ => hsound, fun hsound => hsound hs⟩
  . rw [if_pos hs]
    exact ⟨fun _ h => absurd h hs, fun _ => balanced_section (keeps_of_inner hchk)⟩

def ArithSound (s : McCall) (arg delta : Nat) : Prop :=
  let u := s.setVal (s.parmAdjLen 0)
  s.mc.m_parms.key = [] ∨ u.UpdateSound (u.arithOpt arg delta)

theorem balanced_arithmeticCmd (h : s.Ready) (arg delta : Nat)
    : TraceBalanced (s.arithmeticCmdLocks arg delta) ↔ s.ArithSound arg delta := by
  have hstart : (s.setVal (s.parmAdjLen 0)).Ready := h.after ⟨rfl, rfl, rfl⟩ h.sane rfl
  have hkey : SameKey s (s.setVal (s.parmAdjLen 0)) := ⟨rfl, rfl, rfl⟩
  unfold arithmeticCmdLocks ArithSound
  dsimp only
  generalize s.setVal (s.parmAdjLen 0) = t at *
  generalize t.arithOpt arg delta = opt
  have hin := inner_doHashUpdateLocks t opt
  rw [hkey.hashId] at hin ⊢
  have hsame := hkey.trans (sameKey_doHashUpdate t opt)
  by_cases h0 : (t.doHashUpdate opt).2.2 ≠ 0
  . rw [if_pos h0]
    generalize hf : (fun st : LsMcStats => if arg = MC_BINCMD_INCREMENT then
      { st with incr_hits := st.incr_hits + 1 } else { st with decr_hits := st.decr_hits + 1 }) = f
    have hset : SameKey s ((t.doHashUpdate opt).1.setIterOff (t.doHashUpdate opt).2.2) :=
      hsame.trans ⟨rfl, rfl, rfl⟩
    have hstat : SameKey s ((((t.doHashUpdate opt).1.setIterOff (t.doHashUpdate opt).2.2).stat f).setRetcode .NONE) :=
      (hset.trans (sameKey_stat _ f)).trans ⟨rfl, rfl, rfl⟩
    have hintact : ((((t.doHashUpdate opt).1.setIterOff (t.doHashUpdate opt).2.2).stat f).setRetcode
        .NONE).IterIntact ↔ t.UpdateSound opt := by
      apply iterIntact_update hstart opt
      . exact getHash_stat _ f
      . unfold stat
        split <;> rfl
    rw [balanced_doDataUpdate hin hstat.hashId, hintact, hstat.key]
  . rw [if_neg h0]
    have hvac : t.UpdateSound opt := fun hne => absurd hne h0
    exact ⟨fun _ => Or.inr hvac, fun _ => balanced_section (keeps_of_inner hin)⟩

def Intact (s : McCall) : Prop :=
  ∀ i user, (s.hashes.hash i user).Sane ∧ (s.hashes.hash i user).m_hf = s.mc.m_pHashMulti.m_fnHashKey ∧
    (s.hashes.hash i user).flagLru = true

theorem Intact.ready (h : s.Intact) (key : List UInt8) : ((s.setKey key).setSlice key).Ready := by
  obtain ⟨hsane, hf, _⟩ := h (s.setKey key |>.setSlice key).conn.m_pSlice (s.setKey key |>.setSlice key).conn.m_pHash
  exact ⟨hsane, (congrFun hf key).symm⟩

section TextCalls

variable (h : s.Intact) (i : McInput)
include h

theorem Intact.canProcessNow (key : List UInt8) (hcan : ((s.setKey key).canProcessNow key).2 = true)
    : ((s.setKey key).canProcessNow key).1.Ready := by
  revert hcan
  unfold McCall.canProcessNow
  dsimp only
  split
  . exact fun h => nomatch h
  . exact fun _ => h.ready key

theorem updateCall_ready {arg : Nat} {u : McCall} (hcall : s.updateCall i arg = some u) : u.Ready := by
  have hcan := h.canProcessNow (i.tok (updateArgs i arg).key)
  revert hcall
  unfold updateCall
  dsimp only
  cases hr : ((s.setKey (i.tok (updateArgs i arg).key)).canProcessNow (i.tok (updateArgs i arg).key)).2 with
  | false => exact fun hcall => nomatch hcall
  | true =>
    simp only [Bool.not_true, Bool.false_eq_true, if_false]
    have hready := hcan hr
    split
    . exact fun hcall => nomatch hcall
    . split
      . exact fun hcall => nomatch hcall
      . split
        . exact fun hcall => nomatch hcall
        . split
          . exact fun hcall => nomatch hcall
          . rintro ⟨⟩
            exact hready.after ⟨rfl, rfl, rfl⟩ hready.sane rfl

theorem arithmeticCall_ready {u : McCall} {delta : Nat} (hcall : s.arithmeticCall i = some (u, delta))
    : u.Ready := by
  have hcan := h.canProcessNow (i.tok (i.adv i.pStr).2)
  revert hcall
  unfold arithmeticCall
  dsimp only
  cases hr : ((s.setKey (i.tok (i.adv i.pStr).2)).canProcessNow (i.tok (i.adv i.pStr).2)).2 with
  | false => exact fun hcall => by cases hcall
  | true =>
    simp only [Bool.not_true, Bool.false_eq_true, if_false]
    have hready := hcan hr
    split
    . exact fun hcall => by cases hcall
    . split
      . exact fun hcall => by cases hcall
      . split
        . exact fun hcall => by cases hcall
        . rename_i hfwd
          rw [fwdToRemote_not hfwd]
          rintro ⟨⟩
          exact hready.after ⟨rfl, rfl, rfl⟩ hready.sane rfl

end TextCalls

section Links

variable {i : McInput} {arg : Nat} {u : McCall}

theorem doCmdUpdate_call (h : s.updateCall i arg = some u)
    : s.doCmdUpdate i arg = u.storeCmd i arg (updateArgs i arg).flags (updateArgs i arg).exptime
        (updateArgs i arg).length.toNat (updateArgs i arg).cas := by
  revert h
  unfold updateCall doCmdUpdate
  dsimp only
  split
  . exact fun h => nomatch h
  . split
    . exact fun h => nomatch h
    . split
      . exact fun h => nomatch h
      . split
        . exact fun h => nomatch h
        . split
          . exact fun h => nomatch h
          . rintro ⟨⟩
            rfl

theorem doCmdArithmetic_call {delta : Nat} (h : s.arithmeticCall i = some (u, delta))
    : s.doCmdArithmetic i arg = (u.arithmeticCmd arg delta, 0) := by
  revert h
  unfold arithmeticCall doCmdArithmetic
  dsimp only
  split
  . exact fun h => nomatch h
  . split
    . exact fun h => nomatch h
    . cases myStrtoull (i.str (i.adv (i.adv i.pStr).1).2) with
      | none => exact fun h => nomatch h
      | some delta =>
        dsimp only
        split
        . exact fun h => nomatch h
        . rintro ⟨⟩
          rfl

theorem doCmdDelete_call (h : s.deleteCall i = some u) : s.doCmdDelete i = (u.deleteElem, 0) := by
  revert h
  unfold deleteCall doCmdDelete deleteCmd
  dsimp only
  split
  . exact fun h => nomatch h
  . split
    . exact fun h => nomatch h
    . cases deleteOpt i (i.adv i.pStr).1 with
      | none =>
        dsimp only
        split
        . exact fun h => nomatch h
        . rintro ⟨⟩
          rfl
      | some r =>
        dsimp only
        split
        . exact fun h => nomatch h
        . split
          . exact fun h => nomatch h
          . rintro ⟨⟩
            rfl

theorem doCmdTouch_call {exptime : Nat} (h : s.touchCall i = some (u, exptime))
    : s.doCmdTouch i = (u.touchElem exptime, 0) := by
  revert h
  unfold touchCall doCmdTouch
  dsimp only
  split
  . exact fun h => nomatch h
  . split
    . exact fun h => nomatch h
    . cases myStrtoul (i.str (i.adv (i.adv i.pStr).1).2) with
      | none => exact fun h => nomatch h
      | some exptime =>
        dsimp only
        split
        . exact fun h => nomatch h
        . rintro ⟨⟩
          rfl

end Links

section Text

variable (s : McCall) (i : McInput)

theorem balanced_getKey (key : List UInt8) : TraceBalanced (s.getKeyLocks key) := by
  unfold getKeyLocks
  dsimp only
  apply balanced_locked
  apply (inner_autoLocks _ _).append
  split
  . exact inner_nil
  . exact inner_ite (fun _ => inner_autoLocks _ _) (fun _ => inner_nil)

theorem balanced_getKeys (arg : Nat) (keys : List (List UInt8)) : TraceBalanced (getKeysLocks arg s keys) := by
  induction keys generalizing s with
  | nil => exact balanced_nil
  | cons key keys ih => exact (balanced_getKey s key).append (ih _)

theorem balanced_doCmdGet (arg : Nat) : TraceBalanced (s.doCmdGetLocks i arg) :=
  balanced_ite (fun _ => balanced_nil) (fun _ => balanced_getKeys _ arg _)

theorem balanced_deleteElem : TraceBalanced s.deleteElemLocks := by
  unfold deleteElemLocks
  dsimp only
  apply balanced_locked
  exact (inner_autoLocks _ _).append (inner_ite (fun _ => inner_autoLocks _ _) fun _ => inner_nil)

theorem balanced_doCmdDelete : TraceBalanced (s.doCmdDeleteLocks i) := by
  unfold doCmdDeleteLocks
  split
  . exact balanced_nil
  . exact balanced_deleteElem _

theorem balanced_touchElem : TraceBalanced s.touchElemLocks := by
  unfold touchElemLocks
  dsimp only
  apply balanced_locked
  apply (inner_autoLocks _ _).append
  split
  . exact inner_nil
  . exact inner_ite (fun _ => inner_autoLocks _ _) (fun _ => inner_nil)

theorem balanced_doCmdTouch : TraceBalanced (s.doCmdTouchLocks i) := by
  unfold doCmdTouchLocks
  split
  . exact balanced_nil
  . exact balanced_touchElem _

theorem balanced_multiStat (n j : Nat) : TraceBalanced (s.multiStatLocks n j) := by
  induction n generalizing j with
  | zero => exact balanced_nil
  | succ n ih =>
    apply balanced_ite (fun _ => balanced_nil)
    intro _
    rw [← List.append_assoc]
    exact (balanced_section (t := []) (keeps_nil _)).append (ih _)

theorem balanced_curStats : TraceBalanced s.curStatsLocks :=
  balanced_ite (fun _ => balanced_multiStat s _ _) (fun _ => balanced_locked inner_nil)

theorem balanced_foreach {f : McCall → Nat → McCall × Bool} {l : McCall → Nat → LockOps}
    (hl : ∀ s j, TraceBalanced (l s j)) (n j : Nat) : TraceBalanced (foreachLocks f l n j s) := by
  induction n generalizing j s with
  | zero => exact balanced_nil
  | succ n ih => exact (hl s j).append (balanced_ite (fun _ => ih _ _) (fun _ => balanced_nil))

theorem balanced_resetStats : TraceBalanced s.resetStatsLocks := by
  apply balanced_ite
  . intro _
    apply balanced_foreach
    intro s j
    exact balanced_ite (fun _ => balanced_nil) (fun _ => balanced_section (keeps_nil _))
  . exact fun _ => balanced_locked inner_nil

theorem balanced_doCmdStats : TraceBalanced (s.doCmdStatsLocks i) := by
  apply balanced_ite (fun _ => balanced_nil)
  intro _
  apply balanced_ite
  . exact fun _ => balanced_ite (fun _ => balanced_resetStats s) (fun _ => balanced_nil)
  . exact fun _ => balanced_curStats s

theorem balanced_multiFlush (j : Nat) : TraceBalanced (s.multiFlushLocks j) := by
  apply balanced_ite
  . exact fun _ => balanced_section (keeps_of_inner (inner_asserts _ _))
  . exact fun _ => balanced_nil

theorem balanced_flushOne : TraceBalanced s.flushOneLocks := balanced_locked (inner_asserts _ _)

theorem balanced_flushCmd : TraceBalanced (s.flushCmdLocks i) := by
  apply balanced_ite
  . exact fun _ => balanced_foreach s balanced_multiFlush _ _
  . intro _
    apply balanced_ite (fun _ => balanced_nil)
    exact fun _ => balanced_ite (fun _ => balanced_nil) (fun _ => balanced_flushOne _)

theorem balanced_doCmdFlush : TraceBalanced (s.doCmdFlushLocks i) := by
  unfold doCmdFlushLocks
  split
  . exact balanced_nil
  . exact balanced_ite (fun _ => balanced_nil) (fun _ => balanced_flushCmd _ i)

theorem balanced_doCmdClear : TraceBalanced (s.doCmdClearLocks i) := by
  apply balanced_ite (fun _ => balanced_nil)
  intro _
  split
  . exact balanced_nil
  . apply balanced_ite (fun _ => balanced_nil)
    exact fun _ => balanced_ite (fun _ => balanced_nil) (fun _ => balanced_multiFlush s _)

theorem inner_getNxtTidItem (k : HashId) (fuel : Nat) (g : TidGet) (tid : Nat)
    : Inner k (getNxtTidItemLocks k fuel g tid) := by
  induction fuel generalizing g tid with
  | zero => exact inner_nil
  | succ fuel ih =>
    unfold getNxtTidItemLocks
    split
    . exact inner_nil
    . dsimp only
      split
      . split
        . exact inner_nil
        . exact inner_ite (fun _ => (inner_autoLocks _ _).append (ih _ _)) (fun _ => inner_nil)
      . exact inner_nil

theorem inner_tidGetNxtItemsLoop (k : HashId) (fuel : Nat) (g : TidGet) (iBufSz : Nat)
    : Inner k (tidGetNxtItemsLoopLocks k fuel g iBufSz) := by
  induction fuel generalizing g iBufSz with
  | zero => exact inner_nil
  | succ fuel ih =>
    exact (inner_getNxtTidItem k _ _ _).append (inner_ite (fun _ => inner_nil) (fun _ => ih _ _))

theorem balanced_tidBatches (k : HashId) (fuel : Nat) (hash : LsShmHash) (tid : Nat) (mem : Mem)
    : TraceBalanced (tidBatchesLocks k fuel hash tid mem) := by
  induction fuel generalizing hash tid mem with
  | zero => exact balanced_nil
  | succ fuel ih =>
    apply (balanced_section (keeps_of_inner (inner_tidGetNxtItemsLoop k _ _ _))).append
    exact balanced_ite (fun _ => balanced_nil) (fun _ => ih _ _ _)

theorem balanced_replBatches (indx : Nat) : TraceBalanced (s.replBatchesLocks indx) :=
  balanced_ite (fun _ => balanced_nil) (fun _ => balanced_tidBatches _ _ _ _ _)

end Text

structure TextSound (s : McCall) (i : McInput) (p : LsMcCmdFunc) : Prop where
  update : p.func = .doCmdUpdate → ∀ u, s.updateCall i p.arg = some u →
    u.StoreCmdSound p.arg (updateArgs i p.arg).flags (updateArgs i p.arg).exptime
      (updateArgs i p.arg).length.toNat (updateArgs i p.arg).cas
  arithmetic : p.func = .doCmdArithmetic → ∀ u delta, s.arithmeticCall i = some (u, delta) →
    u.ArithSound p.arg delta

theorem balanced_runCmd (h : s.Intact) (i : McInput) (p : LsMcCmdFunc)
    : TraceBalanced (s.runCmdLocks i p) ↔ s.TextSound i p := by
  have htrue : ∀ {P : Prop}, P → p.func ≠ .doCmdUpdate → p.func ≠ .doCmdArithmetic → (P ↔ s.TextSound i p) :=
    fun hP hu ha => ⟨fun _ => ⟨fun hf => absurd hf hu, fun hf => absurd hf ha⟩, fun _ => hP⟩
  unfold runCmdLocks
  cases hfunc : p.func with
  | doCmdUpdate =>
    dsimp only
    unfold doCmdUpdateLocks
    cases hcall : s.updateCall i p.arg with
    | none =>
      refine ⟨fun _ => ⟨fun _ u hu => ?_, fun hf => nomatch hfunc.symm.trans hf⟩, fun _ => balanced_nil⟩
      cases hcall.symm.trans hu
    | some u =>
      dsimp only
      rw [balanced_storeCmd (updateCall_ready h i hcall)]
      refine ⟨fun hs => ⟨fun _ v hv => ?_, fun hf => nomatch hfunc.symm.trans hf⟩, fun hs => hs.update hfunc u hcall⟩
      cases hcall.symm.trans hv
      exact hs
  | doCmdArithmetic =>
    dsimp only
    unfold doCmdArithmeticLocks
    cases hcall : s.arithmeticCall i with
    | none =>
      refine ⟨fun _ => ⟨fun hf => (nomatch hfunc.symm.trans hf), fun _ u delta hu => ?_⟩, fun _ => balanced_nil⟩
      cases hcall.symm.trans hu
    | some q =>
      dsimp only
      rw [balanced_arithmeticCmd (arithmeticCall_ready h i hcall)]
      refine ⟨fun hs => ⟨fun hf => (nomatch hfunc.symm.trans hf), fun _ v delta hv => ?_⟩,
        fun hs => hs.arithmetic hfunc q.1 q.2 hcall⟩
      cases hcall.symm.trans hv
      exact hs
  | doCmdTest1 => exact htrue (balanced_replBatches _ _) (by simp [hfunc]) (by simp [hfunc])
  | doCmdPrintTids => exact htrue (balanced_replBatches _ _) (by simp [hfunc]) (by simp [hfunc])
  | doCmdGet => exact htrue (balanced_doCmdGet _ _ _) (by simp [hfunc]) (by simp [hfunc])
  | doCmdDelete => exact htrue (balanced_doCmdDelete _ _) (by simp [hfunc]) (by simp [hfunc])
  | doCmdTouch => exact htrue (balanced_doCmdTouch _ _) (by simp [hfunc]) (by simp [hfunc])
  | doCmdStats => exact htrue (balanced_doCmdStats _ _) (by simp [hfunc]) (by simp [hfunc])
  | doCmdFlush => exact htrue (balanced_doCmdFlush _ _) (by simp [hfunc]) (by simp [hfunc])
  | doCmdClear => exact htrue (balanced_doCmdClear _ _) (by simp [hfunc]) (by simp [hfunc])
  | _ => exact htrue balanced_nil (by simp [hfunc]) (by simp [hfunc])

/--
A line of the text protocol whose command enters sound elements.
-/
def TextSafe (s : McCall) : Prop :=
  ∀ p i, s.textLine = some (p, i) → i.pStr ≤ i.pStrEnd → (s.lineCall i).TextSound i p

theorem balanced_processCmd (h : s.Intact) : TraceBalanced s.processCmdLocks ↔ s.TextSafe := by
  unfold processCmdLocks TextSafe
  cases s.textLine with
  | none => exact ⟨fun _ _ _ hline => (nomatch hline), fun _ => balanced_nil⟩
  | some q =>
    obtain ⟨p, i⟩ := q
    dsimp only
    by_cases hstr : i.pStrEnd < i.pStr
    . rw [if_pos hstr]
      refine ⟨fun _ p' i' hline hle => ?_, fun _ => balanced_nil⟩
      cases hline
      omega
    . have hcall : (s.lineCall i).Intact := h
      rw [if_neg hstr, balanced_runCmd hcall]
      constructor
      . rintro hs p' i' ⟨⟩ _
        exact hs
      . exact fun hs => hs p i rfl (not_lt.mp hstr)

theorem processCmd_line {p : LsMcCmdFunc} {i : McInput} (h : s.textLine = some (p, i)) (hle : i.pStr ≤ i.pStrEnd)
    : s.processCmd = finish (i.pNxt - 1) ((s.lineCall i).runCmd i p) := by
  revert h
  unfold textLine processCmd processLine
  split
  . exact fun h => nomatch h
  . dsimp only
    cases memchr s.conn.m_bufIncoming LF 0 s.conn.m_bufIncoming.length with
    | none => exact fun h => nomatch h
    | some endp =>
      dsimp only [Option.bind]
      split
      . exact fun h => nomatch h
      . rename_i hlen
        cases hfun : getCmdFunction (tokBytes (cutLine s.conn.m_bufIncoming endp)
            (advToken (cutLine s.conn.m_bufIncoming endp) 0 (endp - 1)).2) with
        | none => exact fun h => nomatch h
        | some q =>
          intro h
          simp only [Option.map_some, Option.some.injEq, Prod.mk.injEq] at h
          obtain ⟨rfl, rfl⟩ := h
          dsimp only at hle
          have hbuf : (s.setBuf (cutLine s.conn.m_bufIncoming endp)).conn.m_bufIncoming =
              cutLine s.conn.m_bufIncoming endp := rfl
          rw [hbuf, if_neg hlen, hfun]
          dsimp only
          rw [if_neg (not_lt.mpr hle)]
          rfl

def InsertIdle (s : McCall) : Prop :=
  LsShmHash.checkSize s.mc.m_parms.val.len = false ∨
    ∃ e ∈ s.getHash.offset2iterator (s.getHash.find2 s.mc.m_hkey s.mc.m_parms.key), isExpired s.getHash e = false

def UpdateIdle (s : McCall) (opt : LsMcUpdOpt) : Prop :=
  ∀ e ∈ s.getHash.offset2iterator (s.getHash.find2 s.mc.m_hkey s.mc.m_parms.key), isExpired s.getHash e = false →
    ∀ n ∈ updSize opt s.mc.m_parms.val.len e,
      ¬ (opt.m_iFlags &&& LSMC_CMDMASK = MC_BINCMD_APPEND ∨ opt.m_iFlags &&& LSMC_CMDMASK = MC_BINCMD_PREPEND) ∧
        LsShmHash.checkSize n = false

section Asserts

variable {hash : LsShmHash}

theorem insertAsserts_ne (hash : LsShmHash) (hkey : Nat) (parms : StrPair) : hash.insertAsserts hkey parms ≠ 0 := by
  unfold LsShmHash.insertAsserts
  split <;> decide

theorem doSetAsserts_eq_zero (hlru : hash.flagLru = true) (iterOff hkey : Nat) (parms : StrPair)
    : hash.doSetAsserts iterOff hkey parms = 0 ↔ LsShmHash.checkSize parms.val.len = false := by
  unfold LsShmHash.doSetAsserts
  cases LsShmHash.checkSize parms.val.len with
  | false => exact ⟨fun _ => rfl, fun _ => rfl⟩
  | true =>
    simp only [Bool.not_true, Bool.false_eq_true, if_false, Bool.true_eq_false, iff_false]
    split
    . exact insertAsserts_ne _ _ _
    . split
      . exact insertAsserts_ne _ _ _
      . split
        . decide
        . have hne := insertAsserts_ne (hash.eraseIteratorHelper iterOff) hkey parms
          omega

theorem growAsserts_ne (hash : LsShmHash) (iterOff n : Nat) : hash.growAsserts iterOff n ≠ 0 := by
  unfold LsShmHash.growAsserts
  split
  . decide
  . dsimp only
    split
    . decide
    . split
      . decide
      . omega

theorem doHashInsertAsserts_eq_zero (h : s.Ready) (hlru : s.getHash.flagLru = true)
    : s.doHashInsertAsserts = 0 ↔ s.InsertIdle := by
  unfold doHashInsertAsserts InsertIdle
  dsimp only
  rw [h.find2]
  by_cases hoff : s.getHash.findKey s.mc.m_parms.key ≠ 0
  . have hsome := h.sane.isSome hoff
    rw [if_pos hoff]
    cases hiter : s.getHash.offset2iterator (s.getHash.findKey s.mc.m_parms.key) with
    | none =>
      rw [hiter] at hsome
      cases hsome
    | some e =>
      dsimp only
      simp only [Option.mem_def, Option.some.injEq, exists_eq_left']
      cases hexp : isExpired s.getHash e with
      | false => simp
      | true =>
        rw [if_pos rfl, doSetAsserts_eq_zero hlru]
        simp
  . have hz := not_not.mp hoff
    rw [if_neg hoff, hz, LsShmHash.offset2iterator_zero]
    simp only [Option.mem_def, reduceCtorEq, false_and, exists_false, or_false]
    unfold LsShmHash.doInsertAsserts
    rw [if_neg (by simp)]
    cases LsShmHash.checkSize s.mc.m_parms.val.len with
    | false => simp
    | true => simpa using insertAsserts_ne _ _ _

theorem updateElemAsserts_eq_zero (hlru : s.getHash.flagLru = true) (opt : LsMcUpdOpt) {iterOff : Nat}
    (hoff : iterOff ≠ 0) (e : LsShmHElem)
    : s.updateElemAsserts opt iterOff e = 0 ↔ ∀ n ∈ updSize opt s.mc.m_parms.val.len e,
        ¬ (opt.m_iFlags &&& LSMC_CMDMASK = MC_BINCMD_APPEND ∨ opt.m_iFlags &&& LSMC_CMDMASK = MC_BINCMD_PREPEND) ∧
          LsShmHash.checkSize n = false := by
  have hset : ∀ parms, s.getHash.doUpdateAsserts iterOff s.mc.m_hkey parms = 0 ↔
      LsShmHash.checkSize parms.val.len = false := by
    intro parms
    unfold LsShmHash.doUpdateAsserts
    rw [if_neg hoff]
    exact doSetAsserts_eq_zero hlru _ _ _
  unfold updateElemAsserts updSize
  dsimp only
  split
  . simp
  . split
    . rename_i harith
      have hng : ¬ (opt.m_iFlags &&& LSMC_CMDMASK = MC_BINCMD_APPEND ∨
          opt.m_iFlags &&& LSMC_CMDMASK = MC_BINCMD_PREPEND) := by
        rcases harith with harith | harith <;> rw [harith] <;> decide
      cases mcIter2num e (opt.m_iFlags &&& LSMC_USECAS ≠ 0) with
      | none => simp
      | some num =>
        dsimp only
        rw [hset]
        simp only [hng, Option.map_some, Option.mem_def, Option.some.injEq, forall_eq', not_false_eq_true, true_and]
        rfl
    . split
      . rename_i hgrow
        simp only [Option.mem_def, Option.some.injEq, forall_eq', hgrow, not_true_eq_false, false_and, iff_false]
        exact growAsserts_ne _ _ _
      . rename_i hng
        rw [hset]
        simp only [hng, Option.mem_def, Option.some.injEq, forall_eq', not_false_eq_true, true_and]

theorem doHashUpdateAsserts_eq_zero (hlru : s.getHash.flagLru = true) (opt : LsMcUpdOpt)
    : s.doHashUpdateAsserts opt = 0 ↔ s.UpdateIdle opt := by
  unfold doHashUpdateAsserts UpdateIdle
  dsimp only
  cases hiter : s.getHash.offset2iterator (s.getHash.find2 s.mc.m_hkey s.mc.m_parms.key) with
  | none => simp
  | some e =>
    have hoff : s.getHash.find2 s.mc.m_hkey s.mc.m_parms.key ≠ 0 := by
      intro hz
      rw [hz, LsShmHash.offset2iterator_zero] at hiter
      cases hiter
    dsimp only
    simp only [Option.mem_def, Option.some.injEq, forall_eq']
    cases hexp : isExpired s.getHash e with
    | true => simp
    | false =>
      rw [if_neg (by decide), updateElemAsserts_eq_zero hlru opt hoff]
      simp

end Asserts

section AllKey

variable {k : HashId} {u : LockOps}

theorem balanced_autoUpdate (s : McCall) : TraceBalanced s.doBinDataUpdateLocks := by
  have hop : ∀ op : LockOp, LockState.step .idle op = some .idle → TraceBalanced [(s.hashId, op)] :=
    fun op h => keeps_singleton h
  have hunlock : TraceBalanced (unlock s.hashId) := (hop .unlock rfl).append (hop .enableAutoLock rfl)
  apply TraceBalanced.append ?_ hunlock
  apply balanced_ite ?_ (fun _ => balanced_nil)
  intro _
  exact balanced_ite (fun _ => balanced_nil) (fun _ => hop .lock rfl)

theorem balanced_auto_asserts (hu : TraceBalanced u) (m n : Nat)
    : TraceBalanced (autoLocks k m ++ asserts k n ++ u) ↔ n = 0 := by
  have hauto : Keeps (autoLocks k m) free := balanced_autoLocks k m
  rw [List.append_assoc, TraceBalanced, hauto.append_iff]
  exact balanced_asserts_append.trans (and_iff_left hu)

theorem balanced_autoInsert (hu : TraceBalanced u) (s : McCall)
    : TraceBalanced (s.doHashInsertLocks ++ u) ↔ s.doHashInsertAsserts = 0 :=
  balanced_auto_asserts hu _ _

theorem balanced_autoHashUpdate (hu : TraceBalanced u) (s : McCall) (opt : LsMcUpdOpt)
    : TraceBalanced (s.doHashUpdateLocks opt ++ u) ↔ s.doHashUpdateAsserts opt = 0 := by
  unfold doHashUpdateLocks doHashUpdateAsserts
  dsimp only
  cases s.getHash.offset2iterator (s.getHash.find2 s.mc.m_hkey s.mc.m_parms.key) with
  | none =>
    rw [List.append_nil]
    exact ⟨fun _ => rfl, fun _ => (balanced_autoLocks _ _).append hu⟩
  | some e =>
    dsimp only
    cases isExpired s.getHash e with
    | true => exact ⟨fun _ => rfl, fun _ => ((balanced_autoLocks _ _).append (balanced_autoLocks _ _)).append hu⟩
    | false => exact balanced_auto_asserts hu _ _

end AllKey

end McCall

end Lsmcd
