import Lsmcd.Memcache.SizeLimit
import Lsmcd.Shm.Failed

/-!
A storage command whose operation on the hash fails.
-/

namespace Lsmcd

open LsShmHash

namespace McCall

variable {s : McCall} {E : List Nat} {b : Bool}

/--
The operations on the hash by which commands change the element of their key: `set` in both
protocols, and `doHashUpdate` with the options of the command for all others.
-/
inductive UpdateOp
  | set
  | update (opt : LsMcUpdOpt)

def hashUpdate (s : McCall) : UpdateOp → McCall × Nat
  | .set =>
    let hash := s.getHash
    s.ofHash (hash.doSet (hash.find2 s.mc.m_hkey s.mc.m_parms.key) s.mc.m_hkey s.mc.m_parms)
  | .update opt =>
    let r := s.doHashUpdate opt
    (r.1, r.2.2)

def keyOff (s : McCall) : Nat :=
  s.getHash.findKey s.mc.m_parms.key

def keyExpired (s : McCall) : Bool :=
  s.keyOff ≠ 0 && (s.getHash.table.elem s.keyOff).any (isExpired s.getHash)

/--
An operation that fails leaves the hash as it was, or takes an expired element of the key out.
-/
def FailsClean (s : McCall) (op : UpdateOp) : Prop :=
  (s.hashUpdate op).2 = 0 →
    Restored s.getHash (s.hashUpdate op).1.getHash s.keyOff s.keyExpired

def casDiffers (opt : LsMcUpdOpt) (e : LsShmHElem) : Prop :=
  (opt.m_iFlags &&& LSMC_WITHCAS ≠ 0 ∨ opt.m_cas ≠ 0) ∧ e.cas ≠ opt.m_cas

instance (opt : LsMcUpdOpt) (e : LsShmHElem) : Decidable (casDiffers opt e) :=
  inferInstanceAs (Decidable (_ ∧ _))

def NumKept (s : McCall) (n : Nat) : Prop :=
  s.getHash.SetKept s.mc.m_parms.key ⟨s.mc.m_parms.val.len + n, none⟩ fun _ => false

instance (s : McCall) (n : Nat) : Decidable (s.NumKept n) :=
  inferInstanceAs (Decidable (SetKept _ _ _ _))

def ElemKept (s : McCall) (opt : LsMcUpdOpt) (e : LsShmHElem) : Prop :=
  let cmd := opt.m_iFlags &&& LSMC_CMDMASK
  if cmd = MC_BINCMD_INCREMENT ∨ cmd = MC_BINCMD_DECREMENT then
    match mcIter2num e (opt.m_iFlags &&& LSMC_USECAS ≠ 0) with
    | none => True
    | some num => s.NumKept (decimal (arithmetic cmd num opt.m_value)).length
  else if cmd = MC_BINCMD_APPEND ∨ cmd = MC_BINCMD_PREPEND then
    s.getHash.GrowKept s.keyOff s.mc.m_parms.val.len (s.getHash.flagTid || cmd = MC_BINCMD_PREPEND)
  else s.getHash.SetKept s.mc.m_parms.key s.mc.m_parms.val fun _ => false

instance (s : McCall) (opt : LsMcUpdOpt) (e : LsShmHElem) : Decidable (s.ElemKept opt e) := by
  unfold ElemKept
  dsimp only
  split
  . split <;> infer_instance
  . infer_instance

/--
When an operation that fails does no harm.
-/
def UpdateKept (s : McCall) : UpdateOp → Prop
  | .set => s.getHash.SetKept s.mc.m_parms.key s.mc.m_parms.val (isExpired s.getHash)
  | .update opt => s.keyOff ≠ 0 → ∀ e ∈ s.getHash.table.elem s.keyOff, isExpired s.getHash e = false →
    ¬ casDiffers opt e → s.ElemKept opt e

instance (s : McCall) (op : UpdateOp) : Decidable (s.UpdateKept op) :=
  match op with
  | .set => inferInstanceAs (Decidable (SetKept _ _ _ _))
  | .update opt => inferInstanceAs (Decidable (_ → ∀ e ∈ s.getHash.table.elem s.keyOff, _ → _ → s.ElemKept opt e))

theorem keyExpired_of_mem {e : LsShmHElem} (hne : s.keyOff ≠ 0) (he : s.getHash.table.elem s.keyOff = some e)
    : s.keyExpired = isExpired s.getHash e := by
  unfold keyExpired
  simp [hne, he]

theorem restored_of_live {hash : LsShmHash} {x : Nat} {s' : LsShmHash}
    : Restored hash s' x false ↔ Unchanged hash s' := by
  unfold Restored
  simp

theorem doSet_iff (h : Rep s.getHash E) (v : ValParm) {gone : LsShmHElem → Bool}
    (hgone : ∀ e ∈ s.getHash.table.elem s.keyOff, s.keyOff ≠ 0 → b = gone e)
    (habsent : s.keyOff = 0 → b = false)
    : ((s.getHash.doSet s.keyOff (s.getHash.m_hf s.mc.m_parms.key) ⟨s.mc.m_parms.key, v⟩).2 = 0 →
        Restored s.getHash
          (s.getHash.doSet s.keyOff (s.getHash.m_hf s.mc.m_parms.key) ⟨s.mc.m_parms.key, v⟩).1 s.keyOff b) ↔
      s.getHash.SetKept s.mc.m_parms.key v gone := by
  rcases h.lookup.find2_cases s.mc.m_parms.key with ⟨hz, _⟩ | ⟨hx, _⟩
  . have hz : s.keyOff = 0 := hz
    rw [habsent hz, restored_of_live]
    exact doSet_absent_iff h hz gone
  . change s.keyOff ∈ E at hx
    obtain ⟨e, he, _⟩ := h.elems _ hx
    rw [hgone e he (h.ne_zero hx)]
    exact doSet_present_iff h hx he gone

theorem doUpdate_iff (h : Rep s.getHash E) (hne : s.keyOff ≠ 0) (v : ValParm)
    : ((s.getHash.doUpdate s.keyOff (s.getHash.m_hf s.mc.m_parms.key) ⟨s.mc.m_parms.key, v⟩).2 = 0 →
        Unchanged s.getHash
          (s.getHash.doUpdate s.keyOff (s.getHash.m_hf s.mc.m_parms.key) ⟨s.mc.m_parms.key, v⟩).1) ↔
      s.getHash.SetKept s.mc.m_parms.key v fun _ => false := by
  rw [doUpdate_eq _ hne, ← restored_of_live (x := s.keyOff)]
  exact doSet_iff h v (fun _ _ _ => rfl) (fun _ => rfl)

theorem growElem_iff (h : Rep s.getHash E) (hcalm : s.getHash.rebuilt = false) (hx : s.keyOff ∈ E)
    (opt : LsMcUpdOpt) (useCas : Bool) (n cmd : Nat)
    : let r := s.getHash.iterGrowValue s.keyOff n false
      let q : McCall × LsMcUpdOpt × Nat :=
        if r.2 = 0 ∨ cmd = MC_BINCMD_APPEND then (s.setHash r.1, opt, r.2)
        else match r.1.offset2iterator r.2 with
          | none => (s.setHash r.1, { opt with m_iRetcode := .INTERNAL_ERROR }, 0)
          | some e =>
            ((s.setHash r.1).setHash (r.1.setTable (·.setElem r.2 (some (shiftData e useCas n)))), opt, r.2)
      (cmd = MC_BINCMD_APPEND ∨ cmd = MC_BINCMD_PREPEND) →
      ((q.2.2 = 0 → Unchanged s.getHash q.1.getHash) ↔
        s.getHash.GrowKept s.keyOff n (s.getHash.flagTid || cmd = MC_BINCMD_PREPEND)) := by
  intro r q hcmd
  have hun := iterGrowValue_unchanged_iff h hcalm hx n false
  by_cases h0 : r.2 = 0
  . have hq : q = (s.setHash r.1, opt, r.2) := if_pos (Or.inl h0)
    rw [hq, growKept_of_failed h hx h0]
    dsimp only
    rw [getHash_setHash]
    exact hun
  have hdone := growKept_of_done h h0 (s.getHash.flagTid || cmd = MC_BINCMD_PREPEND)
  change s.getHash.GrowKept s.keyOff n _ ↔ (_ → (r.1.offset2iterator r.2).isSome = true) at hdone
  rcases hcmd with rfl | rfl
  . have hq : q = (s.setHash r.1, opt, r.2) := if_pos (Or.inr rfl)
    have hkept := hun.mp (fun hz => absurd hz h0)
    rw [hq]
    simp [h0, hkept, MC_BINCMD_APPEND, MC_BINCMD_PREPEND]
  . rw [hdone]
    have hq : q = match r.1.offset2iterator r.2 with
        | none => (s.setHash r.1, { opt with m_iRetcode := .INTERNAL_ERROR }, 0)
        | some e =>
            ((s.setHash r.1).setHash (r.1.setTable (·.setElem r.2 (some (shiftData e useCas n)))), opt, r.2) :=
      if_neg (by simp [h0, MC_BINCMD_APPEND, MC_BINCMD_PREPEND])
    rw [hq]
    cases hiter : r.1.offset2iterator r.2 with
    | none =>
      have hlost := iterGrowValue_refused h h0 hiter
      dsimp only
      rw [getHash_setHash]
      simp only [decide_true, Bool.or_true, true_implies, Option.isSome_none, Bool.false_eq_true, iff_false]
      exact hlost
    | some e => simp [h0]

theorem updateElem_iff (h : Rep s.getHash E) (hcalm : s.getHash.rebuilt = false)
    (hkey : s.mc.m_hkey = s.getHash.m_hf s.mc.m_parms.key) (hx : s.keyOff ∈ E) (opt : LsMcUpdOpt)
    (e : LsShmHElem)
    : ((s.updateElem opt s.keyOff e).2.2 = 0 →
        Unchanged s.getHash (s.updateElem opt s.keyOff e).1.getHash) ↔
      (¬ casDiffers opt e → s.ElemKept opt e) := by
  have hne := h.ne_zero hx
  unfold updateElem ElemKept
  dsimp only
  by_cases hcas : (opt.m_iFlags &&& LSMC_WITHCAS ≠ 0 ∨ opt.m_cas ≠ 0) ∧ e.cas ≠ opt.m_cas
  . have hdiff : casDiffers opt e := hcas
    rw [if_pos hcas]
    simp [hdiff, Unchanged.refl]
  have hsame : ¬ casDiffers opt e := hcas
  rw [if_neg hcas]
  simp only [hsame, not_false_eq_true, true_implies]
  split
  . cases mcIter2num e (opt.m_iFlags &&& LSMC_USECAS ≠ 0) with
    | none => simp [Unchanged.refl]
    | some num =>
      dsimp only
      unfold ofHash NumKept
      have hup := doUpdate_iff h hne
        ⟨s.mc.m_parms.val.len + (decimal (arithmetic (opt.m_iFlags &&& LSMC_CMDMASK) num opt.m_value)).length, none⟩
      rw [← hkey] at hup
      rw [getHash_setHash]
      exact hup
  . split
    . next hcmd => exact growElem_iff h hcalm hx opt _ s.mc.m_parms.val.len _ hcmd
    . unfold ofHash
      rw [getHash_setHash, hkey]
      exact doUpdate_iff h hne _

section Commands

variable (s : McCall)

theorem getHash_respond (str : List UInt8) : (s.respond str).getHash = s.getHash := by
  unfold respond ackNoreply
  split
  . split <;> rfl
  . rfl

theorem getHash_binRespond (buf : List UInt8) : (s.binRespond buf).getHash = s.getHash := by
  unfold binRespond ackNoreply
  split
  . split <;> rfl
  . rfl

theorem getHash_binErrRespond (hdr : McBinCmdHdr) (err : McBinStat)
    : (s.binErrRespond hdr err).getHash = s.getHash := by
  unfold binErrRespond
  exact (getHash_binRespond _ _).trans (getHash_binRespond _ _)

theorem getHash_doDataUpdate (pBuf : List UInt8) (h : s.mc.m_iterOff = 0)
    : (s.doDataUpdate pBuf).getHash = s.getHash := by
  unfold doDataUpdate
  have hoff : ¬ (s.setKey []).mc.m_iterOff ≠ 0 := not_not.mpr h
  split
  . exact getHash_respond s _
  . dsimp only
    rw [if_neg hoff]
    split
    . exact getHash_respond _ _
    . split <;> exact getHash_respond _ _

theorem getHash_doBinDataUpdate (pBuf : List UInt8) (hdr : McBinCmdHdr) (h : s.mc.m_iterOff = 0)
    : (s.doBinDataUpdate pBuf hdr).getHash = s.getHash := by
  unfold doBinDataUpdate
  have hoff : ¬ (s.setKey []).mc.m_iterOff ≠ 0 := not_not.mpr h
  dsimp only
  rw [if_neg hoff]
  split
  . exact getHash_binErrRespond _ _ _
  . split
    . exact getHash_binErrRespond _ _ _
    . split <;> exact getHash_binErrRespond _ _ _

def storeUpdate (arg cas : Nat) : UpdateOp :=
  if arg = MC_BINCMD_SET then .set
  else .update
    { s.mc.env.updOpt with
      m_iFlags := if (arg = MC_BINCMD_APPEND ∨ arg = MC_BINCMD_PREPEND) ∧ s.mc.m_mcparms.m_usecas
        then arg ||| LSMC_USECAS else arg
      m_cas := cas }

theorem storeOp_hashUpdate (arg cas : Nat) (hadd : arg ≠ MC_BINCMD_ADD)
    : (s.storeOp arg cas).getHash = (s.hashUpdate (s.storeUpdate arg cas)).1.getHash ∧
      (s.storeOp arg cas).mc.m_iterOff = (s.hashUpdate (s.storeUpdate arg cas)).2 := by
  unfold storeOp storeUpdate
  dsimp only
  rw [if_neg hadd]
  split
  . exact ⟨rfl, rfl⟩
  . unfold hashUpdate
    dsimp only
    generalize s.doHashUpdate _ = r
    split
    . exact ⟨rfl, rfl⟩
    . split
      . exact ⟨rfl, rfl⟩
      . split
        . exact ⟨rfl, rfl⟩
        . refine ⟨getHash_stat _ _, ?_⟩
          unfold stat
          split <;> rfl

theorem storeOp_failed (arg cas : Nat) (hadd : arg ≠ MC_BINCMD_ADD) (length : Int) (pBuf : List UInt8)
    (h0 : (s.hashUpdate (s.storeUpdate arg cas)).2 = 0)
    : (((s.storeOp arg cas).setNeeded length).doDataUpdate pBuf).getHash =
        (s.hashUpdate (s.storeUpdate arg cas)).1.getHash := by
  obtain ⟨hhash, hoff⟩ := s.storeOp_hashUpdate arg cas hadd
  exact (getHash_doDataUpdate ((s.storeOp arg cas).setNeeded length) pBuf (hoff.trans h0)).trans hhash

def countUpdate (arg delta : Nat) : UpdateOp :=
  .update
    { s.mc.env.updOpt with
      m_iFlags := if s.mc.m_mcparms.m_usecas then arg ||| LSMC_USECAS else arg
      m_value := delta
      m_cas := 0 }

theorem arithmeticCmd_failed (arg delta : Nat)
    : let t := s.setVal (s.parmAdjLen 0)
      (t.hashUpdate (t.countUpdate arg delta)).2 = 0 →
        (s.arithmeticCmd arg delta).getHash = (t.hashUpdate (t.countUpdate arg delta)).1.getHash := by
  intro t
  unfold arithmeticCmd hashUpdate countUpdate
  dsimp only
  rw [show s.setVal (s.parmAdjLen 0) = t from rfl]
  generalize t.doHashUpdate _ = r
  intro h0
  rw [if_neg (not_not.mpr h0)]
  split
  . exact (getHash_respond _ _).trans (getHash_stat _ _)
  . split <;> exact getHash_respond _ _

def binUpdate (cmd : Nat) (opt : LsMcUpdOpt) : UpdateOp :=
  if cmd = MC_BINCMD_SET then .set else .update opt

theorem binStore_failed (hdr : McBinCmdHdr) (cmd pVal : Nat) (opt : LsMcUpdOpt)
    (hadd : cmd ≠ MC_BINCMD_ADD)
    : let t := s.stat fun st => { st with set_cmds := st.set_cmds + 1 }
      (t.hashUpdate (binUpdate cmd opt)).2 = 0 →
        (s.binStore hdr cmd pVal opt).getHash = (t.hashUpdate (binUpdate cmd opt)).1.getHash := by
  intro t
  unfold binStore binUpdate
  dsimp only
  rw [show (s.stat fun st => { st with set_cmds := st.set_cmds + 1 }) = t from rfl]
  simp only [hadd, if_false]
  split
  . intro h0
    exact getHash_doBinDataUpdate _ _ _ h0
  . unfold hashUpdate
    dsimp only
    generalize t.doHashUpdate opt = r
    intro h0
    split
    . generalize hs : (if hdr.cas ≠ 0 then
        ((r.1.setIterOff r.2.2).setRetcode r.2.1.m_iRetcode).binCasStat r.2.1.m_iRetcode
        else (r.1.setIterOff r.2.2).setRetcode r.2.1.m_iRetcode) = u
      have hu : u.getHash = r.1.getHash ∧ u.mc.m_iterOff = 0 := by
        rw [← hs]
        split
        . refine ⟨getHash_stat _ _, ?_⟩
          unfold binCasStat stat
          split <;> exact h0
        . exact ⟨rfl, h0⟩
      exact (getHash_doBinDataUpdate u _ _ hu.2).trans hu.1
    . exact getHash_doBinDataUpdate _ _ _ h0

theorem doBinArithmetic_failed (hdr : McBinCmdHdr) (cmd : Nat) (opt : LsMcUpdOpt)
    (hfound : (s.doHashUpdate opt).2.1.m_iRetcode ≠ .NOTFOUND)
    (h0 : (s.hashUpdate (.update opt)).2 = 0)
    : (s.doBinArithmetic hdr cmd opt).getHash = (s.hashUpdate (.update opt)).1.getHash := by
  unfold hashUpdate at h0 ⊢
  unfold doBinArithmetic
  dsimp only at h0 ⊢
  rw [if_neg (not_not.mpr h0), if_neg hfound]
  split
  . exact getHash_binErrRespond _ _ _
  . split <;> exact getHash_binErrRespond _ _ _

end Commands

section Sample

def sampleOneElem : Option LsShmHash :=
  sampleHash [Answer.clean 0x1000 48] (HashParm.clean false false)

theorem sampleOneElem_isSome : sampleOneElem.isSome = true := by decide

def sampleFullHash : LsShmHash :=
  (sampleOneElem.get sampleOneElem_isSome).step (.doSet (bytes "a") (ValParm.ofBytes (List.replicate 17 0)))

theorem sampleFullHash_rep : ∃ E, Rep sampleFullHash E := by
  have hrep := sampleHash_rep (Option.some_get sampleOneElem_isSome).symm
  obtain ⟨E, hend, _⟩ := AccountRun.step_paid hrep
    (.doSet (bytes "a") (ValParm.ofBytes (List.replicate 17 0))) (by decide +kernel)
  exact ⟨E, hend⟩

def sampleLonger : McCall :=
  let multi := sampleMulti sampleFullHash sampleParms
  let s := ((McWorld.start multi sampleParms false false sampleEnv).step .accept).call 0
  { s with mc := { s.mc with m_parms := { key := bytes "a", val := ⟨60, none⟩ }, m_hkey := hashBuf (bytes "a") } }

end Sample

end McCall

end Lsmcd
