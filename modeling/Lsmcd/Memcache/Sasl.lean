import Lsmcd.Lib.Run
import Lsmcd.Memcache.Link

/-!
What a connection can do to the hashes before a SASL exchange has succeeded.
-/

namespace Lsmcd

structure StoreView where
  parms : LsMcParms
  env : McEnv
  authenticated : Bool
  saslUser : Option (List UInt8)
  withcas : Nat → Bool
  withsasl : Nat → Bool
  hash : Nat → Option (List UInt8) → LsShmHash

/--
SASL is required, and no exchange has succeeded or will succeed.
-/
structure StoreView.Unauthenticated (v : StoreView) : Prop where
  usesasl : v.parms.m_usesasl = true
  anonymous : v.parms.m_anonymous = false
  authenticated : v.authenticated = false
  saslUser : v.saslUser = none
  chkAuth : ∀ mech data user, v.env.chkAuth mech data ≠ .ok user

/--
The headers of the slices were written with this configuration.
-/
def StoreView.Matches (v : StoreView) : Prop :=
  ∀ i, v.withcas i = v.parms.m_usecas ∧ v.withsasl i = v.parms.m_usesasl

namespace McCall

def store (s : McCall) : StoreView where
  parms := s.mc.m_mcparms
  env := s.mc.env
  authenticated := s.conn.authenticated
  saslUser := s.conn.saslUser
  withcas := fun i => (s.sliceAt i).hdr.x_withcas
  withsasl := fun i => (s.sliceAt i).hdr.x_withsasl
  hash := fun i => (s.sliceAt i).m_hashByUser

variable (s : McCall) (hdr : McBinCmdHdr)

@[simp]
theorem store_setUndef : s.setUndef.store = s.store := rfl

@[simp]
theorem store_setNoreply (b : Bool) : (s.setNoreply b).store = s.store := rfl

@[simp]
theorem store_setKey (key : List UInt8) : (s.setKey key).store = s.store := rfl

@[simp]
theorem store_setVal (len : Nat) : (s.setVal len).store = s.store := rfl

@[simp]
theorem store_setIterOff (off : Nat) : (s.setIterOff off).store = s.store := rfl

@[simp]
theorem store_setRescas (cas : Nat) : (s.setRescas cas).store = s.store := rfl

@[simp]
theorem store_setBuf (buf : List UInt8) : (s.setBuf buf).store = s.store := rfl

@[simp]
theorem store_setSlice (key : List UInt8) : (s.setSlice key).store = s.store := rfl

@[simp]
theorem store_swapCas : s.swapCas.store = s.store := rfl

@[simp]
theorem store_binStart : s.binStart.store = s.store := rfl

@[simp]
theorem store_toDispatch : s.toDispatch.store = s.store := rfl

@[simp]
theorem store_putWaitQ : s.putWaitQ.store = s.store := by
  unfold putWaitQ
  split
  . rfl
  . dsimp only
    split <;> rfl

@[simp]
theorem store_respond (str : List UInt8) : (s.respond str).store = s.store := by
  unfold respond ackNoreply
  split
  . split <;> rfl
  . rfl

@[simp]
theorem store_binRespond (buf : List UInt8) : (s.binRespond buf).store = s.store := by
  unfold binRespond ackNoreply
  split
  . split <;> rfl
  . rfl

@[simp]
theorem store_binErrRespond (err : McBinStat) : (s.binErrRespond hdr err).store = s.store := by
  simp [binErrRespond]

@[simp]
theorem store_binTextRespond (keylen : Nat) (status : McBinStat) (text : List UInt8)
    : (s.binTextRespond hdr keylen status text).store = s.store := by
  simp [binTextRespond]

@[simp]
theorem store_binKey (p keyLen : Nat) : (s.binKey p keyLen).store = s.store := by
  unfold binKey
  dsimp only
  split <;> simp

theorem store_setHdrAt (i : Nat) (f : LsMcHdr → LsMcHdr)
    (hf : ∀ h, (f h).x_withcas = h.x_withcas ∧ (f h).x_withsasl = h.x_withsasl)
    : (s.setHdrAt i f).store = s.store := by
  have hslice : ∀ {α : Type} (g : LsMcHashSlice → α), (∀ sl, g { sl with hdr := f sl.hdr } = g sl) →
      (fun j => g ((s.setHdrAt i f).sliceAt j)) = fun j => g (s.sliceAt j) := by
    intro α g hg
    funext j
    simp only [setHdrAt, setSliceAt, setMulti, sliceAt]
    by_cases hj : j = i
    . rw [hj, Function.update_self, hg]
    . rw [Function.update_of_ne hj]
  unfold store
  rw [hslice (fun sl => sl.hdr.x_withcas) fun sl => (hf sl.hdr).1,
    hslice (fun sl => sl.hdr.x_withsasl) fun sl => (hf sl.hdr).2,
    hslice (fun sl => sl.m_hashByUser) fun _ => rfl]
  rfl

@[simp]
theorem store_stat (f : LsMcStats → LsMcStats) : (s.stat f).store = s.store := by
  unfold stat
  split
  . apply store_setHdrAt
    intro h
    exact ⟨rfl, rfl⟩
  . rfl

@[simp]
theorem store_authStat (err : Bool) : (s.authStat err).store = s.store := by
  unfold authStat
  dsimp only
  split <;> simp

def FreeCmd (cmd : Nat) : Prop :=
  cmd = MC_BINCMD_SASL_LIST ∨ cmd = MC_BINCMD_SASL_AUTH ∨ cmd = MC_BINCMD_SASL_STEP ∨
    cmd = MC_BINCMD_VERSION

instance : DecidablePred FreeCmd := fun _ =>
  inferInstanceAs (Decidable (_ ∨ _ ∨ _ ∨ _))

variable {s hdr} {cmd : Nat}

theorem setupExtras_free (hcmd : FreeCmd cmd) (pReqX pVal : Nat)
    : s.setupExtras hdr cmd pReqX pVal = (s, .body pVal s.mc.env.updOpt) := by
  rcases hcmd with rfl | rfl | rfl | rfl <;> rfl

theorem setupBinCmd_free (hcmd : FreeCmd cmd)
    : (s.setupBinCmd hdr cmd).1.store = s.store ∧
      ((s.setupBinCmd hdr cmd).2 = .invalid ∨ ∃ pVal opt, (s.setupBinCmd hdr cmd).2 = .body pVal opt) := by
  have hdelete : decide (cmd = MC_BINCMD_DELETE) = false := by
    rcases hcmd with rfl | rfl | rfl | rfl <;> rfl
  have hremote : isRemoteEligible cmd = false := by
    rcases hcmd with rfl | rfl | rfl | rfl <;> rfl
  unfold setupBinCmd
  simp only [hdelete, hremote, binSlice, Bool.false_eq_true, if_false, setupExtras_free hcmd]
  split
  . exact ⟨rfl, .inl rfl⟩
  . split
    . exact ⟨by simp, .inr ⟨_, _, rfl⟩⟩
    . exact ⟨by rw [store_swapCas, store_setVal, store_setSlice, store_binKey], .inr ⟨_, _, rfl⟩⟩

/--
The request that makes `doBinSaslList` rebuild the shared memory.
-/
def ForcesRebuild (s : McCall) : Prop :=
  s.conn.m_protocol = .MC_BINARY ∧
    (McBinCmdHdr.ofBuf s.conn.m_bufIncoming).opcode = MC_BINCMD_SASL_LIST ∧
    (McBinCmdHdr.ofBuf s.conn.m_bufIncoming).opaqueWord = REBUILD_OPAQUE

instance : DecidablePred ForcesRebuild := fun _ =>
  inferInstanceAs (Decidable (_ ∧ _ ∧ _))

theorem store_doBinSaslList (h : hdr.opaqueWord ≠ REBUILD_OPAQUE)
    : (s.doBinSaslList hdr).store = s.store := by
  unfold doBinSaslList
  dsimp only
  rw [if_neg h]
  split
  . simp
  . split <;> simp

theorem store_doBinSaslAuth (hs : s.store.Unauthenticated) : (s.doBinSaslAuth hdr).store = s.store := by
  have husesasl : s.mc.m_mcparms.m_usesasl = true := hs.usesasl
  unfold doBinSaslAuth
  dsimp only
  rw [if_neg (by simp [husesasl])]
  split
  . simp
  . generalize hs₁ : (if hdr.totbody < hdr.keylen then s.setUndef else s) = s₁
    have hstore : s₁.store = s.store := by
      rw [← hs₁]
      split <;> simp
    have henv : s₁.mc.env = s.mc.env := congrArg StoreView.env hstore
    split
    . rename_i user heq
      rw [henv] at heq
      split at heq
      . cases heq
      . exact absurd heq (hs.chkAuth _ _ user)
    . split <;> simp [hstore]
    . simp [hstore]

theorem store_runBinCmd (hs : s.store.Unauthenticated) (hcmd : FreeCmd cmd)
    (hlist : cmd = MC_BINCMD_SASL_LIST → hdr.opaqueWord ≠ REBUILD_OPAQUE) (pVal : Nat) (opt : LsMcUpdOpt)
    : (s.runBinCmd hdr cmd pVal opt).1.store = s.store := by
  have husesasl : s.mc.m_mcparms.m_usesasl = true := hs.usesasl
  rcases hcmd with rfl | rfl | rfl | rfl
  . show (if !s.mc.m_mcparms.m_usesasl then (s.binStart.binOkRespond hdr, true)
      else (s.binStart.doBinSaslList hdr, true)).1.store = s.store
    rw [if_neg (by simp [husesasl])]
    exact store_doBinSaslList (s := s.binStart) (hlist rfl)
  . exact store_doBinSaslAuth (s := s.binStart) hs
  . exact store_doBinSaslAuth (s := s.binStart) hs
  . exact store_binTextRespond s.binStart hdr 0 .SUCCESS (bytes VERSION)

theorem store_processBinReq (hs : s.store.Unauthenticated) (consumed : Int)
    (hlist : ¬ (hdr.opcode = MC_BINCMD_SASL_LIST ∧ hdr.opaqueWord = REBUILD_OPAQUE))
    : (s.processBinReq hdr consumed).1.store = s.store := by
  unfold processBinReq
  dsimp only
  split
  . simp
  . rename_i hfree
    have hcmd : FreeCmd hdr.opcode := by
      have hauth : s.conn.authenticated = false := hs.authenticated
      have huser : s.conn.saslUser = none := hs.saslUser
      have hsasl : s.mc.m_mcparms.m_usesasl = true := hs.usesasl
      have hanon : s.mc.m_mcparms.m_anonymous = false := hs.anonymous
      simp only [saslRefuses, isAuthenticated, hsasl, hanon, hauth, huser] at hfree
      unfold FreeCmd
      simp at hfree
      tauto
    have hbin : binCmd hdr = hdr.opcode := by
      unfold binCmd
      rcases hcmd with h | h | h | h <;> rw [h] <;> rfl
    rw [hbin]
    have hs' : (s.setNoreply (setupNoreplyCmd hdr.opcode).2).store.Unauthenticated := hs
    obtain ⟨hstore, hret⟩ := setupBinCmd_free (s := s.setNoreply (setupNoreplyCmd hdr.opcode).2)
      hcmd
    generalize (s.setNoreply (setupNoreplyCmd hdr.opcode).2).setupBinCmd hdr hdr.opcode = r at hstore hret ⊢
    rw [store_setNoreply] at hstore
    rcases hret with hret | ⟨pVal, opt, hret⟩
    . rw [hret]
      simp [hstore]
    . rw [hret]
      dsimp only
      have hrun := store_runBinCmd (s := r.1) (by rw [hstore]; exact hs) hcmd
        (fun h hop => hlist ⟨h, hop⟩) pVal opt
      split
      . exact hrun.trans hstore
      . exact hrun.trans hstore

theorem store_dispatch (hs : s.store.Unauthenticated) (hforce : ¬ s.ForcesRebuild)
    : s.dispatch.1.store = s.store := by
  unfold dispatch
  split
  . have husesasl : s.mc.m_mcparms.m_usesasl = true := hs.usesasl
    have hanon : s.mc.m_mcparms.m_anonymous = false := hs.anonymous
    unfold processCmd
    rw [if_pos (by simp [husesasl, hanon])]
    simp
  . rename_i hbin
    unfold processBinCmd
    dsimp only
    split
    . rfl
    . split
      . rfl
      . apply store_processBinReq hs
        rintro ⟨hop, hopaque⟩
        exact hforce ⟨hbin, hop, hopaque⟩
  . rfl

theorem not_dbMismatch (hm : s.store.Matches) : s.dbMismatch = false := by
  obtain ⟨hcas, hsasl⟩ := hm s.conn.m_pSlice
  have hcas' : (s.sliceAt s.conn.m_pSlice).hdr.x_withcas = s.mc.m_mcparms.m_usecas := hcas
  have hsasl' : (s.sliceAt s.conn.m_pSlice).hdr.x_withsasl = s.mc.m_mcparms.m_usesasl := hsasl
  simp [dbMismatch, hcas', hsasl']

theorem store_close (hs : s.store.Unauthenticated)
    : store { s with conn := s.conn.close } = s.store := by
  have hauth : s.conn.authenticated = false := hs.authenticated
  have huser : s.conn.saslUser = none := hs.saslUser
  unfold MemcacheConn.close
  split
  . simp only [store, hauth, huser]
    rfl
  . rfl

theorem store_incomingLoop (fuel : Nat) (hs : s.store.Unauthenticated) (hm : s.store.Matches)
    (hok : LoopMeets (fun s => ¬ s.ForcesRebuild) fuel s) : (incomingLoop fuel s).store = s.store := by
  induction fuel generalizing s with
  | zero => rfl
  | succ fuel ih =>
    rw [incomingLoop_succ]
    split
    . simp
    . rename_i hresp
      have hok' := hok (by simpa using hresp)
      have hstore : s.toDispatch.store = s.store := store_toDispatch s
      generalize s.toDispatch = s' at hok' hstore ⊢
      rw [← hstore] at hs hm ⊢
      have hmis := not_dbMismatch hm
      obtain ⟨hforce, hnext⟩ := hok' hmis
      have hdis := store_dispatch hs hforce
      rw [hmis]
      simp only [Bool.false_eq_true, if_false]
      split
      . rename_i hpos
        have hcons : (consume s'.dispatch).store = s'.store := hdis
        split
        . exact hcons
        . rename_i hbuf
          rw [← hcons] at hs hm ⊢
          exact ih hs hm (hnext hpos hbuf)
      . split
        . rw [store_close]
          . exact hdis
          . rw [hdis]
            exact hs
        . exact hdis

theorem store_processIncoming (hs : s.store.Unauthenticated) (hm : s.store.Matches)
    (hok : IncomingMeets (fun s => ¬ s.ForcesRebuild) s) : s.processIncoming.store = s.store := by
  unfold McCall.processIncoming
  unfold IncomingMeets at hok
  split
  . rfl
  . rename_i p internal buf heq
    simp only [heq] at hok
    exact store_incomingLoop _ (s := { s with conn := { s.conn with
      m_protocol := p, internal := internal, m_bufIncoming := buf } }) hs hm hok

end McCall

namespace McWorld

variable {w : McWorld} {id : Nat}

theorem call_put (w : McWorld) (id : Nat) (s : McCall) : (w.put id s).call id = s := by
  simp [put, call]

theorem store_read (bs : List UInt8) (hs : (w.call id).store.Unauthenticated)
    (hm : (w.call id).store.Matches) (hok : EventMeets (fun s => ¬ s.ForcesRebuild) w (.read id bs))
    : ((w.step (.read id bs)).call id).store = (w.call id).store := by
  simp only [step]
  split
  . rename_i hread
    have hrecv : ((w.setConn id { w.conn id with
        m_bufIncoming := (w.conn id).m_bufIncoming ++ bs }).call id).store = (w.call id).store := by
      simp [call, setConn, McCall.store, McCall.sliceAt]
    have hincoming := hok hread.2.1 hread.2.2
    unfold onRead processIncoming
    dsimp only
    rw [call_put, McCall.store_processIncoming _ _ hincoming, hrecv]
    . rw [hrecv]
      exact hs
    . rw [hrecv]
      exact hm
  . rfl

/--
Whatever a connection sends before a SASL exchange has succeeded, the hashes of all slices and users
stay as they are: their items, and that no rebuild was asked for. Two things are left out by what the
source has for them: the request that forces a rebuild, and headers of another configuration.
-/
theorem hash_exec_unauthenticated (w : McWorld) (id : Nat) (bss : List (List UInt8))
    (hs : (w.call id).store.Unauthenticated) (hm : (w.call id).store.Matches)
    (hok : Run.Meets step (EventMeets fun s => ¬ s.ForcesRebuild) w (bss.map (.read id)))
    : ∀ i user, ((Run.exec step w (bss.map (.read id))).slice i).m_hashByUser user =
      (w.slice i).m_hashByUser user := by
  have hrun : ((Run.exec step w (bss.map (.read id))).call id).store = (w.call id).store := by
    induction bss generalizing w with
    | nil => rfl
    | cons bs bss ih =>
      have hread := store_read bs hs hm hok.1
      rw [List.map_cons, Run.exec_cons, ← hread]
      rw [← hread] at hs hm
      exact ih _ hs hm hok.2
  intro i user
  exact congrFun (congrFun (congrArg StoreView.hash hrun) i) user

def sampleSasl : McWorld :=
  let parms := { sampleParms with m_usesasl := true }
  let multi := sampleMulti (sampleSliceHash.get sampleSliceHash_isSome) parms
  (start multi parms false false sampleEnv).step .accept

def sampleReq (opcode : Nat) (opaqueWord : List UInt8) : List UInt8 :=
  [MC_BINARY_REQ, UInt8.ofNat opcode] ++ List.replicate 10 0 ++ opaqueWord ++ List.replicate 8 0

theorem sampleSasl_unauthenticated : (sampleSasl.call 0).store.Unauthenticated where
  usesasl := rfl
  anonymous := rfl
  authenticated := rfl
  saslUser := rfl
  chkAuth _ _ _ := by
    intro h
    cases h

theorem hash_exec_unauthenticated_sample
    : ((Run.exec step sampleSasl ([(sampleReq MC_BINCMD_VERSION [0, 0, 0, 0]).take 7,
        (sampleReq MC_BINCMD_VERSION [0, 0, 0, 0]).drop 7,
        sampleReq MC_BINCMD_GET [0, 0, 0, 0]].map (.read 0))).slice 0).m_hashByUser none =
      (sampleSasl.slice 0).m_hashByUser none :=
  hash_exec_unauthenticated sampleSasl 0 _ sampleSasl_unauthenticated (fun _ => ⟨rfl, rfl⟩)
    (by decide +kernel) 0 none

/--
`SASL_LIST` with the bytes 01 02 03 04 as its opaque word.
-/
theorem rebuilt_saslList
    : (sampleSasl.call 0).store.Unauthenticated ∧ (sampleSasl.call 0).store.Matches ∧
      ((sampleSasl.slice 0).m_hashByUser none).rebuilt = false ∧
      (((Run.exec step sampleSasl [.read 0 (sampleReq MC_BINCMD_SASL_LIST [1, 2, 3, 4])]).slice
        0).m_hashByUser none).rebuilt = true :=
  ⟨sampleSasl_unauthenticated, fun _ => ⟨rfl, rfl⟩, by decide +kernel, by decide +kernel⟩

end McWorld

end Lsmcd
