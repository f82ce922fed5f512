import Lsmcd.Lib.Run
import Lsmcd.Memcache.Hashes
import Lsmcd.Memcache.TextStore

/-!
The size limit of items: which values the two protocols refuse, and how long the stored ones get.
-/

namespace Lsmcd

def LsMcParms.Admits (parms : LsMcParms) (size : Nat) : Prop :=
  parms.m_iValMaxSz = 0 ∨ size ≤ parms.m_iValMaxSz

instance (parms : LsMcParms) : DecidablePred parms.Admits := fun _ =>
  inferInstanceAs (Decidable (_ ∨ _))

/--
What stands in front of the data of a value counts for the text protocol: no stored value is longer
than a `set` of the text protocol admits.
-/
def HashView.Limited (v : HashView) : Prop :=
  ∀ i user off e, (v.hash i user).table.elem off = some e → v.parms.Admits e.valLen

/--
A length that is admitted without the header of an item, and not with it.
-/
def McCall.InBand (s : McCall) (length : Nat) : Prop :=
  s.mc.m_mcparms.Admits length ∧ ¬ s.mc.m_mcparms.Admits (s.parmAdjLen length)

instance (s : McCall) : DecidablePred s.InBand := fun _ =>
  inferInstanceAs (Decidable (_ ∧ _))

namespace LsShmHash

def LimitedBy (parms : LsMcParms) (s : LsShmHash) : Prop :=
  ∀ off e, s.table.elem off = some e → parms.Admits e.valLen

variable {parms : LsMcParms} {s t : LsShmHash}

theorem LimitedBy.adds (hs : s.LimitedBy parms)
    (h : Adds (fun e => parms.Admits e.valLen) s t) : t.LimitedBy parms :=
  fun off e he => (h off e he).elim (hs off e) id

end LsShmHash

namespace McCall

variable {s : McCall}

theorem chkItemSize_iff (size : Nat) : s.chkItemSize size = true ↔ s.mc.m_mcparms.Admits size := by
  simp [chkItemSize, LsMcParms.Admits]

theorem limited_setHashAt (h : s.hashes.Limited) {i : Nat} {user : Option (List UInt8)} {hash : LsShmHash}
    (hhash : hash.LimitedBy s.mc.m_mcparms) : (s.setHashAt i user hash).hashes.Limited := by
  rw [hashes_setHashAt]
  intro j user' off e he
  dsimp only at he
  rw [Function.update_apply] at he
  split at he
  . rename_i hj
    subst hj
    rw [Function.update_apply] at he
    split at he
    . exact hhash off e he
    . exact h j user' off e he
  . exact h j user' off e he

theorem limited_setSliceAt (h : s.hashes.Limited) {i : Nat} {slice : LsMcHashSlice}
    (hslice : slice.m_hashByUser = (s.sliceAt i).m_hashByUser)
    : (s.setSliceAt i slice).hashes.Limited := by
  rw [hashes_setSliceAt s hslice]
  exact h

theorem limited_setHash (h : s.hashes.Limited) {hash : LsShmHash}
    (hhash : hash.LimitedBy s.mc.m_mcparms) : (s.setHash hash).hashes.Limited :=
  limited_setHashAt h hhash

theorem limited_adds (h : s.hashes.Limited) {hash : LsShmHash}
    (hadds : LsShmHash.Adds (fun e => s.mc.m_mcparms.Admits e.valLen) s.getHash hash)
    : (s.setHash hash).hashes.Limited :=
  limited_setHash h (LsShmHash.LimitedBy.adds (h _ _) hadds)

theorem limited_setElem (h : s.hashes.Limited) {hash : LsShmHash} {off : Nat} {e e' : LsShmHElem}
    (hhash : hash.LimitedBy s.mc.m_mcparms) (he : hash.table.elem off = some e)
    (hlen : e'.valLen = e.valLen) : (s.setHash (hash.setTable (·.setElem off (some e')))).hashes.Limited := by
  apply limited_setHash h
  apply hhash.adds
  apply LsShmHash.adds_setElem
  rw [hlen]
  exact hhash off e he

/--
The length that `doHashUpdate` gives to the value of `e` when it is called with `len`; `none` when the
value stays.
-/
def updSize (opt : LsMcUpdOpt) (len : Nat) (e : LsShmHElem) : Option Nat :=
  let cmd := opt.m_iFlags &&& LSMC_CMDMASK
  if (opt.m_iFlags &&& LSMC_WITHCAS ≠ 0 ∨ opt.m_cas ≠ 0) ∧ e.cas ≠ opt.m_cas then none
  else if cmd = MC_BINCMD_INCREMENT ∨ cmd = MC_BINCMD_DECREMENT then
    (mcIter2num e (opt.m_iFlags &&& LSMC_USECAS ≠ 0)).map fun num =>
      len + (decimal (arithmetic cmd num opt.m_value)).length
  else if cmd = MC_BINCMD_APPEND ∨ cmd = MC_BINCMD_PREPEND then some (e.valLen + len)
  else some len

theorem limited_updateElem (h : s.hashes.Limited) (opt : LsMcUpdOpt) {off : Nat} {e : LsShmHElem}
    (he : s.getHash.table.elem off = some e)
    (hfit : ∀ n ∈ updSize opt s.mc.m_parms.val.len e, s.mc.m_mcparms.Admits n)
    : (s.updateElem opt off e).1.hashes.Limited := by
  unfold updSize at hfit
  dsimp only at hfit
  unfold updateElem
  dsimp only
  split
  . exact h
  . rename_i hcas
    rw [if_neg hcas] at hfit
    split
    . rename_i harith
      rw [if_pos harith] at hfit
      split
      . exact h
      . rename_i num hnum
        rw [hnum] at hfit
        have hsize := hfit _ rfl
        refine limited_adds (s := (s.setVal _).setItem e.dataItem) h (LsShmHash.adds_doUpdate _ _ _ _ ?_)
        intro e' he'
        rw [he']
        exact hsize
    . rename_i harith
      rw [if_neg harith] at hfit
      split
      . rename_i hgrow
        rw [if_pos hgrow] at hfit
        have hadds : LsShmHash.Adds (fun e => s.mc.m_mcparms.Admits e.valLen) s.getHash
            (s.getHash.iterGrowValue off s.mc.m_parms.val.len false).1 := by
          apply LsShmHash.adds_iterGrowValue
          intro e₁ he₁ e' he'
          cases he.symm.trans he₁
          rw [he']
          exact hfit _ rfl
        split
        . exact limited_adds h hadds
        . split
          . exact limited_adds h hadds
          . rename_i e' he'
            exact limited_setElem (limited_adds h hadds) (LsShmHash.LimitedBy.adds (h _ _) hadds)
              (LsShmHash.elem_of_offset2iterator he') rfl
      . rename_i hgrow
        rw [if_neg hgrow] at hfit
        refine limited_adds h (LsShmHash.adds_doUpdate _ _ _ _ ?_)
        intro e' he'
        rw [he']
        exact hfit _ rfl

def OptFits (s : McCall) (opt : LsMcUpdOpt) (key : List UInt8) (len : Nat) : Prop :=
  ∀ off e, s.getHash.table.elem off = some e → e.key = key → isExpired s.getHash e = false →
    ∀ n ∈ updSize opt len e, s.mc.m_mcparms.Admits n

theorem limited_doHashUpdate (h : s.hashes.Limited) {opt : LsMcUpdOpt}
    (hfit : s.OptFits opt s.mc.m_parms.key s.mc.m_parms.val.len)
    : (s.doHashUpdate opt).1.hashes.Limited := by
  unfold doHashUpdate
  dsimp only
  split
  . exact h
  . rename_i hoff
    split
    . exact h
    . rename_i e he
      split
      . exact limited_adds h (LsShmHash.adds_eraseIteratorHelper _ _)
      . rename_i hexp
        obtain ⟨helem, hkey⟩ := LsShmHash.find2_some hoff he
        exact limited_updateElem h opt helem (hfit _ e helem hkey (by simpa using hexp))

theorem limited_doHashInsert (h : s.hashes.Limited) (opt : LsMcUpdOpt)
    (hlen : s.mc.m_mcparms.Admits s.mc.m_parms.val.len) : (s.doHashInsert opt).1.hashes.Limited := by
  have hsize : ∀ e : LsShmHElem, e.valLen = s.mc.m_parms.val.len → s.mc.m_mcparms.Admits e.valLen := by
    intro e he
    rw [he]
    exact hlen
  unfold doHashInsert
  dsimp only
  split
  . split
    . exact h
    . split
      . exact limited_adds h (LsShmHash.adds_doSet _ _ _ _ hsize)
      . exact h
  . exact limited_adds h (LsShmHash.adds_doInsert _ _ _ _ hsize)

theorem limited_doSet (h : s.hashes.Limited) (hlen : s.mc.m_mcparms.Admits s.mc.m_parms.val.len) (off : Nat)
    : (s.ofHash (s.getHash.doSet off s.mc.m_hkey s.mc.m_parms)).1.hashes.Limited := by
  refine limited_adds h (LsShmHash.adds_doSet _ _ _ _ ?_)
  intro e he
  rw [he]
  exact hlen

theorem valLen_putCas (s : McCall) (e : LsShmHElem) : (s.putCas e).2.valLen = e.valLen := by
  unfold putCas
  split <;> rfl

theorem limited_dataItemUpdate (h : s.hashes.Limited) (pBuf : List UInt8)
    : (s.dataItemUpdate pBuf).hashes.Limited := by
  unfold dataItemUpdate
  dsimp only
  split
  . exact h
  . rename_i e he
    generalize hq : (if s.mc.m_retcode = UpdRet.APPEND ∨ s.mc.m_retcode = UpdRet.PREPEND then (s, e)
      else _ : McCall × LsShmHElem) = q
    have hkeep : q.1.hashes = s.hashes ∧ q.2.valLen = e.valLen := by
      rw [← hq]
      split <;> exact ⟨rfl, rfl⟩
    have hr : (q.1.putCas q.2).1.hashes = s.hashes := (hashes_putCas q.1 q.2).trans hkeep.1
    have hlen : (q.1.putCas q.2).2.valLen = e.valLen := (valLen_putCas q.1 q.2).trans hkeep.2
    generalize q.1.putCas q.2 = r at hr hlen
    have hparms : r.1.mc.m_mcparms = s.mc.m_mcparms := congrArg HashView.parms hr
    rw [hashes_setNeeded]
    have hfits : s.getHash.LimitedBy r.1.mc.m_mcparms := by
      rw [hparms]
      exact h _ _
    have hput : ∀ (c : Prop) [Decidable c] (off n : Nat),
        (if c then r.2.putBytes off n pBuf else r.2).valLen = e.valLen := by
      intro c _ off n
      split <;> exact hlen
    exact limited_setElem (e := e) (by rw [hr]; exact h) hfits (LsShmHash.elem_of_offset2iterator he) (hput _ _ _)

theorem limited_doDataUpdate (h : s.hashes.Limited) (pBuf : List UInt8)
    : (s.doDataUpdate pBuf).hashes.Limited := by
  have hupdate : ((s.setKey []).dataItemUpdate pBuf).hashes.Limited :=
    limited_dataItemUpdate (s := s.setKey []) h pBuf
  unfold doDataUpdate
  dsimp only
  split
  . simpa using h
  . split
    . split <;> simpa using hupdate
    . split
      . simpa using h
      . split <;> simpa using h

def growOpt (s : McCall) (arg cas : Nat) : LsMcUpdOpt :=
  { s.mc.env.updOpt with
    m_iFlags := if s.mc.m_mcparms.m_usecas then arg ||| LSMC_USECAS else arg
    m_cas := cas }

def arithOpt (s : McCall) (arg delta : Nat) : LsMcUpdOpt :=
  { s.growOpt arg 0 with m_value := delta }

structure Checked (s t : McCall) : Prop where
  parms : t.mc.m_mcparms = s.mc.m_mcparms
  m_parms : t.mc.m_parms = s.mc.m_parms
  env : t.mc.env = s.mc.env
  now : t.getHash.now = s.getHash.now
  adds : ∀ P, LsShmHash.Adds P s.getHash t.getHash

theorem checked_chkMemSz {arg : Nat} (h : (s.chkMemSz arg).2 = .SUCCESS)
    : s.mc.m_mcparms.Admits s.mc.m_parms.val.len ∧ s.Checked (s.chkMemSz arg).1 := by
  revert h
  unfold chkMemSz
  dsimp only
  split
  . split
    . exact nofun
    . exact nofun
  . rename_i hsize
    have hadmits : s.mc.m_mcparms.Admits s.mc.m_parms.val.len := by
      rw [← chkItemSize_iff]
      simpa using hsize
    split
    . exact fun _ => ⟨hadmits, rfl, rfl, rfl, rfl, fun P => .refl _⟩
    . split
      . exact nofun
      . split
        . exact nofun
        . intro _
          refine ⟨hadmits, rfl, rfl, rfl, ?_, ?_⟩
          . rw [getHash_setHash]
            exact LsShmHash.now_trimsize _ _ _ _
          . intro P
            rw [getHash_setHash]
            exact LsShmHash.adds_trimsize _ _ _ _

theorem limited_chkMemSz (h : s.hashes.Limited) (arg : Nat) : (s.chkMemSz arg).1.hashes.Limited := by
  unfold chkMemSz
  dsimp only
  split
  . split
    . exact limited_adds h (LsShmHash.adds_eraseIteratorHelper _ _)
    . exact h
  . split
    . exact h
    . split
      . exact h
      . split
        . exact limited_adds h ((LsShmHash.adds_trimsize _ _ _ _).trans (LsShmHash.quiet_rebuild _).adds)
        . exact limited_adds h (LsShmHash.adds_trimsize _ _ _ _)

theorem Checked.trans {t u : McCall} (h₁ : s.Checked t) (h₂ : t.Checked u) : s.Checked u where
  parms := h₂.parms.trans h₁.parms
  m_parms := h₂.m_parms.trans h₁.m_parms
  env := h₂.env.trans h₁.env
  now := h₂.now.trans h₁.now
  adds := fun P => (h₁.adds P).trans (h₂.adds P)

theorem checked_stat (s : McCall) (f : LsMcStats → LsMcStats) : s.Checked (s.stat f) := by
  have hhash := getHash_stat s f
  have hrest : (s.stat f).mc.m_parms = s.mc.m_parms := by
    unfold stat
    split <;> rfl
  exact ⟨congrArg HashView.parms (hashes_stat s f), hrest, congrArg HashView.env (hashes_stat s f),
    by rw [hhash], fun P => .of_elem (by rw [hhash])⟩

theorem Checked.growOpt {t : McCall} (h : s.Checked t) (arg cas : Nat)
    : t.growOpt arg cas = s.growOpt arg cas := by
  unfold McCall.growOpt
  rw [h.env, h.parms]

theorem OptFits.checked {t : McCall} {opt : LsMcUpdOpt} {key : List UInt8} {len : Nat}
    (h : s.OptFits opt key len) (hc : s.Checked t) : t.OptFits opt key len := by
  intro off e he hkey hexp n hn
  rw [hc.parms]
  have hold : s.getHash.table.elem off = some e := (hc.adds (fun _ => False) off e he).resolve_right id
  refine h off e hold hkey ?_ n hn
  unfold isExpired at hexp ⊢
  rw [← hc.now]
  exact hexp

def Replaces (arg : Nat) : Prop :=
  arg = MC_BINCMD_REPLACE ∨ arg = MC_BINCMD_REPLACE ||| LSMC_WITHCAS

theorem optFits_of_replaces {opt : LsMcUpdOpt} {len : Nat} (h : Replaces opt.m_iFlags)
    (hlen : s.mc.m_mcparms.Admits len) (key : List UInt8) : s.OptFits opt key len := by
  intro off e _ _ _ n hn
  have hcmd : opt.m_iFlags &&& LSMC_CMDMASK = MC_BINCMD_REPLACE := by
    rcases h with h | h
    . rw [h]
      decide
    . rw [h]
      decide
  unfold updSize at hn
  dsimp only at hn
  rw [hcmd] at hn
  split at hn
  . cases hn
  . rw [if_neg (by decide), if_neg (by decide)] at hn
    cases hn
    exact hlen

theorem limited_storeOp (h : s.hashes.Limited) {arg : Nat} (harg : StoreArg arg) (cas : Nat)
    (hlen : s.mc.m_mcparms.Admits s.mc.m_parms.val.len)
    (hfit : arg = MC_BINCMD_APPEND ∨ arg = MC_BINCMD_PREPEND →
      s.OptFits (s.growOpt arg cas) s.mc.m_parms.key s.mc.m_parms.val.len)
    : (s.storeOp arg cas).hashes.Limited := by
  unfold storeOp
  dsimp only
  by_cases hadd : arg = MC_BINCMD_ADD
  . rw [if_pos hadd]
    simpa using limited_doHashInsert h _ hlen
  by_cases hset : arg = MC_BINCMD_SET
  . rw [if_neg hadd, if_pos hset]
    simpa using limited_doSet h hlen _
  rw [if_neg hadd, if_neg hset]
  have hupd : ((s.doHashUpdate { s.mc.env.updOpt with
      m_iFlags := if (arg = MC_BINCMD_APPEND ∨ arg = MC_BINCMD_PREPEND) ∧ s.mc.m_mcparms.m_usecas
        then arg ||| LSMC_USECAS else arg
      m_cas := cas }).1).hashes.Limited := by
    apply limited_doHashUpdate h
    by_cases hgrow : arg = MC_BINCMD_APPEND ∨ arg = MC_BINCMD_PREPEND
    . have hf := hfit hgrow
      unfold growOpt at hf
      simpa only [hgrow, true_and] using hf
    . apply optFits_of_replaces _ hlen
      show Replaces (if (arg = MC_BINCMD_APPEND ∨ arg = MC_BINCMD_PREPEND) ∧ s.mc.m_mcparms.m_usecas
        then arg ||| LSMC_USECAS else arg)
      rw [if_neg fun hg => hgrow hg.1]
      rcases harg with harg | harg | harg | harg | harg | harg
      . exact absurd harg hadd
      . exact absurd harg hset
      . exact Or.inl harg
      . exact absurd (Or.inl harg) hgrow
      . exact absurd (Or.inr harg) hgrow
      . exact Or.inr harg
  split
  . simpa using hupd
  . split
    . simpa using hupd
    . split <;> simpa using hupd

theorem limited_storeCmd (h : s.hashes.Limited) (i : McInput) {arg : Nat} (harg : StoreArg arg)
    (flags exptime length cas : Nat)
    (hfit : arg = MC_BINCMD_APPEND ∨ arg = MC_BINCMD_PREPEND →
      s.OptFits (s.growOpt arg cas) s.mc.m_parms.key length)
    : (s.storeCmd i arg flags exptime length cas).1.hashes.Limited := by
  unfold storeCmd
  dsimp only
  generalize hstart : (s.setItem { x_exptime := exptime, x_flags := flags }).setVal
    (if arg = MC_BINCMD_APPEND ∨ arg = MC_BINCMD_PREPEND then length else
      (s.setItem { x_exptime := exptime, x_flags := flags }).parmAdjLen length) = t
  have ht : t.hashes.Limited := by
    rw [← hstart]
    exact h
  have hchk := limited_chkMemSz ht arg
  split
  . simpa using hchk
  . split
    . simpa using hchk
    . rename_i hsuccess
      obtain ⟨hlen, hc⟩ := checked_chkMemSz (not_not.mp hsuccess)
      have hfit' : arg = MC_BINCMD_APPEND ∨ arg = MC_BINCMD_PREPEND →
          t.OptFits (t.growOpt arg cas) t.mc.m_parms.key t.mc.m_parms.val.len := by
        intro hgrow
        rw [← hstart, if_pos hgrow]
        exact hfit hgrow
      apply limited_doDataUpdate
      rw [hashes_setNeeded]
      have hcs := hc.trans (checked_stat (t.chkMemSz arg).1 fun st => { st with set_cmds := st.set_cmds + 1 })
      apply limited_storeOp (by rw [hashes_stat]; exact hchk) harg
      . rw [hcs.parms, hcs.m_parms]
        exact hlen
      . intro hgrow
        rw [hcs.growOpt, hcs.m_parms]
        exact (hfit' hgrow).checked hcs

def KeyFits (s : McCall) (opt : LsMcUpdOpt) (key : List UInt8) (len : Nat) : Prop :=
  ((s.setKey key).setSlice key).OptFits opt key len

def textLine (s : McCall) : Option (LsMcCmdFunc × McInput) :=
  if s.mc.m_mcparms.m_usesasl && !s.mc.m_mcparms.m_anonymous then none
  else (memchr s.conn.m_bufIncoming LF 0 s.conn.m_bufIncoming.length).bind fun endp =>
    let buf := cutLine s.conn.m_bufIncoming endp
    let t := advToken buf 0 (endp - 1)
    if t.2.len = 0 then none
    else (getCmdFunction (tokBytes buf t.2)).map fun p =>
      (p, { buf := buf, pStr := t.1, pStrEnd := endp - 1, pNxt := endp + 1 })

structure TextFits (s : McCall) (p : LsMcCmdFunc) (i : McInput) : Prop where
  update : p.func = .doCmdUpdate → p.arg = MC_BINCMD_APPEND ∨ p.arg = MC_BINCMD_PREPEND →
    s.KeyFits (s.growOpt p.arg (updateArgs i p.arg).cas) (i.tok (updateArgs i p.arg).key)
      (updateArgs i p.arg).length.toNat
  arithmetic : p.func = .doCmdArithmetic → ∀ delta, myStrtoull (i.str (i.adv (i.adv i.pStr).1).2) = some delta →
    s.KeyFits (s.arithOpt p.arg delta) (i.tok (i.adv i.pStr).2) (s.parmAdjLen 0)

section Text

variable (h : s.hashes.Limited) (i : McInput)
include h

theorem limited_getKey (arg : Nat) (key : List UInt8) : (getKey arg s key).hashes.Limited := by
  unfold getKey
  dsimp only
  split
  . simpa using h
  . split
    . simpa using h
    . split
      . rw [hashes_stat]
        exact limited_adds (s := (s.setKey key).setSlice key) h (LsShmHash.adds_eraseIteratorHelper _ _)
      . simpa using h

theorem limited_doCmdGet (arg : Nat) : (s.doCmdGet i arg).1.hashes.Limited := by
  have hkeys : ∀ (keys : List (List UInt8)) (t : McCall), t.hashes.Limited →
      (keys.foldl (getKey arg) t).hashes.Limited := by
    intro keys
    induction keys with
    | nil => exact fun t ht => ht
    | cons key keys ih => exact fun t ht => ih _ (limited_getKey ht arg key)
  unfold doCmdGet
  dsimp only
  split
  . simpa using h
  . split
    . simpa using h
    . rw [hashes_sendResult]
      exact hkeys _ _ h

theorem limited_doCmdUpdate {p : LsMcCmdFunc} (hp : StoreArg p.arg) (hfunc : p.func = .doCmdUpdate)
    (hfit : s.TextFits p i) : (s.doCmdUpdate i p.arg).1.hashes.Limited := by
  have hupdate := hfit.update hfunc
  unfold doCmdUpdate canProcessNow
  dsimp only
  split
  . split
    . simpa using h
    . rename_i hq
      exact absurd rfl hq
  . rw [if_neg (by simp)]
    split
    . simpa using h
    . split
      . exact h
      . split
        . exact h
        . split
          . unfold fwdUpdate
            dsimp only
            split
            . simpa using h
            . simpa using h
          . exact limited_storeCmd (s := (((s.setKey (i.tok (updateArgs i p.arg).key)).setSlice
              (i.tok (updateArgs i p.arg).key)).setNoreply (updateArgs i p.arg).noreply)) h i hp _ _ _ _ hupdate

theorem limited_arithmeticCmd {arg delta : Nat}
    (hfit : s.OptFits (s.arithOpt arg delta) s.mc.m_parms.key (s.parmAdjLen 0))
    : (s.arithmeticCmd arg delta).hashes.Limited := by
  have hupd := limited_doHashUpdate (s := s.setVal (s.parmAdjLen 0)) h hfit
  unfold arithOpt growOpt at hupd
  dsimp only at hupd
  unfold arithmeticCmd
  dsimp only
  generalize hflags : (if (s.setVal (s.parmAdjLen 0)).mc.m_mcparms.m_usecas then arg ||| LSMC_USECAS
    else arg) = flags
  have hflags' : (if s.mc.m_mcparms.m_usecas then arg ||| LSMC_USECAS else arg) = flags := hflags
  rw [hflags'] at hupd
  have hr : ∀ r : McCall × LsMcUpdOpt × Nat, r = (s.setVal (s.parmAdjLen 0)).doHashUpdate
      { (s.setVal (s.parmAdjLen 0)).mc.env.updOpt with m_iFlags := flags, m_value := delta, m_cas := 0 } →
      r.1.hashes.Limited := by
    rintro r rfl
    exact hupd
  generalize (s.setVal (s.parmAdjLen 0)).doHashUpdate _ = r at hr ⊢
  have hr := hr r rfl
  split
  . rw [hashes_respond]
    apply limited_doDataUpdate
    simpa using hr
  . split
    . simpa using hr
    . split <;> simpa using hr

theorem limited_doCmdArithmetic {p : LsMcCmdFunc} (hfunc : p.func = .doCmdArithmetic)
    (hfit : s.TextFits p i) : (s.doCmdArithmetic i p.arg).1.hashes.Limited := by
  have harith := hfit.arithmetic hfunc
  unfold doCmdArithmetic canProcessNow
  dsimp only
  split
  . split
    . simpa using h
    . rename_i hq
      exact absurd rfl hq
  . rw [if_neg (by simp)]
    split
    . simpa using h
    . split
      . simpa using h
      . rename_i delta hdelta
        split
        . simpa using h
        . rename_i hfwd
          rw [fwdToRemote_not hfwd]
          generalize i.tok (i.adv i.pStr).2 = key at harith ⊢
          generalize i.isNoreply _ = noreply
          have hfit := harith delta hdelta
          exact limited_arithmeticCmd (s := ((s.setKey key).setSlice key).setNoreply noreply) h hfit

theorem limited_deleteElem : s.deleteElem.hashes.Limited := by
  unfold deleteElem
  dsimp only
  generalize hr : (if s.getHash.find2 s.mc.m_hkey s.mc.m_parms.key = 0 then _ else _ : LsShmHash × Bool) = r
  have hadds : LsShmHash.Adds (fun e => s.mc.m_mcparms.Admits e.valLen) s.getHash r.1 := by
    rw [← hr]
    split
    . exact .refl _
    . split
      . exact .refl _
      . exact LsShmHash.adds_eraseIteratorHelper _ _
  have hset := limited_adds h hadds
  split
  . simpa using hset
  . simpa using hset

theorem limited_deleteCmd : (s.deleteCmd i).1.hashes.Limited := by
  unfold deleteCmd
  dsimp only
  split
  . simpa using h
  . rename_i hfwd
    rw [fwdToRemote_not hfwd]
    exact limited_deleteElem h

theorem limited_doCmdDelete : (s.doCmdDelete i).1.hashes.Limited := by
  unfold doCmdDelete
  dsimp only
  generalize i.tok (i.adv i.pStr).2 = key
  have hnow : ((s.setKey key).canProcessNow key).1.hashes.Limited := by simpa using h
  split
  . simpa using h
  . split
    . exact hnow
    . split
      . exact limited_deleteCmd hnow i
      . split
        . simpa using h
        . rename_i noreply err _ _
          exact limited_deleteCmd (s := ((s.setKey key).canProcessNow key).1.setNoreply noreply) hnow i

theorem limited_touchElem (exptime : Nat) : (s.touchElem exptime).hashes.Limited := by
  unfold touchElem
  dsimp only
  split
  . simpa using h
  . split
    . simpa using h
    . rename_i e he
      split
      . rw [hashes_respond, hashes_stat]
        exact limited_adds h (LsShmHash.adds_eraseIteratorHelper _ _)
      . rw [hashes_respond, hashes_notifyChange, hashes_stat]
        apply limited_adds h
        refine LsShmHash.Adds.trans (LsShmHash.adds_setElem _ _ ?_) (LsShmHash.quiet_tidReplaceTid _ _ _).adds
        exact h _ _ _ e (LsShmHash.elem_of_offset2iterator he)

theorem limited_doCmdTouch : (s.doCmdTouch i).1.hashes.Limited := by
  unfold doCmdTouch
  dsimp only
  generalize i.tok (i.adv i.pStr).2 = key
  have hnow : ((s.setKey key).canProcessNow key).1.hashes.Limited := by simpa using h
  split
  . simpa using h
  . split
    . exact hnow
    . split
      . simpa using h
      . split
        . simpa using h
        . rename_i hfwd
          rw [fwdToRemote_not hfwd]
          generalize i.isNoreply _ = noreply
          exact limited_touchElem (s := ((s.setKey key).canProcessNow key).1.setNoreply noreply) hnow _

omit h in
theorem limited_foreachSlice {f : McCall → Nat → McCall × Bool}
    (hf : ∀ (s : McCall) (j : Nat), s.hashes.Limited → (f s j).1.hashes.Limited) (s : McCall)
    (h : s.hashes.Limited) : (foreachSlice f s).1.hashes.Limited := by
  have hgo : ∀ (n j : Nat) (s : McCall), s.hashes.Limited →
      (foreachSlice.go f n j s).1.hashes.Limited := by
    intro n
    induction n with
    | zero => exact fun j s hs => hs
    | succ n ih =>
      intro j s hs
      unfold foreachSlice.go
      dsimp only
      split
      . exact ih (j + 1) _ (hf s j hs)
      . exact hf s j hs
  exact hgo _ 0 s h

theorem limited_resetStatAt (j : Nat) : (resetStatAt s j).1.hashes.Limited := by
  unfold resetStatAt
  split
  . exact h
  . simpa using h

theorem limited_resetStats : s.resetStats.hashes.Limited := by
  unfold resetStats
  split
  . exact limited_foreachSlice (fun s j hs => limited_resetStatAt hs j) s h
  . exact limited_resetStatAt h _

theorem limited_doCmdStats : (s.doCmdStats i).1.hashes.Limited := by
  have hlines : ∀ (lines : List (List UInt8)) (t : McCall), t.hashes.Limited →
      (lines.foldl sendResult t).hashes.Limited := by
    intro lines
    induction lines with
    | nil => exact fun t ht => ht
    | cons line lines ih => exact fun t ht => ih _ (by simpa using ht)
  unfold doCmdStats
  split
  . simpa using h
  . split
    . split
      . rw [hashes_respond]
        exact limited_resetStats h
      . simpa using h
    . exact hlines _ s h

theorem limited_multiFlushFunc (pThis : Bool) (j : Nat) : (multiFlushFunc pThis s j).1.hashes.Limited := by
  unfold multiFlushFunc
  dsimp only
  split
  . have hclear : (s.setHashAt j none ((s.sliceAt j).m_hashByUser none).clear).hashes.Limited :=
      limited_setHashAt h (LsShmHash.LimitedBy.adds (h _ _) (LsShmHash.adds_clear _))
    split <;> split <;> simpa using hclear
  . split
    . simpa using h
    . split
      . exact h
      . exact limited_setSliceAt h rfl

theorem limited_flushOne : s.flushOne.hashes.Limited := by
  unfold flushOne
  simpa using limited_adds h (LsShmHash.adds_clear _)

theorem limited_flushCmd : (s.flushCmd i).1.hashes.Limited := by
  have hslices := limited_foreachSlice (f := multiFlushFunc true)
    (fun s j hs => limited_multiFlushFunc hs true j) s h
  unfold flushCmd
  dsimp only
  split
  . split
    . simpa using hslices
    . simpa using hslices
  . generalize (if s.mc.m_bConfigMultiUser then s.conn.m_pSlice else 0) = sl
    split
    . simpa using h
    . have hq : (if !s.useMulti then s.fwdToRemote sl i.pNxt else (s, false)).1.hashes.Limited := by
        split
        . simpa using h
        . exact h
      generalize (if !s.useMulti then s.fwdToRemote sl i.pNxt else (s, false)) = q at hq ⊢
      split
      . exact hq
      . rw [hashes_respond]
        exact limited_flushOne hq

theorem limited_doCmdFlush : (s.doCmdFlush i).1.hashes.Limited := by
  unfold doCmdFlush
  split
  . simpa using h
  . rename_i noreply pStr _
    cases noreply with
    | none =>
      dsimp only
      split
      . simpa using h
      . exact limited_flushCmd h i
    | some n =>
      dsimp only
      split
      . simpa using h
      . exact limited_flushCmd (s := s.setNoreply n) h i

theorem limited_doCmdVerbosity : (s.doCmdVerbosity i).1.hashes.Limited := by
  unfold doCmdVerbosity
  dsimp only
  split
  . simpa using h
  . split
    . simpa using h
    . split <;> simpa using h

theorem limited_doCmdClear : (s.doCmdClear i).1.hashes.Limited := by
  unfold doCmdClear
  dsimp only
  split
  . exact h
  . split
    . exact h
    . unfold clearSlice
      split
      . exact h
      . split
        . simpa using h
        . exact limited_multiFlushFunc h false _

theorem limited_slave {j : Nat} {user : Option (List UInt8)} (hash : LsShmHash) (b : Bool)
    (hhash : hash.LimitedBy s.mc.m_mcparms)
    : (s.setHashAt j user { hash with slave := b }).hashes.Limited :=
  limited_setHashAt h hhash

theorem limited_connectSlice (which : Nat) (addr : List UInt8)
    : (s.connectSlice which addr).1.hashes.Limited := by
  unfold connectSlice
  split
  . exact h
  . rename_i text ok _
    dsimp only
    have hhdr : (s.setHdrAt which fun h => { h with x_dstaddr := text }).hashes.Limited := by simpa using h
    generalize (s.setHdrAt which fun h => { h with x_dstaddr := text }) = t at hhdr ⊢
    have hslice : ∀ remote, (t.setSliceAt which { t.sliceAt which with remote := remote }).hashes.Limited := by
      intro remote
      exact limited_setSliceAt hhdr rfl
    exact limited_slave (hslice _) _ true (hhdr _ _)

theorem limited_setSliceDst (which : Int) (pAddr : Option (List UInt8))
    : (s.setSliceDst which pAddr).1.hashes.Limited := by
  unfold setSliceDst
  split
  . exact h
  . split
    . simpa using h
    . dsimp only
      split
      . simpa using h
      . have hclose : ∀ (c : Prop) [Decidable c] (remote : LsMcRemote) (hdr : LsMcHdr),
            (if c then s.setSliceAt which.toNat { s.sliceAt which.toNat with remote := remote, hdr := hdr }
              else s).hashes = s.hashes := by
          intro c _ remote hdr
          split
          . exact hashes_setSliceAt s rfl
          . rfl
        generalize hs₁ : (if (s.sliceAt which.toNat).hdr.x_dstaddr ≠ [] then _ else s) = s₁
        have hs₁h : s₁.hashes = s.hashes := by
          rw [← hs₁]
          exact hclose _ _ _
        have hset : (s₁.setHashAt which.toNat s₁.conn.m_pUser
            { (s.sliceAt which.toNat).m_hashByUser s₁.conn.m_pUser with slave := false }).hashes.Limited := by
          apply limited_slave
          . rw [hs₁h]
            exact h
          . have hparms : s₁.mc.m_mcparms = s.mc.m_mcparms := congrArg HashView.parms hs₁h
            rw [hparms]
            exact h _ _
        split
        . exact hset
        . exact limited_connectSlice hset _ _

theorem limited_doCmdTest2 : (s.doCmdTest2 i).1.hashes.Limited := by
  unfold doCmdTest2
  dsimp only
  split
  . simpa using h
  . split
    . simpa using h
    . rename_i which _
      generalize (if (i.adv (i.adv i.pStr).1).2.len ≤ 0 then none else _) = addr
      have hdst := limited_setSliceDst h (toInt32 which) addr
      split <;> simpa using hdst

theorem limited_replBatches {indx : Nat} {r : McCall × List (Mem × Nat)}
    (hr : s.replBatches indx = some r) : r.1.hashes.Limited := by
  unfold replBatches at hr
  split at hr
  . cases hr
  . cases hr
    exact limited_setHashAt h (LsShmHash.LimitedBy.adds (h _ _) (LsShmHash.adds_tidBatches _ _ _ _))

theorem limited_doCmdTest1 : (s.doCmdTest1 i).1.hashes.Limited := by
  unfold doCmdTest1
  dsimp only
  split
  . simpa using h
  . rename_i r hr
    exact limited_replBatches (by simpa using h) hr

theorem limited_doCmdPrintTids : (s.doCmdPrintTids i).1.hashes.Limited := by
  unfold doCmdPrintTids
  split
  . simpa using h
  . rename_i r hr
    have hbatches := limited_replBatches h hr
    split
    . simpa using hbatches
    . simpa using hbatches
    . split <;> simpa using hbatches

theorem limited_runCmd {p : LsMcCmdFunc} (hp : p ∈ s_LsMcCmdFuncs) (hfit : s.TextFits p i)
    : (s.runCmd i p).1.hashes.Limited := by
  unfold runCmd
  cases hfunc : p.func with
  | doCmdTest1 => exact limited_doCmdTest1 h i
  | doCmdTest2 => exact limited_doCmdTest2 h i
  | doCmdPrintTids => exact limited_doCmdPrintTids h i
  | doCmdGet => exact limited_doCmdGet h i p.arg
  | doCmdUpdate => exact limited_doCmdUpdate h i (storeArg_of_func hp hfunc) hfunc hfit
  | doCmdArithmetic => exact limited_doCmdArithmetic h i hfunc hfit
  | doCmdDelete => exact limited_doCmdDelete h i
  | doCmdTouch => exact limited_doCmdTouch h i
  | doCmdStats => exact limited_doCmdStats h i
  | doCmdFlush => exact limited_doCmdFlush h i
  | doCmdVersion =>
    dsimp only
    unfold doCmdVersion
    split <;> simpa using h
  | doCmdQuit =>
    dsimp only
    unfold doCmdQuit
    split <;> simpa using h
  | notImplemented =>
    dsimp only
    unfold notImplemented
    simpa using h
  | doCmdVerbosity => exact limited_doCmdVerbosity h i
  | doCmdClear => exact limited_doCmdClear h i

end Text

theorem hashes_finish (endp : Nat) (r : McCall × Int) : (finish endp r).1.hashes = r.1.hashes := by
  unfold finish
  split
  . rfl
  . split <;> rfl

theorem limited_processLine (h : s.hashes.Limited) (endp : Nat)
    (hfit : ∀ p i, (if (advToken (cutLine s.conn.m_bufIncoming endp) 0 (endp - 1)).2.len = 0 then none
      else (getCmdFunction (tokBytes (cutLine s.conn.m_bufIncoming endp)
        (advToken (cutLine s.conn.m_bufIncoming endp) 0 (endp - 1)).2)).map fun p => (p,
          (⟨cutLine s.conn.m_bufIncoming endp, (advToken (cutLine s.conn.m_bufIncoming endp) 0 (endp - 1)).1,
            endp - 1, endp + 1⟩ : McInput))) = some (p, i) → s.TextFits p i)
    : ((s.setBuf (cutLine s.conn.m_bufIncoming endp)).processLine endp).1.hashes.Limited := by
  unfold processLine
  dsimp only [setBuf, setStrt]
  split
  . exact h
  . rename_i htok
    rw [if_neg htok] at hfit
    split
    . rw [hashes_respond]
      exact h
    . rename_i p hp
      split
      . exact h
      . rw [hp] at hfit
        have hfit := hfit p _ rfl
        rw [hashes_finish]
        generalize (⟨cutLine s.conn.m_bufIncoming endp,
          (advToken (cutLine s.conn.m_bufIncoming endp) 0 (endp - 1)).1, endp - 1, endp + 1⟩ : McInput) = i
          at hfit ⊢
        exact limited_runCmd (s := ((s.setBuf (cutLine s.conn.m_bufIncoming endp)).setStrt
          (cutLine s.conn.m_bufIncoming endp)).setSlice i.args) h i (getCmdFunction_some hp).2
          ⟨hfit.update, hfit.arithmetic⟩

theorem limited_processCmd (h : s.hashes.Limited)
    (hfit : ∀ p i, s.textLine = some (p, i) → s.TextFits p i) : s.processCmd.1.hashes.Limited := by
  unfold textLine at hfit
  unfold processCmd
  dsimp only
  split
  . simpa using h
  . rename_i hsasl
    rw [if_neg hsasl] at hfit
    split
    . exact h
    . rename_i endp hline
      rw [hline] at hfit
      exact limited_processLine h endp hfit

def foundElem (s : McCall) (key : List UInt8) : Option LsShmHElem :=
  let hash := ((s.setKey key).setSlice key).getHash
  let iterOff := hash.find2 (s.mc.m_pHashMulti.m_fnHashKey key) key
  if iterOff = 0 then none else (hash.offset2iterator iterOff).filter fun e => !isExpired hash e

/--
The length of a value as `setupBinCmd` computes it, in 32 bit.
-/
def binLen (hdr : McBinCmdHdr) : Nat :=
  (hdr.totbody + 2 ^ 33 - hdr.keylen - hdr.extralen) % 2 ^ 32

/--
A binary request that does not make a value longer than the limit. A body that is all key makes the
handler use the length that an earlier command has left behind.
-/
structure BinFits (s : McCall) (hdr : McBinCmdHdr) : Prop where
  store : binCmd hdr = MC_BINCMD_SET ∨ binCmd hdr = MC_BINCMD_ADD ∨ binCmd hdr = MC_BINCMD_REPLACE →
    hdr.totbody ≠ hdr.keylen → hdr.extralen = 8 → ¬ s.InBand (binLen hdr)
  grow : binCmd hdr = MC_BINCMD_APPEND ∨ binCmd hdr = MC_BINCMD_PREPEND → hdr.totbody ≠ hdr.keylen →
    s.KeyFits (s.casOpt (binCmd hdr) hdr.cas) (s.reqKey hdr) (binLen hdr)
  arithmetic : binCmd hdr = MC_BINCMD_INCREMENT ∨ binCmd hdr = MC_BINCMD_DECREMENT →
    hdr.totbody ≠ hdr.keylen → hdr.extralen = 20 →
      s.KeyFits { s.casOpt (binCmd hdr) hdr.cas with
        m_value := readBe s.conn.m_bufIncoming sizeofBinHdr 8 } (s.reqKey hdr) (s.parmAdjLen 0)
  init : binCmd hdr = MC_BINCMD_INCREMENT ∨ binCmd hdr = MC_BINCMD_DECREMENT →
    s.foundElem (s.reqKey hdr) = none ∨ s.mc.env.updOpt.m_iRetcode = .NOTFOUND →
      readBe s.conn.m_bufIncoming (sizeofBinHdr + 16) 4 ≠ 0xffffffff →
        s.mc.m_mcparms.Admits
          (s.parmAdjLen (decimal (readBe s.conn.m_bufIncoming (sizeofBinHdr + 8) 8)).length)
  leftInsert : hdr.totbody = hdr.keylen → binCmd hdr = MC_BINCMD_SET ∨ binCmd hdr = MC_BINCMD_ADD →
    s.mc.m_mcparms.Admits s.mc.m_parms.val.len
  leftUpdate : hdr.totbody = hdr.keylen → binCmd hdr = MC_BINCMD_REPLACE ∨ binCmd hdr = MC_BINCMD_APPEND ∨
      binCmd hdr = MC_BINCMD_PREPEND ∨ binCmd hdr = MC_BINCMD_INCREMENT ∨
      binCmd hdr = MC_BINCMD_DECREMENT →
    s.KeyFits s.mc.env.updOpt (s.reqKey hdr) s.mc.m_parms.val.len

section Binary

variable (h : s.hashes.Limited) (hdr : McBinCmdHdr)
include h

theorem limited_doBinGet (cmd : Nat) (doTouch : Bool) : (s.doBinGet hdr cmd doTouch).hashes.Limited := by
  unfold doBinGet
  dsimp only
  generalize (if cmd = MC_BINCMD_GATK ∨ cmd = MC_BINCMD_GETK then _ else 0) = keyLen
  generalize s.getHash.find2 s.mc.m_hkey s.mc.m_parms.key = off
  split
  . simpa using h
  . split
    . simpa using h
    . rename_i e he
      split
      . rw [hashes_binGetMiss, hashes_binGetStat, hashes_notifyChange]
        exact limited_adds (s := s.setIterOff off) h (LsShmHash.adds_eraseIteratorHelper _ _)
      . split
        . rw [hashes_binGetHit, hashes_binGetStat, hashes_notifyChange]
          apply limited_adds (s := s.setIterOff off) h
          refine LsShmHash.Adds.trans (LsShmHash.adds_setElem _ _ ?_) (LsShmHash.quiet_tidReplaceTid _ _ _).adds
          exact h _ _ _ e (LsShmHash.elem_of_offset2iterator he)
        . simpa using h

theorem limited_doBinDataUpdate (pBuf : List UInt8) : (s.doBinDataUpdate pBuf hdr).hashes.Limited := by
  have hupdate : ((s.setKey []).dataItemUpdate pBuf).hashes.Limited :=
    limited_dataItemUpdate (s := s.setKey []) h pBuf
  unfold doBinDataUpdate
  dsimp only
  split
  . simpa using hupdate
  . split
    . simpa using h
    . split
      . simpa using h
      . split <;> simpa using h

theorem limited_doBinDelete : (s.doBinDelete hdr).hashes.Limited := by
  unfold doBinDelete
  dsimp only
  generalize s.getHash.find2 s.mc.m_hkey s.mc.m_parms.key = off
  split
  . simpa using h
  . split
    . simpa using h
    . split
      . rw [hashes_binErrRespond, hashes_notifyChange, hashes_binDeleteStat]
        exact limited_adds (s := s.setIterOff off) h (LsShmHash.adds_eraseIteratorHelper _ _)
      . split
        . simpa using h
        . rw [hashes_binOkRespond, hashes_notifyChange, hashes_binDeleteStat]
          exact limited_adds (s := s.setIterOff off) h (LsShmHash.adds_eraseIteratorHelper _ _)

theorem limited_binStore (cmd pVal : Nat) (opt : LsMcUpdOpt)
    (hlen : cmd = MC_BINCMD_SET ∨ cmd = MC_BINCMD_ADD → s.mc.m_mcparms.Admits s.mc.m_parms.val.len)
    (hfit : cmd ≠ MC_BINCMD_SET → cmd ≠ MC_BINCMD_ADD → s.OptFits opt s.mc.m_parms.key s.mc.m_parms.val.len)
    : (s.binStore hdr cmd pVal opt).hashes.Limited := by
  unfold binStore
  dsimp only
  have hc := checked_stat s fun st => { st with set_cmds := st.set_cmds + 1 }
  have hs : (s.stat fun st => { st with set_cmds := st.set_cmds + 1 }).hashes.Limited := by
    rw [hashes_stat]
    exact h
  generalize (s.stat fun st => { st with set_cmds := st.set_cmds + 1 }) = t at hc hs ⊢
  have hlen' : cmd = MC_BINCMD_SET ∨ cmd = MC_BINCMD_ADD → t.mc.m_mcparms.Admits t.mc.m_parms.val.len := by
    rw [hc.parms, hc.m_parms]
    exact hlen
  split
  . rename_i hset
    exact limited_doBinDataUpdate (by simpa using limited_doSet hs (hlen' (Or.inl hset)) _) hdr _
  . rename_i hset
    split
    . rename_i hadd
      exact limited_doBinDataUpdate (by simpa using limited_doHashInsert hs _ (hlen' (Or.inr hadd))) hdr _
    . rename_i hadd
      have hupd := @limited_doHashUpdate t hs opt (by
        rw [hc.m_parms]
        exact (hfit hset hadd).checked hc)
      split
      . apply limited_doBinDataUpdate
        split <;> simpa using hupd
      . exact limited_doBinDataUpdate (by simpa using hupd) hdr _

theorem limited_binNumRespond (text newval : List UInt8) : (s.binNumRespond hdr text newval).hashes.Limited := by
  unfold binNumRespond
  rw [hashes_binRespond]
  exact limited_doBinDataUpdate (s := s.setRetcode .NONE) h hdr text

theorem limited_binArithInit (cmd : Nat)
    (hinit : readBe s.conn.m_bufIncoming (sizeofBinHdr + 16) 4 ≠ 0xffffffff →
      s.mc.m_mcparms.Admits
        (s.parmAdjLen (decimal (readBe s.conn.m_bufIncoming (sizeofBinHdr + 8) 8)).length))
    : (s.binArithInit hdr cmd).hashes.Limited := by
  unfold binArithInit
  dsimp only
  split
  . simpa using h
  . rename_i hexp
    generalize ht : (s.setItem ⟨(readBe s.conn.m_bufIncoming (sizeofBinHdr + 16) 4 : Nat), 0⟩).setVal _ = t
    have hlim : t.hashes.Limited := by
      rw [← ht]
      exact h
    have hlen : t.mc.m_mcparms.Admits t.mc.m_parms.val.len := by
      rw [← ht]
      exact hinit hexp
    have hins : (t.ofHash (t.getHash.doInsert (t.getHash.find2 t.mc.m_hkey t.mc.m_parms.key) t.mc.m_hkey
        t.mc.m_parms)).1.hashes.Limited := by
      refine limited_adds hlim (LsShmHash.adds_doInsert _ _ _ _ ?_)
      intro e he
      rw [he]
      exact hlen
    generalize t.ofHash _ = r at hins ⊢
    split
    . exact limited_binNumRespond (s := r.1.setIterOff r.2) hins hdr _ _
    . rw [hashes_binErrRespond, hashes_setIterOff]
      exact hins

omit h in
theorem iRetcode_updateElem {opt : LsMcUpdOpt} {off : Nat} {e : LsShmHElem}
    (hret : (s.updateElem opt off e).2.1.m_iRetcode = .NOTFOUND) : opt.m_iRetcode = .NOTFOUND := by
  revert hret
  unfold updateElem
  dsimp only
  split
  . exact nofun
  . split
    . split
      . exact nofun
      . exact id
    . split
      . split
        . exact id
        . split
          . exact nofun
          . exact id
      . split
        . exact nofun
        . exact id

omit h in
theorem parms_doHashUpdate (opt : LsMcUpdOpt) : (s.doHashUpdate opt).1.mc.m_mcparms = s.mc.m_mcparms := by
  have hupd : ∀ off e, (s.updateElem opt off e).1.mc.m_mcparms = s.mc.m_mcparms := by
    intro off e
    unfold updateElem
    dsimp only
    split
    . rfl
    . split
      . split <;> rfl
      . split
        . split
          . rfl
          . split <;> rfl
        . rfl
  unfold doHashUpdate
  dsimp only
  split
  . rfl
  . split
    . rfl
    . split
      . rfl
      . exact hupd _ _

omit h in
theorem foundElem_eq_none {opt : LsMcUpdOpt} (hkey : s.mc.m_hkey = s.mc.m_pHashMulti.m_fnHashKey s.mc.m_parms.key)
    (hplaced : ((s.setKey s.mc.m_parms.key).setSlice s.mc.m_parms.key).getHash = s.getHash)
    (hret : (s.doHashUpdate opt).2.1.m_iRetcode = .NOTFOUND) (hopt : opt.m_iRetcode ≠ .NOTFOUND)
    : s.foundElem s.mc.m_parms.key = none := by
  unfold foundElem
  dsimp only
  rw [hplaced, ← hkey]
  revert hret
  unfold doHashUpdate
  dsimp only
  split
  . exact fun _ => rfl
  . split
    . rename_i hnone
      intro _
      rw [hnone]
      rfl
    . rename_i e he
      rw [he]
      split
      . rename_i hexp
        intro _
        simp [hexp]
      . intro hret
        exact absurd (iRetcode_updateElem hret) hopt

theorem limited_doBinArithmetic (cmd : Nat) {opt : LsMcUpdOpt}
    (hfit : s.OptFits opt s.mc.m_parms.key s.mc.m_parms.val.len)
    (hinit : (s.doHashUpdate opt).2.1.m_iRetcode = .NOTFOUND →
      readBe s.conn.m_bufIncoming (sizeofBinHdr + 16) 4 ≠ 0xffffffff →
        s.mc.m_mcparms.Admits
          (s.parmAdjLen (decimal (readBe s.conn.m_bufIncoming (sizeofBinHdr + 8) 8)).length))
    : (s.doBinArithmetic hdr cmd opt).hashes.Limited := by
  have hupd := limited_doHashUpdate h hfit
  have hbuf := buf_doHashUpdate (s := s) opt
  have hparms := parms_doHashUpdate (s := s) opt
  unfold doBinArithmetic
  dsimp only
  generalize s.doHashUpdate opt = r at hupd hbuf hparms hinit ⊢
  split
  . exact limited_binNumRespond (by simpa using hupd) hdr _ _
  . split
    . rename_i hnot
      have hadj : ∀ n, (r.1.setIterOff r.2.2).parmAdjLen n = s.parmAdjLen n := by
        intro n
        show n + r.1.sizeofItem = n + s.sizeofItem
        unfold sizeofItem
        rw [hparms]
      apply limited_binArithInit (s := r.1.setIterOff r.2.2) hupd
      show readBe r.1.conn.m_bufIncoming _ 4 ≠ _ → r.1.mc.m_mcparms.Admits
        ((r.1.setIterOff r.2.2).parmAdjLen (decimal (readBe r.1.conn.m_bufIncoming _ 8)).length)
      rw [hadj, hbuf, hparms]
      exact hinit hnot
    . split
      . simpa using hupd
      . split <;> simpa using hupd

theorem limited_doBinFlush : (s.doBinFlush hdr).hashes.Limited := by
  have hslices := limited_foreachSlice (f := multiFlushFunc true)
    (fun s j hs => limited_multiFlushFunc hs true j) s h
  unfold doBinFlush
  split
  . simpa using h
  . split
    . dsimp only
      split
      . simpa using hslices
      . simpa using hslices
    . dsimp only
      generalize (if s.mc.m_bConfigMultiUser then s.conn.m_pSlice else 0) = sl
      split
      . simpa using h
      . have hq : (if !s.useMulti then s.fwdBinToRemote sl hdr else (s, false)).1.hashes.Limited := by
          split
          . simpa using h
          . exact h
        generalize (if !s.useMulti then s.fwdBinToRemote sl hdr else (s, false)) = q at hq ⊢
        split
        . exact hq
        . rw [hashes_binOkRespond]
          exact limited_flushOne hq

theorem limited_doBinStats : (s.doBinStats hdr).hashes.Limited := by
  have hitems : ∀ (items : List (String × List UInt8)) (t : McCall), t.hashes.Limited →
      (items.foldl (doBinStat1Send hdr) t).hashes.Limited := by
    intro items
    induction items with
    | nil => exact fun t ht => ht
    | cons item items ih =>
      intro t ht
      apply ih
      unfold doBinStat1Send
      simpa using ht
  unfold doBinStats
  split
  . simpa using h
  . split
    . rw [hashes_binOkRespond]
      exact limited_resetStats h
    . rw [hashes_binOkRespond]
      exact hitems _ s h

theorem limited_doBinSaslList : (s.doBinSaslList hdr).hashes.Limited := by
  unfold doBinSaslList
  split
  . simpa using h
  . have hrebuild : (if hdr.opaqueWord = REBUILD_OPAQUE then s.setHash s.getHash.rebuild
        else s).hashes.Limited := by
      split
      . exact limited_adds h (LsShmHash.quiet_rebuild _).adds
      . exact h
    dsimp only
    generalize (if hdr.opaqueWord = REBUILD_OPAQUE then s.setHash s.getHash.rebuild else s) = t
      at hrebuild ⊢
    split <;> simpa using hrebuild

theorem limited_doBinSaslAuth : (s.doBinSaslAuth hdr).hashes.Limited := by
  have hconn : ∀ (t : McCall) (c : MemcacheConn), t.hashes.Limited →
      ({ t with conn := c } : McCall).hashes.Limited := fun _ _ ht => ht
  unfold doBinSaslAuth
  dsimp only
  split
  . exact hconn _ _ (by simpa using h)
  . split
    . simpa using h
    . have hundef : (if hdr.totbody < hdr.keylen then s.setUndef else s).hashes.Limited := by
        split <;> simpa using h
      generalize (if hdr.totbody < hdr.keylen then s.setUndef else s) = t at hundef ⊢
      split
      . rename_i user _
        rw [hashes_authStat, hashes_binTextRespond]
        exact hconn _ _ hundef
      . split <;> simpa using hundef
      . simpa using hundef

end Binary

section Request

variable {hdr : McBinCmdHdr}

theorem limited_setupExtras (h : s.hashes.Limited) (cmd pReqX pVal : Nat)
    : (s.setupExtras hdr cmd pReqX pVal).1.hashes.Limited := by
  have hchk := limited_chkMemSz h cmd
  unfold setupExtras
  dsimp only
  split
  . split
    . exact h
    . split <;> exact hchk
  . split
    . split <;> exact h
    . split
      . split <;> exact h
      . split
        . split <;> exact hchk
        . split
          . split <;> exact h
          . exact h

structure SetupFits (u : McCall) (hdr : McBinCmdHdr) (opt : LsMcUpdOpt) : Prop where
  limited : u.hashes.Limited
  insert : binCmd hdr = MC_BINCMD_SET ∨ binCmd hdr = MC_BINCMD_ADD →
    u.mc.m_mcparms.Admits u.mc.m_parms.val.len
  update : binCmd hdr = MC_BINCMD_REPLACE ∨ binCmd hdr = MC_BINCMD_APPEND ∨
      binCmd hdr = MC_BINCMD_PREPEND ∨ binCmd hdr = MC_BINCMD_INCREMENT ∨
      binCmd hdr = MC_BINCMD_DECREMENT →
    u.OptFits opt u.mc.m_parms.key u.mc.m_parms.val.len

theorem Checked.casOpt {t : McCall} (h : s.Checked t) (cmd cas : Nat) : t.casOpt cmd cas = s.casOpt cmd cas := by
  unfold McCall.casOpt
  rw [h.env, h.parms]

theorem Checked.parmAdjLen {t : McCall} (h : s.Checked t) (n : Nat) : t.parmAdjLen n = s.parmAdjLen n := by
  unfold McCall.parmAdjLen McCall.sizeofItem
  rw [h.parms]

theorem setupExtras_fits {t : McCall} (h : t.hashes.Limited) {pReqX pVal : Nat} {pVal' : Nat} {opt : LsMcUpdOpt}
    (hband : binCmd hdr = MC_BINCMD_SET ∨ binCmd hdr = MC_BINCMD_ADD ∨ binCmd hdr = MC_BINCMD_REPLACE →
      hdr.extralen = 8 → ¬ t.InBand t.mc.m_parms.val.len)
    (hgrow : binCmd hdr = MC_BINCMD_APPEND ∨ binCmd hdr = MC_BINCMD_PREPEND →
      t.OptFits (t.casOpt (binCmd hdr) hdr.cas) t.mc.m_parms.key t.mc.m_parms.val.len)
    (harith : binCmd hdr = MC_BINCMD_INCREMENT ∨ binCmd hdr = MC_BINCMD_DECREMENT → hdr.extralen = 20 →
      t.OptFits { t.casOpt (binCmd hdr) hdr.cas with
        m_value := readBe t.conn.m_bufIncoming pReqX 8 } t.mc.m_parms.key (t.parmAdjLen 0))
    (hbody : (t.setupExtras hdr (binCmd hdr) pReqX pVal).2 = .body pVal' opt)
    : (t.setupExtras hdr (binCmd hdr) pReqX pVal).1.SetupFits hdr opt := by
  have hlim := @limited_setupExtras t hdr h (binCmd hdr) pReqX pVal
  have hchk := limited_chkMemSz h (binCmd hdr)
  revert hbody hlim
  unfold setupExtras
  dsimp only
  by_cases hstore : binCmd hdr = MC_BINCMD_REPLACE ∨ binCmd hdr = MC_BINCMD_ADD ∨ binCmd hdr = MC_BINCMD_SET
  . rw [if_pos hstore]
    split
    . exact nofun
    . rename_i hextra
      split
      . exact nofun
      . rename_i hsuccess
        intro hbody hlim
        obtain ⟨hlen, hc⟩ := checked_chkMemSz (not_not.mp hsuccess)
        have hadj : t.mc.m_mcparms.Admits (t.parmAdjLen t.mc.m_parms.val.len) := by
          by_contra hno
          refine hband ?_ (by omega) ⟨hlen, hno⟩
          rcases hstore with hcmd | hcmd | hcmd
          . exact Or.inr (Or.inr hcmd)
          . exact Or.inr (Or.inl hcmd)
          . exact Or.inl hcmd
        have hadj' : (t.chkMemSz (binCmd hdr)).1.mc.m_mcparms.Admits
            ((t.chkMemSz (binCmd hdr)).1.parmAdjLen (t.chkMemSz (binCmd hdr)).1.mc.m_parms.val.len) := by
          rw [hc.parmAdjLen, hc.parms, hc.m_parms]
          exact hadj
        refine ⟨hlim, fun _ => hadj', ?_⟩
        intro hcmd
        have hreplace : binCmd hdr = MC_BINCMD_REPLACE := by
          rcases hcmd with hcmd | hcmd | hcmd | hcmd | hcmd
          . exact hcmd
          all_goals
            rw [hcmd] at hstore
            exact absurd hstore (by decide)
        rw [if_pos hreplace] at hbody
        cases hbody
        apply optFits_of_replaces
        . exact Or.inl hreplace
        . exact hadj'
  . rw [if_neg hstore]
    have hset : ¬ (binCmd hdr = MC_BINCMD_SET ∨ binCmd hdr = MC_BINCMD_ADD) := fun hcmd =>
      hstore (hcmd.elim (fun hcmd => Or.inr (Or.inr hcmd)) fun hcmd => Or.inr (Or.inl hcmd))
    by_cases hupdate : binCmd hdr = MC_BINCMD_REPLACE ∨ binCmd hdr = MC_BINCMD_APPEND ∨
        binCmd hdr = MC_BINCMD_PREPEND ∨ binCmd hdr = MC_BINCMD_INCREMENT ∨
        binCmd hdr = MC_BINCMD_DECREMENT
    . have htouch : ¬ (binCmd hdr = MC_BINCMD_TOUCH ∨ binCmd hdr = MC_BINCMD_GAT ∨
          binCmd hdr = MC_BINCMD_GATK ∨ binCmd hdr = MC_BINCMD_FLUSH) := by
        rcases hupdate with hcmd | hcmd | hcmd | hcmd | hcmd <;> rw [hcmd] <;> decide
      rw [if_neg htouch]
      split
      . rename_i hcmd
        split
        . exact nofun
        . rename_i hextra
          intro hbody hlim
          cases hbody
          exact ⟨hlim, fun hs => absurd hs hset, fun _ => harith hcmd (by omega)⟩
      . rename_i hnarith
        split
        . rename_i hcmd
          split
          . exact nofun
          . rename_i hsuccess
            intro hbody hlim
            obtain ⟨-, hc⟩ := checked_chkMemSz (not_not.mp hsuccess)
            cases hbody
            refine ⟨hlim, fun hs => absurd hs hset, fun _ => ?_⟩
            have hfit := (hgrow hcmd).checked hc
            rw [← hc.casOpt, ← hc.m_parms] at hfit
            exact hfit
        . rename_i hngrow
          exfalso
          rcases hupdate with hcmd | hcmd | hcmd | hcmd | hcmd
          . exact hstore (Or.inl hcmd)
          . exact hngrow (Or.inl hcmd)
          . exact hngrow (Or.inr hcmd)
          . exact hnarith (Or.inl hcmd)
          . exact hnarith (Or.inr hcmd)
    . intro _ hlim
      exact ⟨hlim, fun hs => absurd hs hset, fun hu => absurd hu hupdate⟩

theorem limited_runBinCmd {u : McCall} {pVal : Nat} {opt : LsMcUpdOpt} (h : u.SetupFits hdr opt)
    (hinit : binCmd hdr = MC_BINCMD_INCREMENT ∨ binCmd hdr = MC_BINCMD_DECREMENT →
      (u.binStart.doHashUpdate opt).2.1.m_iRetcode = .NOTFOUND →
        readBe u.conn.m_bufIncoming (sizeofBinHdr + 16) 4 ≠ 0xffffffff →
          u.mc.m_mcparms.Admits
            (u.parmAdjLen (decimal (readBe u.conn.m_bufIncoming (sizeofBinHdr + 8) 8)).length))
    : (u.runBinCmd hdr (binCmd hdr) pVal opt).1.hashes.Limited := by
  have hstart : u.binStart.hashes.Limited := h.limited
  apply runBinCmd_cases (P := fun r => r.1.hashes.Limited)
  case htouch =>
    intro _
    exact limited_doBinGet hstart hdr _ _
  case hget =>
    intro _
    exact limited_doBinGet hstart hdr _ _
  case hstore =>
    intro hcmd
    apply limited_binStore hstart
    . exact h.insert
    . intro hset hadd
      apply h.update
      tauto
  case hdelete =>
    intro _
    exact limited_doBinDelete hstart hdr
  case harith =>
    intro hcmd
    apply limited_doBinArithmetic hstart
    . apply h.update
      tauto
    . exact hinit hcmd
  case hflush =>
    intro _
    exact limited_doBinFlush hstart hdr
  case hstats =>
    intro _
    exact limited_doBinStats hstart hdr
  case hlist =>
    intro _ _
    exact limited_doBinSaslList hstart hdr
  case hauth =>
    intro _
    exact limited_doBinSaslAuth hstart hdr
  case hversion =>
    intro _
    unfold doBinVersion
    simpa using hstart
  all_goals
    intros
    simpa using hstart

theorem localSetup_value (hkey : hdr.totbody ≠ hdr.keylen)
    : s.localSetup hdr = ((s.placed hdr).setVal (binLen hdr)).swapCas.setupExtras hdr (binCmd hdr) sizeofBinHdr
      (sizeofBinHdr + hdr.extralen + hdr.keylen) := by
  unfold localSetup
  exact if_neg hkey

theorem localSetup_key (hkey : hdr.totbody = hdr.keylen)
    : s.localSetup hdr = ((s.placed hdr).swapCas, .body sizeofBinHdr s.mc.env.updOpt) := by
  unfold localSetup
  exact if_pos hkey

theorem placedExtras_fits (h : s.hashes.Limited) (h24 : sizeofBinHdr ≤ s.conn.m_bufIncoming.length)
    {pVal : Nat} {opt : LsMcUpdOpt} (len : Nat)
    (hstore : binCmd hdr = MC_BINCMD_SET ∨ binCmd hdr = MC_BINCMD_ADD ∨ binCmd hdr = MC_BINCMD_REPLACE →
      hdr.extralen = 8 → ¬ s.InBand len)
    (hgrow : binCmd hdr = MC_BINCMD_APPEND ∨ binCmd hdr = MC_BINCMD_PREPEND →
      s.KeyFits (s.casOpt (binCmd hdr) hdr.cas) (s.reqKey hdr) len)
    (harith : binCmd hdr = MC_BINCMD_INCREMENT ∨ binCmd hdr = MC_BINCMD_DECREMENT → hdr.extralen = 20 →
      s.KeyFits { s.casOpt (binCmd hdr) hdr.cas with
        m_value := readBe s.conn.m_bufIncoming sizeofBinHdr 8 } (s.reqKey hdr) (s.parmAdjLen 0))
    (hbody : (((s.placed hdr).setVal len).swapCas.setupExtras hdr (binCmd hdr) sizeofBinHdr
      (sizeofBinHdr + hdr.extralen + hdr.keylen)).2 = .body pVal opt)
    : (((s.placed hdr).setVal len).swapCas.setupExtras hdr (binCmd hdr) sizeofBinHdr
      (sizeofBinHdr + hdr.extralen + hdr.keylen)).1.SetupFits hdr opt := by
  have hdrop := drop_swapCas (s := (s.placed hdr).setVal len) h24
  have hvalue : readBe ((s.placed hdr).setVal len).swapCas.conn.m_bufIncoming sizeofBinHdr 8 =
      readBe s.conn.m_bufIncoming sizeofBinHdr 8 := readBe_congr hdrop 8 (Nat.le_refl _)
  apply setupExtras_fits _ hstore hgrow _ hbody
  . exact h
  . intro hcmd hextra
    rw [hvalue]
    exact harith hcmd hextra

theorem localSetup_fits (h : s.hashes.Limited) (hfit : s.BinFits hdr) {pVal : Nat} {opt : LsMcUpdOpt}
    (h24 : sizeofBinHdr ≤ s.conn.m_bufIncoming.length) (hbody : (s.localSetup hdr).2 = .body pVal opt)
    : (s.localSetup hdr).1.SetupFits hdr opt := by
  by_cases hkey : hdr.totbody = hdr.keylen
  . rw [localSetup_key hkey] at hbody ⊢
    cases hbody
    exact ⟨h, hfit.leftInsert hkey, hfit.leftUpdate hkey⟩
  . rw [localSetup_value hkey] at hbody ⊢
    refine placedExtras_fits h h24 _ ?_ ?_ ?_ hbody
    . intro hcmd hextra
      exact hfit.store hcmd hkey hextra
    . intro hcmd
      exact hfit.grow hcmd hkey
    . intro hcmd hextra
      exact hfit.arithmetic hcmd hkey hextra

theorem notFound_init (hfit : s.BinFits hdr) {u : McCall} {opt : LsMcUpdOpt}
    (hcmd : binCmd hdr = MC_BINCMD_INCREMENT ∨ binCmd hdr = MC_BINCMD_DECREMENT)
    (hopt : opt.m_iRetcode = s.mc.env.updOpt.m_iRetcode)
    (hkey : u.mc.m_hkey = u.mc.m_pHashMulti.m_fnHashKey u.mc.m_parms.key)
    (hplaced : ((u.setKey u.mc.m_parms.key).setSlice u.mc.m_parms.key).getHash = u.getHash)
    (hfound : u.foundElem u.mc.m_parms.key = s.foundElem (s.reqKey hdr))
    (hmc : u.mc.m_mcparms = s.mc.m_mcparms)
    (hbuf : u.conn.m_bufIncoming.drop sizeofBinHdr = s.conn.m_bufIncoming.drop sizeofBinHdr)
    (hret : (u.doHashUpdate opt).2.1.m_iRetcode = .NOTFOUND)
    (hexp : readBe u.conn.m_bufIncoming (sizeofBinHdr + 16) 4 ≠ 0xffffffff)
    : u.mc.m_mcparms.Admits
      (u.parmAdjLen (decimal (readBe u.conn.m_bufIncoming (sizeofBinHdr + 8) 8)).length) := by
  have hadj : ∀ n, u.parmAdjLen n = s.parmAdjLen n := by
    intro n
    unfold parmAdjLen sizeofItem
    rw [hmc]
  rw [readBe_congr hbuf 4 (by omega)] at hexp
  rw [readBe_congr hbuf 8 (by omega), hadj, hmc]
  refine hfit.init hcmd ?_ hexp
  by_cases hnone : s.mc.env.updOpt.m_iRetcode = .NOTFOUND
  . exact Or.inr hnone
  . rw [← hopt] at hnone
    exact Or.inl (hfound ▸ foundElem_eq_none hkey hplaced hret hnone)

theorem placedExtras_arith (len : Nat)
    (hcmd : binCmd hdr = MC_BINCMD_INCREMENT ∨ binCmd hdr = MC_BINCMD_DECREMENT) (pVal : Nat)
    : ((s.placed hdr).setVal len).swapCas.setupExtras hdr (binCmd hdr) sizeofBinHdr pVal =
      if hdr.extralen ≠ 20 then (((s.placed hdr).setVal len).swapCas, .invalid)
      else
        (((s.placed hdr).setVal len).swapCas.setVal (s.parmAdjLen 0),
          .body pVal { s.casOpt (binCmd hdr) hdr.cas with
            m_value := readBe ((s.placed hdr).setVal len).swapCas.conn.m_bufIncoming sizeofBinHdr 8 }) := by
  have hstore : ¬ (binCmd hdr = MC_BINCMD_REPLACE ∨ binCmd hdr = MC_BINCMD_ADD ∨
      binCmd hdr = MC_BINCMD_SET) := by
    rcases hcmd with hcmd | hcmd <;> rw [hcmd] <;> decide
  have htouch : ¬ (binCmd hdr = MC_BINCMD_TOUCH ∨ binCmd hdr = MC_BINCMD_GAT ∨
      binCmd hdr = MC_BINCMD_GATK ∨ binCmd hdr = MC_BINCMD_FLUSH) := by
    rcases hcmd with hcmd | hcmd <;> rw [hcmd] <;> decide
  unfold setupExtras
  dsimp only
  rw [if_neg hstore, if_neg htouch, if_pos hcmd]
  rfl

theorem localSetup_init (hfit : s.BinFits hdr) (h24 : sizeofBinHdr ≤ s.conn.m_bufIncoming.length)
    {u : McCall} {pVal : Nat} {opt : LsMcUpdOpt}
    (hcmd : binCmd hdr = MC_BINCMD_INCREMENT ∨ binCmd hdr = MC_BINCMD_DECREMENT)
    (hbody : s.localSetup hdr = (u, .body pVal opt))
    (hret : (u.binStart.doHashUpdate opt).2.1.m_iRetcode = .NOTFOUND)
    (hexp : readBe u.conn.m_bufIncoming (sizeofBinHdr + 16) 4 ≠ 0xffffffff)
    : u.mc.m_mcparms.Admits
      (u.parmAdjLen (decimal (readBe u.conn.m_bufIncoming (sizeofBinHdr + 8) 8)).length) := by
  by_cases hkey : hdr.totbody = hdr.keylen
  . rw [localSetup_key hkey] at hbody
    cases hbody
    exact notFound_init (u := (s.placed hdr).swapCas.binStart) hfit hcmd rfl rfl rfl rfl rfl
      (drop_swapCas (s := s.placed hdr) h24) hret hexp
  . rw [localSetup_value hkey] at hbody
    generalize binLen hdr = len at hbody
    rw [placedExtras_arith len hcmd] at hbody
    split at hbody
    . cases hbody
    . have hu := congrArg Prod.fst hbody
      have hopt := congrArg Prod.snd hbody
      dsimp only at hu hopt
      rw [← hu] at hret hexp ⊢
      apply notFound_init (u := (((s.placed hdr).setVal len).swapCas.setVal (s.parmAdjLen 0)).binStart) hfit hcmd _ rfl rfl rfl rfl
        (drop_swapCas (s := (s.placed hdr).setVal len) h24) hret hexp
      cases hopt
      rfl

theorem limited_binSetup (h : s.hashes.Limited) : (s.binSetup hdr).1.hashes.Limited := by
  have hplaced : (s.placed hdr).hashes.Limited := h
  rw [binSetup_eq]
  split
  . exact h
  . split
    . rw [hashes_putWaitQ]
      exact hplaced
    . split
      . rw [hashes_fwdBinToRemote]
        exact hplaced
      . unfold localSetup
        dsimp only
        split
        . exact hplaced
        . apply limited_setupExtras
          rw [hashes_swapCas, hashes_setVal]
          exact hplaced

structure LocalReq (s : McCall) (hdr : McBinCmdHdr) : Prop where
  sasl : s.saslRefuses hdr.opcode = false
  key : hdr.keylen ≤ KEY_MAXLEN
  here : hdr.toMaster = true → s.MasterBusy hdr = false ∧ s.IsSlave hdr = false

theorem localReq_of_body (hsasl : s.saslRefuses hdr.opcode = false) {pVal : Nat} {opt : LsMcUpdOpt}
    (hbody : (s.binSetup hdr).2 = .body pVal opt) : s.LocalReq hdr := by
  rw [binSetup_eq] at hbody
  split at hbody
  . cases hbody
  . rename_i hkey
    split at hbody
    . cases hbody
    . rename_i hbusy
      split at hbody
      . cases hbody
      . rename_i hslave
        refine ⟨hsasl, by omega, fun hm => ?_⟩
        simpa [hm] using And.intro hbusy hslave

theorem limited_processBinReq (h : s.hashes.Limited) (h24 : sizeofBinHdr ≤ s.conn.m_bufIncoming.length)
    (hfit : s.LocalReq hdr → s.BinFits hdr) (consumed : Int)
    : (s.processBinReq hdr consumed).1.hashes.Limited := by
  cases hsasl : s.saslRefuses hdr.opcode
  . have hset := @limited_binSetup s hdr h
    rw [processBinReq_eq hsasl]
    split
    . simpa using hset
    . exact hset
    . exact hset
    . simpa using hset
    . rename_i pVal opt hbody
      have hlocal := localReq_of_body hsasl hbody
      rw [binSetup_local hlocal.key hlocal.here] at hbody ⊢
      refine limited_runBinCmd (localSetup_fits h (hfit hlocal) h24 hbody) ?_
      intro hcmd hret hexp
      exact localSetup_init (hfit hlocal) h24 hcmd (Prod.ext rfl hbody) hret hexp
  . unfold processBinReq
    rw [if_pos hsasl]
    simpa using h

end Request

def SizeFits (s : McCall) : Prop :=
  match s.conn.m_protocol with
  | .MC_ASCII => ∀ p i, s.textLine = some (p, i) → s.TextFits p i
  | .MC_BINARY =>
    let hdr := McBinCmdHdr.ofBuf s.conn.m_bufIncoming
    s.Complete → s.LocalReq hdr → s.BinFits hdr
  | _ => True

theorem limited_dispatch (h : s.hashes.Limited) (hfit : s.SizeFits) : s.dispatch.1.hashes.Limited := by
  unfold SizeFits at hfit
  unfold dispatch
  split
  . rename_i hproto
    rw [hproto] at hfit
    exact limited_processCmd h hfit
  . rename_i hproto
    rw [hproto] at hfit
    by_cases hcomplete : s.Complete
    . rw [processBinCmd_complete hcomplete]
      exact limited_processBinReq h hcomplete.1 (hfit hcomplete) _
    . unfold processBinCmd
      dsimp only
      split
      . exact h
      . rename_i hlen
        split
        . exact h
        . rename_i hrecv
          exact absurd ⟨by omega, by omega⟩ hcomplete
  . exact h

end McCall

namespace LsMemcache

def cmdStep (mc : LsMemcache) (c : MemcacheConn) : LsMemcache :=
  (McCall.mk mc c).dispatch.1.mc

/--
No stored value is longer than the limit.
-/
def SizeLimited (mc : LsMemcache) : Prop :=
  ∀ i user off e, ((mc.m_pHashMulti.m_pSlices i).m_hashByUser user).table.elem off = some e →
    mc.m_mcparms.Admits e.valLen

theorem sizeLimited_exec {mc : LsMemcache} {cs : List MemcacheConn} (h : mc.SizeLimited)
    (hfit : Run.Meets cmdStep (fun mc c => (McCall.mk mc c).SizeFits) mc cs)
    : (Run.exec cmdStep mc cs).SizeLimited := by
  apply Run.exec_invariant SizeLimited _ h hfit
  intro mc c hmc hc
  exact McCall.limited_dispatch (s := McCall.mk mc c) hmc hc

end LsMemcache

namespace McCall

section Refusals

variable {s b : McCall} {i : McInput} {arg : Nat} {hdr : McBinCmdHdr}

theorem chkMemSz_e2big (s : McCall) (arg : Nat)
    : (s.chkMemSz arg).2 = .E2BIG ↔ ¬ s.mc.m_mcparms.Admits s.mc.m_parms.val.len := by
  rw [← chkItemSize_iff]
  unfold chkMemSz
  dsimp only
  split
  . rename_i hsize
    split <;> simpa using hsize
  . rename_i hsize
    have hadmits : s.chkItemSize s.mc.m_parms.val.len = true := by simpa using hsize
    split
    . simp [hadmits]
    . split
      . simp [hadmits]
      . split <;> simp [hadmits]

def textItem (s : McCall) (i : McInput) (arg : Nat) : McCall :=
  let a := updateArgs i arg
  let key := i.tok a.key
  let s := ((s.setKey key).setSlice key).setNoreply a.noreply
  let s := s.setItem { x_exptime := a.exptime, x_flags := a.flags }
  s.setVal (s.parmAdjLen a.length.toNat)

def TextRefuses (s : McCall) (i : McInput) (arg : Nat) : Prop :=
  ((s.textItem i arg).chkMemSz arg).2 = .E2BIG

def BinRefuses (s : McCall) (hdr : McBinCmdHdr) : Prop :=
  (s.binSetup hdr).2 = .err .E2BIG

structure BinStoreReq (s : McCall) (hdr : McBinCmdHdr) (length : Nat) : Prop where
  here : s.LocalReq hdr
  cmd : binCmd hdr = MC_BINCMD_REPLACE ∨ binCmd hdr = MC_BINCMD_ADD ∨ binCmd hdr = MC_BINCMD_SET
  extra : hdr.extralen = 8
  body : hdr.totbody = hdr.keylen + 8 + length
  word : hdr.totbody < 2 ^ 32

theorem textRefuses_iff
    : s.TextRefuses i arg ↔ ¬ s.mc.m_mcparms.Admits (s.parmAdjLen (updateArgs i arg).length.toNat) :=
  chkMemSz_e2big (s.textItem i arg) arg

theorem processCmd_refuses {endp : Nat} (hmaster : s.IsMaster) (hsasl : ¬ s.TextRefused)
    (hline : s.StoreLine endp i arg)
    (hstore : ¬ (arg = MC_BINCMD_APPEND ∨ arg = MC_BINCMD_PREPEND))
    (hrecv : (updateArgs i arg).length.toNat + 2 ≤ i.iLen)
    (hends : (updateArgs i arg).length.toNat ≠ 0 →
      byteAt i.buf (i.pNxt + (updateArgs i arg).length.toNat) = CR ∧
        byteAt i.buf (i.pNxt + (updateArgs i arg).length.toNat + 1) = LF)
    (h : (s.handed endp i).TextRefuses i arg)
    : s.processCmd = finish endp
      ((((s.handed endp i).textItem i arg).chkMemSz arg).1.respond
        (bytes "SERVER_ERROR object too large for cache\r\n"), dataLen (updateArgs i arg).length.toNat) := by
  rw [processCmd_storeLine hline hsasl]
  congr 1
  generalize hkey : i.tok (updateArgs i arg).key = key
  generalize hu : ((((s.handed endp i).setKey key).setSlice key).setNoreply (updateArgs i arg).noreply) = u
  have hfree : (((s.handed endp i).setKey key).canProcessNow key) =
      (((s.handed endp i).setKey key).setSlice key, true) := by
    unfold canProcessNow
    dsimp only
    have hnone := hmaster (((s.handed endp i).setKey key).setSlice key).conn.m_pSlice none
    rw [if_neg]
    intro hbusy
    have hslave : ((((s.handed endp i).setKey key).setSlice key).sliceAt
        (((s.handed endp i).setKey key).setSlice key).conn.m_pSlice).m_hashByUser none =
      (s.sliceAt (((s.handed endp i).setKey key).setSlice key).conn.m_pSlice).m_hashByUser none := rfl
    rw [hslave, hnone] at hbusy
    simp at hbusy
  have hm : u.getHash.isTidMaster = true := by
    rw [← hu]
    exact hmaster _ _
  unfold TextRefuses textItem at h
  unfold doCmdUpdate textItem
  dsimp only at h ⊢
  rw [hkey] at h ⊢
  rw [hfree]
  dsimp only
  rw [hu] at h ⊢
  have hbad : ¬ ((updateArgs i arg).badcmdline = true ∨ (updateArgs i arg).length < 0 ∨
      INT_MAX - 2 < (updateArgs i arg).length) := by
    rintro (hbad | hneg | hmax)
    . rw [hline.fields] at hbad
      cases hbad
    . exact absurd hline.length_nonneg (by omega)
    . exact absurd hline.length_le (by omega)
  rw [if_neg (by simp), if_neg hbad, if_neg (by omega), if_neg, hm, if_neg (by simp)]
  . unfold storeCmd
    dsimp only
    rw [if_neg hstore, if_pos h]
  . rintro ⟨hne, hcr | hlf⟩
    . exact hcr (hends hne).1
    . exact hlf (hends hne).2

theorem binRefuses_iff {length : Nat} (h : b.BinStoreReq hdr length)
    : b.BinRefuses hdr ↔ ¬ b.mc.m_mcparms.Admits length := by
  have hlen : binLen hdr = length := by
    unfold binLen
    rw [h.extra]
    have := h.word
    have := h.body
    omega
  have hkey : hdr.totbody ≠ hdr.keylen := by
    have := h.body
    omega
  unfold BinRefuses
  rw [binSetup_local h.here.key h.here.here, localSetup_value hkey, hlen]
  have hchk := chkMemSz_e2big ((b.placed hdr).setVal length).swapCas (binCmd hdr)
  have hadmits : ((b.placed hdr).setVal length).swapCas.mc.m_mcparms.Admits
      ((b.placed hdr).setVal length).swapCas.mc.m_parms.val.len ↔ b.mc.m_mcparms.Admits length := Iff.rfl
  rw [hadmits] at hchk
  unfold setupExtras
  dsimp only
  rw [if_pos h.cmd, if_neg (by simp [h.extra]), ← hchk]
  split
  . simp
  . rename_i hsuccess
    simp [not_not.mp hsuccess]

/--
The two protocols refuse the same values apart from those that the header of an item takes over the
limit.
-/
theorem refuses_iff {s b : McCall} {i : McInput} {arg : Nat} {hdr : McBinCmdHdr}
    (hreq : b.BinStoreReq hdr (updateArgs i arg).length.toNat)
    (hparms : b.mc.m_mcparms = s.mc.m_mcparms)
    : (s.TextRefuses i arg ↔ b.BinRefuses hdr) ↔ ¬ s.InBand (updateArgs i arg).length.toNat := by
  rw [textRefuses_iff, binRefuses_iff hreq, hparms]
  generalize (updateArgs i arg).length.toNat = length
  have hless : s.mc.m_mcparms.Admits (s.parmAdjLen length) → s.mc.m_mcparms.Admits length := by
    rintro (hz | hle)
    . exact Or.inl hz
    . exact Or.inr (Nat.le_trans (Nat.le_add_right _ _) hle)
  unfold InBand
  tauto

end Refusals

end McCall

namespace LsMemcache

section Sample

def sampleLimit (max : Nat) (protocol : McProtocol) (buf : List UInt8) : McCall :=
  let s := McCall.sampleCall buf
  { mc := { s.mc with m_mcparms := { s.mc.m_mcparms with m_iValMaxSz := max } }
    conn := { s.conn with m_protocol := protocol } }

def sampleTextSet (max : Nat) : McCall :=
  sampleLimit max .MC_ASCII (bytes "set a 0 0 10\r\n0123456789\r\n")

def sampleTextInput : McInput :=
  ⟨McCall.cutLine (sampleTextSet 0).conn.m_bufIncoming 13,
    (advToken (McCall.cutLine (sampleTextSet 0).conn.m_bufIncoming 13) 0 12).1, 12, 14⟩

def sampleBinSet (max : Nat) : McCall :=
  sampleLimit max .MC_BINARY
    ([MC_BINARY_REQ, UInt8.ofNat MC_BINCMD_SET, 0, 1, 8, 0, 0, 0, 0, 0, 0, 19] ++ List.replicate 20 0 ++
      bytes "a0123456789")

def sampleBinHdr : McBinCmdHdr :=
  McBinCmdHdr.ofBuf (sampleBinSet 0).conn.m_bufIncoming

theorem sampleBinSet_req (max : Nat)
    : (sampleBinSet max).BinStoreReq sampleBinHdr (McCall.updateArgs sampleTextInput MC_BINCMD_SET).length.toNat where
  here :=
    { sasl := rfl
      key := by decide +kernel
      here := fun _ => ⟨rfl, rfl⟩ }
  cmd := by decide +kernel
  extra := by decide +kernel
  body := by decide +kernel
  word := by decide +kernel

theorem sampleLimit_sizeLimited (max : Nat) (protocol : McProtocol) (buf : List UInt8)
    : (sampleLimit max protocol buf).mc.SizeLimited := by
  intro i user off e he
  have hnone : (sampleSliceHash.get sampleSliceHash_isSome).table.elem off = none := rfl
  cases he.symm.trans hnone

theorem sampleTextSet_fits : (sampleTextSet 100).SizeFits := by
  have hline : (sampleTextSet 100).textLine.map (fun r => (r.1.func, r.1.arg)) =
      some (.doCmdUpdate, MC_BINCMD_SET) := by decide +kernel
  intro p i h
  rw [h] at hline
  obtain ⟨hfunc, harg⟩ := Prod.mk.inj (Option.some.inj hline)
  dsimp only at hfunc harg
  refine ⟨fun _ hgrow => ?_, fun harith => ?_⟩
  . rw [harg] at hgrow
    exact absurd hgrow (by decide)
  . rw [hfunc] at harith
    cases harith

end Sample

end LsMemcache

end Lsmcd
