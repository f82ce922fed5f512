import Lsmcd.Memcache.BinAnswer
import Lsmcd.Memcache.Number
import Lsmcd.Memcache.SizeLimit

/-!
The unique of a request when uniques are disabled: `doHashUpdate` compares it all the same, with the
bytes at the place where an item with a unique would have it.
-/

namespace Lsmcd

/--
The requests that carry a unique. `cas` is the text command, the others are those of the binary
protocol; a `set` is a `replace` there.
-/
inductive CasCmd
  | cas (cas : Nat)
  | store (cmd cas : Nat)
  | count (cmd cas value : Nat)
  | delete (hdr : McBinCmdHdr)

namespace CasCmd

def Carries : CasCmd → Nat → Prop
  | cas u, v => u = v ∧ u < 2 ^ 64
  | store cmd u, v =>
    u = v ∧ u < 2 ^ 64 ∧ u ≠ 0 ∧
      (cmd = MC_BINCMD_REPLACE ∨ cmd = MC_BINCMD_APPEND ∨ cmd = MC_BINCMD_PREPEND)
  | count cmd u _, v => u = v ∧ u < 2 ^ 64 ∧ u ≠ 0 ∧ (cmd = MC_BINCMD_INCREMENT ∨ cmd = MC_BINCMD_DECREMENT)
  | delete hdr, v => hdr.cas = v ∧ hdr.cas < 2 ^ 64 ∧ hdr.cas ≠ 0

/--
The options that `doHashUpdate` is called with, `env` being what the local variable held before.
-/
def opt (env : LsMcUpdOpt) : CasCmd → LsMcUpdOpt
  | cas u => { env with m_iFlags := MC_BINCMD_REPLACE ||| LSMC_WITHCAS, m_cas := u }
  | store cmd u =>
    { env with
      m_iFlags := cmd
      m_cas := u
      m_iRetcode := if cmd = MC_BINCMD_REPLACE then .DONE
        else if cmd = MC_BINCMD_APPEND then .APPEND
        else .PREPEND }
  | count cmd u value => { env with m_iFlags := cmd, m_cas := u, m_value := value }
  | delete _ => env

def IsDelete : CasCmd → Prop
  | delete _ => True
  | _ => False

end CasCmd

namespace McCall

def printedCas (s : McCall) (e : LsShmHElem) : Nat :=
  if s.mc.m_mcparms.m_usecas then e.cas else 0

structure LiveItem (s : McCall) (off : Nat) (e : LsShmHElem) : Prop where
  find : s.getHash.find2 s.mc.m_hkey s.mc.m_parms.key = off
  ne_zero : off ≠ 0
  iter : s.getHash.offset2iterator off = some e
  live : isExpired s.getHash e = false
  header : sizeofDataItem ≤ e.valLen

def withData (s : McCall) (off : Nat) (e : LsShmHElem) (data : Nat → UInt8) : McCall :=
  s.setHash (s.getHash.setTable (·.setElem off (some { e with data := data })))

/--
The request is refused because of its unique: an update is not made, a `delete` leaves no element in
`m_iterOff`.
-/
def Refused (s : McCall) : CasCmd → Prop
  | .delete hdr => (s.doBinDelete hdr).mc.m_iterOff = 0
  | c => s.doHashUpdate (c.opt s.mc.env.updOpt) =
      (s, { c.opt s.mc.env.updOpt with m_iRetcode := .EEXISTS }, 0)

/--
Whether a request is refused depends neither on the bytes of the value nor on those behind it, and one
with the unique that was printed for the item is not refused.
-/
structure CasLaw (s : McCall) (off : Nat) (e : LsShmHElem) (c : CasCmd) : Prop where
  value : ∀ data data', (∀ i, ¬ (sizeofDataItem ≤ i ∧ i < e.valLen) → data i = data' i) →
    ((s.withData off e data).Refused c ↔ (s.withData off e data').Refused c)
  behind : ∀ data data', (∀ i < e.valLen, data i = data' i) →
    ((s.withData off e data).Refused c ↔ (s.withData off e data').Refused c)
  printed : c.Carries (s.printedCas e) → ¬ s.Refused c

section

variable {s : McCall} {off : Nat} {e : LsShmHElem} {c : CasCmd}

theorem printedCas_eq (h : s.mc.m_mcparms.m_usecas = false) (e : LsShmHElem) : s.printedCas e = 0 := by
  unfold printedCas
  rw [h]
  rfl

theorem valueLine_cas (s : McCall) (e : LsShmHElem) (valLen : Int)
    : ∃ front, s.valueLine e valLen true = front ++ bytes " " ++ decimal (s.printedCas e) ++ bytes "\r\n" := by
  refine ⟨bytes "VALUE " ++ e.key ++ bytes " " ++ decimalInt (toInt32 e.flags) ++ bytes " " ++
    decimalInt valLen, ?_⟩
  unfold valueLine printedCas
  simp only [if_true, List.append_assoc]

theorem retcode_storeOp_cas (s : McCall) (u : Nat)
    : (s.storeOp (MC_BINCMD_REPLACE ||| LSMC_WITHCAS) u).mc.m_retcode =
      (s.doHashUpdate ((CasCmd.cas u).opt s.mc.env.updOpt)).2.1.m_iRetcode := by
  unfold storeOp
  dsimp only
  have hflags : (if (MC_BINCMD_REPLACE ||| LSMC_WITHCAS = MC_BINCMD_APPEND ∨
      MC_BINCMD_REPLACE ||| LSMC_WITHCAS = MC_BINCMD_PREPEND) ∧ s.mc.m_mcparms.m_usecas = true
      then MC_BINCMD_REPLACE ||| LSMC_WITHCAS ||| LSMC_USECAS else MC_BINCMD_REPLACE ||| LSMC_WITHCAS) =
      MC_BINCMD_REPLACE ||| LSMC_WITHCAS := by
    rw [if_neg]
    rintro ⟨hgrow, -⟩
    revert hgrow
    decide
  rw [hflags, if_neg (by decide), if_neg (by decide), if_neg (by decide), if_neg (by decide)]
  have hstat : ∀ (t : McCall) (f : LsMcStats → LsMcStats), (t.stat f).mc.m_retcode = t.mc.m_retcode := by
    intro t f
    unfold stat
    split <;> rfl
  rw [if_neg (by decide), hstat]
  rfl

theorem setupExtras_opt {hdr : McBinCmdHdr} {cmd pReqX pVal p : Nat} {opt : LsMcUpdOpt}
    (hoff : s.mc.m_mcparms.m_usecas = false) (h : (s.setupExtras hdr cmd pReqX pVal).2 = .body p opt)
    (hcmd : cmd = MC_BINCMD_REPLACE ∨ cmd = MC_BINCMD_APPEND ∨ cmd = MC_BINCMD_PREPEND ∨
      cmd = MC_BINCMD_INCREMENT ∨ cmd = MC_BINCMD_DECREMENT)
    : opt = (CasCmd.store cmd hdr.cas).opt s.mc.env.updOpt ∨
      opt = (CasCmd.count cmd hdr.cas (readBe s.conn.m_bufIncoming pReqX 8)).opt s.mc.env.updOpt := by
  have henv : (s.chkMemSz cmd).1.mc.env = s.mc.env := env_chkMemSz cmd
  have hmc := (chkMemSz_frame (s := s) cmd).2.2
  revert h
  unfold setupExtras casOpt
  dsimp only
  rcases hcmd with rfl | rfl | rfl | rfl | rfl
  . rw [if_pos (by decide)]
    split
    . exact fun h => nomatch h
    . split
      . exact fun h => nomatch h
      . rintro ⟨⟩
        exact Or.inl rfl
  . rw [if_neg (by decide), if_neg (by decide), if_neg (by decide), if_pos (by decide)]
    split
    . exact fun h => nomatch h
    . rintro ⟨⟩
      left
      simp only [henv, hmc, hoff, Bool.false_eq_true, if_false]
      rfl
  . rw [if_neg (by decide), if_neg (by decide), if_neg (by decide), if_pos (by decide)]
    split
    . exact fun h => nomatch h
    . rintro ⟨⟩
      left
      simp only [henv, hmc, hoff, Bool.false_eq_true, if_false]
      rfl
  . rw [if_neg (by decide), if_neg (by decide), if_pos (by decide)]
    split
    . exact fun h => nomatch h
    . rintro ⟨⟩
      right
      simp [hoff, CasCmd.opt]
  . rw [if_neg (by decide), if_neg (by decide), if_pos (by decide)]
    split
    . exact fun h => nomatch h
    . rintro ⟨⟩
      right
      simp [hoff, CasCmd.opt]

theorem updateElem_differs {opt : LsMcUpdOpt} (hopt : opt.m_iFlags &&& LSMC_WITHCAS ≠ 0 ∨ opt.m_cas ≠ 0)
    (hne : e.cas ≠ opt.m_cas) (s : McCall) (off : Nat)
    : s.updateElem opt off e = (s, { opt with m_iRetcode := .EEXISTS }, 0) := by
  unfold updateElem
  rw [if_pos ⟨hopt, hne⟩]

theorem updateElem_equals {opt : LsMcUpdOpt} (heq : e.cas = opt.m_cas) (s : McCall) (off : Nat)
    (hcode : opt.m_iFlags &&& LSMC_CMDMASK = MC_BINCMD_REPLACE ∨
      opt.m_iFlags &&& LSMC_CMDMASK = MC_BINCMD_INCREMENT ∨
      opt.m_iFlags &&& LSMC_CMDMASK = MC_BINCMD_DECREMENT ∨ opt.m_iRetcode ≠ .EEXISTS)
    : s.updateElem opt off e ≠ (s, { opt with m_iRetcode := .EEXISTS }, 0) := by
  intro hall
  have hret := congrArg (fun r => r.2.1.m_iRetcode) hall
  have hlen := congrArg (fun r => r.1.mc.m_parms.val.len) hall
  revert hret hlen
  unfold updateElem
  dsimp only
  rw [if_neg (fun h => h.2 heq)]
  by_cases hcount : opt.m_iFlags &&& LSMC_CMDMASK = MC_BINCMD_INCREMENT ∨
      opt.m_iFlags &&& LSMC_CMDMASK = MC_BINCMD_DECREMENT
  . rw [if_pos hcount]
    split
    . exact fun hret => nomatch hret
    . rename_i num _
      intro _ hlen
      -- the text of the number is not empty
      have htext := List.length_pos_iff.mpr
        (decimal_ne_nil (arithmetic (opt.m_iFlags &&& LSMC_CMDMASK) num opt.m_value))
      have hadd : s.mc.m_parms.val.len +
          (decimal (arithmetic (opt.m_iFlags &&& LSMC_CMDMASK) num opt.m_value)).length =
          s.mc.m_parms.val.len := hlen
      omega
  . rw [if_neg hcount]
    by_cases hgrow : opt.m_iFlags &&& LSMC_CMDMASK = MC_BINCMD_APPEND ∨
        opt.m_iFlags &&& LSMC_CMDMASK = MC_BINCMD_PREPEND
    . rw [if_pos hgrow]
      have hne : opt.m_iRetcode ≠ .EEXISTS := by
        rcases hcode with h | h | h | h
        . rw [h] at hgrow
          exact absurd hgrow (by decide)
        . exact absurd (Or.inl h) hcount
        . exact absurd (Or.inr h) hcount
        . exact h
      split
      . exact fun hret => absurd hret hne
      . split
        . exact fun hret => nomatch hret
        . exact fun hret => absurd hret hne
    . rw [if_neg hgrow]
      split
      . exact fun hret => nomatch hret
      . rename_i hreplace
        intro hret
        rcases hcode with h | h | h | h
        . exact absurd h hreplace
        . exact absurd (Or.inl h) hcount
        . exact absurd (Or.inr h) hcount
        . exact absurd hret h

theorem refused_iff (h : s.LiveItem off e) {u : Nat} (hc : c.Carries u) (hupd : ¬ c.IsDelete)
    : s.Refused c ↔ e.cas ≠ u := by
  have hupdate : ∀ opt, s.doHashUpdate opt = s.updateElem opt off e := by
    intro opt
    unfold doHashUpdate
    simp only [h.find, h.ne_zero, if_false, h.iter, h.live, Bool.false_eq_true]
  have hiff : ∀ opt : LsMcUpdOpt, opt.m_cas = u →
      (opt.m_iFlags &&& LSMC_WITHCAS ≠ 0 ∨ opt.m_cas ≠ 0) →
      (opt.m_iFlags &&& LSMC_CMDMASK = MC_BINCMD_REPLACE ∨
        opt.m_iFlags &&& LSMC_CMDMASK = MC_BINCMD_INCREMENT ∨
        opt.m_iFlags &&& LSMC_CMDMASK = MC_BINCMD_DECREMENT ∨ opt.m_iRetcode ≠ .EEXISTS) →
      (s.doHashUpdate opt = (s, { opt with m_iRetcode := .EEXISTS }, 0) ↔ e.cas ≠ u) := by
    intro opt hu hopt hcode
    rw [hupdate, ← hu]
    exact ⟨fun hall heq => updateElem_equals heq s off hcode hall, fun hne => updateElem_differs hopt hne s off⟩
  cases c with
  | delete hdr => exact absurd trivial hupd
  | cas v =>
    apply hiff ((CasCmd.cas v).opt s.mc.env.updOpt) hc.1
    . left
      show (MC_BINCMD_REPLACE ||| LSMC_WITHCAS) &&& LSMC_WITHCAS ≠ 0
      decide
    . left
      show (MC_BINCMD_REPLACE ||| LSMC_WITHCAS) &&& LSMC_CMDMASK = MC_BINCMD_REPLACE
      decide
  | store cmd v =>
    obtain ⟨hu, -, hne, hcmd⟩ := hc
    apply hiff _ hu (.inr hne)
    rcases hcmd with rfl | rfl | rfl
    . exact .inl (show MC_BINCMD_REPLACE &&& LSMC_CMDMASK = MC_BINCMD_REPLACE by decide)
    . exact .inr (.inr (.inr fun hret => nomatch hret))
    . exact .inr (.inr (.inr fun hret => nomatch hret))
  | count cmd v value =>
    obtain ⟨hu, -, hne, hcmd⟩ := hc
    apply hiff _ hu (.inr hne)
    rcases hcmd with rfl | rfl
    . exact .inr (.inl (show MC_BINCMD_INCREMENT &&& LSMC_CMDMASK = MC_BINCMD_INCREMENT by decide))
    . exact .inr (.inr (.inl (show MC_BINCMD_DECREMENT &&& LSMC_CMDMASK = MC_BINCMD_DECREMENT by decide)))

theorem find2_setElem {hash : LsShmHash} (he : hash.table.elem off = some e) (data : Nat → UInt8) (hkey : Nat)
    (key : List UInt8)
    : (hash.setTable (·.setElem off (some { e with data := data }))).find2 hkey key = hash.find2 hkey key := by
  have hseek : ∀ p q : Nat → Bool, (∀ x, p x = q x) →
      (if !hash.table.getBitMapEnt (hkey % hash.capacity) then 0
        else
          let x := Linked.seek hash.table.next 0 p hash.fuel (hash.table.hIdx hash.table.x_iHIdx (hkey % hash.capacity))
          if hash.shm.offset2ptr x then x else 0) =
      (if !hash.table.getBitMapEnt (hkey % hash.capacity) then 0
        else
          let x := Linked.seek hash.table.next 0 q hash.fuel (hash.table.hIdx hash.table.x_iHIdx (hkey % hash.capacity))
          if hash.shm.offset2ptr x then x else 0) := by
    intro p q hpq
    rw [funext hpq]
  unfold LsShmHash.find2
  apply hseek
  intro x
  by_cases hx : x = off
  . subst hx
    simp only [LsShmHash.setTable, LsShmHTable.setElem, Function.update_self, he]
  . simp only [LsShmHash.setTable, LsShmHTable.setElem, Function.update_of_ne hx]

theorem offset2iterator_setElem {hash : LsShmHash} (h : hash.offset2iterator off = some e) (data : Nat → UInt8)
    : (hash.setTable (·.setElem off (some { e with data := data }))).offset2iterator off =
      some { e with data := data } := by
  have hnew : (hash.setTable (·.setElem off (some { e with data := data }))).table.elem off =
      some { e with data := data } := Function.update_self ..
  unfold LsShmHash.offset2iterator at h ⊢
  rw [hnew]
  rw [LsShmHash.elem_of_offset2iterator h] at h
  dsimp only at h ⊢
  split at h
  . rename_i hok
    rw [show (hash.setTable (·.setElem off (some { e with data := data }))).shm = hash.shm from rfl, if_pos hok]
  . cases h

theorem withData_item (h : s.LiveItem off e) (data : Nat → UInt8)
    : (s.withData off e data).getHash.find2 s.mc.m_hkey s.mc.m_parms.key = off ∧
      (s.withData off e data).getHash.offset2iterator off = some { e with data := data } ∧
      (s.withData off e data).getHash.now = s.getHash.now := by
  have hhash : (s.withData off e data).getHash =
      s.getHash.setTable (·.setElem off (some { e with data := data })) := getHash_setHash s _
  rw [hhash]
  refine ⟨?_, offset2iterator_setElem h.iter data, rfl⟩
  rw [find2_setElem (LsShmHash.elem_of_offset2iterator h.iter)]
  exact h.find

theorem exptime_congr {data data' : Nat → UInt8} (hdata : ∀ i < sizeofDataItem, data i = data' i)
    : ({ e with data := data } : LsShmHElem).exptime = ({ e with data := data' } : LsShmHElem).exptime := by
  unfold LsShmHElem.exptime
  congr 1
  apply readLe_congr
  intro i _ hi
  exact hdata i (by unfold sizeofDataItem; omega)

theorem LiveItem.withData (h : s.LiveItem off e) {data : Nat → UInt8}
    (hdata : ∀ i < sizeofDataItem, data i = e.data i)
    : (s.withData off e data).LiveItem off { e with data := data } := by
  obtain ⟨hfind, hiter, hnow⟩ := s.withData_item h data
  refine ⟨hfind, h.ne_zero, hiter, ?_, h.header⟩
  have hlive := h.live
  unfold isExpired at hlive ⊢
  rw [exptime_congr hdata, hnow]
  exact hlive

theorem iterOff_binRespond (s : McCall) (buf : List UInt8)
    : (s.binRespond buf).mc.m_iterOff = s.mc.m_iterOff := by
  unfold binRespond ackNoreply
  split
  . split <;> rfl
  . rfl

theorem iterOff_binErrRespond (s : McCall) (hdr : McBinCmdHdr) (err : McBinStat)
    : (s.binErrRespond hdr err).mc.m_iterOff = 0 := by
  unfold binErrRespond
  simp only [iterOff_binRespond]
  rfl

theorem iterOff_stat (s : McCall) (f : LsMcStats → LsMcStats) : (s.stat f).mc.m_iterOff = s.mc.m_iterOff := by
  unfold stat
  split <;> rfl

theorem iterOff_notifyChange (s : McCall) : s.notifyChange.mc.m_iterOff = s.mc.m_iterOff := by
  unfold notifyChange
  split <;> rfl

theorem iterOff_deleted (s : McCall) (hdr : McBinCmdHdr) (hash : LsShmHash)
    : ((((s.setHash hash).binDeleteStat true).notifyChange).binOkRespond hdr).mc.m_iterOff = s.mc.m_iterOff := by
  unfold binOkRespond binDeleteStat
  rw [iterOff_binRespond, iterOff_notifyChange, iterOff_stat]
  rfl

theorem refused_delete_iff (hoff : s.mc.m_mcparms.m_usecas = false) (hdr : McBinCmdHdr)
    (hfind : s.getHash.find2 s.mc.m_hkey s.mc.m_parms.key = off) (hne : off ≠ 0)
    (hiter : s.getHash.offset2iterator off = some e)
    : s.Refused (.delete hdr) ↔ isExpired s.getHash e = true := by
  show (s.doBinDelete hdr).mc.m_iterOff = 0 ↔ _
  unfold doBinDelete
  simp only [hfind, hne, if_false, hiter]
  cases hexp : isExpired s.getHash e with
  | true =>
    simp only [if_true, iff_true]
    exact iterOff_binErrRespond _ hdr _
  | false =>
    have hoff' : ¬ ((s.setIterOff off).mc.m_mcparms.m_usecas = true ∧ hdr.cas ≠ 0 ∧ hdr.cas ≠ e.cas) := by
      rintro ⟨hon, -⟩
      rw [show (s.setIterOff off).mc.m_mcparms.m_usecas = false from hoff] at hon
      cases hon
    simp only [Bool.false_eq_true, if_false, iff_false]
    rw [if_neg hoff', iterOff_deleted]
    exact hne

theorem refused_delete_congr (hoff : s.mc.m_mcparms.m_usecas = false) (h : s.LiveItem off e)
    {data data' : Nat → UInt8} (hdata : ∀ i < sizeofDataItem, data i = data' i) (hdr : McBinCmdHdr)
    : (s.withData off e data).Refused (.delete hdr) ↔ (s.withData off e data').Refused (.delete hdr) := by
  obtain ⟨hfind, hiter, hnow⟩ := s.withData_item h data
  obtain ⟨hfind', hiter', hnow'⟩ := s.withData_item h data'
  rw [refused_delete_iff (s := s.withData off e data) hoff hdr hfind h.ne_zero hiter,
    refused_delete_iff (s := s.withData off e data') hoff hdr hfind' h.ne_zero hiter']
  unfold isExpired
  rw [exptime_congr hdata, hnow, hnow']

def casData (e : LsShmHElem) (u : Nat) : Nat → UInt8 :=
  writeLe e.data sizeofDataItem 8 u

def otherData (e : LsShmHElem) (u : Nat) : Nat → UInt8 :=
  Function.update (casData e u) sizeofDataItem (casData e u sizeofDataItem + 1)

theorem casData_header (e : LsShmHElem) (u : Nat) : ∀ i < sizeofDataItem, casData e u i = e.data i := by
  intro i hi
  unfold casData writeLe
  rw [if_neg]
  omega

theorem otherData_of_ne (e : LsShmHElem) (u : Nat) {i : Nat} (hi : i ≠ sizeofDataItem)
    : otherData e u i = casData e u i :=
  Function.update_of_ne hi _ _

theorem cas_casData {u : Nat} (h : u < 2 ^ 64) (e : LsShmHElem)
    : ({ e with data := casData e u } : LsShmHElem).cas = u :=
  readLe_writeLe e.data sizeofDataItem (by omega)

theorem cas_otherData {u : Nat} (h : u < 2 ^ 64) (e : LsShmHElem)
    : ({ e with data := otherData e u } : LsShmHElem).cas ≠ u := by
  have hcas := cas_casData h e
  intro hother
  have hrest : readLe (otherData e u) (sizeofDataItem + 1) 7 = readLe (casData e u) (sizeofDataItem + 1) 7 := by
    apply readLe_congr
    intro i hlo _
    apply otherData_of_ne
    omega
  have hfirst : otherData e u sizeofDataItem = casData e u sizeofDataItem + 1 := Function.update_self ..
  unfold LsShmHElem.cas at hcas hother
  rw [readLe] at hcas hother
  dsimp only at hcas hother
  rw [hrest, hfirst] at hother
  have hadd : (casData e u sizeofDataItem + 1).toNat = (casData e u sizeofDataItem).toNat := by omega
  rw [UInt8.toNat_add] at hadd
  have hone : (1 : UInt8).toNat = 1 := rfl
  have hlt := (casData e u sizeofDataItem).toNat_lt
  omega

end

/--
When uniques are disabled, a request with a unique obeys the law if and only if it is a `delete`.
-/
theorem casLaw_iff {s : McCall} {off : Nat} {e : LsShmHElem} (hoff : s.mc.m_mcparms.m_usecas = false)
    (h : s.LiveItem off e) (c : CasCmd) {u : Nat} (hc : c.Carries u) : s.CasLaw off e c ↔ c.IsDelete := by
  constructor
  . intro hlaw
    by_contra hupd
    have hlt : u < 2 ^ 64 := by
      cases c with
      | cas v => exact hc.1 ▸ hc.2
      | store cmd v => exact hc.1 ▸ hc.2.1
      | count cmd v value => exact hc.1 ▸ hc.2.1
      | delete hdr => exact hc.1 ▸ hc.2.1
    have hyes := refused_iff (h.withData (casData_header e u)) hc hupd
    have hother : ∀ i < sizeofDataItem, otherData e u i = e.data i := by
      intro i hi
      rw [otherData_of_ne e u (Nat.ne_of_lt hi)]
      exact casData_header e u i hi
    have hno := refused_iff (h.withData hother) hc hupd
    -- the two contents differ in one byte, the one behind the header
    have hsame : (s.withData off e (casData e u)).Refused c ↔ (s.withData off e (otherData e u)).Refused c := by
      by_cases hval : sizeofDataItem < e.valLen
      . apply hlaw.value
        intro i hi
        have hne : i ≠ sizeofDataItem := by
          rintro rfl
          exact hi ⟨Nat.le_refl _, hval⟩
        exact (otherData_of_ne e u hne).symm
      . apply hlaw.behind
        intro i hi
        exact (otherData_of_ne e u (by omega)).symm
    rw [hyes, hno] at hsame
    exact hsame.mpr (cas_otherData hlt e) (cas_casData hlt e)
  . intro hdel
    cases c with
    | delete hdr =>
      have hheader := h.header
      refine ⟨fun data data' hdata => ?_, fun data data' hdata => ?_, fun hcarry => ?_⟩
      . apply refused_delete_congr hoff h
        intro i hi
        exact hdata i (by omega)
      . apply refused_delete_congr hoff h
        intro i hi
        exact hdata i (by omega)
      . rw [printedCas_eq hoff] at hcarry
        exact absurd hcarry.1 hcarry.2.2
    | cas u => exact hdel.elim
    | store cmd u => exact hdel.elim
    | count cmd u value => exact hdel.elim

section Sample

def sampleNoCas : McCall :=
  let parms := { sampleParms with m_usecas := false }
  let multi := sampleMulti (sampleCounterHash.get sampleCounterHash_isSome) parms
  let s := (((McWorld.start multi parms false false sampleEnv).step .accept).call 0).setBuf
    (bytes "set a 0 0 20\r\n01234567890123456789\r\n")
  s.processCmd.1.setKey (bytes "a")

def sampleItem : Option LsShmHElem :=
  sampleNoCas.getHash.offset2iterator
    (sampleNoCas.getHash.find2 sampleNoCas.mc.m_hkey sampleNoCas.mc.m_parms.key)

theorem sampleItem_isSome : sampleItem.isSome = true := by decide +kernel

theorem sampleNoCas_item
    : sampleNoCas.LiveItem (sampleNoCas.getHash.find2 sampleNoCas.mc.m_hkey sampleNoCas.mc.m_parms.key)
      (sampleItem.get sampleItem_isSome) where
  find := rfl
  ne_zero := by decide +kernel
  iter := (Option.some_get sampleItem_isSome).symm
  live := by decide +kernel
  header := by decide +kernel

theorem casLaw_iff_sample
    : sampleNoCas.CasLaw (sampleNoCas.getHash.find2 sampleNoCas.mc.m_hkey sampleNoCas.mc.m_parms.key)
        (sampleItem.get sampleItem_isSome) (.cas 0) ↔ (CasCmd.cas 0).IsDelete :=
  casLaw_iff (by decide +kernel) sampleNoCas_item (.cas 0) (u := 0) ⟨rfl, by decide⟩

/--
The unique that `gets` prints is refused: the value is compared with it.
-/
theorem not_casLaw_printed
    : ¬ sampleNoCas.CasLaw (sampleNoCas.getHash.find2 sampleNoCas.mc.m_hkey sampleNoCas.mc.m_parms.key)
      (sampleItem.get sampleItem_isSome) (.cas 0) := by
  intro h
  have hoff : sampleNoCas.mc.m_mcparms.m_usecas = false := by decide +kernel
  have hcarry : (CasCmd.cas 0).Carries (sampleNoCas.printedCas (sampleItem.get sampleItem_isSome)) := by
    rw [printedCas_eq hoff]
    exact ⟨rfl, by decide⟩
  apply h.printed hcarry
  rw [refused_iff sampleNoCas_item (c := .cas 0) (u := 0) ⟨rfl, by decide⟩ id]
  decide +kernel

end Sample

end McCall

end Lsmcd
