import Lsmcd.Memcache.Concat

/-!
`incr` and `decr` as operations on the numbers that items hold, in both protocols.
-/

namespace Lsmcd

open LsShmHash

def arithCmd (incr : Bool) : Nat :=
  if incr then MC_BINCMD_INCREMENT else MC_BINCMD_DECREMENT

def counted (incr : Bool) (num delta : Nat) : Nat :=
  if incr then (num + delta) % 2 ^ 64 else num - delta

theorem arithmetic_counted (incr : Bool) (num delta : Nat)
    : McCall.arithmetic (arithCmd incr) num delta = counted incr num delta := by
  unfold McCall.arithmetic counted
  cases incr with
  | true => rfl
  | false =>
    rw [if_neg (by decide), if_neg (by decide : ¬ (false = true))]
    split <;> omega

theorem counted_lt {incr : Bool} {num delta : Nat} (h : num < 2 ^ 64) : counted incr num delta < 2 ^ 64 := by
  unfold counted
  split <;> omega

namespace McItem

def number (item : McItem) : Option Nat :=
  if item.value.length ≤ 0 ∨ ULL_MAXLEN < item.value.length then none
  else myStrtoull (item.value.takeWhile (· ≠ 0))

def setNumber (item : McItem) (num : Nat) : McItem :=
  { item with value := decimal num }

theorem number_digits {item : McItem} (h : Digits item.value) (hval : digitsVal item.value < 2 ^ 64)
    (hlen : item.value.length ≤ ULL_MAXLEN) : item.number = some (digitsVal item.value) := by
  have hpos : 0 < item.value.length := List.length_pos_iff.mpr h.1
  have hnul : item.value.takeWhile (· ≠ 0) = item.value := by
    rw [List.takeWhile_eq_self_iff]
    intro d hd
    have hr := isdigit_range (h.2 d hd)
    simp only [decide_eq_true_eq]
    rintro rfl
    exact absurd hr.1 (by decide)
  unfold number
  rw [if_neg (by omega), hnul]
  exact myStrtoull_digits h hval

theorem number_lt {item : McItem} {num : Nat} (h : item.number = some num) : num < 2 ^ 64 := by
  unfold number at h
  split at h
  . cases h
  . exact myStrtoull_lt h

theorem number_setNumber (item : McItem) {n : Nat} (h : n < 2 ^ 64) : (item.setNumber n).number = some n := by
  obtain ⟨hds, hval⟩ := decimal_spec (n := n) (by omega)
  have hlen : (decimal n).length ≤ ULL_MAXLEN := (McCall.length_decimal n).trans (by decide)
  have hread : (item.setNumber n).number = some (digitsVal (decimal n)) :=
    number_digits hds (hval.symm ▸ h) hlen
  rw [hread, hval]

end McItem

namespace McCall

variable {s : McCall} {e : LsShmHElem} {opt : LsMcUpdOpt} {item : McItem} {incr : Bool} {num delta : Nat}

theorem number_ofBytes (he : s.sizeofItem ≤ e.valLen)
    : mcIter2num e s.mc.m_mcparms.m_usecas = (McItem.ofBytes s.sizeofItem e.getVal).number := by
  have hpos : (mcIter2data e s.mc.m_mcparms.m_usecas).1 = s.sizeofItem := rfl
  have hlen : (mcIter2data e s.mc.m_mcparms.m_usecas).2 = (e.valLen : Int) - s.sizeofItem := rfl
  have hcount : ((e.valLen : Int) - s.sizeofItem).toNat = e.valLen - s.sizeofItem := by omega
  have hbytes : getMem e.data s.sizeofItem (e.valLen - s.sizeofItem) = e.getVal.drop s.sizeofItem := by
    apply List.ext_getElem
    . simp [getMem, LsShmHElem.getVal]
    . intro i _ _
      simp [getMem, LsShmHElem.getVal]
  have hlength : (e.getVal.drop s.sizeofItem).length = e.valLen - s.sizeofItem := by
    rw [List.length_drop, Value.length_getVal]
  unfold mcIter2num McItem.number McItem.ofBytes
  dsimp only
  rw [hpos, hlen, hcount, hbytes, hlength]
  by_cases hbad : e.valLen - s.sizeofItem ≤ 0 ∨ ULL_MAXLEN < e.valLen - s.sizeofItem
  . rw [if_pos hbad, if_pos (by omega)]
  . rw [if_neg hbad, if_neg (by omega)]

structure Live (s : McCall) (item : McItem) : Prop where
  found : s.item s.mc.m_parms.key = some item
  fresh : item.exptime = 0 ∨ s.getHash.now < item.exptime
  header : ∀ bs ∈ s.getHash.valueOf s.mc.m_parms.key, s.sizeofItem ≤ bs.length

structure LiveElem (s : McCall) (item : McItem) (e : LsShmHElem) : Prop where
  ne : s.keyOff ≠ 0
  elem : s.getHash.table.elem s.keyOff = some e
  iter : s.getHash.offset2iterator s.keyOff = some e
  fresh : isExpired s.getHash e = false
  header : s.sizeofItem ≤ e.valLen
  item : item = McItem.ofBytes s.sizeofItem e.getVal

theorem sizeofDataItem_le (s : McCall) : sizeofDataItem ≤ s.sizeofItem := by
  unfold sizeofItem
  split <;> omega

theorem LiveElem.exptime (h : s.LiveElem item e) : item.exptime = e.exptime := by
  rw [h.item]
  exact McItem.exptime_ofBytes (s.sizeofDataItem_le.trans h.header)

theorem LiveElem.flags (h : s.LiveElem item e) : item.flags = e.flags := by
  rw [h.item]
  exact McItem.flags_ofBytes (s.sizeofDataItem_le.trans h.header)

theorem LiveElem.dataItem (h : s.LiveElem item e) : e.dataItem = ⟨item.exptime, item.flags⟩ := by
  rw [h.exptime, h.flags]
  rfl

theorem Live.elem (h : s.Live item) (hready : s.Ready) : ∃ e, s.LiveElem item e := by
  obtain ⟨E, hrep⟩ := hready.sane.rep
  have hfound := h.found
  rw [item_eq, Option.map_eq_some_iff] at hfound
  obtain ⟨bs, hbs, hitem⟩ := hfound
  have hheader := h.header bs hbs
  rcases hrep.lookup.find2_cases s.mc.m_parms.key with ⟨_, hnone⟩ | ⟨hx, hkx⟩
  . rw [hrep.valueOf_none hnone] at hbs
    cases hbs
  . obtain ⟨e, he, hiter, _⟩ := hrep.lookup.elem_some hx
    have hkey : e.key = s.mc.m_parms.key := by
      simpa [LsShmHTable.keyOf, he] using hkx
    have hval := hrep.valueOf_of_mem hx he
    rw [hkey, hbs] at hval
    obtain rfl := Option.some.inj hval
    rw [Value.length_getVal] at hheader
    have hexp : item.exptime = e.exptime := by
      rw [← hitem]
      exact McItem.exptime_ofBytes (s.sizeofDataItem_le.trans hheader)
    refine ⟨e, hrep.ne_zero hx, he, hiter, ?_, hheader, hitem.symm⟩
    have hfresh := h.fresh
    rw [hexp] at hfresh
    unfold isExpired
    simp only [Bool.and_eq_false_iff, decide_eq_false_iff_not]
    rcases hfresh with h0 | hlater
    . exact .inl (not_not.mpr h0)
    . exact .inr (not_le.mpr hlater)

theorem doHashUpdate_live (hready : s.Ready) (h : s.LiveElem item e)
    : s.doHashUpdate opt = s.updateElem opt s.keyOff e := by
  have hfind : s.getHash.find2 s.mc.m_hkey s.mc.m_parms.key = s.keyOff := hready.find2
  unfold doHashUpdate
  dsimp only
  rw [hfind, if_neg h.ne, h.iter]
  dsimp only
  rw [if_neg (by simp [h.fresh])]

structure ArithOpt (s : McCall) (opt : LsMcUpdOpt) (incr : Bool) (delta : Nat) : Prop where
  cmd : opt.m_iFlags &&& LSMC_CMDMASK = arithCmd incr
  useCas : decide (opt.m_iFlags &&& LSMC_USECAS ≠ 0) = s.mc.m_mcparms.m_usecas
  withCas : opt.m_iFlags &&& LSMC_WITHCAS = 0
  value : opt.m_value = delta

def CasFits (s : McCall) (cas : Nat) : Prop :=
  cas = 0 ∨ ∀ e ∈ s.getHash.table.elem s.keyOff, e.cas = cas

theorem arithCmd_cases (incr : Bool)
    : arithCmd incr = MC_BINCMD_INCREMENT ∨ arithCmd incr = MC_BINCMD_DECREMENT := by
  cases incr
  . exact .inr rfl
  . exact .inl rfl

section Update

variable (hready : s.Ready) (h : s.LiveElem item e) (hopt : s.ArithOpt opt incr delta) (hcas : s.CasFits opt.m_cas)
include hready h hopt hcas

omit hready in
theorem noClash : ¬ ((opt.m_iFlags &&& LSMC_WITHCAS ≠ 0 ∨ opt.m_cas ≠ 0) ∧ e.cas ≠ opt.m_cas) := by
  rintro ⟨hwith | hasked, hne⟩
  . exact hwith hopt.withCas
  . rcases hcas with h0 | heq
    . exact hasked h0
    . exact hne (heq e h.elem)

theorem update_nonnumeric (hnum : item.number = none)
    : s.doHashUpdate opt = (s, { opt with m_iRetcode := .NONNUMERIC }, 0) := by
  rw [doHashUpdate_live hready h]
  unfold updateElem
  dsimp only
  rw [if_neg (noClash h hopt hcas)]
  simp only [hopt.cmd, hopt.useCas, arithCmd_cases, if_true]
  rw [number_ofBytes h.header, ← h.item, hnum]

theorem update_number (hnum : item.number = some num)
    : let text := decimal (counted incr num delta)
      let t := (s.setVal (s.mc.m_parms.val.len + text.length)).setItem ⟨item.exptime, item.flags⟩
      let r := s.getHash.doSet s.keyOff (s.getHash.m_hf s.mc.m_parms.key) t.mc.m_parms
      s.doHashUpdate opt = (t.setHash r.1, { opt with m_pMisc := text }, r.2) := by
  rw [doHashUpdate_live hready h]
  unfold updateElem
  dsimp only
  rw [if_neg (noClash h hopt hcas)]
  simp only [hopt.cmd, hopt.useCas, arithCmd_cases, if_true]
  rw [number_ofBytes h.header, ← h.item, hnum]
  dsimp only
  rw [arithmetic_counted, hopt.value, h.dataItem]
  unfold doUpdate
  rw [if_neg h.ne, ← hready.hkey]
  rfl

theorem put_counted (hnum : item.number = some num) (hlen : s.mc.m_parms.val.len = s.sizeofItem)
    (hkey : s.mc.m_parms.key.length ≤ KEY_MAXLEN) (h0 : (s.doHashUpdate opt).2.2 ≠ 0)
    : s.getHash.Put (s.doHashUpdate opt).1.getHash s.mc.m_parms.key (s.doHashUpdate opt).2.2
        (s.sizeofItem + (decimal (counted incr num delta)).length) := by
  obtain ⟨E, hrep⟩ := hready.sane.rep
  have hupdate := update_number hready h hopt hcas hnum
  have hshort : (decimal (counted incr num delta)).length ≤ 20 := length_decimal _
  generalize decimal (counted incr num delta) = text at hupdate hshort ⊢
  dsimp only at hupdate
  have hval : ((s.setVal (s.mc.m_parms.val.len + text.length)).setItem ⟨item.exptime, item.flags⟩).mc.m_parms =
      ⟨s.mc.m_parms.key, ⟨s.sizeofItem + text.length, none⟩⟩ := by
    rw [← hlen]
    rfl
  rw [hval] at hupdate
  generalize hr : s.getHash.doSet s.keyOff (s.getHash.m_hf s.mc.m_parms.key)
    ⟨s.mc.m_parms.key, ⟨s.sizeofItem + text.length, none⟩⟩ = r at hupdate
  rw [hupdate] at h0 ⊢
  have hsound : s.getHash.Sound s.mc.m_parms.key.length (s.sizeofItem + text.length) := by
    right
    have hround : ∀ n, round4 n ≤ n + 3 := fun n => by unfold round4; omega
    have hk := hround s.mc.m_parms.key.length
    have hv := hround (s.sizeofItem + text.length)
    have hextra : s.getHash.iterExtraSpace ≤ 24 := by
      unfold iterExtraSpace sizeofHElemLink sizeofTidLink
      split <;> split <;> omega
    have hitemSize : s.sizeofItem ≤ 24 := by
      unfold sizeofItem sizeofDataItem sizeofCas
      split <;> omega
    unfold KEY_MAXLEN at hkey
    unfold elementSize valueOff sizeofHElem sizeofVardata VALIDATE_MAXLEN
    omega
  have hdone := @doSet_put _ E s.mc.m_parms.key ⟨s.sizeofItem + text.length, none⟩ hrep hsound
  rw [show s.getHash.findKey s.mc.m_parms.key = s.keyOff from rfl, hr] at hdone
  rw [getHash_setHash]
  exact hdone h0

theorem item_counted (hnum : item.number = some num)
    (hkeep : item.exptime = 0 ∨ (LSMC_MAXDELTATIME : Int) < item.exptime)
    (hlen : s.mc.m_parms.val.len = s.sizeofItem) (hkey : s.mc.m_parms.key.length ≤ KEY_MAXLEN)
    (h0 : (s.doHashUpdate opt).2.2 ≠ 0) {w : McCall} (hhash : w.getHash = (s.doHashUpdate opt).1.getHash)
    (hoff : w.mc.m_iterOff = (s.doHashUpdate opt).2.2) (hret : w.mc.m_retcode = .NONE)
    (hitem : w.mc.m_item = (s.doHashUpdate opt).1.mc.m_item) (hw : w.mc.m_mcparms = s.mc.m_mcparms)
    : let text := decimal (counted incr num delta)
      s.getHash.KeepsOthers (w.dataItemUpdate text).getHash s.mc.m_parms.key ∧
      (w.dataItemUpdate text).item s.mc.m_parms.key = some (item.setNumber (counted incr num delta)) := by
  have hsize : w.sizeofItem = s.sizeofItem := by
    unfold sizeofItem
    rw [hw]
  have hput := put_counted hready h hopt hcas hnum hlen hkey h0
  rw [← hhash, ← hoff, ← hsize] at hput
  have hrange : -2 ^ 63 ≤ item.exptime ∧ item.exptime < 2 ^ 63 := by
    rw [h.exptime]
    exact exptime_range e
  have hflags : item.flags < 2 ^ 32 := by
    rw [h.flags]
    exact readLe_lt e.data 8 4
  have habs : absExptime w.mc.m_item (w.getHash.getLruLasttime w.mc.m_iterOff) = ⟨item.exptime, item.flags⟩ := by
    rw [hitem, update_number hready h hopt hcas hnum]
    show absExptime ⟨item.exptime, item.flags⟩ _ = _
    unfold absExptime
    rw [if_neg (by dsimp only; omega)]
  have hnot : ¬ (w.mc.m_retcode = .APPEND ∨ w.mc.m_retcode = .PREPEND) := by
    rw [hret]
    decide
  exact item_put hnot hput (List.take_length) habs hflags hrange

end Update

section Handlers

theorem arithmeticCmd_live (s : McCall) (arg delta : Nat)
    : let t := s.setVal (s.parmAdjLen 0)
      let r := t.doHashUpdate (t.arithOpt arg delta)
      (r.2.2 ≠ 0 → ∃ f, s.arithmeticCmd arg delta =
        ((((r.1.setIterOff r.2.2).stat f).setRetcode .NONE).doDataUpdate r.2.1.m_pMisc).respond
          (r.2.1.m_pMisc ++ bytes "\r\n")) ∧
      (r.2.2 = 0 → r.2.1.m_iRetcode = .NONNUMERIC → s.arithmeticCmd arg delta =
        (r.1.setIterOff r.2.2).respond
          (bytes "CLIENT_ERROR cannot increment or decrement non-numeric value\r\n")) := by
  intro t r
  constructor
  . intro h0
    unfold arithmeticCmd
    exact ⟨_, if_pos h0⟩
  . intro h0 hnum
    unfold arithmeticCmd
    dsimp only
    rw [show s.setVal (s.parmAdjLen 0) = t from rfl]
    change (if r.2.2 ≠ 0 then _ else if r.2.1.m_iRetcode = .NOTFOUND then _ else
      if r.2.1.m_iRetcode = .NONNUMERIC then _ else _) = _
    rw [if_neg (not_not.mpr h0), hnum, if_neg (by decide), if_pos rfl]
    rfl

theorem doBinArithmetic_live (s : McCall) (hdr : McBinCmdHdr) (cmd : Nat) (opt : LsMcUpdOpt)
    : let r := s.doHashUpdate opt
      (r.2.2 ≠ 0 → ∃ f, s.doBinArithmetic hdr cmd opt =
        ((r.1.setIterOff r.2.2).stat f).binNumRespond hdr r.2.1.m_pMisc
          (beBytes 8 ((myStrtoull r.2.1.m_pMisc).getD 0))) ∧
      (r.2.2 = 0 → r.2.1.m_iRetcode = .NONNUMERIC →
        s.doBinArithmetic hdr cmd opt = (r.1.setIterOff r.2.2).binErrRespond hdr .DELTABADVAL) := by
  intro r
  constructor
  . intro h0
    unfold doBinArithmetic
    exact ⟨_, if_pos h0⟩
  . intro h0 hnum
    unfold doBinArithmetic
    dsimp only
    change (if r.2.2 ≠ 0 then _ else if r.2.1.m_iRetcode = .NOTFOUND then _ else
      if r.2.1.m_iRetcode = .NONNUMERIC then _ else _) = _
    rw [if_neg (not_not.mpr h0), hnum, if_neg (by decide), if_pos rfl]

theorem retcode_written {pBuf : List UInt8} (h : s.getHash.offset2iterator s.mc.m_iterOff = some e)
    : (s.dataItemUpdate pBuf).mc.m_retcode = s.mc.m_retcode := by
  have hcas : ∀ (t : McCall) (e : LsShmHElem), (t.putCas e).1.mc.m_retcode = t.mc.m_retcode := by
    intro t e
    unfold putCas getCas
    split
    . dsimp only
      split <;> rfl
    . rfl
  unfold dataItemUpdate
  dsimp only
  rw [h]
  dsimp only
  split
  . exact hcas s _
  . exact hcas (s.setItem _) _

theorem outv_doDataUpdate_none {pBuf : List UInt8} (hkey : s.mc.m_parms.key ≠ []) (hoff : s.mc.m_iterOff ≠ 0)
    (hret : s.mc.m_retcode = .NONE) (h : s.getHash.offset2iterator s.mc.m_iterOff = some e)
    : (s.doDataUpdate pBuf).outv = s.outv := by
  have hoff' : (s.setKey []).mc.m_iterOff ≠ 0 := hoff
  have hcode : ((s.setKey []).dataItemUpdate pBuf).notifyChange.mc.m_retcode = .NONE := by
    rw [retcode_notifyChange]
    exact (retcode_written (s := s.setKey []) h).trans hret
  unfold doDataUpdate
  rw [if_neg (by simpa using hkey)]
  dsimp only
  rw [if_pos hoff', if_neg (not_not.mpr hcode)]
  simp

end Handlers

end McCall

inductive ArithReq
  | text (i : McInput)
  | bin (hdr : McBinCmdHdr)

namespace ArithReq

open McCall

variable (s : McCall) (incr : Bool)

def call : ArithReq → McCall
  | text i =>
    let u := ((s.arithmeticCall i).map (·.1)).getD s
    u.setVal (u.parmAdjLen 0)
  | bin hdr =>
    let u := ((s.placed hdr).setVal (binLen hdr)).swapCas
    (u.setVal (u.parmAdjLen 0)).binStart

def delta : ArithReq → Nat
  | text i => ((s.arithmeticCall i).map (·.2)).getD 0
  | bin _ => readBe s.conn.m_bufIncoming sizeofBinHdr 8

def opt (req : ArithReq) : LsMcUpdOpt :=
  match req with
  | text _ => (req.call s).arithOpt (arithCmd incr) (req.delta s)
  | bin hdr =>
    { (((s.placed hdr).setVal (binLen hdr)).swapCas).casOpt (arithCmd incr) hdr.cas with
      m_value := req.delta s }

def after : ArithReq → McCall
  | text i => (s.doCmdArithmetic i (arithCmd incr)).1
  | bin hdr => (s.processBinReq hdr 0).1

/--
The request is executed here: it is complete and well formed, it names a key, and the unique that it
may carry is that of the item.
-/
def Here : ArithReq → Prop
  | text i => (s.arithmeticCall i).isSome = true ∧ i.tok (i.adv i.pStr).2 ≠ []
  | bin hdr =>
    s.LocalReq hdr ∧ binCmd hdr = arithCmd incr ∧ hdr.totbody ≠ hdr.keylen ∧ hdr.extralen = 20 ∧
      sizeofBinHdr ≤ s.conn.m_bufIncoming.length ∧ ((bin hdr).call s).CasFits hdr.cas

def Stored (req : ArithReq) : Prop :=
  ((req.call s).doHashUpdate (req.opt s incr)).2.2 ≠ 0

instance (req : ArithReq) : Decidable (req.Stored s incr) :=
  inferInstanceAs (Decidable (_ ≠ _))

def Replied (n : Nat) : ArithReq → McCall → Prop
  | text i, r => r.outv = ((text i).call s).outv.text (decimal n ++ bytes "\r\n")
  | bin hdr, r => ∃ t : McCall, r = t.binRespond (t.binResHdr hdr 0 0 8 .SUCCESS ++ beBytes 8 n)

def Declined : ArithReq → McCall → Prop
  | text i, r => r.outv = ((text i).call s).outv.text
      (bytes "CLIENT_ERROR cannot increment or decrement non-numeric value\r\n")
  | bin hdr, r => ∃ t : McCall, t.outv = ((bin hdr).call s).outv ∧ r = t.binErrRespond hdr .DELTABADVAL

variable {s incr}

theorem arithOpt_flags (t : McCall) (opt : LsMcUpdOpt) (delta : Nat)
    (h : opt.m_iFlags = if t.mc.m_mcparms.m_usecas then arithCmd incr ||| LSMC_USECAS else arithCmd incr)
    (hvalue : opt.m_value = delta) : ArithOpt t opt incr delta := by
  refine ⟨?_, ?_, ?_, hvalue⟩
  . rw [h]
    cases t.mc.m_mcparms.m_usecas <;> cases incr <;> decide
  . rw [h]
    cases t.mc.m_mcparms.m_usecas <;> cases incr <;> decide
  . rw [h]
    cases t.mc.m_mcparms.m_usecas <;> cases incr <;> decide

theorem opt_arith (req : ArithReq) : ArithOpt (req.call s) (req.opt s incr) incr (req.delta s) := by
  cases req with
  | text i =>
    have htext : ∀ (t : McCall) (delta : Nat), ArithOpt t (t.arithOpt (arithCmd incr) delta) incr delta :=
      fun t delta => arithOpt_flags t _ delta rfl rfl
    unfold opt
    exact htext _ _
  | bin hdr =>
    have hbin : ∀ (u : McCall) (n cas delta : Nat), ArithOpt (u.setVal n).binStart
        { u.casOpt (arithCmd incr) cas with m_value := delta } incr delta :=
      fun u n cas delta => arithOpt_flags _ _ _ rfl rfl
    unfold opt call
    dsimp only
    exact hbin _ _ _ _

theorem key_arithmeticCall {i : McInput} {u : McCall} {d : Nat} (h : s.arithmeticCall i = some (u, d))
    : u.mc.m_parms.key = i.tok (i.adv i.pStr).2 ∧ (i.adv i.pStr).2.len ≤ KEY_MAXLEN ∧ u.hashes = s.hashes := by
  revert h
  unfold arithmeticCall
  dsimp only
  generalize hr : (s.setKey (i.tok (i.adv i.pStr).2)).canProcessNow (i.tok (i.adv i.pStr).2) = r
  have hkey : r.2 = true → r.1.mc.m_parms.key = i.tok (i.adv i.pStr).2 := by
    rw [← hr]
    unfold canProcessNow
    dsimp only
    split
    . exact fun h => nomatch h
    . exact fun _ => rfl
  have hhashes : r.1.hashes = s.hashes := by
    rw [← hr, hashes_canProcessNow, hashes_setKey]
  split
  . exact fun h => nomatch h
  next hcan =>
  split
  . exact fun h => nomatch h
  next hlen =>
  split
  . exact fun h => nomatch h
  . split
    . exact fun h => nomatch h
    next hfwd =>
    rintro ⟨⟩
    rw [fwdToRemote_not hfwd]
    rw [not_or] at hlen
    exact ⟨hkey (by simpa using hcan), by omega, hhashes⟩

theorem length_key (req : ArithReq) (h : req.Here s incr) : (req.call s).mc.m_parms.key.length ≤ KEY_MAXLEN := by
  cases req with
  | text i =>
    obtain ⟨⟨u, d⟩, hcall⟩ := Option.isSome_iff_exists.mp h.1
    obtain ⟨hkey, hlen, _⟩ := key_arithmeticCall hcall
    have hu : ((text i).call s).mc.m_parms.key = u.mc.m_parms.key := by
      unfold call
      dsimp only
      rw [hcall]
      rfl
    rw [hu, hkey]
    exact (List.length_take_le _ _).trans hlen
  | bin hdr => exact (List.length_take_le _ _).trans h.1.key

theorem key_ne_nil {i : McInput} (h : (text i).Here s incr) : ((text i).call s).mc.m_parms.key ≠ [] := by
  obtain ⟨⟨u, d⟩, hcall⟩ := Option.isSome_iff_exists.mp h.1
  have hu : ((text i).call s).mc.m_parms.key = u.mc.m_parms.key := by
    unfold call
    dsimp only
    rw [hcall]
    rfl
  rw [hu, (key_arithmeticCall hcall).1]
  exact h.2

theorem hashes_call (req : ArithReq) (h : req.Here s incr) : (req.call s).hashes = s.hashes := by
  cases req with
  | text i =>
    obtain ⟨⟨u, d⟩, hcall⟩ := Option.isSome_iff_exists.mp h.1
    unfold call
    dsimp only
    rw [hcall]
    exact (key_arithmeticCall hcall).2.2
  | bin hdr => rfl

theorem call_ready (req : ArithReq) (hintact : s.Intact) (h : req.Here s incr) : (req.call s).Ready := by
  cases req with
  | text i =>
    obtain ⟨⟨u, d⟩, hcall⟩ := Option.isSome_iff_exists.mp h.1
    have hu : u.Ready := arithmeticCall_ready hintact i hcall
    unfold call
    dsimp only
    rw [hcall]
    exact hu.setVal _
  | bin hdr =>
    have hu : (((s.placed hdr).setVal (binLen hdr)).swapCas).Ready :=
      ((hintact.placed hdr).1.setVal (binLen hdr)).swapCas
    have hdone : ∀ u : McCall, u.Ready → ∀ n, (u.setVal n).binStart.Ready := by
      intro u hu n
      exact hu.after ⟨rfl, rfl, rfl⟩ hu.sane rfl
    unfold call
    exact hdone _ hu _

theorem call_val (req : ArithReq) : (req.call s).mc.m_parms.val.len = (req.call s).sizeofItem := by
  have htext : ∀ u : McCall,
      (u.setVal (u.parmAdjLen 0)).mc.m_parms.val.len = (u.setVal (u.parmAdjLen 0)).sizeofItem :=
    fun u => Nat.zero_add _
  have hbin : ∀ u : McCall, (u.setVal (u.parmAdjLen 0)).binStart.mc.m_parms.val.len =
      (u.setVal (u.parmAdjLen 0)).binStart.sizeofItem := fun u => Nat.zero_add _
  cases req with
  | text i =>
    unfold call
    exact htext _
  | bin hdr =>
    unfold call
    dsimp only
    exact hbin _

theorem text_eq (i : McInput) (h : (text i).Here s incr)
    : ∃ u : McCall, ((text i).call s) = u.setVal (u.parmAdjLen 0) ∧
        (text i).after s incr = u.arithmeticCmd (arithCmd incr) ((text i).delta s) := by
  obtain ⟨⟨u, d⟩, hcall⟩ := Option.isSome_iff_exists.mp h.1
  refine ⟨u, ?_, ?_⟩
  . unfold call
    dsimp only
    rw [hcall]
    rfl
  . unfold after delta
    dsimp only
    rw [doCmdArithmetic_call hcall, hcall]
    rfl

theorem bin_eq (hdr : McBinCmdHdr) (h : (bin hdr).Here s incr)
    : (bin hdr).after s incr = ((bin hdr).call s).doBinArithmetic hdr (arithCmd incr) ((bin hdr).opt s incr) := by
  obtain ⟨hloc, hcmd, hbody, hextra, hlen, _⟩ := h
  have hsetup := binSetup_local hloc.key hloc.here
  rw [localSetup_value hbody, hcmd] at hsetup
  show (s.processBinReq hdr 0).1 = _
  rw [processBinReq_eq hloc.sasl, hsetup, hcmd]
  have hother : ¬ (arithCmd incr = MC_BINCMD_REPLACE ∨ arithCmd incr = MC_BINCMD_ADD ∨
        arithCmd incr = MC_BINCMD_SET) ∧
      ¬ (arithCmd incr = MC_BINCMD_TOUCH ∨ arithCmd incr = MC_BINCMD_GAT ∨ arithCmd incr = MC_BINCMD_GATK ∨
        arithCmd incr = MC_BINCMD_FLUSH) := by
    cases incr <;> decide
  have hvalue : readBe ((s.placed hdr).setVal (binLen hdr)).swapCas.conn.m_bufIncoming sizeofBinHdr 8 =
      readBe s.conn.m_bufIncoming sizeofBinHdr 8 :=
    readBe_congr (drop_swapCas (s := (s.placed hdr).setVal (binLen hdr)) hlen) 8 (Nat.le_refl _)
  unfold setupExtras
  dsimp only
  rw [if_neg hother.1, if_neg hother.2, if_pos (arithCmd_cases incr), if_neg (not_not.mpr hextra)]
  dsimp only
  rw [hvalue]
  cases incr <;> rfl

end ArithReq

/--
A request of a client of a process whose hashes are not corrupt, for an item that is there. The item
expires never or at a time that cannot be taken for a relative one.
-/
structure ArithCall where
  s : McCall
  incr : Bool
  req : ArithReq
  item : McItem
  intact : s.Intact
  here : req.Here s incr
  live : (req.call s).Live item
  kept : item.exptime = 0 ∨ (LSMC_MAXDELTATIME : Int) < item.exptime

namespace ArithCall

open McCall

variable (c : ArithCall)

def call : McCall :=
  c.req.call c.s

def after : McCall :=
  c.req.after c.s c.incr

def delta : Nat :=
  c.req.delta c.s

def Stored : Prop :=
  c.req.Stored c.s c.incr

instance : Decidable c.Stored :=
  inferInstanceAs (Decidable (c.req.Stored c.s c.incr))

def new : Option McItem :=
  c.after.itemAt c.call.hashId c.call.mc.m_parms.key

structure Becomes (n : Nat) : Prop where
  value : c.new = some (c.item.setNumber n)
  others : ∀ id k, id ≠ c.call.hashId ∨ k ≠ c.call.mc.m_parms.key → c.after.itemAt id k = c.s.itemAt id k
  replied : c.req.Replied c.s n c.after

variable {c}

theorem itemAt_call (id : HashId) (k : List UInt8) : c.call.itemAt id k = c.s.itemAt id k := by
  have hhashes : c.call.hashes = c.s.hashes := c.req.hashes_call c.here
  have hparms : c.call.mc.m_mcparms = c.s.mc.m_mcparms := congrArg HashView.parms hhashes
  unfold itemAt sizeofItem
  rw [hhashes, hparms]

theorem casFits : c.call.CasFits (c.req.opt c.s c.incr).m_cas := by
  have hhere := c.here
  unfold call
  cases hreq : c.req with
  | text i => exact .inl rfl
  | bin hdr =>
    rw [hreq] at hhere
    exact hhere.2.2.2.2.2

theorem ready : c.call.Ready :=
  c.req.call_ready c.intact c.here

theorem stat_mc (s : McCall) (f : LsMcStats → LsMcStats)
    : (s.stat f).mc.m_item = s.mc.m_item ∧ (s.stat f).mc.m_mcparms = s.mc.m_mcparms ∧
      (s.stat f).mc.m_iterOff = s.mc.m_iterOff := by
  unfold stat
  split
  . exact ⟨rfl, rfl, rfl⟩
  . exact ⟨rfl, rfl, rfl⟩

def update (c : ArithCall) : McCall × LsMcUpdOpt × Nat :=
  c.call.doHashUpdate (c.req.opt c.s c.incr)

section Written

variable {num : Nat} (hnum : c.item.number = some num) (h0 : c.Stored)
include hnum

theorem misc_update : c.update.2.1.m_pMisc = decimal (counted c.incr num c.delta) := by
  obtain ⟨e, he⟩ := c.live.elem c.ready
  have hupdate := update_number c.ready he c.req.opt_arith casFits hnum
  dsimp only at hupdate
  unfold update
  rw [hupdate]
  rfl

include h0

theorem found_update : ∃ e, c.update.1.getHash.offset2iterator c.update.2.2 = some e := by
  obtain ⟨e, he⟩ := c.live.elem c.ready
  have hput := put_counted c.ready he c.req.opt_arith casFits hnum c.req.call_val (c.req.length_key c.here) h0
  obtain ⟨E, hrep, hx⟩ := hput.out.elems
  obtain ⟨e', _, hiter, _⟩ := hrep.lookup.elem_some hx
  exact ⟨e', hiter⟩

theorem becomes_of_written {w : McCall} (hhash : w.getHash = c.update.1.getHash)
    (hoff : w.mc.m_iterOff = c.update.2.2) (hret : w.mc.m_retcode = .NONE) (hitem : w.mc.m_item = c.update.1.mc.m_item)
    (hw : w.mc.m_mcparms = c.update.1.mc.m_mcparms) (hone : OneHash w c.after) (hw_one : OneHash c.update.1 w)
    (hafter : c.after.getHash = (w.dataItemUpdate (decimal (counted c.incr num c.delta))).getHash)
    (hreplied : c.req.Replied c.s (counted c.incr num c.delta) c.after) : c.Becomes (counted c.incr num c.delta) := by
  obtain ⟨e, he⟩ := c.live.elem c.ready
  have hupdate : OneHash c.call c.update.1 := oneHash_doHashUpdate c.call (c.req.opt c.s c.incr)
  have hone := (hupdate.trans hw_one).trans hone
  obtain ⟨hkeeps, hnew⟩ := item_counted c.ready he c.req.opt_arith casFits hnum c.kept c.req.call_val
    (c.req.length_key c.here) h0 hhash hoff hret hitem (hw.trans hupdate.parms)
  have hsize : (w.dataItemUpdate (decimal (counted c.incr num c.delta))).sizeofItem = c.call.sizeofItem := by
    rw [(oneHash_dataItemUpdate w _).sizeofItem, hw_one.sizeofItem, hupdate.sizeofItem]
  refine ⟨?_, ?_, hreplied⟩
  . show c.after.itemAt c.call.hashId _ = _
    rw [hone.item, item_eq, hafter, hone.sizeofItem, ← hsize, ← item_eq]
    exact hnew
  . intro id k hk
    rw [← itemAt_call]
    by_cases hid : id = c.call.hashId
    . subst hid
      apply item_congr hone
      rw [hafter]
      exact hkeeps.others k (hk.resolve_left (not_not.mpr rfl))
    . exact hone.itemAt hid k

theorem becomes_of_stat (f : LsMcStats → LsMcStats) {w : McCall}
    (hw : w = (((c.update.1.setIterOff c.update.2.2).stat f).setRetcode .NONE).setKey [])
    (hone : OneHash w c.after)
    (hafter : c.after.getHash = (w.dataItemUpdate (decimal (counted c.incr num c.delta))).getHash)
    (hreplied : c.req.Replied c.s (counted c.incr num c.delta) c.after) : c.Becomes (counted c.incr num c.delta) := by
  obtain ⟨hitem, hparms, hoff⟩ := stat_mc (c.update.1.setIterOff c.update.2.2) f
  have hfirst : OneHash c.update.1 (c.update.1.setIterOff c.update.2.2) := .same rfl rfl
  have hlast : ∀ t : McCall, OneHash t ((t.setRetcode .NONE).setKey []) := fun _ => .same rfl rfl
  have hw_one : OneHash c.update.1 w := by
    rw [hw]
    exact (hfirst.trans (oneHash_stat _ f)).trans (hlast _)
  have hhash : w.getHash = c.update.1.getHash := by
    rw [hw]
    exact getHash_stat _ f
  exact becomes_of_written hnum h0 hhash (by rw [hw]; exact hoff) (by rw [hw]; rfl) (by rw [hw]; exact hitem)
    (by rw [hw]; exact hparms) hone hw_one hafter hreplied

theorem becomes_text {i : McInput} (hreq : c.req = .text i) : c.Becomes (counted c.incr num c.delta) := by
  obtain ⟨e, hfound⟩ := found_update hnum h0
  have hmisc := misc_update hnum
  have hhere : (ArithReq.text i).Here c.s c.incr := hreq ▸ c.here
  have hcall : (ArithReq.text i).call c.s = c.call := by
    unfold call
    rw [hreq]
  have hkey : c.update.1.mc.m_parms.key ≠ [] := by
    have hsame : c.update.1.mc.m_parms.key = c.call.mc.m_parms.key := (sameKey_doHashUpdate c.call _).key
    rw [hsame, ← hcall]
    exact ArithReq.key_ne_nil hhere
  have houtv : c.update.1.outv = c.call.outv := outv_doHashUpdate c.call _
  obtain ⟨u, hu, hafter⟩ := ArithReq.text_eq i hhere
  have hlive := (arithmeticCmd_live u (arithCmd c.incr) ((ArithReq.text i).delta c.s)).1
  have hsame : (u.setVal (u.parmAdjLen 0)).doHashUpdate ((u.setVal (u.parmAdjLen 0)).arithOpt (arithCmd c.incr)
      ((ArithReq.text i).delta c.s)) = c.update := by
    unfold update call
    rw [hreq, hu]
    unfold ArithReq.opt
    rw [hu]
  rw [hsame] at hlive
  obtain ⟨f, hend⟩ := hlive h0
  rw [← hafter, hmisc] at hend
  have hdone : c.after = (ArithReq.text i).after c.s c.incr := by
    unfold after
    rw [hreq]
  rw [← hdone] at hend
  generalize hw0 : ((c.update.1.setIterOff c.update.2.2).stat f).setRetcode .NONE = w at hend
  have hwoff : w.mc.m_iterOff = c.update.2.2 := by
    rw [← hw0]
    exact (stat_mc (c.update.1.setIterOff c.update.2.2) f).2.2
  have hwkey : w.mc.m_parms.key = c.update.1.mc.m_parms.key := by
    rw [← hw0]
    exact (sameKey_stat (c.update.1.setIterOff c.update.2.2) f).key
  have hwhash : w.getHash = c.update.1.getHash := by
    rw [← hw0]
    exact getHash_stat _ f
  have hwoutv : w.outv = c.call.outv := by
    rw [← hw0, ← houtv]
    exact outv_stat _ f
  have hwret : w.mc.m_retcode = .NONE := by
    rw [← hw0]
    rfl
  have hwne : w.mc.m_iterOff ≠ 0 := fun h => h0 (hwoff ▸ h)
  apply becomes_of_stat hnum h0 f (w := w.setKey []) (by rw [hw0])
  . rw [hend]
    have hkey0 : OneHash (w.setKey []) w := .same rfl rfl
    exact (hkey0.trans (oneHash_doDataUpdate w _)).trans (oneHash_respond _ _)
  . rw [hend, getHash_respond]
    exact (doDataUpdate_stored _ (hwkey ▸ hkey) hwne).1
  . rw [hreq]
    show c.after.outv = _
    have hiter : w.getHash.offset2iterator w.mc.m_iterOff = some e := by
      rw [hwhash, hwoff]
      exact hfound
    rw [hend, outv_respond, outv_doDataUpdate_none (hwkey ▸ hkey) hwne hwret hiter, hwoutv, hcall]

theorem becomes_bin {hdr : McBinCmdHdr} (hreq : c.req = .bin hdr) : c.Becomes (counted c.incr num c.delta) := by
  have hmisc := misc_update hnum
  have hhere : (ArithReq.bin hdr).Here c.s c.incr := hreq ▸ c.here
  have hafter := ArithReq.bin_eq hdr hhere
  have hdone : c.after = (ArithReq.bin hdr).after c.s c.incr := by
    unfold after
    rw [hreq]
  have hsame : ((ArithReq.bin hdr).call c.s).doHashUpdate ((ArithReq.bin hdr).opt c.s c.incr) = c.update := by
    unfold update call
    rw [hreq]
  have hlive := (doBinArithmetic_live ((ArithReq.bin hdr).call c.s) hdr (arithCmd c.incr)
    ((ArithReq.bin hdr).opt c.s c.incr)).1
  rw [hsame] at hlive
  obtain ⟨f, hend⟩ := hlive h0
  rw [← hafter, hmisc, ← hdone, myStrtoull_decimal (counted_lt (McItem.number_lt hnum))] at hend
  generalize hw0 : ((c.update.1.setIterOff c.update.2.2).stat f) = w at hend
  have hwoff : (w.setRetcode .NONE).mc.m_iterOff = c.update.2.2 := by
    rw [← hw0]
    exact (stat_mc (c.update.1.setIterOff c.update.2.2) f).2.2
  have hwne : (w.setRetcode .NONE).mc.m_iterOff ≠ 0 := fun h => h0 (hwoff ▸ h)
  unfold binNumRespond at hend
  apply becomes_of_stat hnum h0 f (w := (w.setRetcode .NONE).setKey []) (by rw [hw0])
  . rw [hend]
    have hkey0 : OneHash ((w.setRetcode .NONE).setKey []) (w.setRetcode .NONE) := .same rfl rfl
    exact (hkey0.trans (oneHash_doBinDataUpdate _ _ hdr)).trans (oneHash_binRespond _ _)
  . rw [hend, getHash_binRespond]
    exact (doBinDataUpdate_stored _ hdr hwne).1
  . rw [hreq, hend]
    exact ⟨_, rfl⟩

end Written

theorem becomes {num : Nat} (hnum : c.item.number = some num) (h0 : c.Stored)
    : c.Becomes (counted c.incr num c.delta) := by
  cases hreq : c.req with
  | text i => exact becomes_text hnum h0 hreq
  | bin hdr => exact becomes_bin hnum h0 hreq

theorem declined (hnum : c.item.number = none)
    : c.req.Declined c.s c.after ∧ ∀ id k, c.after.itemAt id k = c.s.itemAt id k := by
  obtain ⟨e, he⟩ := c.live.elem c.ready
  have hupdate : c.update = (c.call, { c.req.opt c.s c.incr with m_iRetcode := .NONNUMERIC }, 0) :=
    update_nonnumeric c.ready he c.req.opt_arith casFits hnum
  have hhere := c.here
  have hnone : OneHash c.call (c.call.setIterOff 0) := .same rfl rfl
  have hitems : OneHash c.call c.after → c.after.getHash = c.call.getHash →
      ∀ id k, c.after.itemAt id k = c.s.itemAt id k := by
    intro hone hhash id k
    rw [← itemAt_call]
    by_cases hid : id = c.call.hashId
    . subst hid
      exact item_congr hone (by rw [hhash])
    . exact hone.itemAt hid k
  cases hreq : c.req with
  | text i =>
    rw [hreq] at hhere
    obtain ⟨u, hu, hafter⟩ := ArithReq.text_eq i hhere
    have hcall : c.call = u.setVal (u.parmAdjLen 0) := by
      unfold call
      rw [hreq, hu]
    have hsame : (u.setVal (u.parmAdjLen 0)).doHashUpdate ((u.setVal (u.parmAdjLen 0)).arithOpt (arithCmd c.incr)
        ((ArithReq.text i).delta c.s)) = c.update := by
      unfold update
      rw [hcall, hreq]
      unfold ArithReq.opt
      rw [hu]
    have hlive := (arithmeticCmd_live u (arithCmd c.incr) ((ArithReq.text i).delta c.s)).2
    rw [hsame, hupdate, ← hafter] at hlive
    have hend := hlive rfl rfl
    have hdone : c.after = (ArithReq.text i).after c.s c.incr := by
      unfold after
      rw [hreq]
    rw [← hdone] at hend
    refine ⟨?_, hitems ?_ ?_⟩
    . show c.after.outv = _
      rw [hend, outv_respond, hu, ← hcall]
      rfl
    . rw [hend]
      exact hnone.trans (oneHash_respond _ _)
    . rw [hend, getHash_respond]
      rfl
  | bin hdr =>
    rw [hreq] at hhere
    have hafter := ArithReq.bin_eq hdr hhere
    have hcall : (ArithReq.bin hdr).call c.s = c.call := by
      unfold call
      rw [hreq]
    have hsame : ((ArithReq.bin hdr).call c.s).doHashUpdate ((ArithReq.bin hdr).opt c.s c.incr) = c.update := by
      unfold update
      rw [hcall, hreq]
    have hlive := (doBinArithmetic_live ((ArithReq.bin hdr).call c.s) hdr (arithCmd c.incr)
      ((ArithReq.bin hdr).opt c.s c.incr)).2
    rw [hsame, hupdate, ← hafter] at hlive
    have hend := hlive rfl rfl
    have hdone : c.after = (ArithReq.bin hdr).after c.s c.incr := by
      unfold after
      rw [hreq]
    rw [← hdone] at hend
    refine ⟨⟨_, ?_, hend⟩, hitems ?_ ?_⟩
    . rw [hcall]
      rfl
    . rw [hend]
      exact hnone.trans (oneHash_binErrRespond _ _ _)
    . rw [hend, getHash_binErrRespond]
      rfl

structure Follows (c₁ c₂ : ArithCall) : Prop where
  found : c₁.new = some c₂.item
  stored : c₂.Stored

def total (num : Nat) (cs : List ArithCall) : Nat :=
  cs.foldl (fun n c => counted c.incr n c.delta) num

theorem total_run {num : Nat} (hnum : c.item.number = some num) (h0 : c.Stored) {cs : List ArithCall}
    (h : (c :: cs).IsChain Follows)
    : ((c :: cs).getLast (List.cons_ne_nil c cs)).new = some (c.item.setNumber (total num (c :: cs))) := by
  induction cs generalizing c num with
  | nil => exact (becomes hnum h0).value
  | cons d cs ih =>
    obtain ⟨hfollows, hchain⟩ := List.isChain_cons_cons.mp h
    have hvalue := (becomes hnum h0).value.symm.trans hfollows.found
    have hitem : d.item = c.item.setNumber (counted c.incr num c.delta) := (Option.some.inj hvalue).symm
    have hlt : counted c.incr num c.delta < 2 ^ 64 := counted_lt (McItem.number_lt hnum)
    have hread : d.item.number = some (counted c.incr num c.delta) := by
      rw [hitem]
      exact McItem.number_setNumber _ hlt
    rw [List.getLast_cons (List.cons_ne_nil d cs), ih hread hfollows.stored hchain, hitem]
    rfl

theorem total_incr {cs : List ArithCall} (h : ∀ c ∈ cs, c.incr = true) {num : Nat} (hnum : num < 2 ^ 64)
    : total num cs = (num + (cs.map (·.delta)).sum) % 2 ^ 64 := by
  induction cs generalizing num with
  | nil => exact (Nat.mod_eq_of_lt hnum).symm
  | cons c cs ih =>
    have hstep : counted c.incr num c.delta = (num + c.delta) % 2 ^ 64 := by
      rw [h c (List.mem_cons_self ..)]
      rfl
    have hlt : counted c.incr num c.delta < 2 ^ 64 := counted_lt hnum
    have hrest := ih (fun d hd => h d (List.mem_cons_of_mem c hd)) hlt
    rw [List.map_cons, List.sum_cons, ← Nat.add_assoc, Nat.add_mod, ← Nat.mod_mod (num + c.delta),
      ← Nat.add_mod, ← hstep, ← hrest]
    rfl

end ArithCall

section Sample

open McCall

def sampleCount (incr : Bool) (value line : List UInt8) (n : Nat)
    (here : (ArithReq.text (sampleLine (sampleGrow value line) n)).Here (sampleGrow value line) incr)
    (live : ((ArithReq.text (sampleLine (sampleGrow value line) n)).call (sampleGrow value line)).Live ⟨0, 0, value⟩)
    : ArithCall where
  s := sampleGrow value line
  incr := incr
  req := .text (sampleLine (sampleGrow value line) n)
  item := ⟨0, 0, value⟩
  intact := sampleGrow_intact value line
  here := here
  live := live
  kept := .inl rfl

def sampleIncr : ArithCall :=
  sampleCount true (bytes "41") (bytes "incr a 1\r\n") 10 ⟨by decide +kernel, by decide +kernel⟩
    ⟨by decide +kernel, .inl rfl, by decide +kernel⟩

def sampleDecr : ArithCall :=
  sampleCount false (bytes "42") (bytes "decr a 50\r\n") 11 ⟨by decide +kernel, by decide +kernel⟩
    ⟨by decide +kernel, .inl rfl, by decide +kernel⟩

end Sample

end Lsmcd
