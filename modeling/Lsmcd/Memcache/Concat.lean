import Lsmcd.Memcache.Items
import Lsmcd.Memcache.LockSafe

/-!
`append` and `prepend` as concatenations, in both protocols.
-/

namespace Lsmcd

open LsShmHash

def growCmd (front : Bool) : Nat :=
  if front then MC_BINCMD_PREPEND else MC_BINCMD_APPEND

def growRet (front : Bool) : UpdRet :=
  if front then .PREPEND else .APPEND

structure Gap (s s' : LsShmHash) (key bs : List UInt8) (hdrLen n : Nat) (front : Bool) (off : Nat)
    : Prop where
  put : Put s s' key off (bs.length + n)
  elem : ∃ e, s'.table.elem off = some e ∧ (∀ i < hdrLen, e.data i = bs.getD i 0) ∧
    ∀ i, hdrLen ≤ i → i < bs.length → e.data (if front then n + i else i) = bs.getD i 0

namespace McCall

variable {s : McCall} {opt : LsMcUpdOpt} {front : Bool} {bs : List UInt8} {off : Nat}

theorem getMem_getD (data : Nat → UInt8) (p n i : Nat) (hi : i < n)
    : (getMem data p n).getD i 0 = data (p + i) := by
  unfold getMem
  simp [hi]

theorem gap_shiftData {s₀ hash : LsShmHash} {key : List UInt8} {n : Nat}
    (h : Gap s₀ hash key bs s.sizeofItem n false off) (hhdr : s.sizeofItem ≤ bs.length) {e : LsShmHElem}
    (he : hash.table.elem off = some e)
    : Gap s₀ (hash.setTable (·.setElem off (some (shiftData e s.mc.m_mcparms.m_usecas n)))) key bs
        s.sizeofItem n true off := by
  obtain ⟨e', he', hhead, hold⟩ := h.elem
  cases he.symm.trans he'
  have hlen : e.valLen = bs.length + n := h.put.len e he
  have hshift : shiftData e s.mc.m_mcparms.m_usecas n =
      { e with data := (shiftData e s.mc.m_mcparms.m_usecas n).data } := rfl
  have hoff : (mcIter2data e s.mc.m_mcparms.m_usecas).1 = s.sizeofItem := rfl
  have hcount : ((mcIter2data e s.mc.m_mcparms.m_usecas).2 - n).toNat = bs.length - s.sizeofItem := by
    have hval : (mcIter2data e s.mc.m_mcparms.m_usecas).2 = (e.valLen : Int) - s.sizeofItem := rfl
    omega
  have hdata : ∀ i, (shiftData e s.mc.m_mcparms.m_usecas n).data i =
      if s.sizeofItem + n ≤ i ∧ i < s.sizeofItem + n + (bs.length - s.sizeofItem) then
        (getMem e.data s.sizeofItem (bs.length - s.sizeofItem)).getD (i - (s.sizeofItem + n)) 0
      else e.data i := by
    intro i
    unfold shiftData
    dsimp only
    rw [hoff, hcount]
    rfl
  have hmoved := (h.put.setData he (shiftData e s.mc.m_mcparms.m_usecas n).data).1
  rw [← hshift] at hmoved
  refine ⟨hmoved, _, Function.update_self .., ?_, ?_⟩
  . intro i hi
    rw [hdata, if_neg (by omega), hhead i hi]
  . intro i hlo hhi
    rw [if_pos rfl, hdata, if_pos (by omega), getMem_getD _ _ _ _ (by omega)]
    rw [show s.sizeofItem + (n + i - (s.sizeofItem + n)) = i by omega]
    have hb := hold i hlo hhi
    rwa [if_neg (by simp)] at hb

theorem item_dataItemUpdate {s₀ : LsShmHash} {key d : List UInt8}
    (h : Gap s₀ s.getHash key bs s.sizeofItem d.length front s.mc.m_iterOff)
    (hhdr : s.sizeofItem ≤ bs.length) (hret : s.mc.m_retcode = growRet front)
    (hval : s.mc.m_parms.val.len = d.length) {pBuf : List UInt8} (hbuf : pBuf.take d.length = d)
    : KeepsOthers s₀ (s.dataItemUpdate pBuf).getHash key ∧
      (∃ E, Rep (s.dataItemUpdate pBuf).getHash E) ∧
      ((s.dataItemUpdate pBuf).getHash.valueOf key).map (.ofBytes s.sizeofItem) =
        some ((McItem.ofBytes s.sizeofItem bs).grow d front) := by
  obtain ⟨e, he, hhead, hold⟩ := h.elem
  have hlen : e.valLen = bs.length + d.length := h.put.len e he
  obtain ⟨E, hrep, hx⟩ := h.put.out.elems
  obtain ⟨e', he', hiter, _⟩ := hrep.lookup.elem_some hx
  cases he.symm.trans he'
  obtain ⟨hput, hnew⟩ := h.put.setData he (s.written pBuf e).data
  rw [← written_eq] at hput hnew
  rw [getHash_dataItemUpdate pBuf hiter]
  refine ⟨hput.toKeepsOthers, hput.out.elems.imp fun _ h => h.1, ?_⟩
  rw [hnew]
  have hsize : sizeofDataItem ≤ s.sizeofItem := by
    unfold sizeofItem
    split <;> omega
  have hdata := written_grow (s := s) (e := e) hret pBuf
  have hpos : s.growPos e front = if front then s.sizeofItem else bs.length := by
    unfold growPos
    rw [hval, hlen, Nat.add_sub_cancel]
  have hbyte : ∀ i < d.length, pBuf.getD i 0 = d.getD i 0 := by
    intro i hi
    rw [← hbuf]
    simp [hi]
  rw [hpos, hval] at hdata
  have hwlen : (s.written pBuf e).valLen = e.valLen := by
    rw [written_eq]
  rw [Option.map_some]
  congr 1
  apply McItem.ofBytes_grow hsize hhdr
  . rw [hwlen, hlen]
  . intro i hi
    rw [hdata i (.inl hi), if_neg (by split <;> omega), hhead i (by omega)]
  . intro i hlo hhi
    have hb := hold i hlo hhi
    cases front with
    | true =>
      simp only [if_true] at hb hdata ⊢
      rw [hdata _ (.inr (by omega)), if_neg (by omega), hb]
    | false =>
      simp only [Bool.false_eq_true, if_false] at hb hdata ⊢
      rw [hdata _ (.inr hlo), if_neg (by omega), hb]
  . intro i hi
    cases front with
    | true =>
      simp only [if_true] at hdata ⊢
      rw [hdata _ (.inr (by omega)), if_pos (by omega), ← hbyte i hi, Nat.add_sub_cancel_left]
    | false =>
      simp only [Bool.false_eq_true, if_false] at hdata ⊢
      rw [hdata _ (.inr (by omega)), if_pos (by omega), ← hbyte i hi, Nat.add_sub_cancel_left]

structure GrowOpt (s : McCall) (opt : LsMcUpdOpt) (front : Bool) : Prop where
  cmd : opt.m_iFlags &&& LSMC_CMDMASK = growCmd front
  useCas : decide (opt.m_iFlags &&& LSMC_USECAS ≠ 0) = s.mc.m_mcparms.m_usecas

structure SameSizes (s t : McCall) : Prop where
  parms : t.mc.m_parms = s.mc.m_parms
  mcparms : t.mc.m_mcparms = s.mc.m_mcparms

/--
What `doHashUpdate` does for an `append` or a `prepend`: it leaves the table as it was, removes an
expired element, or makes a gap for the data.
-/
structure GrowUpdate (s : McCall) (ret : UpdRet) (r : McCall × LsMcUpdOpt × Nat) (front : Bool) : Prop where
  sizes : SameSizes s r.1
  ret : r.2.2 ≠ 0 → r.2.1.m_iRetcode = ret
  refused : r.2.2 = 0 → Restored s.getHash r.1.getHash s.keyOff s.keyExpired
  made : r.2.2 ≠ 0 → s.keyExpired = false ∧ ∃ bs, s.getHash.valueOf s.mc.m_parms.key = some bs ∧
    Gap s.getHash r.1.getHash s.mc.m_parms.key bs s.sizeofItem s.mc.m_parms.val.len front r.2.2

theorem updateElem_grow {E : List Nat} (h : Rep s.getHash E) (hopt : GrowOpt s opt front)
    (hx : s.keyOff ∈ E) {e : LsShmHElem} (he : s.getHash.table.elem s.keyOff = some e)
    (hlive : s.keyExpired = false)
    (hkept : s.getHash.GrowKept s.keyOff s.mc.m_parms.val.len true)
    (hhdr : s.sizeofItem ≤ e.valLen)
    : GrowUpdate s opt.m_iRetcode (s.updateElem opt s.keyOff e) front := by
  have hsame : Restored s.getHash s.getHash s.keyOff s.keyExpired := .inl (.refl _)
  have hkey : e.key = s.mc.m_parms.key := by
    have hk := ((h.lookup.find2_cases s.mc.m_parms.key).resolve_left fun hnone => h.ne_zero hx hnone.1).2
    change s.getHash.table.keyOf s.keyOff = _ at hk
    simpa [LsShmHTable.keyOf, he] using hk
  have hbs : s.getHash.valueOf s.mc.m_parms.key = some e.getVal := by
    rw [← hkey]
    exact h.valueOf_of_mem hx he
  have hlen : e.getVal.length = e.valLen := Value.length_getVal e
  have hnum : ¬ (growCmd front = MC_BINCMD_INCREMENT ∨ growCmd front = MC_BINCMD_DECREMENT) := by
    cases front <;> decide
  have hgrow : growCmd front = MC_BINCMD_APPEND ∨ growCmd front = MC_BINCMD_PREPEND := by
    cases front
    . exact .inl rfl
    . exact .inr rfl
  unfold updateElem
  dsimp only
  split
  . exact ⟨⟨rfl, rfl⟩, fun h0 => absurd rfl h0, fun _ => hsame, fun h0 => absurd rfl h0⟩
  simp only [hopt.cmd, hnum, hgrow, if_true, if_false]
  generalize hr : s.getHash.iterGrowValue s.keyOff s.mc.m_parms.val.len false = r
  by_cases h0 : r.2 = 0
  . -- no block for the longer copy
    have hfail : Unchanged s.getHash r.1 := by
      have hout := iterGrowValue_outcome h hx he s.mc.m_parms.val.len false
      have hgood := hkept e he
      dsimp only at hout hgood
      rw [hr] at hout
      rcases hout with ⟨_, heq⟩ | ⟨hne, hbad, _⟩ | ⟨hne, _, t, _, hflag, hnew, heq⟩
      . rw [heq]
        exact unchanged_withShm h (Shm.grows_alloc2 _ _)
      . rw [(hgood hne).1] at hbad
        cases hbad
      . have hcases := iterGrowValue_cases h hx he s.mc.m_parms.val.len false ((hgood hne).2 rfl)
        dsimp only at hcases
        rw [hr] at hcases
        rcases hcases with ⟨hz, _⟩ | ⟨_, hbad, _⟩ | ⟨_, _, _, _, _, _, _, _, _, hdone⟩
        . exact absurd hz hne
        . rw [(hgood hne).1] at hbad
          cases hbad
        . rw [hdone] at h0
          exact absurd h0 hne
    rw [if_pos (.inl h0)]
    refine ⟨⟨rfl, rfl⟩, fun hne => absurd h0 hne, fun _ => .inl ?_, fun hne => absurd h0 hne⟩
    rw [getHash_setHash]
    exact hfail
  have hne : (s.getHash.iterGrowValue s.keyOff s.mc.m_parms.val.len false).2 ≠ 0 := hr ▸ h0
  have hsound : s.getHash.GrowSound s.keyOff s.mc.m_parms.val.len := by
    intro e' he'
    cases he.symm.trans he'
    have hout := iterGrowValue_outcome h hx he s.mc.m_parms.val.len false
    dsimp only at hout
    rcases hout with ⟨_, heq⟩ | ⟨_, _, heq⟩ | ⟨halloc, _, _⟩
    . rw [heq] at hne
      exact absurd rfl hne
    . rw [heq] at hne
      exact absurd rfl hne
    . exact (hkept e he halloc).2 rfl
  have hput : Put s.getHash (s.getHash.iterGrowValue s.keyOff s.mc.m_parms.val.len false).1 s.mc.m_parms.key
      (s.getHash.iterGrowValue s.keyOff s.mc.m_parms.val.len false).2 (e.getVal.length + s.mc.m_parms.val.len) :=
    (iterGrowValue_put h hbs hsound hne).1
  have hstored := (iterGrowValue_put h hbs hsound hne).2
  change ∀ e', (s.getHash.iterGrowValue s.keyOff s.mc.m_parms.val.len false).1.table.elem
    (s.getHash.iterGrowValue s.keyOff s.mc.m_parms.val.len false).2 = some e' → _ at hstored
  rw [hr] at hput hstored
  obtain ⟨E', hrep', hx'⟩ := hput.out.elems
  obtain ⟨e', he', hiter', _⟩ := hrep'.lookup.elem_some hx'
  have hgap : Gap s.getHash r.1 s.mc.m_parms.key e.getVal s.sizeofItem s.mc.m_parms.val.len false r.2 := by
    have hbyte : ∀ i < e.getVal.length, e'.data i = e.getVal.getD i 0 := by
      intro i hi
      have hst := (hstored e' he').2 i
      simp only [Value.grow, Value.ofBytes, Value.ofParm, ValParm.ofBytes, Option.map_some, Bool.false_eq_true,
        if_false, Nat.zero_le, true_and, Nat.zero_add, Nat.sub_zero] at hst
      exact hst (by omega) _ (by rw [if_pos hi])
    refine ⟨hput, e', he', fun i hi => hbyte i (by omega), fun i _ hi => ?_⟩
    rw [if_neg (by simp)]
    exact hbyte i hi
  cases front with
  | false =>
    rw [if_pos (.inr rfl)]
    refine ⟨⟨rfl, rfl⟩, fun _ => rfl, fun hz => absurd hz h0, fun _ => ⟨hlive, _, hbs, ?_⟩⟩
    rw [getHash_setHash]
    exact hgap
  | true =>
    rw [if_neg (by rw [not_or]; exact ⟨h0, by decide⟩), hiter', hopt.useCas]
    refine ⟨⟨rfl, rfl⟩, fun _ => rfl, fun hz => absurd hz h0, fun _ => ⟨hlive, _, hbs, ?_⟩⟩
    dsimp only
    rw [getHash_setHash]
    exact gap_shiftData hgap (by omega) he'

theorem doHashUpdate_grow (h : s.Ready) (hopt : GrowOpt s opt front)
    (hkept : s.getHash.GrowKept s.keyOff s.mc.m_parms.val.len true)
    (hhdr : ∀ bs ∈ s.getHash.valueOf s.mc.m_parms.key, s.sizeofItem ≤ bs.length)
    : GrowUpdate s opt.m_iRetcode (s.doHashUpdate opt) front := by
  obtain ⟨E, hrep⟩ := h.sane.rep
  have hfind : s.getHash.find2 s.mc.m_hkey s.mc.m_parms.key = s.keyOff := h.find2
  have hsame : Restored s.getHash s.getHash s.keyOff s.keyExpired := .inl (.refl _)
  unfold doHashUpdate
  dsimp only
  rw [hfind]
  by_cases hz : s.keyOff = 0
  . rw [if_pos hz]
    exact ⟨⟨rfl, rfl⟩, fun h0 => absurd rfl h0, fun _ => hsame, fun h0 => absurd rfl h0⟩
  have hx : s.keyOff ∈ E := ((hrep.lookup.find2_cases s.mc.m_parms.key).resolve_left fun hnone => hz hnone.1).1
  obtain ⟨e, he, hiter, _⟩ := hrep.lookup.elem_some hx
  have hexpired := keyExpired_of_mem hz he
  rw [if_neg hz, hiter]
  dsimp only
  by_cases hexp : isExpired s.getHash e = true
  . rw [if_pos hexp]
    refine ⟨⟨rfl, rfl⟩, fun h0 => absurd rfl h0, fun _ => .inr ⟨hexpired.trans hexp, ?_⟩, fun h0 => absurd rfl h0⟩
    rw [getHash_setHash]
    exact .refl _
  . rw [if_neg hexp]
    apply updateElem_grow hrep hopt hx he (hexpired.trans (by simpa using hexp)) hkept
    have hkey : e.key = s.mc.m_parms.key := by
      have hk := ((hrep.lookup.find2_cases s.mc.m_parms.key).resolve_left fun hnone => hz hnone.1).2
      change s.getHash.table.keyOf s.keyOff = _ at hk
      simpa [LsShmHTable.keyOf, he] using hk
    have hbs := hhdr e.getVal (by rw [← hkey]; exact hrep.valueOf_of_mem hx he)
    rwa [Value.length_getVal] at hbs

structure Grown (t after : McCall) (key d : List UInt8) (front : Bool) : Prop where
  value : ∃ item, t.item key = some item ∧ after.item key = some (item.grow d front)
  others : ∀ id k, id ≠ t.hashId ∨ k ≠ key → after.itemAt id k = t.itemAt id k

/--
The items are what they were, but an expired one of the key may be gone.
-/
def NotGrown (t after : McCall) : Prop :=
  ∀ id k, after.itemAt id k = t.itemAt id k ∨
    id = t.hashId ∧ k = t.mc.m_parms.key ∧ t.keyExpired = true ∧ after.itemAt id k = none

section Outcome

variable {t after : McCall} {ret : UpdRet} {r : McCall × LsMcUpdOpt × Nat} {d : List UInt8}

theorem item_congr (hone : OneHash t after) {k : List UInt8}
    (hvalue : after.getHash.valueOf k = t.getHash.valueOf k) : after.itemAt t.hashId k = t.itemAt t.hashId k := by
  rw [hone.item, item_eq, hvalue, hone.sizeofItem]
  rfl

theorem notGrown_of_restored (h : t.Ready) (hone : OneHash t after)
    (hres : Restored t.getHash after.getHash t.keyOff t.keyExpired) : NotGrown t after := by
  obtain ⟨E, hrep⟩ := h.sane.rep
  intro id k
  by_cases hid : id = t.hashId
  swap
  . exact .inl (hone.itemAt hid k)
  subst hid
  rcases hres with hsame | ⟨hexp, hsame⟩
  . exact .inl (item_congr hone (hsame.value k))
  . -- the expired element was taken out
    have hne : t.keyOff ≠ 0 := by
      intro hz
      simp [keyExpired, hz] at hexp
    obtain ⟨hx, hkx⟩ := (hrep.lookup.find2_cases t.mc.m_parms.key).resolve_left fun hnone => hne hnone.1
    obtain ⟨hkeeps, hnone⟩ := erase_keepsOthers hrep hx hkx
    by_cases hk : k = t.mc.m_parms.key
    . right
      refine ⟨rfl, hk, hexp, ?_⟩
      rw [hone.item, item_eq, hsame.value, hk, show t.keyOff = t.getHash.find2 _ _ from rfl, hnone]
      rfl
    . exact .inl (item_congr hone ((hsame.value k).trans (hkeeps.others k hk)))

theorem grown_of_made (hup : GrowUpdate t ret r front) (h0 : r.2.2 ≠ 0) (hone : OneHash t after)
    (hhdr : ∀ bs ∈ t.getHash.valueOf t.mc.m_parms.key, t.sizeofItem ≤ bs.length)
    (hd : t.mc.m_parms.val.len = d.length) {w : McCall} (hhash : w.getHash = r.1.getHash)
    (hoff : w.mc.m_iterOff = r.2.2) (hret : w.mc.m_retcode = growRet front)
    (hval : w.mc.m_parms.val.len = d.length) (hparms : w.mc.m_mcparms = t.mc.m_mcparms) {pBuf : List UInt8}
    (hbuf : pBuf.take d.length = d) (hafter : after.getHash = (w.dataItemUpdate pBuf).getHash)
    : Grown t after t.mc.m_parms.key d front := by
  obtain ⟨_, bs, hbs, hgap⟩ := hup.made h0
  have hsize : w.sizeofItem = t.sizeofItem := by
    unfold sizeofItem
    rw [hparms]
  rw [← hhash, ← hoff, hd, ← hsize] at hgap
  obtain ⟨hkeeps, _, hnew⟩ := item_dataItemUpdate hgap (hsize ▸ hhdr bs hbs) hret hval hbuf
  constructor
  . refine ⟨.ofBytes t.sizeofItem bs, ?_, ?_⟩
    . rw [item_eq, hbs]
      rfl
    . rw [item_eq, hafter, hone.sizeofItem, ← hsize]
      exact hnew
  . intro id k hk
    by_cases hid : id = t.hashId
    . subst hid
      apply item_congr hone
      rw [hafter, hkeeps.others k (hk.resolve_left (not_not.mpr rfl))]
    . exact hone.itemAt hid k

end Outcome

section Answers

variable {s : McCall}

theorem getHash_notifyChange (s : McCall) : s.notifyChange.getHash = s.getHash := by
  unfold notifyChange
  split <;> rfl

theorem doDataUpdate_stored (pBuf : List UInt8) (hkey : s.mc.m_parms.key ≠ []) (hoff : s.mc.m_iterOff ≠ 0)
    : (s.doDataUpdate pBuf).getHash = ((s.setKey []).dataItemUpdate pBuf).getHash ∧
      (((s.setKey []).dataItemUpdate pBuf).notifyChange.mc.m_retcode ≠ .NONE →
        ∃ t : McCall, s.doDataUpdate pBuf = (t.respond (bytes "STORED\r\n")).setIterOff 0) := by
  have hoff' : (s.setKey []).mc.m_iterOff ≠ 0 := hoff
  unfold doDataUpdate
  rw [if_neg (by simpa using hkey)]
  dsimp only
  rw [if_pos hoff']
  constructor
  . split
    . exact (getHash_respond _ _).trans (getHash_notifyChange _)
    . exact getHash_notifyChange _
  . intro hret
    rw [if_pos hret]
    exact ⟨_, rfl⟩

theorem doBinDataUpdate_stored (pBuf : List UInt8) (hdr : McBinCmdHdr) (hoff : s.mc.m_iterOff ≠ 0)
    : (s.doBinDataUpdate pBuf hdr).getHash = ((s.setKey []).dataItemUpdate pBuf).getHash ∧
      ∃ t : McCall, s.doBinDataUpdate pBuf hdr = (t.binOkRespond hdr).setIterOff 0 := by
  have hoff' : (s.setKey []).mc.m_iterOff ≠ 0 := hoff
  unfold doBinDataUpdate
  dsimp only
  rw [if_pos hoff']
  exact ⟨(getHash_binRespond _ _).trans (getHash_notifyChange _), _, rfl⟩

theorem doDataUpdate_refused (pBuf : List UInt8) (hoff : s.mc.m_iterOff = 0)
    : ∃ (t : McCall) (str : List UInt8), str ≠ bytes "STORED\r\n" ∧ s.doDataUpdate pBuf = t.respond str := by
  have hoff' : ¬ (s.setKey []).mc.m_iterOff ≠ 0 := not_not.mpr hoff
  unfold doDataUpdate
  dsimp only
  rw [if_neg hoff']
  split
  . exact ⟨_, _, by decide, rfl⟩
  . split
    . exact ⟨_, _, by decide, rfl⟩
    . split
      . exact ⟨_, _, by decide, rfl⟩
      . exact ⟨_, _, by decide, rfl⟩

theorem doBinDataUpdate_refused (pBuf : List UInt8) (hdr : McBinCmdHdr) (hoff : s.mc.m_iterOff = 0)
    : ∃ (t : McCall) (err : McBinStat), s.doBinDataUpdate pBuf hdr = t.binErrRespond hdr err := by
  have hoff' : ¬ (s.setKey []).mc.m_iterOff ≠ 0 := not_not.mpr hoff
  unfold doBinDataUpdate
  dsimp only
  rw [if_neg hoff']
  split
  . exact ⟨_, _, rfl⟩
  . split
    . exact ⟨_, _, rfl⟩
    . split
      . exact ⟨_, _, rfl⟩
      . exact ⟨_, _, rfl⟩

end Answers

end McCall

inductive GrowReq
  | text (i : McInput)
  | bin (hdr : McBinCmdHdr)

namespace GrowReq

open McCall

variable (s : McCall) (front : Bool)

def start : GrowReq → McCall
  | text i =>
    let a := updateArgs i (growCmd front)
    ((s.updateCall i (growCmd front)).getD s).storeStart (growCmd front) a.flags a.exptime a.length.toNat
  | bin hdr => ((s.placed hdr).setVal (binLen hdr)).swapCas

def ready (req : GrowReq) : McCall :=
  let t := ((req.start s front).chkMemSz (growCmd front)).1
  match req with
  | text _ => t.stat fun st => { st with set_cmds := st.set_cmds + 1 }
  | bin _ => t.binStart.stat fun st => { st with set_cmds := st.set_cmds + 1 }

def opt (req : GrowReq) : LsMcUpdOpt :=
  match req with
  | text i => (req.ready s front).storeOpt (growCmd front) (updateArgs i (growCmd front)).cas
  | bin hdr =>
    { ((req.start s front).chkMemSz (growCmd front)).1.casOpt (growCmd front) hdr.cas with
      m_iRetcode := growRet front }

def Stored (req : GrowReq) : Prop :=
  ((req.start s front).chkMemSz (growCmd front)).2 = .SUCCESS ∧
    ((req.ready s front).doHashUpdate (req.opt s front)).2.2 ≠ 0

instance (req : GrowReq) : Decidable (req.Stored s front) :=
  inferInstanceAs (Decidable (_ ∧ _))

def data : GrowReq → List UInt8
  | text i => i.data.take (updateArgs i (growCmd front)).length.toNat
  | bin hdr => (s.conn.m_bufIncoming.drop (sizeofBinHdr + hdr.extralen + hdr.keylen)).take (binLen hdr)

def after : GrowReq → McCall
  | text i => (s.doCmdUpdate i (growCmd front)).1
  | bin hdr => (s.processBinReq hdr 0).1

def Here : GrowReq → Prop
  | text i =>
    (s.updateCall i (growCmd front)).isSome = true ∧ i.tok (updateArgs i (growCmd front)).key ≠ [] ∧
      (updateArgs i (growCmd front)).length.toNat ≤ i.data.length
  | bin hdr =>
    s.LocalReq hdr ∧ binCmd hdr = growCmd front ∧ hdr.totbody ≠ hdr.keylen ∧
      sizeofBinHdr + hdr.extralen + hdr.keylen + binLen hdr ≤ s.conn.m_bufIncoming.length

/--
The element of the key has its header, and it can be grown without an alarm.
-/
structure Grows (req : GrowReq) : Prop where
  header : ∀ bs ∈ (req.ready s front).getHash.valueOf (req.ready s front).mc.m_parms.key,
    (req.ready s front).sizeofItem ≤ bs.length
  kept : (req.ready s front).getHash.GrowKept (req.ready s front).keyOff
    (req.ready s front).mc.m_parms.val.len true

def Acknowledged : GrowReq → McCall → Prop
  | text _, r => ∃ t : McCall, r = (t.respond (bytes "STORED\r\n")).setIterOff 0
  | bin hdr, r => ∃ t : McCall, r = (t.binOkRespond hdr).setIterOff 0

def Declined : GrowReq → McCall → Prop
  | text _, r => ∃ (t : McCall) (str : List UInt8), str ≠ bytes "STORED\r\n" ∧ r = t.respond str
  | bin hdr, r => ∃ (t : McCall) (err : McBinStat), r = t.binErrRespond hdr err

/--
What `append` and `prepend` do to the items. `chkMemSz` may remove items of the hash first. A request
that is stored adds its data to the value of its key; one that is refused changes nothing, but an
expired item of its key is removed.
-/
structure Concatenates (req : GrowReq) : Prop where
  evicts : ∀ id k, (req.ready s front).itemAt id k = s.itemAt id k ∨
    id = (req.ready s front).hashId ∧ (req.ready s front).itemAt id k = none
  stored : req.Stored s front → Grown (req.ready s front) (req.after s front)
    (req.ready s front).mc.m_parms.key (req.data s front) front
  refused : ¬ req.Stored s front → NotGrown (req.ready s front) (req.after s front)
  acknowledged : req.Stored s front → req.Acknowledged (req.after s front)
  declined : ¬ req.Stored s front → req.Declined (req.after s front)

variable {s front}

theorem hashes_updateCall {i : McInput} {arg : Nat} {u : McCall} (h : s.updateCall i arg = some u)
    : u.hashes = s.hashes := by
  revert h
  unfold updateCall
  dsimp only
  generalize hr : (s.setKey (i.tok (updateArgs i arg).key)).canProcessNow (i.tok (updateArgs i arg).key) = r
  have hcan : r.1.hashes = s.hashes := by
    rw [← hr, hashes_canProcessNow, hashes_setKey]
  split
  . exact fun h => nomatch h
  . split
    . exact fun h => nomatch h
    . split
      . exact fun h => nomatch h
      . split
        . exact fun h => nomatch h
        . split
          . exact fun h => nomatch h
          . rintro ⟨⟩
            exact hcan

theorem hashes_start (req : GrowReq) (h : req.Here s front) : (req.start s front).hashes = s.hashes := by
  cases req with
  | text i =>
    obtain ⟨u, hcall⟩ := Option.isSome_iff_exists.mp h.1
    show (((s.updateCall i (growCmd front)).getD s).storeStart _ _ _ _).hashes = _
    rw [hcall]
    have hu : u.hashes = s.hashes := hashes_updateCall hcall
    exact hu
  | bin hdr => rfl

theorem ready_item (req : GrowReq) (h : (req.start s front).Ready) (hhere : req.Here s front)
    : (req.ready s front).Ready ∧
      (req.ready s front).mc.m_parms = (req.start s front).mc.m_parms ∧
      OneHash ((req.start s front).chkMemSz (growCmd front)).1 (req.ready s front) ∧
      (req.ready s front).getHash = ((req.start s front).chkMemSz (growCmd front)).1.getHash ∧
      ∀ id k, (req.ready s front).itemAt id k = s.itemAt id k ∨
        id = (req.ready s front).hashId ∧ (req.ready s front).itemAt id k = none := by
  obtain ⟨hready, hthin⟩ := h.chkMemSz (growCmd front)
  obtain ⟨hparms, _, _⟩ := @chkMemSz_frame (req.start s front) (growCmd front)
  have hstat : ∀ t : McCall, (t.stat fun st => { st with set_cmds := st.set_cmds + 1 }).mc.m_parms =
      t.mc.m_parms := by
    intro t
    unfold stat
    split <;> rfl
  have hfields : (req.ready s front).Ready ∧
      (req.ready s front).mc.m_parms = (req.start s front).mc.m_parms ∧
      OneHash ((req.start s front).chkMemSz (growCmd front)).1 (req.ready s front) ∧
      (req.ready s front).getHash = ((req.start s front).chkMemSz (growCmd front)).1.getHash := by
    cases req with
    | text i =>
      exact ⟨hready.stat fun st => { st with set_cmds := st.set_cmds + 1 }, (hstat _).trans hparms,
        oneHash_stat _ fun st => { st with set_cmds := st.set_cmds + 1 }, getHash_stat _ _⟩
    | bin hdr =>
      have hbin : OneHash (((GrowReq.bin hdr).start s front).chkMemSz (growCmd front)).1
          (((GrowReq.bin hdr).start s front).chkMemSz (growCmd front)).1.binStart := .same rfl rfl
      have hbinReady : (((GrowReq.bin hdr).start s front).chkMemSz (growCmd front)).1.binStart.Ready :=
        hready.after ⟨rfl, rfl, rfl⟩ hready.sane rfl
      exact ⟨hbinReady.stat fun st => { st with set_cmds := st.set_cmds + 1 }, (hstat _).trans hparms,
        hbin.trans (oneHash_stat _ fun st => { st with set_cmds := st.set_cmds + 1 }), getHash_stat _ _⟩
  obtain ⟨h₁, h₂, h₃, h₄⟩ := hfields
  refine ⟨h₁, h₂, h₃, h₄, fun id k => ?_⟩
  have hone := (oneHash_chkMemSz _ _).trans h₃
  have hstart : (req.start s front).itemAt id k = s.itemAt id k := by
    have hhashes := req.hashes_start hhere
    unfold McCall.itemAt sizeofItem
    rw [hhashes, show (req.start s front).mc.m_mcparms = s.mc.m_mcparms from congrArg HashView.parms hhashes]
  by_cases hid : id = (req.start s front).hashId
  . subst hid
    rcases hthin.values k with heq | hnone
    . exact .inl ((item_congr hone (by rw [h₄, heq])).trans hstart)
    . right
      refine ⟨hone.hashId.symm, ?_⟩
      rw [hone.item, item_eq, h₄, hnone]
      rfl
  . exact .inl ((hone.itemAt hid k).trans hstart)

theorem growCmd_cases (front : Bool)
    : growCmd front = MC_BINCMD_APPEND ∨ growCmd front = MC_BINCMD_PREPEND := by
  cases front
  . exact .inl rfl
  . exact .inr rfl

theorem growOpt_flags (t : McCall) (opt : LsMcUpdOpt)
    (h : opt.m_iFlags = if t.mc.m_mcparms.m_usecas then growCmd front ||| LSMC_USECAS else growCmd front)
    : GrowOpt t opt front := by
  constructor
  . rw [h]
    cases t.mc.m_mcparms.m_usecas <;> cases front <;> decide
  . rw [h]
    cases t.mc.m_mcparms.m_usecas <;> cases front <;> decide

theorem opt_grow (req : GrowReq) (h : (req.start s front).Ready) (hhere : req.Here s front)
    : GrowOpt (req.ready s front) (req.opt s front) front := by
  obtain ⟨_, _, hone, _⟩ := req.ready_item h hhere
  apply growOpt_flags
  cases req with
  | text i =>
    show (if (growCmd front = MC_BINCMD_APPEND ∨ growCmd front = MC_BINCMD_PREPEND) ∧
      ((GrowReq.text i).ready s front).mc.m_mcparms.m_usecas = true then _ else _) = _
    simp only [growCmd_cases, true_and]
  | bin hdr =>
    show (if ((((GrowReq.bin hdr).start s front).chkMemSz (growCmd front)).1).mc.m_mcparms.m_usecas = true
      then _ else _) = _
    rw [hone.parms]

theorem storeOp_grow (t : McCall) (cas : Nat)
    : t.storeOp (growCmd front) cas =
        (((t.doHashUpdate (t.storeOpt (growCmd front) cas)).1.setIterOff
          (t.doHashUpdate (t.storeOpt (growCmd front) cas)).2.2).setRetcode (growRet front)) := by
  cases front <;> rfl

theorem text_after (i : McInput) (h : (GrowReq.text i).Here s front)
    : let t := (GrowReq.text i).ready s front
      let r := t.doHashUpdate ((GrowReq.text i).opt s front)
      ((((GrowReq.text i).start s front).chkMemSz (growCmd front)).2 = .SUCCESS →
        (GrowReq.text i).after s front =
          (((r.1.setIterOff r.2.2).setRetcode (growRet front)).setNeeded
            (updateArgs i (growCmd front)).length.toNat).doDataUpdate i.data) ∧
      ((((GrowReq.text i).start s front).chkMemSz (growCmd front)).2 ≠ .SUCCESS →
        ∃ str, str ≠ bytes "STORED\r\n" ∧ (GrowReq.text i).after s front =
          (((GrowReq.text i).start s front).chkMemSz (growCmd front)).1.respond str) := by
  intro t r
  obtain ⟨u, hcall⟩ := Option.isSome_iff_exists.mp h.1
  have hstart : (GrowReq.text i).start s front = u.storeStart (growCmd front) (updateArgs i (growCmd front)).flags
      (updateArgs i (growCmd front)).exptime (updateArgs i (growCmd front)).length.toNat := by
    show ((s.updateCall i (growCmd front)).getD s).storeStart _ _ _ _ = _
    rw [hcall]
    rfl
  have hafter : (GrowReq.text i).after s front = (u.storeCmd i (growCmd front) (updateArgs i (growCmd front)).flags
      (updateArgs i (growCmd front)).exptime (updateArgs i (growCmd front)).length.toNat
      (updateArgs i (growCmd front)).cas).1 := by
    show (s.doCmdUpdate i (growCmd front)).1 = _
    rw [doCmdUpdate_call hcall]
  rw [hafter]
  unfold storeCmd
  dsimp only
  rw [show ((u.setItem _).setVal _) = (GrowReq.text i).start s front from hstart.symm]
  constructor
  . intro hs
    have hop : ((GrowReq.text i).ready s front).storeOp (growCmd front) (updateArgs i (growCmd front)).cas =
        (r.1.setIterOff r.2.2).setRetcode (growRet front) := storeOp_grow _ _
    rw [if_neg (by rw [hs]; decide), if_neg (not_not.mpr hs)]
    exact congrArg (fun w : McCall => (w.setNeeded (updateArgs i (growCmd front)).length.toNat).doDataUpdate i.data) hop
  . intro hs
    by_cases hbig : (((GrowReq.text i).start s front).chkMemSz (growCmd front)).2 = .E2BIG
    . rw [if_pos hbig]
      exact ⟨bytes "SERVER_ERROR object too large for cache\r\n", by decide, rfl⟩
    . rw [if_neg hbig, if_pos hs]
      exact ⟨bytes "SERVER_ERROR out of memory storing object\r\n", by decide, rfl⟩

theorem runBinCmd_grow (t : McCall) (hdr : McBinCmdHdr) (pVal : Nat) (opt : LsMcUpdOpt)
    : let r := (t.binStart.stat fun st => { st with set_cmds := st.set_cmds + 1 }).doHashUpdate opt
      (t.runBinCmd hdr (growCmd front) pVal opt).1 =
        ((r.1.setIterOff r.2.2).setRetcode
          (if r.2.1.m_iRetcode = .NOTFOUND then .DONE else r.2.1.m_iRetcode)).doBinDataUpdate
            (t.conn.m_bufIncoming.drop pVal) hdr := by
  cases front <;> rfl

theorem bin_after (hdr : McBinCmdHdr) (h : (GrowReq.bin hdr).Here s front)
    : let t := (GrowReq.bin hdr).ready s front
      let r := t.doHashUpdate ((GrowReq.bin hdr).opt s front)
      let ret := if r.2.1.m_iRetcode = .NOTFOUND then UpdRet.DONE else r.2.1.m_iRetcode
      ((((GrowReq.bin hdr).start s front).chkMemSz (growCmd front)).2 = .SUCCESS →
        (GrowReq.bin hdr).after s front =
          ((r.1.setIterOff r.2.2).setRetcode ret).doBinDataUpdate
            (s.conn.m_bufIncoming.drop (sizeofBinHdr + hdr.extralen + hdr.keylen)) hdr) ∧
      ((((GrowReq.bin hdr).start s front).chkMemSz (growCmd front)).2 ≠ .SUCCESS →
        ∃ err, (GrowReq.bin hdr).after s front =
          (((GrowReq.bin hdr).start s front).chkMemSz (growCmd front)).1.binErrRespond hdr err) := by
  intro t r ret
  obtain ⟨hloc, hcmd, hbody, hlen⟩ := h
  have hsetup := binSetup_local hloc.key hloc.here
  rw [localSetup_value hbody, hcmd] at hsetup
  have hafter : (GrowReq.bin hdr).after s front = (s.processBinReq hdr 0).1 := rfl
  rw [hafter, processBinReq_eq hloc.sasl, hsetup, hcmd]
  have hother : ¬ (growCmd front = MC_BINCMD_REPLACE ∨ growCmd front = MC_BINCMD_ADD ∨ growCmd front = MC_BINCMD_SET) ∧
      ¬ (growCmd front = MC_BINCMD_TOUCH ∨ growCmd front = MC_BINCMD_GAT ∨ growCmd front = MC_BINCMD_GATK ∨
        growCmd front = MC_BINCMD_FLUSH) ∧
      ¬ (growCmd front = MC_BINCMD_INCREMENT ∨ growCmd front = MC_BINCMD_DECREMENT) := by
    cases front <;> decide
  rw [show ((s.placed hdr).setVal (binLen hdr)).swapCas = (GrowReq.bin hdr).start s front from rfl]
  unfold setupExtras
  dsimp only
  rw [if_neg hother.1, if_neg hother.2.1, if_neg hother.2.2, if_pos (growCmd_cases front)]
  constructor
  . intro hs
    rw [if_neg (not_not.mpr hs)]
    have hconn : (((GrowReq.bin hdr).start s front).chkMemSz (growCmd front)).1.conn =
        ((GrowReq.bin hdr).start s front).conn := (chkMemSz_frame (growCmd front)).2.1
    have hbuf : (((GrowReq.bin hdr).start s front).chkMemSz (growCmd front)).1.conn.m_bufIncoming.drop
        (sizeofBinHdr + hdr.extralen + hdr.keylen) =
        s.conn.m_bufIncoming.drop (sizeofBinHdr + hdr.extralen + hdr.keylen) := by
      have hswap := drop_swapCas (s := (s.placed hdr).setVal (binLen hdr)) (by
        show sizeofBinHdr ≤ s.conn.m_bufIncoming.length
        omega)
      have hrest := congrArg (List.drop (hdr.extralen + hdr.keylen)) hswap
      rw [List.drop_drop, List.drop_drop] at hrest
      rw [hconn, Nat.add_assoc]
      exact hrest
    have hrun := @runBinCmd_grow front (((GrowReq.bin hdr).start s front).chkMemSz (growCmd front)).1 hdr
      (sizeofBinHdr + hdr.extralen + hdr.keylen) ((GrowReq.bin hdr).opt s front)
    rw [hbuf] at hrun
    cases front
    . exact hrun
    . exact hrun
  . intro hs
    rw [if_pos hs]
    exact ⟨_, rfl⟩

theorem key_updateCall {i : McInput} {arg : Nat} {u : McCall} (h : s.updateCall i arg = some u)
    : u.mc.m_parms.key = i.tok (updateArgs i arg).key := by
  revert h
  unfold updateCall
  dsimp only
  generalize hr : (s.setKey (i.tok (updateArgs i arg).key)).canProcessNow (i.tok (updateArgs i arg).key) = r
  have hkey : r.2 = true → r.1.mc.m_parms.key = i.tok (updateArgs i arg).key := by
    rw [← hr]
    unfold canProcessNow
    dsimp only
    split
    . exact fun h => nomatch h
    . exact fun _ => rfl
  split
  . exact fun h => nomatch h
  next hcan =>
  split
  . exact fun h => nomatch h
  . split
    . exact fun h => nomatch h
    . split
      . exact fun h => nomatch h
      . split
        . exact fun h => nomatch h
        . rintro ⟨⟩
          exact hkey (by simpa using hcan)

theorem data_length (req : GrowReq) (h : req.Here s front)
    : (req.start s front).mc.m_parms.val.len = (req.data s front).length := by
  cases req with
  | text i =>
    have hlen : ((GrowReq.text i).start s front).mc.m_parms.val.len =
        (updateArgs i (growCmd front)).length.toNat := by
      show (storeStart _ _ _ _ _).mc.m_parms.val.len = _
      unfold storeStart
      dsimp only
      rw [if_pos (growCmd_cases front)]
      rfl
    rw [hlen]
    exact (List.length_take_of_le h.2.2).symm
  | bin hdr =>
    obtain ⟨_, _, _, hlen⟩ := h
    show binLen hdr = (List.take _ _).length
    rw [List.length_take, List.length_drop]
    omega

section Cases

variable {req : GrowReq} {r : McCall × LsMcUpdOpt × Nat} {w : McCall} {pBuf : List UInt8}

theorem notGrown_of_check (hready : (req.start s front).Ready) (hhere : req.Here s front)
    (hone : OneHash ((req.start s front).chkMemSz (growCmd front)).1 (req.after s front))
    (hafter : (req.after s front).getHash = ((req.start s front).chkMemSz (growCmd front)).1.getHash)
    : NotGrown (req.ready s front) (req.after s front) := by
  obtain ⟨_, _, hone', hhash, _⟩ := req.ready_item hready hhere
  intro id k
  left
  by_cases hid : id = ((req.start s front).chkMemSz (growCmd front)).1.hashId
  . subst hid
    exact (item_congr hone (by rw [hafter])).trans (item_congr hone' (by rw [hhash])).symm
  . exact (hone.itemAt hid k).trans (hone'.itemAt hid k).symm

theorem outcome_of_update (hready : (req.start s front).Ready) (hhere : req.Here s front)
    (hup : GrowUpdate (req.ready s front) (req.opt s front).m_iRetcode r front) (hgrows : req.Grows s front)
    (hone : OneHash (req.ready s front) (req.after s front))
    (hhash : w.getHash = r.1.getHash) (hoff : w.mc.m_iterOff = r.2.2)
    (hret : r.2.2 ≠ 0 → w.mc.m_retcode = growRet front)
    (hval : w.mc.m_parms.val = r.1.mc.m_parms.val) (hw : w.mc.m_mcparms = r.1.mc.m_mcparms)
    (hbuf : pBuf.take (req.data s front).length = req.data s front)
    (hstored : r.2.2 ≠ 0 → (req.after s front).getHash = (w.dataItemUpdate pBuf).getHash)
    (hrefused : r.2.2 = 0 → (req.after s front).getHash = r.1.getHash)
    : (r.2.2 ≠ 0 → Grown (req.ready s front) (req.after s front) (req.ready s front).mc.m_parms.key
        (req.data s front) front) ∧
      (r.2.2 = 0 → NotGrown (req.ready s front) (req.after s front)) := by
  obtain ⟨ht, hm_parms, _⟩ := req.ready_item hready hhere
  have hd : (req.ready s front).mc.m_parms.val.len = (req.data s front).length := by
    rw [hm_parms]
    exact req.data_length hhere
  constructor
  . intro h0
    apply grown_of_made hup h0 hone hgrows.header hd hhash hoff (hret h0) _ (hw.trans hup.sizes.mcparms) hbuf
      (hstored h0)
    rw [hval, hup.sizes.parms, hd]
  . intro h0
    apply notGrown_of_restored ht hone
    rw [hrefused h0]
    exact hup.refused h0

end Cases

theorem concatenates_text (i : McInput) (hready : ((GrowReq.text i).start s front).Ready)
    (hhere : (GrowReq.text i).Here s front) (hgrows : (GrowReq.text i).Grows s front)
    : (GrowReq.text i).Concatenates s front := by
  obtain ⟨ht, hm_parms, _, _, hevicts⟩ := ready_item _ hready hhere
  have hup := doHashUpdate_grow ht (opt_grow _ hready hhere) hgrows.kept hgrows.header
  obtain ⟨hpass, hfail⟩ := text_after i hhere
  have hbuf : i.data.take ((GrowReq.text i).data s front).length = (GrowReq.text i).data s front := by
    show i.data.take (List.take _ _).length = _
    rw [List.length_take_of_le hhere.2.2]
    rfl
  have hkey : ((GrowReq.text i).ready s front).mc.m_parms.key ≠ [] := by
    obtain ⟨u, hcall⟩ := Option.isSome_iff_exists.mp hhere.1
    rw [hm_parms]
    show (((s.updateCall i (growCmd front)).getD s).storeStart _ _ _ _).mc.m_parms.key ≠ []
    rw [hcall]
    show u.mc.m_parms.key ≠ []
    rw [key_updateCall hcall]
    exact hhere.2.1
  by_cases hs : (((GrowReq.text i).start s front).chkMemSz (growCmd front)).2 = .SUCCESS
  . have hafter := hpass hs
    have hone := oneHash_doHashUpdate ((GrowReq.text i).ready s front) ((GrowReq.text i).opt s front)
    generalize hr : ((GrowReq.text i).ready s front).doHashUpdate ((GrowReq.text i).opt s front) = r at hup hafter hone
    generalize hw : ((r.1.setIterOff r.2.2).setRetcode (growRet front)).setNeeded
      (updateArgs i (growCmd front)).length.toNat = w at hafter
    have hw' : w.mc.m_iterOff = r.2.2 ∧ w.mc.m_retcode = growRet front ∧ w.getHash = r.1.getHash ∧
        w.mc.m_parms = r.1.mc.m_parms ∧ OneHash r.1 w := by
      rw [← hw]
      exact ⟨rfl, rfl, rfl, rfl, .same rfl rfl⟩
    obtain ⟨hoff, hret, hhash, hwparms, hwone⟩ := hw'
    have hwkey : w.mc.m_parms.key ≠ [] := by
      rw [hwparms, hup.sizes.parms]
      exact hkey
    have hend : OneHash ((GrowReq.text i).ready s front) ((GrowReq.text i).after s front) := by
      rw [hafter]
      exact (hone.trans hwone).trans (oneHash_doDataUpdate w i.data)
    obtain ⟨hgrown, hnot⟩ := outcome_of_update (w := w.setKey []) hready hhere hup hgrows hend hhash hoff (fun _ => hret)
      (show w.mc.m_parms.val = r.1.mc.m_parms.val from congrArg StrPair.val hwparms) hwone.parms hbuf
      (fun h0 => hafter ▸ (doDataUpdate_stored i.data hwkey (hoff ▸ h0)).1)
      (fun h0 => hafter ▸ (getHash_doDataUpdate w i.data (hoff.trans h0)).trans hhash)
    have hiff : (GrowReq.text i).Stored s front ↔ r.2.2 ≠ 0 := by
      unfold Stored
      rw [hr]
      exact and_iff_right hs
    refine ⟨hevicts, fun h => hgrown (hiff.mp h), fun h => hnot (by simpa using fun h0 => h (hiff.mpr h0)), ?_, ?_⟩
    . intro h
      rw [hafter]
      apply (doDataUpdate_stored i.data hwkey (hoff ▸ hiff.mp h)).2
      rw [retcode_notifyChange]
      rcases retcode_dataItemUpdate (s := w.setKey []) i.data with hcode | hcode
      . rw [hcode]
        decide
      . rw [hcode]
        show w.mc.m_retcode ≠ .NONE
        rw [hret]
        cases front <;> decide
    . intro h
      rw [hafter]
      exact doDataUpdate_refused i.data (hoff.trans (by simpa using fun h0 => h (hiff.mpr h0)))
  . obtain ⟨str, hstr, hafter⟩ := hfail hs
    have hnot : ¬ (GrowReq.text i).Stored s front := fun h => hs h.1
    refine ⟨hevicts, fun h => absurd h hnot, fun _ => ?_, fun h => absurd h hnot, fun _ => ?_⟩
    . apply notGrown_of_check hready hhere
      . rw [hafter]
        exact oneHash_respond _ _
      . rw [hafter, getHash_respond]
    . rw [hafter]
      exact ⟨_, str, hstr, rfl⟩

theorem concatenates_bin (hdr : McBinCmdHdr) (hready : ((GrowReq.bin hdr).start s front).Ready)
    (hhere : (GrowReq.bin hdr).Here s front) (hgrows : (GrowReq.bin hdr).Grows s front)
    : (GrowReq.bin hdr).Concatenates s front := by
  obtain ⟨ht, _, _, _, hevicts⟩ := ready_item _ hready hhere
  have hup := doHashUpdate_grow ht (opt_grow _ hready hhere) hgrows.kept hgrows.header
  obtain ⟨hpass, hfail⟩ := bin_after hdr hhere
  have hbuf : (s.conn.m_bufIncoming.drop (sizeofBinHdr + hdr.extralen + hdr.keylen)).take
      ((GrowReq.bin hdr).data s front).length = (GrowReq.bin hdr).data s front := by
    rw [← data_length _ hhere]
    rfl
  by_cases hs : (((GrowReq.bin hdr).start s front).chkMemSz (growCmd front)).2 = .SUCCESS
  . have hafter := hpass hs
    have hone := oneHash_doHashUpdate ((GrowReq.bin hdr).ready s front) ((GrowReq.bin hdr).opt s front)
    generalize hr : ((GrowReq.bin hdr).ready s front).doHashUpdate ((GrowReq.bin hdr).opt s front) = r at hup hafter hone
    generalize hw : (r.1.setIterOff r.2.2).setRetcode
      (if r.2.1.m_iRetcode = .NOTFOUND then .DONE else r.2.1.m_iRetcode) = w at hafter
    have hw' : w.mc.m_iterOff = r.2.2 ∧ w.getHash = r.1.getHash ∧
        w.mc.m_parms = r.1.mc.m_parms ∧ OneHash r.1 w := by
      rw [← hw]
      exact ⟨rfl, rfl, rfl, .same rfl rfl⟩
    have hret : r.2.2 ≠ 0 → w.mc.m_retcode = growRet front := by
      intro h0
      have hcode : r.2.1.m_iRetcode = growRet front := hup.ret h0
      rw [← hw]
      show (if r.2.1.m_iRetcode = .NOTFOUND then UpdRet.DONE else r.2.1.m_iRetcode) = _
      rw [hcode]
      cases front <;> rfl
    obtain ⟨hoff, hhash, hwparms, hwone⟩ := hw'
    have hend : OneHash ((GrowReq.bin hdr).ready s front) ((GrowReq.bin hdr).after s front) := by
      rw [hafter]
      exact (hone.trans hwone).trans (oneHash_doBinDataUpdate w _ hdr)
    obtain ⟨hgrown, hnot⟩ := outcome_of_update (w := w.setKey []) hready hhere hup hgrows hend hhash hoff hret
      (show w.mc.m_parms.val = r.1.mc.m_parms.val from congrArg StrPair.val hwparms) hwone.parms hbuf
      (fun h0 => hafter ▸ (doBinDataUpdate_stored _ hdr (hoff ▸ h0)).1)
      (fun h0 => hafter ▸ (getHash_doBinDataUpdate w _ hdr (hoff.trans h0)).trans hhash)
    have hiff : (GrowReq.bin hdr).Stored s front ↔ r.2.2 ≠ 0 := by
      unfold Stored
      rw [hr]
      exact and_iff_right hs
    refine ⟨hevicts, fun h => hgrown (hiff.mp h), fun h => hnot (by simpa using fun h0 => h (hiff.mpr h0)), ?_, ?_⟩
    . intro h
      rw [hafter]
      exact (doBinDataUpdate_stored _ hdr (hoff ▸ hiff.mp h)).2
    . intro h
      rw [hafter]
      exact doBinDataUpdate_refused _ hdr (hoff.trans (by simpa using fun h0 => h (hiff.mpr h0)))
  . obtain ⟨err, hafter⟩ := hfail hs
    have hnot : ¬ (GrowReq.bin hdr).Stored s front := fun h => hs h.1
    refine ⟨hevicts, fun h => absurd h hnot, fun _ => ?_, fun h => absurd h hnot, fun _ => ?_⟩
    . apply notGrown_of_check hready hhere
      . rw [hafter]
        exact oneHash_binErrRespond _ _ _
      . rw [hafter]
        exact getHash_binRespond _ _
    . rw [hafter]
      exact ⟨_, err, rfl⟩

end GrowReq

structure GrowCall where
  s : McCall
  front : Bool
  req : GrowReq
  intact : s.Intact
  here : req.Here s front
  grows : req.Grows s front

namespace GrowCall

open McCall

variable (c : GrowCall)

def before : McCall :=
  c.req.ready c.s c.front

def after : McCall :=
  c.req.after c.s c.front

def data : List UInt8 :=
  c.req.data c.s c.front

def Stored : Prop :=
  c.req.Stored c.s c.front

instance : Decidable c.Stored :=
  inferInstanceAs (Decidable (c.req.Stored c.s c.front))

def old : Option McItem :=
  c.before.item c.before.mc.m_parms.key

def new : Option McItem :=
  c.after.item c.before.mc.m_parms.key

structure Follows (c₂ c₁ : GrowCall) : Prop where
  first : c₁.Stored
  second : c₂.Stored
  found : c₂.old = c₁.new

variable {c}

theorem start_ready : (c.req.start c.s c.front).Ready := by
  have hintact := c.intact
  have hhere := c.here
  cases hreq : c.req with
  | text i =>
    rw [hreq] at hhere
    obtain ⟨u, hcall⟩ := Option.isSome_iff_exists.mp hhere.1
    have hu : u.Ready := updateCall_ready hintact i hcall
    show (((c.s.updateCall i (growCmd c.front)).getD c.s).storeStart _ _ _ _).Ready
    rw [hcall]
    exact hu.after ⟨rfl, rfl, rfl⟩ hu.sane rfl
  | bin hdr => exact ((hintact.placed hdr).1.setVal (binLen hdr)).swapCas

theorem concatenates : c.req.Concatenates c.s c.front := by
  have hready := c.start_ready
  have hhere := c.here
  have hgrows := c.grows
  cases hreq : c.req with
  | text i =>
    rw [hreq] at hready hhere hgrows
    exact GrowReq.concatenates_text i hready hhere hgrows
  | bin hdr =>
    rw [hreq] at hready hhere hgrows
    exact GrowReq.concatenates_bin hdr hready hhere hgrows

theorem new_eq (h : c.Stored) : c.new = c.old.map (·.grow c.data c.front) := by
  obtain ⟨item, hold, hnew⟩ := (concatenates.stored h).value
  unfold old before
  rw [hold]
  exact hnew

theorem twice {c₁ c₂ : GrowCall} (h : c₂.Follows c₁) (hf₁ : c₁.front = c.front) (hf₂ : c₂.front = c.front)
    (hstored : c.Stored) (hold : c.old = c₁.old)
    (hdata : c.data = if c.front then c₂.data ++ c₁.data else c₁.data ++ c₂.data) : c₂.new = c.new := by
  rw [new_eq h.second, h.found, new_eq h.first, new_eq hstored, hold, hf₁, hf₂, hdata, Option.map_map]
  congr 1
  funext item
  exact item.grow_grow _ _ _

theorem commutes {a p a' p' : GrowCall} (h : p.Follows a) (h' : a'.Follows p') (ha : a.front = false)
    (hp : p.front = true) (ha' : a'.front = false) (hp' : p'.front = true) (hold : a.old = p'.old)
    (hda : a.data = a'.data) (hdp : p.data = p'.data) : p.new = a'.new := by
  rw [new_eq h.second, h.found, new_eq h.first, new_eq h'.second, h'.found, new_eq h'.first, hold, ha, hp, ha',
    hp', hda, hdp, Option.map_map, Option.map_map]
  congr 1
  funext item
  exact item.grow_comm _ _

end GrowCall

section Sample

open McCall

def sampleFilled (hash : LsShmHash) (value : List UInt8) : LsShmHash :=
  (hash.insert2 (hash.m_hf (bytes "a")) ⟨bytes "a", .ofBytes (List.replicate 24 0 ++ value)⟩).1

theorem sampleFilled_sane {hash : LsShmHash} (h : Rep hash []) (hnone : ∀ x, hash.table.elem x = none)
    (hoff : hash.valueOff 1 < 32) (value : List UInt8)
    : (sampleFilled hash value).Sane ∧ SameParm hash (sampleFilled hash value) := by
  have hsane : hash.Sane := ⟨[], h, fun x e he => nomatch (hnone x).symm.trans he⟩
  refine ⟨hsane.insert2 (fun x e he => nomatch (hnone x).symm.trans he) (.inl hoff), ?_⟩
  exact (insert2_maps h h.maps_contents ⟨bytes "a", .ofBytes (List.replicate 24 0 ++ value)⟩
    (fun _ hx => nomatch hx) (.inl hoff)).1

def sampleClient (hash : LsShmHash) (max : Nat) (buf : List UInt8) : McCall :=
  let parms := { sampleParms with m_iMemMaxSz := max }
  (((McWorld.start (sampleMulti hash parms) parms false false sampleEnv).step .accept).call 0).setBuf buf

theorem sampleClient_intact {hash : LsShmHash} (h : Rep hash []) (hnone : ∀ x, hash.table.elem x = none)
    (hoff : hash.valueOff 1 < 32) (hparm : hash.m_hf = hashBuf ∧ hash.flagLru = true) (value : List UInt8)
    (max : Nat) (buf : List UInt8) : (sampleClient (sampleFilled hash value) max buf).Intact := by
  intro i user
  obtain ⟨hsane, hsame⟩ := sampleFilled_sane h hnone hoff value
  exact ⟨hsane, hsame.hf.trans hparm.1, hsame.flagLru.trans hparm.2⟩

def sampleLine (s : McCall) (n : Nat) : McInput :=
  let buf := cutLine s.conn.m_bufIncoming (n - 1)
  ⟨buf, (advToken buf 0 (n - 2)).1, n - 2, n⟩

def sampleGrowHash : Option LsShmHash :=
  sampleHash [Answer.clean 0x1000 80, Answer.clean 0x2000 80] (HashParm.clean true false)

theorem sampleGrowHash_isSome : sampleGrowHash.isSome = true := by decide

def sampleGrow (value line : List UInt8) : McCall :=
  sampleClient (sampleFilled (sampleGrowHash.get sampleGrowHash_isSome) value) 64000000 line

theorem sampleGrow_intact (value line : List UInt8) : (sampleGrow value line).Intact := by
  apply sampleClient_intact
  . exact sampleHash_rep (Option.some_get sampleGrowHash_isSome).symm
  . exact fun _ => rfl
  . decide
  . exact ⟨rfl, rfl⟩

def sampleAdd (value line : List UInt8) (n : Nat) (front : Bool)
    (here : (GrowReq.text (sampleLine (sampleGrow value line) n)).Here (sampleGrow value line) front)
    (grows : (GrowReq.text (sampleLine (sampleGrow value line) n)).Grows (sampleGrow value line) front)
    : GrowCall where
  s := sampleGrow value line
  front := front
  req := .text (sampleLine (sampleGrow value line) n)
  intact := sampleGrow_intact value line
  here := here
  grows := grows

def sampleAppendX : GrowCall :=
  sampleAdd (bytes "v") (bytes "append a 0 0 1\r\nx\r\n") 16 false
    ⟨by decide +kernel, by decide +kernel, by decide +kernel⟩ ⟨by decide +kernel, by decide +kernel⟩

def sampleThenY : GrowCall :=
  sampleAdd (bytes "vx") (bytes "append a 0 0 1\r\ny\r\n") 16 false
    ⟨by decide +kernel, by decide +kernel, by decide +kernel⟩ ⟨by decide +kernel, by decide +kernel⟩

def sampleAppendXY : GrowCall :=
  sampleAdd (bytes "v") (bytes "append a 0 0 2\r\nxy\r\n") 16 false
    ⟨by decide +kernel, by decide +kernel, by decide +kernel⟩ ⟨by decide +kernel, by decide +kernel⟩

def samplePrependY : GrowCall :=
  sampleAdd (bytes "v") (bytes "prepend a 0 0 1\r\ny\r\n") 17 true
    ⟨by decide +kernel, by decide +kernel, by decide +kernel⟩ ⟨by decide +kernel, by decide +kernel⟩

def sampleXThenY : GrowCall :=
  sampleAdd (bytes "vx") (bytes "prepend a 0 0 1\r\ny\r\n") 17 true
    ⟨by decide +kernel, by decide +kernel, by decide +kernel⟩ ⟨by decide +kernel, by decide +kernel⟩

def sampleYThenX : GrowCall :=
  sampleAdd (bytes "yv") (bytes "append a 0 0 1\r\nx\r\n") 16 false
    ⟨by decide +kernel, by decide +kernel, by decide +kernel⟩ ⟨by decide +kernel, by decide +kernel⟩

theorem sampleAppendX_old : sampleAppendX.old = some ⟨0, 0, bytes "v"⟩ := by decide +kernel

theorem sampleAppendX_new : sampleAppendX.new = some ⟨0, 0, bytes "vx"⟩ := by decide +kernel

theorem samplePrependY_old : samplePrependY.old = some ⟨0, 0, bytes "v"⟩ := by decide +kernel

theorem samplePrependY_new : samplePrependY.new = some ⟨0, 0, bytes "yv"⟩ := by decide +kernel

def sampleLargeHash : Option LsShmHash :=
  sampleHash [Answer.clean 0x1000 368] (HashParm.clean true false)

theorem sampleLargeHash_isSome : sampleLargeHash.isSome = true := by decide

def sampleTight : McCall :=
  sampleClient (sampleFilled (sampleLargeHash.get sampleLargeHash_isSome) (List.replicate 300 0)) 700
    (bytes "append b 0 0 1\r\nx\r\n")

end Sample

end Lsmcd
