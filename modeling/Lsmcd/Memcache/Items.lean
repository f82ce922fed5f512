import Lsmcd.Memcache.FailedUpdate
import Lsmcd.Memcache.Locks
import Lsmcd.Memcache.Number
import Lsmcd.Shm.Contents

/-!
The items that the clients see: the hash in use as a map from keys to flags, expiry times and data, and
what the operations of the commands do to it.
-/

namespace Lsmcd

/--
An item as the clients see it, apart from its unique. An expiry time of 0 means never.
-/
structure McItem where
  flags : Nat
  exptime : Int
  value : List UInt8
deriving DecidableEq

namespace McItem

def ofBytes (hdrLen : Nat) (bs : List UInt8) : McItem where
  flags := readLe (fun i => bs.getD i 0) 8 4
  exptime := toTime (readLe (fun i => bs.getD i 0) 0 8)
  value := bs.drop hdrLen

def grow (item : McItem) (d : List UInt8) (front : Bool) : McItem :=
  { item with value := if front then d ++ item.value else item.value ++ d }

theorem grow_grow (item : McItem) (d₁ d₂ : List UInt8) (front : Bool)
    : (item.grow d₁ front).grow d₂ front = item.grow (if front then d₂ ++ d₁ else d₁ ++ d₂) front := by
  cases front <;> simp [grow]

theorem grow_comm (item : McItem) (d₁ d₂ : List UInt8)
    : (item.grow d₁ false).grow d₂ true = (item.grow d₂ true).grow d₁ false := by
  simp [grow]

variable {hdrLen : Nat} {e : LsShmHElem}

theorem readLe_getVal {off n : Nat} (h : off + n ≤ e.valLen)
    : readLe (fun i => e.getVal.getD i 0) off n = readLe e.data off n := by
  apply readLe_congr
  intro i _ hi
  exact Value.getD_getVal e (by omega)

theorem flags_ofBytes (h : sizeofDataItem ≤ e.valLen) : (ofBytes hdrLen e.getVal).flags = e.flags := by
  unfold sizeofDataItem at h
  exact readLe_getVal (by omega)

theorem exptime_ofBytes (h : sizeofDataItem ≤ e.valLen) : (ofBytes hdrLen e.getVal).exptime = e.exptime := by
  unfold sizeofDataItem at h
  unfold ofBytes LsShmHElem.exptime
  dsimp only
  rw [readLe_getVal (by omega)]

theorem ofBytes_grow {bs d : List UInt8} {front : Bool} (hsize : sizeofDataItem ≤ hdrLen)
    (hhdr : hdrLen ≤ bs.length) (hlen : e.valLen = bs.length + d.length)
    (hhead : ∀ i < sizeofDataItem, e.data i = bs.getD i 0)
    (hold : ∀ i, hdrLen ≤ i → i < bs.length → e.data (if front then d.length + i else i) = bs.getD i 0)
    (hnew : ∀ i < d.length, e.data (if front then hdrLen + i else bs.length + i) = d.getD i 0)
    : ofBytes hdrLen e.getVal = (ofBytes hdrLen bs).grow d front := by
  have hword : ∀ off n, off + n ≤ sizeofDataItem →
      readLe (fun i => e.getVal.getD i 0) off n = readLe (fun i => bs.getD i 0) off n := by
    intro off n hin
    rw [readLe_getVal (by omega)]
    apply readLe_congr
    intro i _ hi
    exact hhead i (by omega)
  have hget : ∀ i (hi : i < e.getVal.length), e.getVal[i] = e.data i := by
    intro i hi
    simp [LsShmHElem.getVal]
  have hvalue : e.getVal.drop hdrLen = if front then d ++ bs.drop hdrLen else bs.drop hdrLen ++ d := by
    apply List.ext_getElem
    . rw [List.length_drop, Value.length_getVal, hlen]
      cases front <;> simp <;> omega
    intro i hi _
    rw [List.length_drop, Value.length_getVal] at hi
    rw [List.getElem_drop, hget]
    cases front with
    | true =>
      simp only [if_true] at hold hnew ⊢
      by_cases hin : i < d.length
      . rw [List.getElem_append_left hin, hnew i hin]
        simp [hin]
      . rw [List.getElem_append_right (by omega), List.getElem_drop]
        have hb := hold (hdrLen + (i - d.length)) (by omega) (by omega)
        rw [show d.length + (hdrLen + (i - d.length)) = hdrLen + i by omega] at hb
        rw [hb]
        simp [show hdrLen + (i - d.length) < bs.length by omega]
    | false =>
      simp only [Bool.false_eq_true, if_false] at hold hnew ⊢
      by_cases hin : hdrLen + i < bs.length
      . rw [List.getElem_append_left (by simp; omega), List.getElem_drop, hold _ (by omega) hin]
        simp [hin]
      . rw [List.getElem_append_right (by simp; omega)]
        have hb := hnew (hdrLen + i - bs.length) (by omega)
        rw [show bs.length + (hdrLen + i - bs.length) = hdrLen + i by omega] at hb
        have hidx : i - (bs.drop hdrLen).length = hdrLen + i - bs.length := by
          rw [List.length_drop]
          omega
        simp only [hb, hidx]
        simp [show hdrLen + i - bs.length < d.length by omega]
  unfold ofBytes grow
  rw [hword 8 4 (by decide), hword 0 8 (by decide), hvalue]

end McItem

namespace McCall

variable {s : McCall}

structure Ready (s : McCall) : Prop where
  sane : s.getHash.Sane
  hkey : s.mc.m_hkey = s.getHash.m_hf s.mc.m_parms.key

theorem Ready.find2 (h : s.Ready) : s.getHash.find2 s.mc.m_hkey s.mc.m_parms.key =
    s.getHash.findKey s.mc.m_parms.key := by
  rw [h.hkey]
  rfl

structure SameKey (s t : McCall) : Prop where
  hashId : t.hashId = s.hashId
  hkey : t.mc.m_hkey = s.mc.m_hkey
  key : t.mc.m_parms.key = s.mc.m_parms.key

theorem SameKey.refl (s : McCall) : SameKey s s := ⟨rfl, rfl, rfl⟩

theorem SameKey.trans {t u : McCall} (h₁ : SameKey s t) (h₂ : SameKey t u) : SameKey s u where
  hashId := h₂.hashId.trans h₁.hashId
  hkey := h₂.hkey.trans h₁.hkey
  key := h₂.key.trans h₁.key

theorem Ready.after {t : McCall} (h : s.Ready) (hk : SameKey s t) (hsane : t.getHash.Sane)
    (hf : t.getHash.m_hf = s.getHash.m_hf) : t.Ready where
  sane := hsane
  hkey := by rw [hk.hkey, hk.key, hf, h.hkey]

theorem sameKey_stat (s : McCall) (f : LsMcStats → LsMcStats) : SameKey s (s.stat f) := by
  unfold stat
  split <;> exact ⟨rfl, rfl, rfl⟩

theorem Ready.stat (h : s.Ready) (f : LsMcStats → LsMcStats) : (s.stat f).Ready := by
  apply h.after (sameKey_stat s f)
  . rw [getHash_stat]
    exact h.sane
  . rw [getHash_stat]

theorem sameKey_doHashInsert (s : McCall) (opt : LsMcUpdOpt) : SameKey s (s.doHashInsert opt).1 := by
  unfold doHashInsert
  dsimp only
  split
  . split
    . exact ⟨rfl, rfl, rfl⟩
    . split <;> exact ⟨rfl, rfl, rfl⟩
  . exact ⟨rfl, rfl, rfl⟩

theorem sameKey_updateElem (s : McCall) (opt : LsMcUpdOpt) (off : Nat) (e : LsShmHElem)
    : SameKey s (s.updateElem opt off e).1 := by
  unfold updateElem
  dsimp only
  split
  . exact .refl s
  . split
    . split <;> exact ⟨rfl, rfl, rfl⟩
    . split
      . split
        . exact ⟨rfl, rfl, rfl⟩
        . split <;> exact ⟨rfl, rfl, rfl⟩
      . exact ⟨rfl, rfl, rfl⟩

theorem sameKey_doHashUpdate (s : McCall) (opt : LsMcUpdOpt) : SameKey s (s.doHashUpdate opt).1 := by
  unfold doHashUpdate
  dsimp only
  split
  . exact .refl s
  . split
    . exact ⟨rfl, rfl, rfl⟩
    . split
      . exact ⟨rfl, rfl, rfl⟩
      . exact sameKey_updateElem s opt _ _

theorem sameKey_chkMemSz (s : McCall) (arg : Nat) : SameKey s (s.chkMemSz arg).1 := by
  unfold chkMemSz
  dsimp only
  split
  . split <;> exact ⟨rfl, rfl, rfl⟩
  . split
    . exact .refl s
    . split
      . exact .refl s
      . split <;> exact ⟨rfl, rfl, rfl⟩

theorem Ready.chkMemSz (h : s.Ready) (arg : Nat)
    : (s.chkMemSz arg).1.Ready ∧ LsShmHash.Thinned s.getHash (s.chkMemSz arg).1.getHash := by
  have hkey := sameKey_chkMemSz s arg
  have hafter : ∀ hash : LsShmHash, hash.Sane ∧ LsShmHash.Thinned s.getHash hash →
      (s.setHash hash).Ready ∧ LsShmHash.Thinned s.getHash (s.setHash hash).getHash := by
    intro hash hhash
    rw [getHash_setHash]
    refine ⟨h.after ⟨rfl, rfl, rfl⟩ ?_ ?_, hhash.2⟩
    . rw [getHash_setHash]
      exact hhash.1
    . rw [getHash_setHash]
      exact hhash.2.parm.hf
  unfold McCall.chkMemSz
  dsimp only
  split
  . split
    . next herase =>
      have hsome : (s.getHash.offset2iterator (s.getHash.findKey s.mc.m_parms.key)).isSome = true :=
        h.sane.isSome (h.find2 ▸ herase.2)
      obtain ⟨e, he⟩ := Option.isSome_iff_exists.mp hsome
      rw [h.find2]
      exact hafter _ (h.sane.erase (LsShmHash.elem_of_offset2iterator he))
    . exact ⟨h, .refl _⟩
  . split
    . exact ⟨h, .refl _⟩
    . split
      . exact ⟨h, .refl _⟩
      . have htrim := h.sane.trimsize (toInt32 ((((s.getHash.shm.m_iHashInUse + s.moreSize arg +
          (2 ^ 32 - s.helperSize)) % 2 ^ 32) - s.mc.m_mcparms.m_iMemMaxSz) * 8)) none s.getHash.fuel
        split
        . have hloud := htrim.1.quiet (LsShmHash.quiet_rebuild _)
          exact hafter _ ⟨hloud.1, htrim.2.trans hloud.2⟩
        . exact hafter _ htrim

structure OneHash (s t : McCall) : Prop where
  hashId : t.hashId = s.hashId
  parms : t.mc.m_mcparms = s.mc.m_mcparms
  others : ∀ id, id ≠ s.hashId → t.hashes.hash id.1 id.2 = s.hashes.hash id.1 id.2

section OneHash

theorem OneHash.refl (s : McCall) : OneHash s s := ⟨rfl, rfl, fun _ _ => rfl⟩

theorem OneHash.trans {t u : McCall} (h₁ : OneHash s t) (h₂ : OneHash t u) : OneHash s u where
  hashId := h₂.hashId.trans h₁.hashId
  parms := h₂.parms.trans h₁.parms
  others := fun id hid => (h₂.others id (h₁.hashId.symm ▸ hid)).trans (h₁.others id hid)

theorem OneHash.same {t : McCall} (hid : t.hashId = s.hashId) (h : t.hashes = s.hashes) : OneHash s t where
  hashId := hid
  parms := congrArg HashView.parms h
  others := fun _ _ => by rw [h]

theorem OneHash.sizeofItem {t : McCall} (h : OneHash s t) : t.sizeofItem = s.sizeofItem := by
  unfold McCall.sizeofItem
  rw [h.parms]

theorem oneHash_setHash (s : McCall) (hash : LsShmHash) : OneHash s (s.setHash hash) where
  hashId := rfl
  parms := rfl
  others := by
    intro id hid
    rw [setHash, hashes_setHashAt]
    dsimp only
    by_cases hslice : id.1 = s.conn.m_pSlice
    . have huser : id.2 ≠ s.conn.m_pHash := fun huser => hid (Prod.ext hslice huser)
      rw [hslice, Function.update_self, Function.update_of_ne huser]
    . rw [Function.update_of_ne hslice]

theorem oneHash_stat (s : McCall) (f : LsMcStats → LsMcStats) : OneHash s (s.stat f) :=
  .same (sameKey_stat s f).hashId (hashes_stat s f)

theorem oneHash_notifyChange (s : McCall) : OneHash s s.notifyChange := by
  apply OneHash.same _ (hashes_notifyChange s)
  unfold notifyChange
  split <;> rfl

theorem oneHash_respond (s : McCall) (str : List UInt8) : OneHash s (s.respond str) := by
  apply OneHash.same _ (hashes_respond s str)
  unfold respond ackNoreply
  split
  . split <;> rfl
  . rfl

theorem oneHash_binRespond (s : McCall) (buf : List UInt8) : OneHash s (s.binRespond buf) := by
  apply OneHash.same _ (hashes_binRespond s buf)
  unfold binRespond ackNoreply
  split
  . split <;> rfl
  . rfl

theorem oneHash_binErrRespond (s : McCall) (hdr : McBinCmdHdr) (err : McBinStat)
    : OneHash s (s.binErrRespond hdr err) := by
  have hstart : OneHash s (((s.setIterOff 0).setRescas 0).setNoreply false) := .same rfl rfl
  unfold binErrRespond
  exact (hstart.trans (oneHash_binRespond _ _)).trans (oneHash_binRespond _ _)

theorem oneHash_getCas (s : McCall) : OneHash s s.getCas.1 := by
  apply OneHash.same _ (hashes_getCas s)
  unfold getCas
  split <;> rfl

theorem oneHash_putCas (s : McCall) (e : LsShmHElem) : OneHash s (s.putCas e).1 := by
  unfold putCas
  split
  . exact (oneHash_getCas s).trans (.same rfl rfl)
  . exact .refl s

theorem oneHash_updateElem (s : McCall) (opt : LsMcUpdOpt) (off : Nat) (e : LsShmHElem)
    : OneHash s (s.updateElem opt off e).1 := by
  unfold updateElem
  dsimp only
  split
  . exact .refl s
  . split
    . split
      . exact .same rfl rfl
      . have hset : ∀ (n : Nat) (item : LsMcDataItem), OneHash s ((s.setVal n).setItem item) :=
          fun _ _ => .same rfl rfl
        exact (hset _ _).trans (oneHash_setHash _ _)
    . split
      . split
        . exact oneHash_setHash s _
        . split
          . exact oneHash_setHash s _
          . exact (oneHash_setHash s _).trans (oneHash_setHash _ _)
      . exact oneHash_setHash s _

theorem oneHash_doHashUpdate (s : McCall) (opt : LsMcUpdOpt) : OneHash s (s.doHashUpdate opt).1 := by
  unfold doHashUpdate
  dsimp only
  split
  . exact .refl s
  . split
    . exact .same rfl rfl
    . split
      . exact oneHash_setHash s _
      . exact oneHash_updateElem s opt _ _

theorem oneHash_chkMemSz (s : McCall) (arg : Nat) : OneHash s (s.chkMemSz arg).1 := by
  unfold chkMemSz
  dsimp only
  split
  . split
    . exact oneHash_setHash s _
    . exact .refl s
  . split
    . exact .refl s
    . split
      . exact .refl s
      . split <;> exact oneHash_setHash s _

theorem oneHash_dataItemUpdate (s : McCall) (pBuf : List UInt8) : OneHash s (s.dataItemUpdate pBuf) := by
  have hput : ∀ (item : LsMcDataItem) (e : LsShmHElem), OneHash s ((s.setItem item).putCas e).1 := by
    intro item e
    have hitem : OneHash s (s.setItem item) := .same rfl rfl
    exact hitem.trans (oneHash_putCas _ e)
  have hdone : ∀ (t : McCall) (hash : LsShmHash), OneHash t ((t.setHash hash).setNeeded 0) := by
    intro t hash
    exact (oneHash_setHash t hash).trans (.same rfl rfl)
  unfold dataItemUpdate
  dsimp only
  split
  . exact .same rfl rfl
  . split
    . exact (oneHash_putCas s _).trans (hdone _ _)
    . exact (hput _ _).trans (hdone _ _)

theorem oneHash_doDataUpdate (s : McCall) (pBuf : List UInt8) : OneHash s (s.doDataUpdate pBuf) := by
  have hkey : OneHash s (s.setKey []) := .same rfl rfl
  have hdata : OneHash s ((s.setKey []).dataItemUpdate pBuf).notifyChange :=
    (hkey.trans (oneHash_dataItemUpdate (s.setKey []) pBuf)).trans (oneHash_notifyChange _)
  have hanswer : ∀ str, OneHash s ((s.setKey []).respond str) :=
    fun str => hkey.trans (oneHash_respond (s.setKey []) str)
  unfold doDataUpdate
  dsimp only
  split
  . exact oneHash_respond s _
  . split
    . split
      . exact (hdata.trans (oneHash_respond _ _)).trans (.same rfl rfl)
      . exact hdata.trans (.same rfl rfl)
    . split
      . exact hanswer _
      . split <;> exact hanswer _

theorem oneHash_doBinDataUpdate (s : McCall) (pBuf : List UInt8) (hdr : McBinCmdHdr)
    : OneHash s (s.doBinDataUpdate pBuf hdr) := by
  have hkey : OneHash s (s.setKey []) := .same rfl rfl
  have hdata : OneHash s ((s.setKey []).dataItemUpdate pBuf).notifyChange :=
    (hkey.trans (oneHash_dataItemUpdate (s.setKey []) pBuf)).trans (oneHash_notifyChange _)
  have hanswer : ∀ err, OneHash s ((s.setKey []).binErrRespond hdr err) :=
    fun err => hkey.trans (oneHash_binErrRespond (s.setKey []) hdr err)
  unfold doBinDataUpdate
  dsimp only
  split
  . exact (hdata.trans (oneHash_binRespond _ _)).trans (.same rfl rfl)
  . split
    . exact hanswer _
    . split
      . exact hanswer _
      . split <;> exact hanswer _

end OneHash

def itemAt (s : McCall) (id : HashId) (key : List UInt8) : Option McItem :=
  ((s.hashes.hash id.1 id.2).valueOf key).map (.ofBytes s.sizeofItem)

def item (s : McCall) (key : List UInt8) : Option McItem :=
  s.itemAt s.hashId key

theorem item_eq (s : McCall) (key : List UInt8)
    : s.item key = (s.getHash.valueOf key).map (.ofBytes s.sizeofItem) := rfl

theorem OneHash.item {t : McCall} (h : OneHash s t) (key : List UInt8) : t.itemAt s.hashId key = t.item key := by
  unfold McCall.item
  rw [h.hashId]

theorem OneHash.itemAt {t : McCall} (h : OneHash s t) {id : HashId} (hid : id ≠ s.hashId) (key : List UInt8)
    : t.itemAt id key = s.itemAt id key := by
  unfold McCall.itemAt
  rw [h.others id hid, h.sizeofItem]

section Written

variable {e : LsShmHElem}

def written (s : McCall) (pBuf : List UInt8) (e : LsShmHElem) : LsShmHElem :=
  let data := mcIter2data e s.mc.m_mcparms.m_usecas
  let grows : Bool := s.mc.m_retcode = .APPEND ∨ s.mc.m_retcode = .PREPEND
  let valLen : Int := if grows then s.mc.m_parms.val.len else data.2
  let valPtr := if s.mc.m_retcode = .APPEND then e.valLen - s.mc.m_parms.val.len else data.1
  let item := absExptime s.mc.m_item (s.getHash.getLruLasttime s.mc.m_iterOff)
  let e := if grows then e else e.setItem item
  let e := if s.mc.m_mcparms.m_usecas then e.setCas s.getCas.2 else e
  if 0 < valLen then e.putBytes valPtr valLen.toNat pBuf else e

theorem written_eq (pBuf : List UInt8) : s.written pBuf e = { e with data := (s.written pBuf e).data } := by
  unfold written
  dsimp only
  split <;> split <;> split <;> rfl

theorem putCas_elem (s : McCall) (e : LsShmHElem)
    : (s.putCas e).2 = if s.mc.m_mcparms.m_usecas then e.setCas s.getCas.2 else e := by
  unfold putCas
  split <;> rfl

theorem getCas_setItem (s : McCall) (item : LsMcDataItem) : (s.setItem item).getCas.2 = s.getCas.2 := by
  unfold getCas
  split
  . next hoff =>
    rw [if_pos (show s.conn.m_iHdrOff ≠ 0 from hoff)]
    rfl
  . next hoff =>
    rw [if_neg (show ¬ s.conn.m_iHdrOff ≠ 0 from hoff)]

theorem getHash_dataItemUpdate (pBuf : List UInt8) (he : s.getHash.offset2iterator s.mc.m_iterOff = some e)
    : (s.dataItemUpdate pBuf).getHash =
        s.getHash.setTable (·.setElem s.mc.m_iterOff (some (s.written pBuf e))) := by
  unfold dataItemUpdate written
  dsimp only
  rw [he]
  dsimp only
  refine (getHash_setHash _ _).trans ?_
  by_cases hgrows : s.mc.m_retcode = .APPEND ∨ s.mc.m_retcode = .PREPEND
  . simp only [hgrows, if_true, decide_true, putCas_elem]
  . simp only [hgrows, if_false, decide_false, Bool.false_eq_true, putCas_elem, getCas_setItem]
    rfl

theorem setCas_data {s : McCall} {i : Nat} (hi : i < sizeofDataItem ∨ s.sizeofItem ≤ i) (cas : Nat)
    : (if s.mc.m_mcparms.m_usecas then e.setCas cas else e).data i = e.data i := by
  unfold sizeofItem at hi
  split at hi
  . next husecas =>
    rw [if_pos husecas]
    unfold LsShmHElem.setCas writeLe
    unfold sizeofCas at hi
    dsimp only
    rw [if_neg (by omega)]
  . next husecas => rw [if_neg husecas]

def growPos (s : McCall) (e : LsShmHElem) (front : Bool) : Nat :=
  if front then s.sizeofItem else e.valLen - s.mc.m_parms.val.len

theorem written_grow {front : Bool} (hret : s.mc.m_retcode = if front then .PREPEND else .APPEND)
    (pBuf : List UInt8) (i : Nat) (hi : i < sizeofDataItem ∨ s.sizeofItem ≤ i)
    : (s.written pBuf e).data i =
        if s.growPos e front ≤ i ∧ i < s.growPos e front + s.mc.m_parms.val.len then
          pBuf.getD (i - s.growPos e front) 0
        else e.data i := by
  have hgrows : s.mc.m_retcode = .APPEND ∨ s.mc.m_retcode = .PREPEND := by
    cases front
    . exact .inl hret
    . exact .inr hret
  have hpos : (if s.mc.m_retcode = .APPEND then e.valLen - s.mc.m_parms.val.len
      else (mcIter2data e s.mc.m_mcparms.m_usecas).1) = s.growPos e front := by
    rw [hret]
    cases front <;> rfl
  unfold written
  simp only [hgrows, hpos, decide_true, if_true]
  generalize s.growPos e front = pos
  by_cases hn : 0 < s.mc.m_parms.val.len
  . rw [if_pos (by exact_mod_cast hn)]
    unfold LsShmHElem.putBytes
    simp only [Int.toNat_natCast, setCas_data hi]
  . rw [if_neg (by exact_mod_cast hn), setCas_data hi, if_neg (by omega)]

section Set

variable (hret : ¬ (s.mc.m_retcode = .APPEND ∨ s.mc.m_retcode = .PREPEND))
include hret

theorem written_set (pBuf : List UInt8)
    : s.written pBuf e =
        let item := absExptime s.mc.m_item (s.getHash.getLruLasttime s.mc.m_iterOff)
        let e' := if s.mc.m_mcparms.m_usecas then (e.setItem item).setCas s.getCas.2 else e.setItem item
        let n := (e.valLen : Int) - s.sizeofItem
        if 0 < n then e'.putBytes s.sizeofItem n.toNat pBuf else e' := by
  have hgrows : decide (s.mc.m_retcode = .APPEND ∨ s.mc.m_retcode = .PREPEND) = false := decide_eq_false hret
  have hpos : s.mc.m_retcode ≠ .APPEND := fun h => hret (.inl h)
  unfold written
  simp only [hgrows, Bool.false_eq_true, if_false, if_neg hpos]
  rfl

theorem written_head (pBuf : List UInt8) {i : Nat} (hi : i < sizeofDataItem)
    : (s.written pBuf e).data i =
        (e.setItem (absExptime s.mc.m_item (s.getHash.getLruLasttime s.mc.m_iterOff))).data i := by
  have hsize : sizeofDataItem ≤ s.sizeofItem := by
    unfold sizeofItem
    split <;> omega
  rw [written_set hret]
  dsimp only
  split
  . unfold LsShmHElem.putBytes
    dsimp only
    rw [if_neg (by omega)]
    exact setCas_data (.inl hi) _
  . exact setCas_data (.inl hi) _

theorem written_value (pBuf : List UInt8) {i : Nat} (hi : i + s.sizeofItem < e.valLen)
    : (s.written pBuf e).data (s.sizeofItem + i) = pBuf.getD i 0 := by
  rw [written_set hret]
  dsimp only
  rw [if_pos (by omega)]
  unfold LsShmHElem.putBytes
  dsimp only
  rw [if_pos (by omega), Nat.add_sub_cancel_left]

theorem ofBytes_written {pBuf d : List UInt8}
    (hlen : e.valLen = s.sizeofItem + d.length) (hbuf : pBuf.take d.length = d) {item : LsMcDataItem}
    (hitem : absExptime s.mc.m_item (s.getHash.getLruLasttime s.mc.m_iterOff) = item)
    (hflags : item.x_flags < 2 ^ 32) (htime : -2 ^ 63 ≤ item.x_exptime ∧ item.x_exptime < 2 ^ 63)
    : McItem.ofBytes s.sizeofItem (s.written pBuf e).getVal = ⟨item.x_flags, item.x_exptime, d⟩ := by
  have hsize : sizeofDataItem ≤ s.sizeofItem := by
    unfold sizeofItem
    split <;> omega
  have hwlen : (s.written pBuf e).valLen = e.valLen := by rw [written_eq]
  have hheader : ∀ i < sizeofDataItem, (s.written pBuf e).data i = (e.setItem item).data i := by
    intro i hi
    rw [written_head hret pBuf hi, hitem]
  unfold sizeofDataItem at hsize hheader
  have hword : ∀ off n, off + n ≤ 16 →
      readLe (fun i => (s.written pBuf e).getVal.getD i 0) off n = readLe (e.setItem item).data off n := by
    intro off n hn
    rw [McItem.readLe_getVal (by omega)]
    exact readLe_congr fun i _ hi => hheader i (by omega)
  have hf : readLe (e.setItem item).data 8 4 = item.x_flags := by
    unfold LsShmHElem.setItem
    dsimp only
    rw [readLe_writeLe_of_disjoint _ _ (.inl (by omega)), readLe_writeLe _ _ (by omega)]
  have ht : readLe (e.setItem item).data 0 8 = (item.x_exptime % 2 ^ 64).toNat := by
    unfold LsShmHElem.setItem LsShmHElem.setExptime
    dsimp only
    rw [readLe_writeLe_of_disjoint _ _ (.inl (by omega)), readLe_writeLe_of_disjoint _ _ (.inl (by omega)),
      readLe_writeLe _ _ (by omega)]
  have hvalue : (s.written pBuf e).getVal.drop s.sizeofItem = d := by
    apply List.ext_getElem
    . rw [List.length_drop, Value.length_getVal, hwlen, hlen, Nat.add_sub_cancel_left]
    . intro i hi hi'
      rw [List.getElem_drop]
      rw [List.getElem_eq_getD 0, Value.getD_getVal _ (by omega), written_value hret pBuf (by omega)]
      have hb : pBuf.getD i 0 = d.getD i 0 := by
        rw [← hbuf]
        simp [hi']
      rw [hb]
      simp [hi']
  unfold McItem.ofBytes
  rw [hword 8 4 (by decide), hword 0 8 (by decide), hf, ht, hvalue, toTime_emod htime]

theorem item_put {s₀ : LsShmHash} {key pBuf d : List UInt8}
    (h : s₀.Put s.getHash key s.mc.m_iterOff (s.sizeofItem + d.length)) (hbuf : pBuf.take d.length = d) {item : LsMcDataItem}
    (hitem : absExptime s.mc.m_item (s.getHash.getLruLasttime s.mc.m_iterOff) = item)
    (hflags : item.x_flags < 2 ^ 32) (htime : -2 ^ 63 ≤ item.x_exptime ∧ item.x_exptime < 2 ^ 63)
    : s₀.KeepsOthers (s.dataItemUpdate pBuf).getHash key ∧
      (s.dataItemUpdate pBuf).item key = some ⟨item.x_flags, item.x_exptime, d⟩ := by
  obtain ⟨E, hrep, hx⟩ := h.out.elems
  obtain ⟨e, he, hiter, _⟩ := hrep.lookup.elem_some hx
  obtain ⟨hput, hnew⟩ := h.setData he (s.written pBuf e).data
  rw [← written_eq] at hput hnew
  rw [item_eq, (oneHash_dataItemUpdate s pBuf).sizeofItem, getHash_dataItemUpdate pBuf hiter]
  refine ⟨hput.toKeepsOthers, ?_⟩
  rw [hnew, Option.map_some, ofBytes_written hret (h.len e he) hbuf hitem hflags htime]

end Set

end Written

end McCall

end Lsmcd
