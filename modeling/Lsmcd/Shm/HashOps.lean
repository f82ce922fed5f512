import Lsmcd.Shm.RehashLemmas

/-!
What each operation of `LsShmHash` does to the elements of a table in use.
-/

namespace Lsmcd

open LsShmHTable

namespace LsShmHash

/--
The part of `Rep` that `find2` and a traversal rest on.
-/
structure Lookup (s : LsShmHash) (E : List Nat) : Prop where
  size : s.table.x_iSize = E.length
  elems : ∀ x ∈ E, ∃ e, s.table.elem x = some e ∧ ElemOk s x e
  keys : ∀ x ∈ E, ∀ y ∈ E, s.table.keyOf x = s.table.keyOf y → x = y
  cap_pos : 0 < s.capacity
  buckets : Linked.Buckets s.table.next 0 (s.table.hIdx s.table.x_iHIdx)
    (s.table.slot s.capacity) s.capacity (· ∈ E)
  bits : s.table.x_iBitMapSz ≠ 0 → ∀ b < s.capacity,
    (s.table.bitMap s.table.x_iBitMap b = true ↔ s.table.hIdx s.table.x_iHIdx b ≠ 0)

variable {s s' : LsShmHash} {E : List Nat} {x : Nat} {key : List UInt8}

theorem Rep.lookup (h : Rep s E) : Lookup s E :=
  ⟨h.size, h.elems, h.keys, h.tableOk.cap_pos, h.buckets, h.bits⟩

theorem Lookup.slot_lt (h : Lookup s E) (x : Nat) : s.table.slot s.capacity x < s.capacity :=
  Nat.mod_lt _ h.cap_pos

theorem Lookup.ne_zero (h : Lookup s E) (hx : x ∈ E) : x ≠ 0 := by
  obtain ⟨e, _, hok⟩ := h.elems x hx
  exact hok.owns.ne_zero

theorem Lookup.elem_some (h : Lookup s E) (hx : x ∈ E)
    : ∃ e, s.table.elem x = some e ∧ s.offset2iterator x = some e ∧
        s.table.slot s.capacity x = e.x_hkey % s.capacity := by
  obtain ⟨e, he, hok⟩ := h.elems x hx
  exact ⟨e, he, hok.offset2iterator he, by simp [slot, hkeyOf, he]⟩

theorem Lookup.find2_walk (h : Lookup s E) (key : List UInt8)
    : ∃ stop : Nat → Bool, (∀ x ∈ E, stop x = true ↔ s.table.keyOf x = key) ∧
      s.find2 (s.m_hf key) key =
        if !s.table.getBitMapEnt (s.m_hf key % s.capacity) then 0
        else
          let off := Linked.seek s.table.next 0 stop s.fuel (s.table.hIdx s.table.x_iHIdx (s.m_hf key % s.capacity))
          if s.shm.offset2ptr off then off else 0 := by
  refine ⟨_, ?_, rfl⟩
  intro x hx
  obtain ⟨e, he, hok⟩ := h.elems x hx
  simp only [hok.owns.offset2ptr, he, keyOf, Bool.not_true, Bool.false_or, Bool.and_eq_true,
    decide_eq_true_eq]
  constructor
  . exact And.right
  . intro hkey
    exact ⟨by rw [hok.hkey, hkey], hkey⟩

theorem Lookup.find2_cases (h : Lookup s E) (key : List UInt8)
    : (s.find2 (s.m_hf key) key = 0 ∧ ∀ x ∈ E, s.table.keyOf x ≠ key) ∨
      (s.find2 (s.m_hf key) key ∈ E ∧ s.table.keyOf (s.find2 (s.m_hf key) key) = key) := by
  have hb : s.m_hf key % s.capacity < s.capacity := Nat.mod_lt _ h.cap_pos
  -- an element with this key is in the bucket of its hash
  have hslot : ∀ x ∈ E, s.table.keyOf x = key →
      s.table.slot s.capacity x = s.m_hf key % s.capacity := by
    intro x hx hkey
    obtain ⟨e, he, hok⟩ := h.elems x hx
    simp only [keyOf, he] at hkey
    simp only [slot, hkeyOf, he, hok.hkey, hkey]
  obtain ⟨stop, hstopE, hfind⟩ := h.find2_walk key
  rw [hfind]
  dsimp only
  by_cases hbit : s.table.getBitMapEnt (s.m_hf key % s.capacity) = true
  . rw [hbit]
    simp only [Bool.not_true, Bool.false_eq_true, if_false]
    have hfuel : ∀ xs : List Nat, xs.Nodup → (∀ x ∈ xs, x ∈ E) → xs.length < s.fuel := by
      intro xs hnd hxs
      apply Nat.lt_succ_of_le
      apply s.shm.length_le_live hnd
      intro x hx
      obtain ⟨e, _, hok⟩ := h.elems x (hxs x hx)
      exact ⟨_, hok.owns⟩
    rcases h.buckets.seek_cases hb stop hfuel with ⟨hnil, hall⟩ | ⟨hmem, _, hfound⟩
    . left
      rw [hnil, Shm.offset2ptr_zero]
      refine ⟨rfl, ?_⟩
      intro x hx hkey
      have hfalse := hall x hx (hslot x hx hkey)
      rw [(hstopE x hx).mpr hkey] at hfalse
      cases hfalse
    . right
      generalize Linked.seek s.table.next 0 stop s.fuel
        (s.table.hIdx s.table.x_iHIdx (s.m_hf key % s.capacity)) = off at hmem hfound ⊢
      obtain ⟨e, _, hok⟩ := h.elems off hmem
      rw [hok.owns.offset2ptr, if_pos rfl]
      exact ⟨hmem, (hstopE off hmem).mp hfound⟩
  . -- a clear bit means that the bucket is empty
    left
    simp only [Bool.not_eq_true] at hbit
    rw [hbit]
    refine ⟨rfl, ?_⟩
    intro x hx hkey
    simp only [getBitMapEnt, Bool.or_eq_false_iff, decide_eq_false_iff_not] at hbit
    have hhead := (h.buckets.head_ne_nil_iff hb).mpr ⟨x, hx, hslot x hx hkey⟩
    rw [(h.bits hbit.1 _ hb).mpr hhead] at hbit
    exact absurd hbit.2 (by simp)

theorem Lookup.find2_eq (h : Lookup s E) (hx : x ∈ E) (hkey : s.table.keyOf x = key)
    : s.find2 (s.m_hf key) key = x := by
  rcases h.find2_cases key with ⟨_, hnone⟩ | ⟨hmem, hkey'⟩
  . exact absurd hkey (hnone x hx)
  . exact h.keys _ hmem _ hx (hkey'.trans hkey.symm)

theorem Lookup.find2_eq_zero_iff (h : Lookup s E)
    : s.find2 (s.m_hf key) key = 0 ↔ ∀ x ∈ E, s.table.keyOf x ≠ key := by
  rcases h.find2_cases key with ⟨hz, hnone⟩ | ⟨hmem, hkey⟩
  . exact ⟨fun _ => hnone, fun _ => hz⟩
  . constructor
    . intro hz
      exact absurd hz (h.ne_zero hmem)
    . intro hnone
      exact absurd hkey (hnone _ hmem)

def findKey (s : LsShmHash) (key : List UInt8) : Nat :=
  s.find2 (s.m_hf key) key

theorem Lookup.traversal (h : Lookup s E) (hnd : E.Nodup)
    : (∀ x ∈ E, (s.next x).1 = s) ∧
      ∃ xs, Linked.Chain (fun x => (s.next x).2) 0 s.begin xs ∧ xs.Perm E := by
  have hnext : ∀ x ∈ E, s.next x = (s, Linked.succ s.table.next 0 (s.table.hIdx s.table.x_iHIdx)
      (s.table.slot s.capacity) s.capacity x) := by
    intro x hx
    obtain ⟨e, _, he, hslot⟩ := h.elem_some hx
    exact next_eq h.buckets h.cap_pos hx he hslot
  have hbegin := begin_eq h.buckets h.cap_pos (by
    intro hz x hx
    have hnil := List.length_eq_zero_iff.mp (h.size.symm.trans hz)
    rw [hnil] at hx
    cases hx)
  refine ⟨fun x hx => by rw [hnext x hx], ?_⟩
  obtain ⟨xs, hc, hmem⟩ := h.buckets.traversal (Nat.zero_add s.capacity)
  have hmem' : ∀ x, x ∈ xs ↔ x ∈ E := by
    intro x
    rw [hmem x]
    exact ⟨And.left, fun hx => ⟨hx, Nat.zero_le _, h.slot_lt x⟩⟩
  refine ⟨xs, ?_, (List.perm_ext_iff_of_nodup hc.nodup hnd).mpr hmem'⟩
  rw [hbegin]
  apply hc.congr
  intro x hx
  rw [hnext x ((hmem' x).mp hx)]

section SetElem

variable {o : Option LsShmHElem}

theorem setElem_of_ne {y : Nat} (hne : y ≠ x) (t : LsShmHTable) (o : Option LsShmHElem)
    : (t.setElem x o).elem y = t.elem y :=
  Function.update_of_ne hne _ _

theorem Rep.setElem (h : Rep s E) (hx : x ∈ E → ∃ e e', s.table.elem x = some e ∧ o = some e' ∧
      e'.key = e.key ∧ ElemOk s x e')
    : Rep (s.setTable (·.setElem x o)) E := by
  have hkeys : ∀ y ∈ E, (s.table.setElem x o).keyOf y = s.table.keyOf y ∧
      (s.table.setElem x o).hkeyOf y = s.table.hkeyOf y := by
    intro y hy
    by_cases hyx : y = x
    . subst hyx
      obtain ⟨e, e', he, rfl, hkey, hok'⟩ := hx hy
      obtain ⟨e₀, he₀, hok⟩ := h.elems y hy
      cases he.symm.trans he₀
      have hhkey : e'.x_hkey = e.x_hkey := by rw [hok'.hkey, hkey, hok.hkey]
      simp [keyOf, hkeyOf, LsShmHTable.setElem, he, hkey, hhkey]
    . simp only [keyOf, hkeyOf, setElem_of_ne hyx, and_self]
  constructor
  case nodup => exact h.nodup
  case size => exact h.size
  case size_le => exact h.size_le
  case elems =>
    intro y hy
    by_cases hyx : y = x
    . subst hyx
      obtain ⟨e, e', _, rfl, _, hok'⟩ := hx hy
      exact ⟨e', Function.update_self _ _ _, hok'.congr rfl rfl rfl hok'.owns⟩
    . obtain ⟨e, he, hok⟩ := h.elems y hy
      exact ⟨e, (setElem_of_ne hyx _ _).trans he, hok.congr rfl rfl rfl hok.owns⟩
  case keys =>
    intro y hy z hz hyz
    apply h.keys y hy z hz
    rw [← (hkeys y hy).1, ← (hkeys z hz).1]
    exact hyz
  case buckets =>
    apply h.buckets.congr (fun _ _ => rfl) (fun _ _ => rfl) _ (fun _ => Iff.rfl)
    intro y hy
    show (s.table.setElem x o).hkeyOf y % _ = s.table.hkeyOf y % _
    rw [(hkeys y hy).2]
    rfl
  case bits => exact h.bits
  case tableOk => exact ⟨h.tableOk.prime, h.tableOk.cap_le, h.tableOk.fullFactor,
      h.tableOk.growFactor, h.tableOk.idle, h.tableOk.work, h.tableOk.bitMapSz, h.tableOk.hIdx,
      h.tableOk.owns⟩
  case table_notMem => exact h.table_notMem
  case blks => exact h.blks
  case unused => exact h.unused

end SetElem

structure Spare (s : LsShmHash) (E : List Nat) (off : Nat) (e : LsShmHElem) : Prop where
  notMem : off ∉ E
  table_ne : off ≠ s.table.x_iBitMap
  unused : ¬ s.toLsShmTidMgr.Uses off
  elem : s.table.elem off = some e
  ok : ElemOk s off e

theorem Spare.quiet {off : Nat} {e : LsShmHElem} (h : Spare s E off e) (hrep : Rep s E)
    (hq : Quiet s s') : Spare s' E off e := by
  obtain ⟨_, hframe⟩ := hq.tid hrep.blks
  have howns := hframe.owns _ _ h.ok.owns h.unused
  exact ⟨h.notMem, by rw [hq.table]; exact h.table_ne, hframe.uses _ _ h.ok.owns h.unused,
    by rw [hq.table]; exact h.elem, h.ok.congr hq.hf hq.flagLru hq.flagTid howns⟩

section Leave

variable (h : Rep s E) (hx : x ∈ E)
include h hx

theorem leaveBucket_spec
    : ∃ t, s.leaveBucket x (s.table.slot s.capacity x)
          (s.table.hIdx s.table.x_iHIdx (s.table.slot s.capacity x)) (s.table.next x) =
        s.setTable (fun _ => t) ∧
      SameHdr s.table t ∧ t.x_iWorkIterOff = s.table.x_iWorkIterOff ∧
      Linked.Buckets t.next 0 (t.hIdx s.table.x_iHIdx) (s.table.slot s.capacity) s.capacity
        (fun y => y ∈ E ∧ y ≠ x) ∧
      (s.table.x_iBitMapSz ≠ 0 → ∀ b < s.capacity,
        (t.bitMap s.table.x_iBitMap b = true ↔ t.hIdx s.table.x_iHIdx b ≠ 0)) := by
  have hlk := h.lookup
  have hx0 := hlk.ne_zero hx
  have hlt := hlk.slot_lt x
  have hb : Linked.Buckets s.table.next 0 (s.table.hIdx s.table.x_iHIdx)
    (s.table.slot s.capacity) s.capacity (· ∈ E) := hlk.buckets
  unfold leaveBucket
  by_cases hhead : s.table.hIdx s.table.x_iHIdx (s.table.slot s.capacity x) = x
  . rw [if_pos hhead]
    have hpop := hb.pop hx0 hhead
    generalize ht₁ : s.table.setHIdx s.table.x_iHIdx (s.table.slot s.capacity x)
      (s.table.next x) = t₁
    have hf₁ : SameHdr s.table t₁ := ht₁ ▸ sameHdr_setHIdx _ _ _ _
    have hidx : t₁.hIdx s.table.x_iHIdx = Function.update (s.table.hIdx s.table.x_iHIdx)
        (s.table.slot s.capacity x) (s.table.next x) := by
      rw [← ht₁]
      exact Function.update_self _ _ _
    have hnext : t₁.next = s.table.next := by rw [← ht₁]; rfl
    have hwork : t₁.x_iWorkIterOff = s.table.x_iWorkIterOff := by rw [← ht₁]; rfl
    have hbit : t₁.bitMap = s.table.bitMap := by rw [← ht₁]; rfl
    refine ⟨if s.table.next x = 0 then t₁.clrBitMapEnt (s.table.slot s.capacity x) else t₁,
      by rw [← ht₁]; rfl, ?_⟩
    by_cases hn : s.table.next x = 0
    . rw [if_pos hn]
      unfold clrBitMapEnt
      refine ⟨hf₁.trans (sameHdr_putBitMapEnt _ _ _), (putBitMapEnt_work _ _ _).trans hwork, ?_, ?_⟩
      . rw [putBitMapEnt_next, putBitMapEnt_hIdx, hidx, hnext]
        exact hpop
      . intro hsz b hlt'
        rw [putBitMapEnt_hIdx, hidx, ← hf₁.bitMap,
          putBitMapEnt_bitMap (by rw [hf₁.bitMapSz]; exact hsz), hbit, hf₁.bitMap,
          Function.update_apply, Function.update_apply]
        split
        . simp [hn]
        . exact h.bits hsz b hlt'
    . rw [if_neg hn]
      refine ⟨hf₁, hwork, ?_, ?_⟩
      . rw [hidx, hnext]
        exact hpop
      . intro hsz b hlt'
        rw [hidx, hbit, Function.update_apply]
        split
        . next heq =>
          rw [heq, h.bits hsz _ hlt, hhead]
          exact ⟨fun _ => hn, fun _ => hx0⟩
        . exact h.bits hsz b hlt'
  . rw [if_neg hhead]
    obtain ⟨p, hp, hpslot, hpx⟩ := hb.exists_pred hx hlt hhead
    have hstop : ∀ y ∈ E, (!s.shm.offset2ptr y || decide (s.table.next y = x)) =
        decide (s.table.next y = x) := by
      intro y hy
      rw [h.offset2ptr hy]
      rfl
    have hseek := hb.seek_cases hlt
      (fun off => !s.shm.offset2ptr off || decide (s.table.next off = x))
      (fun xs hnd hxs => h.length_lt_fuel hnd hxs)
    dsimp only at hseek ⊢
    generalize Linked.seek s.table.next 0 (fun off => !s.shm.offset2ptr off ||
      decide (s.table.next off = x)) s.fuel
      (s.table.hIdx s.table.x_iHIdx (s.table.slot s.capacity x)) = q at hseek ⊢
    rcases hseek with ⟨_, hnone⟩ | ⟨hq, hqslot, hqx⟩
    . have hfalse := hnone p hp hpslot
      rw [hstop p hp] at hfalse
      exact absurd hpx (of_decide_eq_false hfalse)
    . rw [hstop q hq] at hqx
      have hqx := of_decide_eq_true hqx
      rw [if_pos ⟨hlk.ne_zero hq, h.offset2ptr hq, hqx⟩]
      refine ⟨_, rfl, sameHdr_setNext _ _ _, rfl, ?_, h.bits⟩
      exact hb.unlink hx0 hq (by rw [hqslot]; exact hlt) hqx

end Leave

def dropElem (s : LsShmHash) (x : Nat) (e : LsShmHElem) : LsShmHash :=
  ((s.leaveBucket x (s.table.slot s.capacity x)
    (s.table.hIdx s.table.x_iHIdx (s.table.slot s.capacity x)) (s.table.next x)).releaseElem
      x e.x_iLen).decrTableSize

structure Dropped (s s' : LsShmHash) (x : Nat) (e : LsShmHElem) : Prop where
  tid : s'.toLsShmTidMgr = { s.toLsShmTidMgr with shm := s.shm.release2 x e.x_iLen }
  hf : s'.m_hf = s.m_hf
  flagLru : s'.flagLru = s.flagLru
  flagTid : s'.flagTid = s.flagTid
  bitMap : s'.table.x_iBitMap = s.table.x_iBitMap
  capacity : s'.capacity = s.capacity
  elem : s'.table.elem = Function.update s.table.elem x none
  lru : s'.lru = s.lru
  tidLink : s'.tidLink = s.tidLink
  rebuilt : s'.rebuilt = s.rebuilt

theorem dropElem_spec (h : Rep s E) (hx : x ∈ E) (e : LsShmHElem)
    : Rep (s.dropElem x e) (E.erase x) ∧ Dropped s (s.dropElem x e) x e := by
  obtain ⟨t, heq, hf, hwork, hb, hbits⟩ := leaveBucket_spec h hx
  have hmem : ∀ y, y ∈ E.erase x ↔ y ∈ E ∧ y ≠ x := by
    intro y
    rw [h.nodup.mem_erase_iff]
    exact And.comm
  have howns : ∀ y n, s.shm.Owns y n → y ≠ x → (s.shm.release2 x e.x_iLen).Owns y n :=
    fun y n ho hne => Shm.owns_release2.mpr ⟨ho, hne⟩
  have hxE : ∀ y, y = s.table.x_iBitMap ∨ s.toLsShmTidMgr.Uses y → y ≠ x := by
    rintro y (rfl | hu) rfl
    . exact h.table_notMem hx
    . exact h.unused y (Or.inr hx) hu
  unfold dropElem
  rw [heq]
  generalize hs' : ((s.setTable fun _ => t).releaseElem x e.x_iLen).decrTableSize = s'
  have htid : s'.toLsShmTidMgr = { s.toLsShmTidMgr with shm := s.shm.release2 x e.x_iLen } := by
    rw [← hs']
    rfl
  have hcap : s'.capacity = s.capacity := by
    rw [← hs']
    exact hf.capacity
  have helem : s'.table.elem = Function.update s.table.elem x none := by
    rw [← hs', ← hf.elem]
    rfl
  have hbm : s'.table.x_iBitMap = s.table.x_iBitMap := by
    rw [← hs']
    exact hf.bitMap
  have hhIdx : s'.table.x_iHIdx = s.table.x_iHIdx := by
    rw [← hs']
    exact hf.hIdx
  have helem_ne : ∀ y, y ≠ x → s'.table.elem y = s.table.elem y := by
    intro y hy
    rw [helem, Function.update_of_ne hy]
  have hdrop : Dropped s s' x e := by
    refine ⟨htid, ?_, ?_, ?_, hbm, hcap, helem, ?_, ?_, ?_⟩
    all_goals
      rw [← hs']
      rfl
  refine ⟨?_, hdrop⟩
  constructor
  case nodup => exact h.nodup.erase x
  case size =>
    rw [List.length_erase_of_mem hx, ← h.size, ← hf.size, ← hs']
    rfl
  case size_le =>
    rw [hcap]
    exact Nat.le_trans (List.length_erase_le) h.size_le
  case elems =>
    intro y hy
    obtain ⟨hyE, hyx⟩ := (hmem y).mp hy
    obtain ⟨e', he', hok⟩ := h.elems y hyE
    refine ⟨e', (helem_ne y hyx).trans he', hok.congr hdrop.hf hdrop.flagLru hdrop.flagTid ?_⟩
    rw [show s'.shm = s.shm.release2 x e.x_iLen from congrArg LsShmTidMgr.shm htid]
    exact howns _ _ hok.owns hyx
  case keys =>
    intro y hy z hz
    obtain ⟨hyE, hyx⟩ := (hmem y).mp hy
    obtain ⟨hzE, hzx⟩ := (hmem z).mp hz
    simp only [keyOf, helem_ne y hyx, helem_ne z hzx]
    exact h.keys y hyE z hzE
  case buckets =>
    rw [hcap, hhIdx]
    have hb' : Linked.Buckets s'.table.next 0 (s'.table.hIdx s.table.x_iHIdx)
        (s.table.slot s.capacity) s.capacity (fun y => y ∈ E ∧ y ≠ x) := by
      rw [← hs']
      exact hb
    apply hb'.congr (fun _ _ => rfl) (fun _ _ => rfl) _ hmem
    rintro y ⟨_, hyx⟩
    show s'.table.hkeyOf y % s'.capacity = s.table.hkeyOf y % s.capacity
    simp only [hkeyOf, helem_ne y hyx, hcap]
  case bits =>
    rw [hcap, hhIdx, hbm, ← hs']
    intro hsz
    exact hbits (fun h0 => hsz (hf.bitMapSz.trans h0))
  case tableOk =>
    have ht := h.tableOk
    rw [← hs']
    refine ⟨?_, ?_, hf.fullFactor.trans ht.fullFactor, hf.growFactor.trans ht.growFactor,
      ?_, hwork.trans ht.work, ?_, ?_, ?_⟩
    . exact hf.capacity.symm ▸ ht.prime
    . exact hf.capacity.symm ▸ ht.cap_le
    . exact hf.hIdxNew.trans (ht.idle.trans hf.hIdx.symm)
    . exact hf.bitMapSz.trans (hf.capacity.symm ▸ ht.bitMapSz)
    . show t.x_iHIdx = t.x_iBitMap + t.x_iBitMapSz
      rw [hf.hIdx, hf.bitMap, hf.bitMapSz]
      exact ht.hIdx
    . show (s.shm.release2 x e.x_iLen).Owns t.x_iBitMap
        (size2roundSize (sz2TableSz t.x_iCapacity + sz2BitMapSz t.x_iCapacity))
      rw [hf.bitMap, hf.capacity]
      exact howns _ _ ht.owns (hxE _ (Or.inl rfl))
  case table_notMem =>
    rw [hbm, hmem]
    exact fun hin => h.table_notMem hin.1
  case blks =>
    rw [htid]
    exact h.blks.withShm (fun y n ho hu => howns y n ho (hxE y (Or.inr hu)))
  case unused =>
    rw [hbm, htid]
    rintro y (rfl | hy)
    . exact h.unused _ (Or.inl rfl)
    . exact h.unused y (Or.inr ((hmem y).mp hy).1)

def eraseCbs (s : LsShmHash) (x : Nat) : LsShmHash :=
  let s := if s.flagLru then s.unlinkHElem x else s
  if s.flagTid then s.eraseIterCb x else s

theorem quiet_eraseCbs (s : LsShmHash) (x : Nat) : Quiet s (s.eraseCbs x) := by
  unfold eraseCbs
  exact (quiet_ite (fun _ => quiet_unlinkHElem s x)).trans
    (quiet_ite (fun _ => quiet_eraseIterCb _ x))

theorem eraseIteratorHelper_eq (h : Rep s E) (hx : x ∈ E) {e : LsShmHElem}
    (he : s.table.elem x = some e)
    : s.eraseIteratorHelper x = (s.eraseCbs x).dropElem x e := by
  have hq := quiet_eraseCbs s x
  obtain ⟨e', he', hiter, hslot⟩ := h.lookup.elem_some hx
  cases he.symm.trans he'
  have hcap : (s.eraseCbs x).capacity = s.capacity := by
    unfold capacity
    rw [hq.table]
  unfold eraseIteratorHelper dropElem
  rw [if_neg (h.ne_zero hx), hiter, hcap, hq.table, hslot]
  rfl

theorem eraseIteratorHelper_spec (h : Rep s E) (hx : x ∈ E) {e : LsShmHElem}
    (he : s.table.elem x = some e)
    : Rep (s.eraseIteratorHelper x) (E.erase x) ∧
      Dropped (s.eraseCbs x) (s.eraseIteratorHelper x) x e := by
  rw [eraseIteratorHelper_eq h hx he]
  exact dropElem_spec (h.quiet (quiet_eraseCbs s x)) hx e

theorem rehash_spec (h : Rep s E)
    : Rep s.rehash.1 E ∧ Kept s s.rehash.1 ∧
      (s.rehash.2 = true → s.capacity < s.rehash.1.capacity) ∧
      (s.rehash.2 = false → s.rehash.1.capacity = s.capacity) := by
  rcases rehash_cases h with ⟨_, heq⟩ | ⟨_, _, s', heq, hmoved, hrep⟩
  . rw [heq]
    exact ⟨h.withShm (Shm.grows_alloc2 _ _), ⟨rfl, rfl, rfl, rfl, rfl, rfl, rfl, rfl, rfl⟩,
      by simp, fun _ => rfl⟩
  . rw [heq]
    refine ⟨hrep, ((kept_started s _ _).trans hmoved.kept).trans (kept_switched s'), ?_, by simp⟩
    intro _
    show s.capacity < s'.table.x_iCapacityNew
    rw [hmoved.hdr.capacityNew]
    exact (grownCapacity_spec h.tableOk).2.1

structure Entered (s s' : LsShmHash) : Prop where
  tid : s'.toLsShmTidMgr = s.toLsShmTidMgr
  hf : s'.m_hf = s.m_hf
  flagLru : s'.flagLru = s.flagLru
  flagTid : s'.flagTid = s.flagTid
  bitMap : s'.table.x_iBitMap = s.table.x_iBitMap
  capacity : s'.capacity = s.capacity
  elem : s'.table.elem = s.table.elem
  lru : s'.lru = s.lru
  tidLink : s'.tidLink = s.tidLink
  rebuilt : s'.rebuilt = s.rebuilt

theorem enterBucket_spec (h : Rep s E) {off : Nat} {e : LsShmHElem} (hs : Spare s E off e)
    (hkey : ∀ x ∈ E, s.table.keyOf x ≠ e.key) (hroom : E.length < s.capacity)
    : Rep (s.enterBucket off e.x_hkey) (off :: E) ∧ Entered s (s.enterBucket off e.x_hkey) := by
  have hoff := hs.ok.owns.ne_zero
  have hslot : s.table.slot s.capacity off = e.x_hkey % s.capacity := by
    simp [slot, hkeyOf, hs.elem]
  have hlt := h.lookup.slot_lt off
  have heq : s.enterBucket off e.x_hkey = s.setTable (fun _ =>
      let t := ((s.table.setNext off (s.table.hIdx s.table.x_iHIdx (s.table.slot s.capacity off))
        ).setHIdx s.table.x_iHIdx (s.table.slot s.capacity off) off).setBitMapEnt
          (s.table.slot s.capacity off)
      { t with x_iSize := t.x_iSize + 1 }) := by
    rw [hslot]
    rfl
  rw [heq]
  dsimp only
  generalize ht₁ : (s.table.setNext off (s.table.hIdx s.table.x_iHIdx (s.table.slot s.capacity off))
    ).setHIdx s.table.x_iHIdx (s.table.slot s.capacity off) off = t₁
  have hf₁ : SameHdr s.table t₁ := by
    rw [← ht₁]
    exact (sameHdr_setNext _ _ _).trans (sameHdr_setHIdx _ _ _ _)
  have hf : SameHdr s.table (t₁.setBitMapEnt (s.table.slot s.capacity off)) :=
    hf₁.trans (sameHdr_setBitMapEnt _ _)
  have hidx : t₁.hIdx s.table.x_iHIdx = Function.update (s.table.hIdx s.table.x_iHIdx)
      (s.table.slot s.capacity off) off := by
    rw [← ht₁]
    exact Function.update_self _ _ _
  have hnext : t₁.next = Function.update s.table.next off
      (s.table.hIdx s.table.x_iHIdx (s.table.slot s.capacity off)) := by
    rw [← ht₁]
    rfl
  have hbit : t₁.bitMap = s.table.bitMap := by
    rw [← ht₁]
    rfl
  have hwork : t₁.x_iWorkIterOff = s.table.x_iWorkIterOff := by
    rw [← ht₁]
    rfl
  have hpush := h.lookup.buckets.push hs.notMem hoff
  generalize ht : t₁.setBitMapEnt (s.table.slot s.capacity off) = t at hf
  have hidx' : t.hIdx s.table.x_iHIdx = Function.update (s.table.hIdx s.table.x_iHIdx)
      (s.table.slot s.capacity off) off := by
    rw [← ht, setBitMapEnt_hIdx, hidx]
  have hbits : s.table.x_iBitMapSz ≠ 0 → ∀ b < s.capacity,
      (t.bitMap s.table.x_iBitMap b = true ↔ t.hIdx s.table.x_iHIdx b ≠ 0) := by
    intro hsz b hb
    rw [hidx', ← ht, ← hf₁.bitMap, setBitMapEnt,
      putBitMapEnt_bitMap (by rw [hf₁.bitMapSz]; exact hsz), hf₁.bitMap, hbit,
      Function.update_apply, Function.update_apply]
    split
    . simp [hoff]
    . exact h.bits hsz b hb
  refine ⟨?_, ⟨rfl, rfl, rfl, rfl, hf.bitMap, hf.capacity, hf.elem, rfl, rfl, rfl⟩⟩
  constructor
  case nodup => exact List.nodup_cons.mpr ⟨hs.notMem, h.nodup⟩
  case size =>
    show t.x_iSize + 1 = E.length + 1
    rw [hf.size, h.size]
  case size_le =>
    show E.length + 1 ≤ t.x_iCapacity
    rw [hf.capacity]
    exact hroom
  case elems =>
    show ∀ x ∈ off :: E, ∃ e', t.elem x = some e' ∧ _
    rw [hf.elem]
    intro x hx
    rcases List.mem_cons.mp hx with rfl | hx
    . exact ⟨e, hs.elem, hs.ok.congr rfl rfl rfl hs.ok.owns⟩
    . obtain ⟨e', he', hok⟩ := h.elems x hx
      exact ⟨e', he', hok.congr rfl rfl rfl hok.owns⟩
  case keys =>
    show ∀ x ∈ off :: E, ∀ y ∈ off :: E, t.keyOf x = t.keyOf y → x = y
    have hoffkey : s.table.keyOf off = e.key := by simp [keyOf, hs.elem]
    have hkeyOf : t.keyOf = s.table.keyOf := by
      funext y
      simp only [keyOf, hf.elem]
    rw [hkeyOf]
    intro x hx y hy hxy
    rcases List.mem_cons.mp hx with hxo | hxE
    . rcases List.mem_cons.mp hy with hyo | hyE
      . exact hxo.trans hyo.symm
      . rw [hxo] at hxy
        exact absurd (hxy.symm.trans hoffkey) (hkey y hyE)
    . rcases List.mem_cons.mp hy with hyo | hyE
      . rw [hyo] at hxy
        exact absurd (hxy.trans hoffkey) (hkey x hxE)
      . exact h.keys x hxE y hyE hxy
  case buckets =>
    show Linked.Buckets t.next 0 (t.hIdx t.x_iHIdx) (t.slot t.x_iCapacity) t.x_iCapacity _
    rw [hf.hIdx, hidx', hf.slot, hf.capacity, ← ht, setBitMapEnt_next, hnext]
    exact hpush.congr (fun _ _ => rfl) (fun _ _ => rfl) (fun _ _ => rfl) (fun _ => List.mem_cons)
  case bits =>
    show t.x_iBitMapSz ≠ 0 → ∀ b < t.x_iCapacity,
      (t.bitMap t.x_iBitMap b = true ↔ t.hIdx t.x_iHIdx b ≠ 0)
    rw [hf.bitMapSz, hf.capacity, hf.bitMap, hf.hIdx]
    exact hbits
  case tableOk =>
    have htbl := h.tableOk
    have hw : t.x_iWorkIterOff = s.table.x_iWorkIterOff := by
      rw [← ht, setBitMapEnt_work, hwork]
    refine ⟨?_, ?_, hf.fullFactor.trans htbl.fullFactor, hf.growFactor.trans htbl.growFactor,
      ?_, hw.trans htbl.work, ?_, ?_, ?_⟩
    . exact hf.capacity.symm ▸ htbl.prime
    . exact hf.capacity.symm ▸ htbl.cap_le
    . exact hf.hIdxNew.trans (htbl.idle.trans hf.hIdx.symm)
    . exact hf.bitMapSz.trans (hf.capacity.symm ▸ htbl.bitMapSz)
    . show t.x_iHIdx = t.x_iBitMap + t.x_iBitMapSz
      rw [hf.hIdx, hf.bitMap, hf.bitMapSz]
      exact htbl.hIdx
    . show s.shm.Owns t.x_iBitMap
        (size2roundSize (sz2TableSz t.x_iCapacity + sz2BitMapSz t.x_iCapacity))
      rw [hf.bitMap, hf.capacity]
      exact htbl.owns
  case table_notMem =>
    show t.x_iBitMap ∉ off :: E
    rw [hf.bitMap, List.mem_cons, not_or]
    exact ⟨Ne.symm hs.table_ne, h.table_notMem⟩
  case blks => exact h.blks
  case unused =>
    show ∀ x, x = t.x_iBitMap ∨ x ∈ off :: E → ¬ s.toLsShmTidMgr.Uses x
    rw [hf.bitMap]
    rintro x (rfl | hx)
    . exact h.unused _ (Or.inl rfl)
    . rcases List.mem_cons.mp hx with rfl | hx
      . exact hs.unused
      . exact h.unused x (Or.inr hx)

section Insert

variable {parms : StrPair} {hkey : Nat}

theorem Rep.fresh (h : Rep s E) {m : Shm} {off n : Nat} (hf : Shm.Fresh s.shm m off n) (hn : 0 < n)
    : off ∉ E ∧ off ≠ s.table.x_iBitMap ∧ ¬ s.toLsShmTidMgr.Uses off := by
  refine ⟨?_, ?_, ?_⟩
  . intro hx
    obtain ⟨e, _, hok⟩ := h.elems off hx
    exact hf.not_owns hn hok.owns
  . rintro rfl
    exact hf.not_owns hn h.tableOk.owns
  . intro hu
    obtain ⟨k, ho⟩ := h.blks.uses_owns hu
    exact hf.not_owns hn ho

def newElem (s : LsShmHash) (hkey : Nat) (parms : StrPair) (junk : Junk) : LsShmHElem :=
  { x_iLen := s.elementSize parms.key.length parms.val.len
    x_iValOff := s.valueOff parms.key.length
    x_hkey := hkey
    key := parms.key
    valLen := parms.val.len
    data := junk.x_data : LsShmHElem }.setVal parms.val

def withElem (s : LsShmHash) (m : Shm) (off : Nat) (e : LsShmHElem) : LsShmHash :=
  { s with
    shm := m
    table := s.table.setElem off (some e)
    tidLink := Function.update s.tidLink off (m.junk off).x_tid }

theorem Rep.withElem (h : Rep s E) {m : Shm} {off : Nat} {e : LsShmHElem}
    (hg : Shm.Grows s.shm m) (hf : Shm.Fresh s.shm m off (size2roundSize e.x_iLen))
    (hlen : 0 < e.x_iLen) (hok : ElemOk { s with shm := m } off e)
    : Rep (s.withElem m off e) E ∧ Spare (s.withElem m off e) E off e := by
  obtain ⟨hE, ht, hu⟩ := h.fresh hf (size2roundSize_pos hlen)
  have h₁ := (h.withShm hg).setElem (x := off) (o := some e) (fun hx => absurd hx hE)
  refine ⟨h₁.quiet (quiet_tidLink _ _), hE, ht, hu, Function.update_self _ _ _, ?_⟩
  exact hok.congr rfl rfl rfl hok.owns

def Sound (s : LsShmHash) (keyLen valLen : Nat) : Prop :=
  s.valueOff keyLen < 32 ∨ s.elementSize keyLen valLen ≤ VALIDATE_MAXLEN

instance (s : LsShmHash) (keyLen valLen : Nat) : Decidable (s.Sound keyLen valLen) :=
  inferInstanceAs (Decidable (_ ∨ _))

theorem newElem_ok (s : LsShmHash) {m : Shm} {off : Nat} (parms : StrPair) (junk : Junk)
    (hsound : s.Sound parms.key.length parms.val.len)
    (ho : m.Owns off (size2roundSize (s.elementSize parms.key.length parms.val.len)))
    : ElemOk { s with shm := m } off (s.newElem (s.m_hf parms.key) parms junk) where
  hkey := rfl
  valOff := rfl
  len := ⟨round4 parms.val.len, rfl, le_round4 _⟩
  sound := hsound
  owns := ho

theorem fillIter_withElem (s : LsShmHash) (m : Shm) (off : Nat) (e : LsShmHElem) (hkey : Nat)
    (parms : StrPair)
    : (s.withElem m off e).fillIter off hkey parms =
        s.withElem m off ({ e with x_hkey := hkey, key := parms.key }.setVal parms.val) := by
  have helem : (s.withElem m off e).table.elem off = some e := Function.update_self _ _ _
  unfold fillIter
  rw [helem]
  simp only [withElem, LsShmHash.setTable, LsShmHTable.setElem, Function.update_idem]

def linkCb (s : LsShmHash) (off : Nat) : LsShmHash :=
  if s.flagLru then s.linkHElem off else s

theorem quiet_linkCb (s : LsShmHash) (off : Nat) : Quiet s (s.linkCb off) :=
  quiet_ite (fun _ => quiet_linkHElem s off)

def rehashed (s : LsShmHash) : LsShmHash × Bool :=
  if s.capacity < s.size * s.table.x_iFullFactor then s.rehash else (s, true)

theorem rehashed_spec (h : Rep s E)
    : Rep s.rehashed.1 E ∧ Kept s s.rehashed.1 ∧
      (¬ (s.rehashed.2 = false ∧ s.rehashed.1.size = s.rehashed.1.capacity) →
        E.length < s.rehashed.1.capacity) := by
  have hsz : s.size = E.length := h.size
  have hle := h.size_le
  unfold rehashed
  split
  . obtain ⟨hrep, hkept, hgrown, _⟩ := rehash_spec h
    refine ⟨hrep, hkept, ?_⟩
    intro hroom
    cases hr : s.rehash.2 with
    | true =>
      have hlt := hgrown hr
      omega
    | false =>
      have hsz' : s.rehash.1.size = E.length := hrep.size
      have hle' := hrep.size_le
      rw [hr] at hroom
      have hne : s.rehash.1.size ≠ s.rehash.1.capacity := fun heq => hroom ⟨rfl, heq⟩
      omega
  . next hfull =>
    refine ⟨h, Kept.refl s, ?_⟩
    intro _
    have hcap : 2 ≤ s.capacity := by
      have hlist : ∀ c ∈ s_primeList, 2 ≤ c := by decide
      exact hlist _ h.tableOk.prime
    rw [h.tableOk.fullFactor] at hfull
    show E.length < s.capacity
    omega

theorem valueOff_kept (hk : Kept s s') (n : Nat) : s'.valueOff n = s.valueOff n :=
  valueOff_congr hk.flagLru hk.flagTid n

theorem elementSize_kept (hk : Kept s s') (n k : Nat) : s'.elementSize n k = s.elementSize n k := by
  unfold elementSize
  rw [valueOff_kept hk]

theorem keyOf_kept (hk : Kept s s') (x : Nat) : s'.table.keyOf x = s.table.keyOf x := by
  simp only [keyOf, hk.elem]

def Full (s : LsShmHash) : Prop :=
  s.rehashed.2 = false ∧ s.rehashed.1.size = s.rehashed.1.capacity

instance (s : LsShmHash) : Decidable s.Full := inferInstanceAs (Decidable (_ ∧ _))

theorem insertCopy2_cases (h : Rep s E) (hkey : ∀ x ∈ E, s.table.keyOf x ≠ parms.key)
    (hsound : s.Sound parms.key.length parms.val.len)
    : let s₁ := s.rehashed.1
      let q := s₁.shm.alloc2 (s.elementSize parms.key.length parms.val.len)
      let e := s.newElem (s.m_hf parms.key) parms (q.1.junk q.2)
      let s₂ := s₁.withElem q.1 q.2 e
      (s.Full ∧ s.insertCopy2 (s.m_hf parms.key) parms = (s₁, 0)) ∨
      (q.2 = 0 ∧ s.insertCopy2 (s.m_hf parms.key) parms = ({ s₁ with shm := q.1 }, 0)) ∨
      (¬ s.Full ∧ q.2 ≠ 0 ∧ Rep s₂ E ∧ Spare s₂ E q.2 e ∧ E.length < s₂.capacity ∧
        (∀ x ∈ E, s₂.table.keyOf x ≠ e.key) ∧
        s.insertCopy2 (s.m_hf parms.key) parms =
          ((s₂.linkCb q.2).enterBucket q.2 (s.m_hf parms.key), q.2)) := by
  intro s₁ q e s₂
  obtain ⟨h₁, hk, hroom⟩ := rehashed_spec h
  have hsize := elementSize_kept hk parms.key.length parms.val.len
  unfold insertCopy2
  dsimp only
  rw [← rehashed]
  by_cases hfull : s.rehashed.2 = false ∧ s.rehashed.1.size = s.rehashed.1.capacity
  . rw [if_pos hfull]
    exact Or.inl ⟨hfull, rfl⟩
  . rw [if_neg hfull]
    right
    have hq : s₁.shm.alloc2 (s₁.elementSize parms.key.length parms.val.len) = q := by
      rw [hsize]
    by_cases h0 : q.2 = 0
    . left
      refine ⟨h0, ?_⟩
      have hfail : s₁.allocIter parms.key.length parms.val.len = ({ s₁ with shm := q.1 }, 0) := by
        unfold allocIter
        dsimp only
        rw [hq, if_pos h0]
      rw [hfail]
      rfl
    . right
      have hne : (s₁.shm.alloc2 (s.elementSize parms.key.length parms.val.len)).2 ≠ 0 := h0
      have hfresh := Shm.fresh_alloc2 _ _ hne
      have hgrows := Shm.grows_alloc2 s₁.shm (s.elementSize parms.key.length parms.val.len)
      have hpos := (Shm.alloc2_size _ _ hne).1
      have hok : ElemOk { s₁ with shm := q.1 } q.2 e :=
        (newElem_ok s parms (q.1.junk q.2) hsound hfresh.owns).congr hk.hf hk.flagLru hk.flagTid
          hfresh.owns
      obtain ⟨h₂, hs₂⟩ := h₁.withElem hgrows hfresh hpos hok
      have hkeys : ∀ x ∈ E, s₂.table.keyOf x ≠ e.key := by
        intro x hx
        have hxo : x ≠ q.2 := by
          rintro rfl
          exact hs₂.notMem hx
        show LsShmHTable.keyOf (s₁.table.setElem q.2 (some e)) x ≠ parms.key
        have hkeep := keyOf_kept hk x
        unfold keyOf at hkeep ⊢
        rw [setElem_of_ne hxo, hkeep]
        exact hkey x hx
      refine ⟨hfull, h0, h₂, hs₂, hroom hfull, hkeys, ?_⟩
      have halloc : s₁.allocIter parms.key.length parms.val.len = (s₁.withElem q.1 q.2
          { x_iLen := s.elementSize parms.key.length parms.val.len
            x_iValOff := s.valueOff parms.key.length
            x_hkey := 0
            key := List.replicate parms.key.length 0
            valLen := parms.val.len
            data := (q.1.junk q.2).x_data }, q.2) := by
        unfold allocIter
        dsimp only
        rw [hq, if_neg h0, ← hsize, ← valueOff_kept hk]
        rfl
      rw [halloc]
      dsimp only
      rw [if_neg h0, fillIter_withElem]
      have hptr : (s₁.withElem q.1 q.2 _).shm.offset2ptr q.2 = true := hs₂.ok.owns.offset2ptr
      rw [if_neg (by rw [Bool.not_eq_true', Bool.not_eq_false]; exact hptr)]
      rfl

end Insert

theorem Spare.dropped {off : Nat} {e e' : LsShmHElem} (h : Spare s E off e) (hx : x ∈ E)
    (hd : Dropped s s' x e') : Spare s' (E.erase x) off e := by
  have hne : off ≠ x := by
    rintro rfl
    exact h.notMem hx
  have hshm : s'.shm = s.shm.release2 x e'.x_iLen := congrArg LsShmTidMgr.shm hd.tid
  refine ⟨?_, ?_, ?_, ?_, ?_⟩
  . exact fun hin => h.notMem (List.mem_of_mem_erase hin)
  . rw [hd.bitMap]
    exact h.table_ne
  . rw [hd.tid]
    exact h.unused
  . rw [hd.elem, Function.update_of_ne hne]
    exact h.elem
  . apply h.ok.congr hd.hf hd.flagLru hd.flagTid
    rw [hshm]
    exact Shm.owns_release2.mpr ⟨h.ok.owns, hne⟩

def insertCb (s : LsShmHash) (off : Nat) : LsShmHash :=
  if s.flagTid then s.insertIterCb off else s

theorem quiet_insertCb (s : LsShmHash) (off : Nat) : Quiet s (s.insertCb off) :=
  quiet_ite (fun _ => quiet_linkTid s off 0)

theorem insert2_eq (s : LsShmHash) (hkey : Nat) (parms : StrPair)
    : s.insert2 hkey parms =
        ((s.insertCopy2 hkey parms).1.insertCb (s.insertCopy2 hkey parms).2,
          (s.insertCopy2 hkey parms).2) := rfl

theorem offset2iterator_zero (s : LsShmHash) : s.offset2iterator 0 = none := by
  unfold offset2iterator
  split
  . rfl
  . simp [Shm.offset2ptr_zero]

theorem elem_of_offset2iterator {off : Nat} {e : LsShmHElem} (h : s.offset2iterator off = some e)
    : s.table.elem off = some e := by
  unfold offset2iterator at h
  split at h
  . cases h
  . rename_i e' he'
    split at h
    . cases h
      exact he'
    . cases h

theorem iterGrowValue_zero (s : LsShmHash) (n : Nat) (front : Bool)
    : s.iterGrowValue 0 n front = (s, 0) := by
  unfold iterGrowValue
  split
  . rfl
  . rw [Shm.offset2ptr_zero]
    rfl

section Grow

variable (h : Rep s E) (hx : x ∈ E) {e : LsShmHElem} (he : s.table.elem x = some e)
include h hx he

theorem growElem_ok {m : Shm} {off n : Nat} {front : Bool} (junk : Junk)
    (hsound : e.x_iValOff < 32 ∨ e.x_iLen + round4 n ≤ VALIDATE_MAXLEN)
    (ho : m.Owns off (size2roundSize (e.x_iLen + round4 n)))
    : ElemOk { s with shm := m } off (growElem e junk n front) := by
  obtain ⟨e', he', hok⟩ := h.elems x hx
  cases he.symm.trans he'
  obtain ⟨room, hlen, hroom⟩ := hok.len
  refine ⟨hok.hkey, hok.valOff, ⟨room + round4 n, ?_, ?_⟩, hsound, ho⟩
  . show e.x_iLen + round4 n = sizeofHElem + e.x_iValOff + sizeofVardata + (room + round4 n)
    omega
  . have := le_round4 n
    show e.valLen + n ≤ room + round4 n
    omega

theorem iterGrowValue_cases (n : Nat) (front : Bool)
    (hsound : e.x_iValOff < 32 ∨ e.x_iLen + round4 n ≤ VALIDATE_MAXLEN)
    : let q := s.shm.alloc2 (e.x_iLen + round4 n)
      let e' := growElem e (q.1.junk q.2) n front
      let s₁ := s.withElem q.1 q.2 e'
      let s₂ := s₁.eraseIteratorHelper x
      let s₃ := (s₂.linkCb q.2).insertCb q.2
      (q.2 = 0 ∧ s.iterGrowValue x n front = ({ s with shm := q.1 }, 0)) ∨
      (q.2 ≠ 0 ∧ LsShmHElem.iterOk q.1 q.2 (q.1.junk q.2).x_iLen (q.1.junk q.2).x_iValOff = false ∧
        s.iterGrowValue x n front = ({ s with shm := q.1 }.rebuild, 0)) ∨
      (q.2 ≠ 0 ∧ LsShmHElem.iterOk q.1 q.2 (q.1.junk q.2).x_iLen (q.1.junk q.2).x_iValOff = true ∧
        Rep s₁ E ∧ Spare s₁ E q.2 e' ∧ Rep s₂ (E.erase x) ∧ Spare s₂ (E.erase x) q.2 e' ∧
        Dropped (s₁.eraseCbs x) s₂ x e ∧
        (E.erase x).length < s₂.capacity ∧ (∀ y ∈ E.erase x, s₂.table.keyOf y ≠ e'.key) ∧
        s.iterGrowValue x n front = (s₃.enterBucket q.2 e'.x_hkey, q.2)) := by
  intro q e' s₁ s₂ s₃
  have hptr := h.offset2ptr hx
  unfold iterGrowValue
  simp only [he, hptr, Bool.not_true, Bool.false_eq_true, if_false]
  rw [show s.shm.alloc2 (e.x_iLen + round4 n) = q from rfl]
  by_cases h0 : q.2 = 0
  . left
    rw [if_pos h0]
    exact ⟨h0, rfl⟩
  . right
    have hne : (s.shm.alloc2 (e.x_iLen + round4 n)).2 ≠ 0 := h0
    have hfresh := Shm.fresh_alloc2 _ _ hne
    have hgrows := Shm.grows_alloc2 s.shm (e.x_iLen + round4 n)
    have hpos := (Shm.alloc2_size _ _ hne).1
    have hoptr : q.1.offset2ptr q.2 = true := hfresh.owns.offset2ptr
    rw [if_neg h0, hoptr, Bool.true_and]
    cases hjunk : LsShmHElem.iterOk q.1 q.2 (q.1.junk q.2).x_iLen (q.1.junk q.2).x_iValOff with
    | false =>
      left
      exact ⟨h0, rfl, rfl⟩
    | true =>
      right
      rw [if_neg (by simp)]
      have hok : ElemOk { s with shm := q.1 } q.2 e' :=
        growElem_ok h hx he (q.1.junk q.2) hsound hfresh.owns
      obtain ⟨h₁, hs₁⟩ : Rep s₁ E ∧ Spare s₁ E q.2 e' := h.withElem hgrows hfresh hpos hok
      have hxo : x ≠ q.2 := fun heq => hs₁.notMem (heq ▸ hx)
      have he₁ : s₁.table.elem x = some e := (setElem_of_ne hxo _ _).trans he
      obtain ⟨h₂, hd₂⟩ : Rep s₂ (E.erase x) ∧ Dropped (s₁.eraseCbs x) s₂ x e :=
        eraseIteratorHelper_spec h₁ hx he₁
      have hs₂ := (hs₁.quiet h₁ (quiet_eraseCbs s₁ x)).dropped hx hd₂
      have hq := quiet_eraseCbs s₁ x
      have hcap₂ : s₂.capacity = s.capacity := by
        rw [hd₂.capacity]
        unfold capacity
        rw [hq.table]
        rfl
      have hlen : (E.erase x).length < s₂.capacity := by
        have hle := h.size_le
        have hpos : 0 < E.length := List.length_pos_of_mem hx
        rw [List.length_erase_of_mem hx, hcap₂]
        omega
      have hkeys : ∀ y ∈ E.erase x, s₂.table.keyOf y ≠ e'.key := by
        intro y hy
        rw [h.nodup.mem_erase_iff] at hy
        have hyo : y ≠ q.2 := fun heq => hs₁.notMem (heq ▸ hy.2)
        have hkeep : s₂.table.keyOf y = s.table.keyOf y := by
          have hkeep₁ : s₁.table.elem y = s.table.elem y := setElem_of_ne hyo _ _
          simp only [keyOf, hd₂.elem, Function.update_of_ne hy.1, hq.table, hkeep₁]
        rw [hkeep]
        intro heq
        apply hy.1
        apply h.keys y hy.2 x hx
        rw [heq]
        simp only [keyOf, he]
        rfl
      refine ⟨h0, rfl, h₁, hs₁, h₂, hs₂, hd₂, hlen, hkeys, ?_⟩
      have hq₃ : Quiet s₂ s₃ := (quiet_linkCb s₂ q.2).trans (quiet_insertCb _ q.2)
      have hs₃ := hs₂.quiet h₂ hq₃
      have hiter := hs₃.ok.offset2iterator hs₃.elem
      show (if s₃.flagTid && (s₃.offset2iterator q.2).isNone then _ else _) = _
      rw [hiter, if_neg (by simp)]
      rfl

end Grow

section Clear

def lenOf (t : LsShmHTable) (off : Nat) : Nat :=
  match t.elem off with
  | none => 0
  | some e => e.x_iLen

def releaseList (s : LsShmHash) (xs : List Nat) : LsShmHash :=
  xs.foldl (fun s x => s.releaseElem x (lenOf s.table x)) s

/--
The loop of `clear` on its way, with the elements of `rest` still to release. The buckets are those
of `s`, in which all elements are still linked.
-/
structure Releasing (s s' : LsShmHash) (E rest : List Nat) : Prop where
  nodup : rest.Nodup
  sub : ∀ y ∈ rest, y ∈ E
  next : s'.table.next = s.table.next
  heads : s'.table.hIdx s'.table.x_iHIdx = s.table.hIdx s.table.x_iHIdx
  capacity : s'.capacity = s.capacity
  elems : ∀ y ∈ rest, ∃ e, s.table.elem y = some e ∧ s'.table.elem y = some e ∧ ElemOk s' y e

theorem Releasing.tail {rest : List Nat} (h : Releasing s s' E (x :: rest)) (len : Nat)
    : Releasing s (s'.releaseElem x len) E rest := by
  have hnd := List.nodup_cons.mp h.nodup
  refine ⟨hnd.2, fun y hy => h.sub y (List.mem_cons_of_mem x hy), h.next, h.heads, h.capacity, ?_⟩
  intro y hy
  obtain ⟨e, he, he', hok⟩ := h.elems y (List.mem_cons_of_mem x hy)
  have hyx : y ≠ x := by
    rintro rfl
    exact hnd.1 hy
  refine ⟨e, he, (setElem_of_ne hyx _ _).trans he', hok.congr rfl rfl rfl ?_⟩
  exact Shm.owns_release2.mpr ⟨hok.owns, hyx⟩

/--
The loop of `clear` releases the elements in the order of the buckets. By induction on the rest of
the traversal: the next element is computed from the buckets of the table as it was.
-/
theorem releaseAll_eq (h : Rep s E) {rest : List Nat} {off fuel : Nat}
    (hr : Releasing s s' E rest)
    (hc : Linked.Chain (Linked.succ s.table.next 0 (s.table.hIdx s.table.x_iHIdx)
      (s.table.slot s.capacity) s.capacity) 0 off rest)
    (hfuel : rest.length < fuel)
    : releaseAll fuel s' off = s'.releaseList rest := by
  induction rest generalizing s' off fuel with
  | nil =>
    cases fuel with
    | zero => simp at hfuel
    | succ fuel =>
      rw [releaseAll, if_pos (Linked.chain_nil_iff.mp hc)]
      rfl
  | cons x rest ih =>
    cases fuel with
    | zero => simp at hfuel
    | succ fuel =>
      obtain ⟨rfl, hx0, hc⟩ := Linked.chain_cons_iff.mp hc
      have hxE := hr.sub off List.mem_cons_self
      obtain ⟨e, he, he', hok⟩ := hr.elems off List.mem_cons_self
      have hiter := hok.offset2iterator he'
      have hslot : s.table.slot s.capacity off = e.x_hkey % s.capacity := by
        simp [slot, hkeyOf, he]
      have hb := h.lookup.buckets
      have hcap : 0 < s.capacity := h.tableOk.cap_pos
      have hnext : s'.next off = (s', Linked.succ s.table.next 0 (s.table.hIdx s.table.x_iHIdx)
          (s.table.slot s.capacity) s.capacity off) := by
        rw [next_eq_of hx0 hiter]
        . unfold Linked.succ
          rw [hr.next, hr.heads, hr.capacity, hslot]
        . rw [hr.next]
          exact next_ne_self hb hcap hxE
        . rw [hr.heads, hr.capacity, ← hslot]
          exact fun k hk hk' => head_ne_of_slot_lt hb hcap hxE hk hk'
      have hlen : lenOf s'.table off = e.x_iLen := by simp [lenOf, he']
      rw [releaseAll, if_neg hx0, hnext]
      dsimp only
      rw [hiter, releaseList, List.foldl_cons, hlen]
      exact ih (hr.tail e.x_iLen) hc (by simpa using hfuel)

structure Released (s s' : LsShmHash) (xs : List Nat) : Prop where
  tid : s'.toLsShmTidMgr = { s.toLsShmTidMgr with shm := s'.shm }
  fileSize : s'.shm.m_iFileSize = s.shm.m_iFileSize
  owns : ∀ y n, s'.shm.Owns y n ↔ s.shm.Owns y n ∧ y ∉ xs
  table : s'.table = { s.table with elem := s'.table.elem }
  elem : ∀ y ∉ xs, s'.table.elem y = s.table.elem y
  rest : s' = { s with shm := s'.shm, table := s'.table }

theorem releaseList_spec (s : LsShmHash) (xs : List Nat) : Released s (s.releaseList xs) xs := by
  induction xs generalizing s with
  | nil => exact ⟨rfl, rfl, by simp [releaseList], rfl, fun _ _ => rfl, rfl⟩
  | cons x xs ih =>
    have h := ih (s.releaseElem x (lenOf s.table x))
    have heq : s.releaseList (x :: xs) = (s.releaseElem x (lenOf s.table x)).releaseList xs := rfl
    rw [heq]
    generalize (s.releaseElem x (lenOf s.table x)).releaseList xs = s' at h ⊢
    refine ⟨?_, ?_, ?_, ?_, ?_, ?_⟩
    . rw [h.tid]
      rfl
    . rw [h.fileSize]
      rfl
    . intro y n
      rw [h.owns, List.mem_cons, not_or]
      show (s.shm.release2 x (lenOf s.table x)).Owns y n ∧ _ ↔ _
      rw [Shm.owns_release2, and_assoc]
    . rw [h.table]
      rfl
    . intro y hy
      rw [List.mem_cons, not_or] at hy
      exact (h.elem y hy.2).trans (setElem_of_ne hy.1 _ _)
    . rw [h.rest]
      rfl

theorem releaseAll_begin (h : Rep s E)
    : ∃ xs, xs.Perm E ∧ releaseAll s.fuel s s.begin = s.releaseList xs := by
  have hb := h.lookup.buckets
  have hcap : 0 < s.capacity := h.tableOk.cap_pos
  have hbegin := begin_eq hb hcap (by
    intro hz x hx
    have hnil := List.length_eq_zero_iff.mp (h.size.symm.trans hz)
    rw [hnil] at hx
    cases hx)
  obtain ⟨xs, hc, hmem⟩ := hb.traversal (Nat.zero_add s.capacity)
  have hmem' : ∀ x, x ∈ xs ↔ x ∈ E := by
    intro x
    rw [hmem x]
    exact ⟨And.left, fun hx => ⟨hx, Nat.zero_le _, h.lookup.slot_lt x⟩⟩
  have hperm := (List.perm_ext_iff_of_nodup hc.nodup h.nodup).mpr hmem'
  refine ⟨xs, hperm, ?_⟩
  rw [hbegin]
  apply releaseAll_eq h _ hc (h.length_lt_fuel hc.nodup (fun x hx => (hmem' x).mp hx))
  refine ⟨hc.nodup, fun x hx => (hmem' x).mp hx, rfl, rfl, rfl, ?_⟩
  intro x hx
  obtain ⟨e, he, hok⟩ := h.elems x ((hmem' x).mp hx)
  exact ⟨e, he, he, hok⟩

def clearCbs (s : LsShmHash) : LsShmHash :=
  let s := if s.flagLru then
    s.setLru fun l => { l with linkFirst := 0, linkLast := 0, nvalset := 0, ndataset := 0 } else s
  if s.flagTid then s.onTid (·.clrTidTbl) else s

theorem quiet_clearCbs (s : LsShmHash) : Quiet s s.clearCbs := by
  unfold clearCbs
  exact (quiet_ite (fun _ => quiet_setLru s _)).trans
    (quiet_ite (fun _ => quiet_onTid _ (fun h => LsShmTidMgr.clrTidTbl_blks h)))

theorem clear_spec (h : Rep s E)
    : ∃ xs, xs.Perm E ∧ s.clear = ((s.releaseList xs).setTable clearTable).clearCbs ∧
        Rep ((s.releaseList xs).setTable clearTable) [] := by
  obtain ⟨xs, hperm, heq⟩ := releaseAll_begin h
  have hr := releaseList_spec s xs
  have htbl : s.table.x_iBitMap ∉ xs := fun hin => h.table_notMem (hperm.mem_iff.mp hin)
  have howns := (hr.owns _ _).mpr ⟨h.tableOk.owns, htbl⟩
  refine ⟨xs, hperm, ?_, ?_⟩
  . have hptr : (s.releaseList xs).shm.offset2ptr (s.releaseList xs).table.x_iBitMap = true := by
      rw [hr.table]
      exact howns.offset2ptr
    unfold clear
    rw [heq]
    dsimp only
    rw [if_pos hptr]
    rfl
  . generalize hs' : s.releaseList xs = s' at hr
    have ht := hr.table
    have hidx : (s'.setTable clearTable).table.hIdx (s'.setTable clearTable).table.x_iHIdx =
        fun _ => 0 := by
      show Function.update s'.table.hIdx (s'.table.x_iBitMap + s'.table.x_iBitMapSz) _
        s'.table.x_iHIdx = _
      rw [ht]
      dsimp only
      rw [← h.tableOk.hIdx, Function.update_self]
    constructor
    case nodup => exact List.nodup_nil
    case size => rfl
    case size_le => exact Nat.zero_le _
    case elems => simp
    case keys => simp
    case buckets =>
      rw [hidx]
      exact Linked.Buckets.empty (fun _ _ => rfl) (by simp)
    case bits =>
      rw [hidx]
      intro _ b _
      show Function.update s'.table.bitMap s'.table.x_iBitMap _ s'.table.x_iBitMap b = true ↔ _
      rw [Function.update_self]
      simp
    case tableOk =>
      have htbl := h.tableOk
      have howns' : s'.shm.Owns s.table.x_iBitMap (size2roundSize (sz2TableSz s.table.x_iCapacity +
        sz2BitMapSz s.table.x_iCapacity)) := hs' ▸ howns
      constructor
      all_goals
        dsimp only [LsShmHash.setTable, clearTable]
        rw [ht]
      case prime => exact htbl.prime
      case cap_le => exact htbl.cap_le
      case fullFactor => exact htbl.fullFactor
      case growFactor => exact htbl.growFactor
      case idle => exact htbl.idle
      case work => exact htbl.work
      case bitMapSz => exact htbl.bitMapSz
      case hIdx => exact htbl.hIdx
      case owns => exact howns'
    case table_notMem => simp
    case blks =>
      show LsShmTidMgr.Blks s'.toLsShmTidMgr
      rw [hr.tid]
      apply h.blks.withShm
      intro y n ho hu
      exact (hr.owns y n).mpr ⟨ho, fun hin => h.unused y (Or.inr (hperm.mem_iff.mp hin)) hu⟩
    case unused =>
      rintro x (rfl | hx)
      . show ¬ s'.toLsShmTidMgr.Uses s'.table.x_iBitMap
        rw [hr.tid, ht]
        exact h.unused _ (Or.inl rfl)
      . cases hx

end Clear

/--
Up to this many buckets the size of the index does not wrap around.
-/
def MAX_INIT_SIZE : Nat := 1610612741

theorem findRange_le {n : Nat} (hn : n ≤ MAX_INIT_SIZE) : findRange n ≤ 28 := by
  unfold findRange
  by_contra hlt
  have hlt : 27 < ((s_primeList.drop 1).take 29).findIdx (fun p => decide (n ≤ p)) := by omega
  have hfalse := List.not_of_lt_findIdx hlt
  exact absurd hn (of_decide_eq_false hfalse)

theorem roundUp_spec {n : Nat} (hn : n ≤ MAX_INIT_SIZE)
    : roundUp n ∈ s_primeList ∧ (sz2TableSz (roundUp n) + sz2BitMapSz (roundUp n) ≤ LSSHM_MAXSIZE →
        roundUp n * 4 + sz2BitMapSz (roundUp n) ≤ LSSHM_MAXSIZE) := by
  have hlist : ∀ i < 29, s_primeList.getD i 0 ∈ s_primeList ∧
      (sz2TableSz (s_primeList.getD i 0) + sz2BitMapSz (s_primeList.getD i 0) ≤ LSSHM_MAXSIZE →
        s_primeList.getD i 0 * 4 + sz2BitMapSz (s_primeList.getD i 0) ≤ LSSHM_MAXSIZE) := by
    decide
  exact hlist _ (Nat.lt_succ_of_le (findRange_le hn))

theorem allocHTable_rep {m : Shm} {parm : HashParm} {init_size : Nat}
    (h : allocHTable m parm init_size = some s) (hn : init_size ≤ MAX_INIT_SIZE) : Rep s [] := by
  unfold allocHTable at h
  dsimp only at h
  generalize (m.poolAlloc2 sizeofHTable) = r at h
  split at h
  . cases h
  generalize hq : r.1.poolAlloc2 (sz2TableSz (roundUp init_size) + sz2BitMapSz (roundUp init_size)) =
    q at h
  split at h
  . cases h
  next h0 =>
  cases h
  have hne : (r.1.poolAlloc2 (sz2TableSz (roundUp init_size) +
      sz2BitMapSz (roundUp init_size))).2.1 ≠ 0 := by
    rw [hq]
    exact h0
  have hfresh := Shm.fresh_poolAlloc2 _ _ hne
  rw [hq] at hfresh
  have hle := (Shm.poolAlloc2_size _ _ hne).2
  obtain ⟨hprime, hfit⟩ := roundUp_spec hn
  constructor
  case nodup => exact List.nodup_nil
  case size => rfl
  case size_le => exact Nat.zero_le _
  case elems => simp
  case keys => simp
  case buckets => exact Linked.Buckets.empty (fun _ _ => rfl) (by simp)
  case bits => simp
  case tableOk => exact ⟨hprime, hfit hle, rfl, rfl, rfl, rfl, rfl, rfl, hfresh.owns⟩
  case table_notMem => simp
  case blks => exact LsShmTidMgr.init_blks _ _ _ _
  case unused =>
    intro x _ hu
    exact hu.1 rfl

end LsShmHash

end Lsmcd
