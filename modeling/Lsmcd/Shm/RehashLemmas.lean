import Lsmcd.Shm.HashRep

/-!
A rehash between any two of its stores: some elements are in the new index, at most one is in
neither, the others are in the old one.
-/

namespace Lsmcd

namespace LsShmHTable

def slot (t : LsShmHTable) (cap off : Nat) : Nat :=
  t.hkeyOf off % cap

structure SameHdr (t t' : LsShmHTable) : Prop where
  capacity : t'.x_iCapacity = t.x_iCapacity
  size : t'.x_iSize = t.x_iSize
  fullFactor : t'.x_iFullFactor = t.x_iFullFactor
  growFactor : t'.x_iGrowFactor = t.x_iGrowFactor
  hIdx : t'.x_iHIdx = t.x_iHIdx
  bitMap : t'.x_iBitMap = t.x_iBitMap
  hIdxNew : t'.x_iHIdxNew = t.x_iHIdxNew
  capacityNew : t'.x_iCapacityNew = t.x_iCapacityNew
  bitMapSz : t'.x_iBitMapSz = t.x_iBitMapSz
  elem : t'.elem = t.elem
  pool : t'.pool = t.pool

variable (t : LsShmHTable)

theorem sameHdr_setHIdx (base i off : Nat) : SameHdr t (t.setHIdx base i off) :=
  ⟨rfl, rfl, rfl, rfl, rfl, rfl, rfl, rfl, rfl, rfl, rfl⟩

theorem sameHdr_setNext (off next : Nat) : SameHdr t (t.setNext off next) :=
  ⟨rfl, rfl, rfl, rfl, rfl, rfl, rfl, rfl, rfl, rfl, rfl⟩

theorem sameHdr_workIterOff (off : Nat) : SameHdr t { t with x_iWorkIterOff := off } :=
  ⟨rfl, rfl, rfl, rfl, rfl, rfl, rfl, rfl, rfl, rfl, rfl⟩

theorem sameHdr_putBitMapEnt (i : Nat) (bit : Bool) : SameHdr t (t.putBitMapEnt i bit) := by
  unfold putBitMapEnt
  split <;> exact ⟨rfl, rfl, rfl, rfl, rfl, rfl, rfl, rfl, rfl, rfl, rfl⟩

theorem putBitMapEnt_hIdx (i : Nat) (bit : Bool) : (t.putBitMapEnt i bit).hIdx = t.hIdx := by
  unfold putBitMapEnt
  split <;> rfl

theorem putBitMapEnt_next (i : Nat) (bit : Bool) : (t.putBitMapEnt i bit).next = t.next := by
  unfold putBitMapEnt
  split <;> rfl

theorem putBitMapEnt_work (i : Nat) (bit : Bool)
    : (t.putBitMapEnt i bit).x_iWorkIterOff = t.x_iWorkIterOff := by
  unfold putBitMapEnt
  split <;> rfl

theorem sameHdr_setBitMapEnt (i : Nat) : SameHdr t (t.setBitMapEnt i) :=
  sameHdr_putBitMapEnt t i true

theorem setBitMapEnt_hIdx (i : Nat) : (t.setBitMapEnt i).hIdx = t.hIdx :=
  putBitMapEnt_hIdx t i true

theorem setBitMapEnt_next (i : Nat) : (t.setBitMapEnt i).next = t.next :=
  putBitMapEnt_next t i true

theorem setBitMapEnt_work (i : Nat) : (t.setBitMapEnt i).x_iWorkIterOff = t.x_iWorkIterOff :=
  putBitMapEnt_work t i true

theorem putBitMapEnt_bitMap {t : LsShmHTable} (h : t.x_iBitMapSz ≠ 0) (i : Nat) (bit : Bool)
    : (t.putBitMapEnt i bit).bitMap t.x_iBitMap =
        Function.update (t.bitMap t.x_iBitMap) i bit := by
  simp [putBitMapEnt, h]

variable {t}

theorem SameHdr.trans {t₁ t₂ t₃ : LsShmHTable} (h₁ : SameHdr t₁ t₂) (h₂ : SameHdr t₂ t₃)
    : SameHdr t₁ t₃ where
  capacity := h₂.capacity.trans h₁.capacity
  size := h₂.size.trans h₁.size
  fullFactor := h₂.fullFactor.trans h₁.fullFactor
  growFactor := h₂.growFactor.trans h₁.growFactor
  hIdx := h₂.hIdx.trans h₁.hIdx
  bitMap := h₂.bitMap.trans h₁.bitMap
  hIdxNew := h₂.hIdxNew.trans h₁.hIdxNew
  capacityNew := h₂.capacityNew.trans h₁.capacityNew
  bitMapSz := h₂.bitMapSz.trans h₁.bitMapSz
  elem := h₂.elem.trans h₁.elem
  pool := h₂.pool.trans h₁.pool

theorem SameHdr.slot {t' : LsShmHTable} (h : SameHdr t t') (cap : Nat)
    : t'.slot cap = t.slot cap := by
  funext off
  simp only [LsShmHTable.slot, hkeyOf, h.elem]

end LsShmHTable

open LsShmHTable

namespace LsShmHash

def oldBlk (t : LsShmHTable) : Nat :=
  t.x_iHIdx - sz2BitMapSz t.x_iCapacity

structure MoveBase (s : LsShmHash) (E : List Nat) : Prop where
  nodup : E.Nodup
  size : s.table.x_iSize = E.length
  size_le : E.length ≤ s.capacity
  elems : ∀ x ∈ E, ∃ e, s.table.elem x = some e ∧ ElemOk s x e
  keys : ∀ x ∈ E, ∀ y ∈ E, s.table.keyOf x = s.table.keyOf y → x = y
  cap_pos : 0 < s.capacity
  prime_new : s.table.x_iCapacityNew ∈ s_primeList
  cap_le_new : s.capacity ≤ s.table.x_iCapacityNew
  cap_le : s.table.x_iCapacityNew * 4 + sz2BitMapSz s.table.x_iCapacityNew ≤ LSSHM_MAXSIZE
  fullFactor : s.table.x_iFullFactor = 2
  growFactor : s.table.x_iGrowFactor = 2
  bitMapSz : s.table.x_iBitMapSz = sz2BitMapSz s.table.x_iCapacityNew
  hIdxNew : s.table.x_iHIdxNew = s.table.x_iBitMap + s.table.x_iBitMapSz
  owns_new : s.shm.Owns s.table.x_iBitMap
    (size2roundSize (sz2TableSz s.table.x_iCapacityNew + sz2BitMapSz s.table.x_iCapacityNew))
  owns_old : s.shm.Owns (oldBlk s.table)
    (size2roundSize (sz2TableSz s.capacity + sz2BitMapSz s.capacity))
  hIdx_eq : s.table.x_iHIdx = oldBlk s.table + sz2BitMapSz s.capacity
  hIdx_ne : s.table.x_iHIdx ≠ s.table.x_iHIdxNew
  blk_ne : oldBlk s.table ≠ s.table.x_iBitMap
  notMem : oldBlk s.table ∉ E ∧ s.table.x_iBitMap ∉ E
  blks : LsShmTidMgr.Blks s.toLsShmTidMgr
  unused : ∀ x, x = s.table.x_iBitMap ∨ x = oldBlk s.table ∨ x ∈ E → ¬ s.toLsShmTidMgr.Uses x

/--
`D` are the elements in the new index, `limbo` is one that is in neither.
-/
structure Moving (s : LsShmHash) (E D : List Nat) (limbo : Option Nat) : Prop where
  base : MoveBase s E
  sub : ∀ x ∈ D, x ∈ E
  old : Linked.Buckets s.table.next 0 (s.table.hIdx s.table.x_iHIdx) (s.table.slot s.capacity)
    s.capacity (fun x => x ∈ E ∧ x ∉ D ∧ limbo ≠ some x)
  new : Linked.Buckets s.table.next 0 (s.table.hIdx s.table.x_iHIdxNew)
    (s.table.slot s.table.x_iCapacityNew) s.table.x_iCapacityNew (· ∈ D)
  bits : s.table.x_iBitMapSz ≠ 0 → ∀ b < s.table.x_iCapacityNew,
    (s.table.hIdx s.table.x_iHIdxNew b ≠ 0 → s.table.bitMap s.table.x_iBitMap b = true) ∧
    (s.table.bitMap s.table.x_iBitMap b = true →
      ∃ x ∈ E, s.table.slot s.table.x_iCapacityNew x = b)
  limbo_mem : ∀ x, limbo = some x → x ∈ E ∧ x ∉ D ∧ s.table.x_iWorkIterOff = x

/--
The element that `x_iWorkIterOff` names is about to leave the old index.
-/
structure Pending (s : LsShmHash) (E D : List Nat) (x : Nat) : Prop where
  mem : x ∈ E
  notMem : x ∉ D
  head : s.table.hIdx s.table.x_iHIdx (s.table.slot s.capacity x) = x

def Marked (s : LsShmHash) (x : Nat) : Prop :=
  s.table.x_iBitMapSz ≠ 0 →
    s.table.bitMap s.table.x_iBitMap (s.table.slot s.table.x_iCapacityNew x) = true

variable {s s' : LsShmHash} {E D : List Nat} {limbo : Option Nat} {x : Nat}

theorem MoveBase.setTable (h : MoveBase s E) {f : LsShmHTable → LsShmHTable}
    (hf : SameHdr s.table (f s.table)) : MoveBase (s.setTable f) E := by
  have hcap : (s.setTable f).capacity = s.capacity := hf.capacity
  have hold : oldBlk (f s.table) = oldBlk s.table := by
    unfold oldBlk
    rw [hf.hIdx, hf.capacity]
  constructor
  case nodup => exact h.nodup
  case size => exact hf.size.trans h.size
  case size_le => rw [hcap]; exact h.size_le
  case elems =>
    intro y hy
    obtain ⟨e, he, hok⟩ := h.elems y hy
    refine ⟨e, ?_, hok.congr rfl rfl rfl hok.owns⟩
    show (f s.table).elem y = some e
    rw [hf.elem]
    exact he
  case keys =>
    show ∀ x ∈ E, ∀ y ∈ E, (f s.table).keyOf x = (f s.table).keyOf y → x = y
    simp only [keyOf, hf.elem]
    exact h.keys
  case cap_pos => rw [hcap]; exact h.cap_pos
  case prime_new =>
    show (f s.table).x_iCapacityNew ∈ s_primeList
    rw [hf.capacityNew]
    exact h.prime_new
  case cap_le_new =>
    rw [hcap]
    show _ ≤ (f s.table).x_iCapacityNew
    rw [hf.capacityNew]
    exact h.cap_le_new
  case cap_le =>
    show (f s.table).x_iCapacityNew * 4 + sz2BitMapSz (f s.table).x_iCapacityNew ≤ _
    rw [hf.capacityNew]
    exact h.cap_le
  case fullFactor => exact hf.fullFactor.trans h.fullFactor
  case growFactor => exact hf.growFactor.trans h.growFactor
  case bitMapSz =>
    show (f s.table).x_iBitMapSz = sz2BitMapSz (f s.table).x_iCapacityNew
    rw [hf.bitMapSz, hf.capacityNew]
    exact h.bitMapSz
  case hIdxNew =>
    show (f s.table).x_iHIdxNew = (f s.table).x_iBitMap + (f s.table).x_iBitMapSz
    rw [hf.hIdxNew, hf.bitMap, hf.bitMapSz]
    exact h.hIdxNew
  case owns_new =>
    show s.shm.Owns (f s.table).x_iBitMap
      (size2roundSize (sz2TableSz (f s.table).x_iCapacityNew + sz2BitMapSz (f s.table).x_iCapacityNew))
    rw [hf.bitMap, hf.capacityNew]
    exact h.owns_new
  case owns_old =>
    rw [hcap]
    show s.shm.Owns (oldBlk (f s.table)) _
    rw [hold]
    exact h.owns_old
  case hIdx_eq =>
    rw [hcap]
    show (f s.table).x_iHIdx = oldBlk (f s.table) + _
    rw [hold, hf.hIdx]
    exact h.hIdx_eq
  case hIdx_ne =>
    show (f s.table).x_iHIdx ≠ (f s.table).x_iHIdxNew
    rw [hf.hIdx, hf.hIdxNew]
    exact h.hIdx_ne
  case blk_ne =>
    show oldBlk (f s.table) ≠ (f s.table).x_iBitMap
    rw [hold, hf.bitMap]
    exact h.blk_ne
  case notMem =>
    show oldBlk (f s.table) ∉ E ∧ (f s.table).x_iBitMap ∉ E
    rw [hold, hf.bitMap]
    exact h.notMem
  case blks => exact h.blks
  case unused =>
    show ∀ x, x = (f s.table).x_iBitMap ∨ x = oldBlk (f s.table) ∨ x ∈ E → _
    rw [hold, hf.bitMap]
    exact h.unused

theorem MoveBase.capNew_pos (h : MoveBase s E) : 0 < s.table.x_iCapacityNew :=
  Nat.lt_of_lt_of_le h.cap_pos h.cap_le_new

theorem MoveBase.ne_zero (h : MoveBase s E) (hx : x ∈ E) : x ≠ 0 := by
  obtain ⟨e, _, hok⟩ := h.elems x hx
  exact hok.owns.ne_zero

theorem MoveBase.elem_some (h : MoveBase s E) (hx : x ∈ E)
    : ∃ e, s.offset2iterator x = some e ∧ ∀ cap, s.table.slot cap x = e.x_hkey % cap := by
  obtain ⟨e, he, hok⟩ := h.elems x hx
  refine ⟨e, hok.offset2iterator he, ?_⟩
  intro cap
  simp [slot, hkeyOf, he]

def markBucket (s : LsShmHash) (x : Nat) : LsShmHash :=
  s.setTable fun t => t.setBitMapEnt (t.slot t.x_iCapacityNew x)

def setWork (s : LsShmHash) (x : Nat) : LsShmHash :=
  s.setTable fun t => { t with x_iWorkIterOff := x }

def leaveOld (s : LsShmHash) (x : Nat) : LsShmHash :=
  s.setTable fun t => t.setHIdx t.x_iHIdx (t.slot t.x_iCapacity x) (t.next x)

def pointNext (s : LsShmHash) (x : Nat) : LsShmHash :=
  s.setTable fun t => t.setNext x (t.hIdx t.x_iHIdxNew (t.slot t.x_iCapacityNew x))

def enterNew (s : LsShmHash) (x : Nat) : LsShmHash :=
  s.setTable fun t => t.setHIdx t.x_iHIdxNew (t.slot t.x_iCapacityNew x) x

theorem Moving.setTable {D' : List Nat} {limbo' : Option Nat} (h : Moving s E D limbo)
    {f : LsShmHTable → LsShmHTable} (hf : SameHdr s.table (f s.table))
    (sub : ∀ x ∈ D', x ∈ E)
    (old : Linked.Buckets (f s.table).next 0 ((f s.table).hIdx s.table.x_iHIdx)
      (s.table.slot s.capacity) s.capacity (fun x => x ∈ E ∧ x ∉ D' ∧ limbo' ≠ some x))
    (new : Linked.Buckets (f s.table).next 0 ((f s.table).hIdx s.table.x_iHIdxNew)
      (s.table.slot s.table.x_iCapacityNew) s.table.x_iCapacityNew (· ∈ D'))
    (bits : s.table.x_iBitMapSz ≠ 0 → ∀ b < s.table.x_iCapacityNew,
      ((f s.table).hIdx s.table.x_iHIdxNew b ≠ 0 →
        (f s.table).bitMap s.table.x_iBitMap b = true) ∧
      ((f s.table).bitMap s.table.x_iBitMap b = true →
        ∃ x ∈ E, s.table.slot s.table.x_iCapacityNew x = b))
    (limbo_mem : ∀ x, limbo' = some x → x ∈ E ∧ x ∉ D' ∧ (f s.table).x_iWorkIterOff = x)
    : Moving (s.setTable f) E D' limbo' := by
  constructor
  case base => exact h.base.setTable hf
  case sub => exact sub
  case old =>
    show Linked.Buckets (f s.table).next 0 ((f s.table).hIdx (f s.table).x_iHIdx)
      ((f s.table).slot (f s.table).x_iCapacity) (f s.table).x_iCapacity _
    rw [hf.hIdx, hf.slot, hf.capacity]
    exact old
  case new =>
    show Linked.Buckets (f s.table).next 0 ((f s.table).hIdx (f s.table).x_iHIdxNew)
      ((f s.table).slot (f s.table).x_iCapacityNew) (f s.table).x_iCapacityNew _
    rw [hf.hIdxNew, hf.slot, hf.capacityNew]
    exact new
  case bits =>
    show (f s.table).x_iBitMapSz ≠ 0 → ∀ b < (f s.table).x_iCapacityNew,
      ((f s.table).hIdx (f s.table).x_iHIdxNew b ≠ 0 →
        (f s.table).bitMap (f s.table).x_iBitMap b = true) ∧
      ((f s.table).bitMap (f s.table).x_iBitMap b = true →
        ∃ x ∈ E, (f s.table).slot (f s.table).x_iCapacityNew x = b)
    rw [hf.bitMapSz, hf.capacityNew, hf.hIdxNew, hf.bitMap, hf.slot]
    exact bits
  case limbo_mem => exact limbo_mem

theorem Moving.storeBit (h : Moving s E D limbo) (hx : x ∈ E)
    : Moving (s.markBucket x) E D limbo := by
  apply h.setTable (sameHdr_setBitMapEnt _ _) h.sub
  case old => rw [setBitMapEnt_next, setBitMapEnt_hIdx]; exact h.old
  case new => rw [setBitMapEnt_next, setBitMapEnt_hIdx]; exact h.new
  case bits =>
    intro hsz b hb
    rw [setBitMapEnt_hIdx, setBitMapEnt, putBitMapEnt_bitMap hsz, Function.update_apply]
    obtain ⟨h₁, h₂⟩ := h.bits hsz b hb
    split
    . next heq => exact ⟨fun _ => rfl, fun _ => ⟨x, hx, heq.symm⟩⟩
    . exact ⟨h₁, h₂⟩
  case limbo_mem => rw [setBitMapEnt_work]; exact h.limbo_mem

theorem Moving.storeWork (h : Moving s E D none) (off : Nat)
    : Moving (s.setWork off) E D none :=
  h.setTable (sameHdr_workIterOff _ _) h.sub h.old h.new h.bits (by simp)

theorem Moving.storeOld (h : Moving s E D none) (hp : Pending s E D x)
    (hw : s.table.x_iWorkIterOff = x) : Moving (s.leaveOld x) E D (some x) := by
  have hne := h.base.hIdx_ne
  apply h.setTable (sameHdr_setHIdx _ _ _ _) h.sub
  case old =>
    simp only [setHIdx, Function.update_self]
    have hpop := h.old.pop (h.base.ne_zero hp.mem) hp.head
    apply hpop.congr (fun _ _ => rfl) (fun _ _ => rfl) (fun _ _ => rfl)
    intro y
    simp only [ne_eq, Option.some.injEq]
    constructor
    . rintro ⟨hy, hyD, hne⟩
      exact ⟨⟨hy, hyD, by simp⟩, fun h => hne h.symm⟩
    . rintro ⟨⟨hy, hyD, _⟩, hne⟩
      exact ⟨hy, hyD, fun h => hne h.symm⟩
  case new =>
    simp only [setHIdx, Function.update_of_ne (Ne.symm hne)]
    exact h.new
  case bits =>
    simp only [setHIdx, Function.update_of_ne (Ne.symm hne)]
    exact h.bits
  case limbo_mem =>
    intro y hy
    cases hy
    exact ⟨hp.mem, hp.notMem, hw⟩

theorem Moving.storeNext (h : Moving s E D (some x)) : Moving (s.pointNext x) E D (some x) := by
  apply h.setTable (sameHdr_setNext _ _ _) h.sub
  case old =>
    apply h.old.congr (fun _ _ => rfl) _ (fun _ _ => rfl) (fun _ => Iff.rfl)
    rintro y ⟨_, _, hyx⟩
    apply Function.update_of_ne
    rintro rfl
    exact hyx rfl
  case new =>
    apply h.new.congr (fun _ _ => rfl) _ (fun _ _ => rfl) (fun _ => Iff.rfl)
    intro y hy
    apply Function.update_of_ne
    rintro rfl
    exact (h.limbo_mem y rfl).2.1 hy
  case bits => exact h.bits
  case limbo_mem => exact h.limbo_mem

theorem Moving.storeNew (h : Moving s E D (some x)) (hm : Marked s x)
    (hn : s.table.next x = s.table.hIdx s.table.x_iHIdxNew (s.table.slot s.table.x_iCapacityNew x))
    : Moving (s.enterNew x) E (x :: D) none := by
  obtain ⟨hx, hxD, _⟩ := h.limbo_mem x rfl
  apply h.setTable (sameHdr_setHIdx _ _ _ _)
  case sub =>
    intro y hy
    rcases List.mem_cons.mp hy with rfl | hy
    . exact hx
    . exact h.sub y hy
  case old =>
    simp only [setHIdx, Function.update_of_ne h.base.hIdx_ne]
    apply h.old.congr (fun _ _ => rfl) (fun _ _ => rfl) (fun _ _ => rfl)
    intro y
    simp only [List.mem_cons, not_or, ne_eq, Option.some.injEq, reduceCtorEq, not_false_eq_true,
      and_true]
    constructor
    . rintro ⟨hy, hyx, hyD⟩
      exact ⟨hy, hyD, fun h => hyx h.symm⟩
    . rintro ⟨hy, hyD, hyx⟩
      exact ⟨hy, fun h => hyx h.symm, hyD⟩
  case new =>
    have hpush := h.new.push hxD (h.base.ne_zero hx)
    rw [← hn, Function.update_eq_self] at hpush
    simp only [setHIdx, Function.update_self]
    exact hpush.congr (fun _ _ => rfl) (fun _ _ => rfl) (fun _ _ => rfl)
      (fun y => List.mem_cons)
  case bits =>
    intro hsz b hb
    simp only [setHIdx, Function.update_self, Function.update_apply]
    split
    . next heq => exact ⟨fun _ => heq ▸ hm hsz, fun _ => ⟨x, hx, heq.symm⟩⟩
    . exact h.bits hsz b hb
  case limbo_mem => simp

theorem nextBucket_eq {n i : Nat}
    (h : ∀ k, i ≤ k → k < i + n → s.table.hIdx s.table.x_iHIdx k ≠ 0 →
      s.table.hIdx s.table.x_iHIdx k ≠ x)
    : nextBucket x n s i = (s, Linked.scan (s.table.hIdx s.table.x_iHIdx) 0 n i) := by
  induction n generalizing i with
  | zero => rfl
  | succ n ih =>
    rw [nextBucket, Linked.scan]
    by_cases hz : s.table.hIdx s.table.x_iHIdx i = 0
    . rw [if_pos hz, if_pos hz]
      exact ih (fun k hk hk' => h k (by omega) (by omega))
    . rw [if_neg hz, if_neg hz, if_neg (h i (Nat.le_refl i) (by omega) hz)]

theorem next_eq_of {e : LsShmHElem} (hx : x ≠ 0) (he : s.offset2iterator x = some e)
    (hself : s.table.next x ≠ x)
    (hhead : ∀ k, e.x_hkey % s.capacity < k → k < s.capacity → s.table.hIdx s.table.x_iHIdx k ≠ x)
    : s.next x = (s, Linked.succ s.table.next 0 (s.table.hIdx s.table.x_iHIdx)
        (fun _ => e.x_hkey % s.capacity) s.capacity x) := by
  unfold next Linked.succ
  simp only [if_neg hx, he]
  by_cases hnx : s.table.next x = 0
  . rw [if_neg (by simp [hnx]), if_pos hnx, if_neg (by simp [hnx])]
    apply nextBucket_eq
    intro k hk hk' _
    exact hhead k (by omega) (by omega)
  . rw [if_pos ⟨hnx, hself⟩, if_neg hnx]

section Walk

variable {T : Nat → Prop} (h : Linked.Buckets s.table.next 0 (s.table.hIdx s.table.x_iHIdx)
  (s.table.slot s.capacity) s.capacity T) (hcap : 0 < s.capacity)
include h hcap

theorem next_ne_self (hx : T x) : s.table.next x ≠ x := by
  have hlt : s.table.slot s.capacity x < s.capacity := Nat.mod_lt _ hcap
  by_cases hnx : s.table.next x = 0
  . rw [hnx]
    exact Ne.symm (h.ne_nil hx hlt)
  . exact (h.next_mem hx hlt hnx).2.2

theorem head_ne_of_slot_lt (hx : T x) {k : Nat} (hk : s.table.slot s.capacity x < k)
    (hk' : k < s.capacity) : s.table.hIdx s.table.x_iHIdx k ≠ x := by
  intro heq
  have hlt : s.table.slot s.capacity x < s.capacity := Nat.mod_lt _ hcap
  have hmem := (h.head_mem hk' (by rw [heq]; exact h.ne_nil hx hlt)).2
  rw [heq] at hmem
  omega

theorem next_eq (hx : T x) {e : LsShmHElem} (he : s.offset2iterator x = some e)
    (hslot : s.table.slot s.capacity x = e.x_hkey % s.capacity)
    : s.next x = (s, Linked.succ s.table.next 0 (s.table.hIdx s.table.x_iHIdx)
        (s.table.slot s.capacity) s.capacity x) := by
  have hlt : s.table.slot s.capacity x < s.capacity := Nat.mod_lt _ hcap
  rw [next_eq_of (h.ne_nil hx hlt) he (next_ne_self h hcap hx)
    (fun k hk hk' => head_ne_of_slot_lt h hcap hx (by omega) hk')]
  unfold Linked.succ
  rw [hslot]

theorem begin_eq (hsize : s.size = 0 → ∀ x, ¬ T x)
    : s.begin = Linked.scan (s.table.hIdx s.table.x_iHIdx) 0 s.capacity 0 := by
  unfold begin
  split
  . next hz =>
    rw [(h.scan_eq_nil_iff (fun _ _ => Nat.mod_lt _ hcap)).mpr (hsize hz)]
  . rfl

end Walk

structure Moved (s s' : LsShmHash) : Prop where
  rest : s' = { s with table := s'.table }
  hdr : SameHdr s.table s'.table

theorem Moved.refl (s : LsShmHash) : Moved s s :=
  ⟨rfl, rfl, rfl, rfl, rfl, rfl, rfl, rfl, rfl, rfl, rfl, rfl⟩

theorem Moved.trans {s₁ s₂ s₃ : LsShmHash} (h₁ : Moved s₁ s₂) (h₂ : Moved s₂ s₃)
    : Moved s₁ s₃ where
  rest := by rw [h₂.rest, h₁.rest]
  hdr := SameHdr.trans h₁.hdr h₂.hdr

theorem moved_setTable (s : LsShmHash) {f : LsShmHTable → LsShmHTable}
    (hf : SameHdr s.table (f s.table)) : Moved s (s.setTable f) :=
  ⟨rfl, hf⟩

/--
What `x_iWorkIterOff` says about the element that is on its way.
-/
inductive WorkOk (s : LsShmHash) (E D : List Nat) : Option Nat → Prop
  | idle : s.table.x_iWorkIterOff = 0 → WorkOk s E D none
  | done : s.table.x_iWorkIterOff ∈ D →
      s.table.hIdx s.table.x_iHIdxNew
        (s.table.slot s.table.x_iCapacityNew s.table.x_iWorkIterOff) = s.table.x_iWorkIterOff →
      WorkOk s E D none
  | pending : Pending s E D s.table.x_iWorkIterOff → Marked s s.table.x_iWorkIterOff →
      WorkOk s E D none
  | limbo : Marked s s.table.x_iWorkIterOff → WorkOk s E D (some s.table.x_iWorkIterOff)

/--
A state in which the elements are being moved and from which the move can be completed.
-/
def Resumable (s : LsShmHash) (E : List Nat) : Prop :=
  ∃ D limbo, Moving s E D limbo ∧ WorkOk s E D limbo

theorem marked_markBucket (s : LsShmHash) (x : Nat) : Marked (s.markBucket x) x := by
  have hf := sameHdr_setBitMapEnt s.table (s.table.slot s.table.x_iCapacityNew x)
  intro hsz
  change (s.table.setBitMapEnt _).x_iBitMapSz ≠ 0 at hsz
  show (s.table.setBitMapEnt _).bitMap (s.table.setBitMapEnt _).x_iBitMap
    ((s.table.setBitMapEnt _).slot (s.table.setBitMapEnt _).x_iCapacityNew x) = true
  rw [hf.bitMapSz] at hsz
  rw [hf.bitMap, hf.slot, hf.capacityNew, setBitMapEnt, putBitMapEnt_bitMap hsz,
    Function.update_self]

theorem Marked.markBucket {y : Nat} (h : Marked s y) (x : Nat) : Marked (s.markBucket x) y := by
  have hf := sameHdr_setBitMapEnt s.table (s.table.slot s.table.x_iCapacityNew x)
  intro hsz
  change (s.table.setBitMapEnt _).x_iBitMapSz ≠ 0 at hsz
  show (s.table.setBitMapEnt _).bitMap (s.table.setBitMapEnt _).x_iBitMap
    ((s.table.setBitMapEnt _).slot (s.table.setBitMapEnt _).x_iCapacityNew y) = true
  rw [hf.bitMapSz] at hsz
  rw [hf.bitMap, hf.slot, hf.capacityNew, setBitMapEnt, putBitMapEnt_bitMap hsz,
    Function.update_apply]
  split
  . rfl
  . exact h hsz

theorem head_markBucket (s : LsShmHash) (x y : Nat)
    : (s.markBucket x).table.hIdx (s.markBucket x).table.x_iHIdx
        ((s.markBucket x).table.slot (s.markBucket x).capacity y) =
      s.table.hIdx s.table.x_iHIdx (s.table.slot s.capacity y) := by
  have hf := sameHdr_setBitMapEnt s.table (s.table.slot s.table.x_iCapacityNew x)
  show (s.table.setBitMapEnt _).hIdx (s.table.setBitMapEnt _).x_iHIdx
    ((s.table.setBitMapEnt _).slot (s.table.setBitMapEnt _).x_iCapacity y) = _
  rw [setBitMapEnt_hIdx, hf.hIdx, hf.slot, hf.capacity]
  rfl

theorem headNew_markBucket (s : LsShmHash) (x y : Nat)
    : (s.markBucket x).table.hIdx (s.markBucket x).table.x_iHIdxNew
        ((s.markBucket x).table.slot (s.markBucket x).table.x_iCapacityNew y) =
      s.table.hIdx s.table.x_iHIdxNew (s.table.slot s.table.x_iCapacityNew y) := by
  have hf := sameHdr_setBitMapEnt s.table (s.table.slot s.table.x_iCapacityNew x)
  show (s.table.setBitMapEnt _).hIdx (s.table.setBitMapEnt _).x_iHIdxNew
    ((s.table.setBitMapEnt _).slot (s.table.setBitMapEnt _).x_iCapacityNew y) = _
  rw [setBitMapEnt_hIdx, hf.hIdxNew, hf.slot, hf.capacityNew]

theorem WorkOk.markBucket (h : WorkOk s E D none) (x : Nat) : WorkOk (s.markBucket x) E D none := by
  have hw : (s.markBucket x).table.x_iWorkIterOff = s.table.x_iWorkIterOff :=
    setBitMapEnt_work s.table _
  cases h with
  | idle h0 => exact WorkOk.idle (hw.trans h0)
  | done hmem hhead =>
    apply WorkOk.done
    . rw [hw]
      exact hmem
    . rw [hw, headNew_markBucket]
      exact hhead
  | pending hp hm =>
    apply WorkOk.pending
    . rw [hw]
      exact ⟨hp.mem, hp.notMem, (head_markBucket s x _).trans hp.head⟩
    . rw [hw]
      exact hm.markBucket x

theorem head_enterNew (s : LsShmHash) (x : Nat)
    : (s.enterNew x).table.hIdx (s.enterNew x).table.x_iHIdxNew
        ((s.enterNew x).table.slot (s.enterNew x).table.x_iCapacityNew x) = x := by
  show Function.update s.table.hIdx s.table.x_iHIdxNew
    (Function.update (s.table.hIdx s.table.x_iHIdxNew) (s.table.slot s.table.x_iCapacityNew x) x)
    s.table.x_iHIdxNew (s.table.slot s.table.x_iCapacityNew x) = x
  rw [Function.update_self, Function.update_self]

theorem Moving.complete (h : Moving s E D (some x)) (hm : Marked s x)
    : let s₄ := s.pointNext x
      let s₅ := s₄.enterNew x
      (Moving s₄ E D (some x) ∧ WorkOk s₄ E D (some x)) ∧
        Moving s₅ E (x :: D) none ∧ WorkOk s₅ E (x :: D) none := by
  have hw := (h.limbo_mem x rfl).2.2
  have h₄ := h.storeNext
  have hm₄ : Marked (s.pointNext x) x := hm
  refine ⟨⟨h₄, ?_⟩, ?_, ?_⟩
  . subst hw
    exact WorkOk.limbo hm₄
  . apply h₄.storeNew hm₄
    exact Function.update_self _ _ _
  . apply WorkOk.done
    . exact List.mem_cons.mpr (Or.inl hw)
    . rw [show ((s.pointNext x).enterNew x).table.x_iWorkIterOff = x from hw]
      exact head_enterNew _ x

theorem Moving.headNew_ne (h : Moving s E D limbo) (hx : x ∈ E) (hxD : x ∉ D)
    : s.table.hIdx s.table.x_iHIdxNew (s.table.slot s.table.x_iCapacityNew x) ≠ x := by
  intro heq
  have hlt : s.table.slot s.table.x_iCapacityNew x < s.table.x_iCapacityNew :=
    Nat.mod_lt _ h.base.capNew_pos
  have hmem := (h.new.head_mem hlt (by rw [heq]; exact h.base.ne_zero hx)).1
  rw [heq] at hmem
  exact hxD hmem

theorem rehashMove_eq (h : Moving s E D none) (hx : x ∈ E) (hxD : x ∉ D)
    (hhead : s.table.hIdx s.table.x_iHIdx (s.table.slot s.capacity x) = x) {e : LsShmHElem}
    (hslot : ∀ cap, s.table.slot cap x = e.x_hkey % cap)
    : s.rehashMove s.table.x_iCapacityNew s.table.x_iHIdxNew x e =
        let s₁ := s.markBucket x
        let s₂ := s₁.setWork x
        let s₃ := s₂.leaveOld x
        let s₄ := s₃.pointNext x
        [s₁, s₂, s₃, s₄, s₄.enterNew x] := by
  have hf := sameHdr_setBitMapEnt s.table (s.table.slot s.table.x_iCapacityNew x)
  have hnew := h.headNew_ne hx hxD
  unfold rehashMove
  simp only [← hslot]
  -- the later stores only depend on the state after the bit was set
  generalize hs₁ : s.setTable (fun t => t.setBitMapEnt (s.table.slot s.table.x_iCapacityNew x)) = s₁
  have hmark : s.markBucket x = s₁ := hs₁
  have hf₁ : SameHdr s.table s₁.table := hmark ▸ hf
  have hcap : s.table.slot s.capacity x = s₁.table.slot s₁.table.x_iCapacity x := by
    rw [hf₁.slot, hf₁.capacity]
    rfl
  have hcapNew : s.table.slot s.table.x_iCapacityNew x =
      s₁.table.slot s₁.table.x_iCapacityNew x := by
    rw [hf₁.slot, hf₁.capacityNew]
  have hhead₁ := (head_markBucket s x x).trans hhead
  have hnew₁ := mt (headNew_markBucket s x x).symm.trans hnew
  rw [hmark] at hhead₁ hnew₁ ⊢
  rw [hcap, hcapNew, ← hf₁.hIdxNew, if_neg, if_neg]
  . rfl
  . have hne : s₁.table.x_iHIdxNew ≠ s₁.table.x_iHIdx := by
      rw [hf₁.hIdx, hf₁.hIdxNew]
      exact Ne.symm h.base.hIdx_ne
    show ¬ Function.update s₁.table.hIdx s₁.table.x_iHIdx _ s₁.table.x_iHIdxNew
      (s₁.table.slot s₁.table.x_iCapacityNew x) = x
    rw [Function.update_of_ne hne]
    exact hnew₁
  . exact not_not.mpr hhead₁

theorem moved_markBucket (s : LsShmHash) (x : Nat) : Moved s (s.markBucket x) :=
  moved_setTable s (sameHdr_setBitMapEnt _ _)

theorem moved_setWork (s : LsShmHash) (x : Nat) : Moved s (s.setWork x) :=
  moved_setTable s (sameHdr_workIterOff _ _)

theorem moved_leaveOld (s : LsShmHash) (x : Nat) : Moved s (s.leaveOld x) :=
  moved_setTable s (sameHdr_setHIdx _ _ _ _)

theorem moved_pointNext (s : LsShmHash) (x : Nat) : Moved s (s.pointNext x) :=
  moved_setTable s (sameHdr_setNext _ _ _)

theorem moved_enterNew (s : LsShmHash) (x : Nat) : Moved s (s.enterNew x) :=
  moved_setTable s (sameHdr_setHIdx _ _ _ _)

/--
A list of stores, all of which leave a state that can be resumed.
-/
structure Safe (s : LsShmHash) (E : List Nat) (stores : List LsShmHash) : Prop where
  moved : ∀ s' ∈ stores, Moved s s'
  resumable : ∀ s' ∈ stores, Resumable s' E

theorem Safe.nil (s : LsShmHash) (E : List Nat) : Safe s E [] :=
  ⟨by simp, by simp⟩

theorem Safe.cons {l : List LsShmHash} (hm : Moved s s') (hr : Resumable s' E) (h : Safe s' E l)
    : Safe s E (s' :: l) := by
  constructor
  . intro t ht
    rcases List.mem_cons.mp ht with rfl | ht
    . exact hm
    . exact hm.trans (h.moved t ht)
  . intro t ht
    rcases List.mem_cons.mp ht with rfl | ht
    . exact hr
    . exact h.resumable t ht

theorem Safe.append {l l' : List LsShmHash} (h : Safe s E l) (h' : Safe s' E l') (hm : Moved s s')
    : Safe s E (l ++ l') := by
  constructor
  . intro t ht
    rcases List.mem_append.mp ht with ht | ht
    . exact h.moved t ht
    . exact hm.trans (h'.moved t ht)
  . intro t ht
    rcases List.mem_append.mp ht with ht | ht
    . exact h.resumable t ht
    . exact h'.resumable t ht

theorem rehashMove_spec (h : Moving s E D none) (hw : WorkOk s E D none) (hx : x ∈ E) (hxD : x ∉ D)
    (hhead : s.table.hIdx s.table.x_iHIdx (s.table.slot s.capacity x) = x) {e : LsShmHElem}
    (hslot : ∀ cap, s.table.slot cap x = e.x_hkey % cap)
    : ∃ s', (s.rehashMove s.table.x_iCapacityNew s.table.x_iHIdxNew x e).getLastD s = s' ∧
        Safe s E (s.rehashMove s.table.x_iCapacityNew s.table.x_iHIdxNew x e) ∧
        Moved s s' ∧ Moving s' E (x :: D) none ∧ WorkOk s' E (x :: D) none ∧
        s'.table.hIdx s'.table.x_iHIdx = Function.update (s.table.hIdx s.table.x_iHIdx)
          (s.table.slot s.capacity x) (s.table.next x) := by
  rw [rehashMove_eq h hx hxD hhead hslot]
  dsimp only
  generalize hs₁ : s.markBucket x = s₁
  have hm₁ : Moved s s₁ := hs₁ ▸ moved_markBucket s x
  have h₁ : Moving s₁ E D none := hs₁ ▸ h.storeBit hx
  have hw₁ : WorkOk s₁ E D none := hs₁ ▸ hw.markBucket x
  have hmark : Marked s₁ x := hs₁ ▸ marked_markBucket s x
  have hhead₁ : s₁.table.hIdx s₁.table.x_iHIdx (s₁.table.slot s₁.capacity x) = x :=
    hs₁ ▸ (head_markBucket s x x).trans hhead
  have h₂ := h₁.storeWork x
  have hp₂ : Pending (s₁.setWork x) E D x := ⟨hx, hxD, hhead₁⟩
  have h₃ := h₂.storeOld hp₂ rfl
  obtain ⟨⟨h₄, hw₄⟩, h₅, hw₅⟩ := h₃.complete hmark
  have hmoved := (hm₁.trans (moved_setWork s₁ x)).trans (moved_leaveOld _ x)
  refine ⟨_, rfl, ?_, ?_, h₅, hw₅, ?_⟩
  . apply Safe.cons hm₁ ⟨D, none, h₁, hw₁⟩
    apply Safe.cons (moved_setWork s₁ x) ⟨D, none, h₂, WorkOk.pending hp₂ hmark⟩
    apply Safe.cons (moved_leaveOld _ x) ⟨D, some x, h₃, WorkOk.limbo hmark⟩
    apply Safe.cons (moved_pointNext _ x) ⟨D, some x, h₄, hw₄⟩
    exact Safe.cons (moved_enterNew _ x) ⟨x :: D, none, h₅, hw₅⟩ (Safe.nil _ _)
  . exact (hmoved.trans (moved_pointNext _ x)).trans (moved_enterNew _ x)
  . have hne : s₁.table.x_iHIdx ≠ s₁.table.x_iHIdxNew := h₁.base.hIdx_ne
    show Function.update (Function.update s₁.table.hIdx s₁.table.x_iHIdx _) s₁.table.x_iHIdxNew _
      s₁.table.x_iHIdx = _
    rw [Function.update_of_ne hne, Function.update_self]
    show Function.update (s₁.table.hIdx s₁.table.x_iHIdx)
      (s₁.table.slot s₁.table.x_iCapacity x) (s₁.table.next x) = _
    rw [hm₁.hdr.slot, hm₁.hdr.capacity, hm₁.hdr.hIdx, ← hs₁]
    show Function.update ((s.table.setBitMapEnt _).hIdx _) _ ((s.table.setBitMapEnt _).next x) = _
    rw [setBitMapEnt_hIdx, setBitMapEnt_next]
    rfl

theorem getLastD_append {α : Type} (l l' : List α) (a : α)
    : (l ++ l').getLastD a = l'.getLastD (l.getLastD a) := by
  induction l generalizing a with
  | nil => rfl
  | cons b l ih => rw [List.cons_append, List.getLastD_cons, List.getLastD_cons, ih]

def todo (E D : List Nat) : List Nat := E.filter (fun x => x ∉ D)

theorem mem_todo : x ∈ todo E D ↔ x ∈ E ∧ x ∉ D := by
  simp [todo]

theorem todo_cons_lt (hx : x ∈ E) (hxD : x ∉ D) : (todo E (x :: D)).length < (todo E D).length := by
  have heq : todo E (x :: D) = (todo E D).filter (fun y => y ≠ x) := by
    simp only [todo, List.filter_filter]
    apply List.filter_congr
    intro y _
    simp
  rw [heq, List.length_filter_lt_length_iff_exists]
  exact ⟨x, mem_todo.mpr ⟨hx, hxD⟩, by simp⟩

/--
The loop: an induction on its fuel, which exceeds the number of elements that are left in the old
index. The invariant is that the next element to move is the first one of the old index.
-/
theorem rehashLoop_spec {fuel : Nat} (h : Moving s E D none) (hw : WorkOk s E D none) (count : Nat)
    (hfuel : (todo E D).length < fuel) (hcount : count + (todo E D).length ≤ s.capacity)
    : let l := rehashLoop s.table.x_iCapacityNew s.table.x_iHIdxNew fuel s
        (Linked.scan (s.table.hIdx s.table.x_iHIdx) 0 s.capacity 0) count
      Safe s E l ∧ Moved s (l.getLastD s) ∧
        ∃ D', Moving (l.getLastD s) E D' none ∧ ∀ x ∈ E, x ∈ D' := by
  induction fuel generalizing s D count with
  | zero => omega
  | succ fuel ih =>
    generalize hx : Linked.scan (s.table.hIdx s.table.x_iHIdx) 0 s.capacity 0 = x
    rw [rehashLoop]
    have hcap := h.base.cap_pos
    by_cases hx0 : x = 0
    . rw [if_pos hx0]
      refine ⟨Safe.nil s E, Moved.refl s, D, h, ?_⟩
      have hnone := (h.old.scan_eq_nil_iff (fun _ _ => Nat.mod_lt _ hcap)).mp (hx.trans hx0)
      intro y hy
      by_contra hyD
      exact hnone y ⟨hy, hyD, by simp⟩
    . obtain ⟨⟨hxE, hxD, _⟩, _, hhead, _⟩ := h.old.scan_head (by rw [hx]; exact hx0)
      rw [hx] at hxE hxD hhead
      obtain ⟨e, he, hslot⟩ := h.base.elem_some hxE
      have hnext := next_eq h.old hcap ⟨hxE, hxD, by simp⟩ he (hslot _)
      obtain ⟨s', hs', hsafe, hmoved, h', hw', hidx⟩ :=
        rehashMove_spec h hw hxE hxD hhead hslot
      have hlt := todo_cons_lt hxE hxD
      have hcap' : s'.capacity = s.capacity := hmoved.hdr.capacity
      have hgo := ih h' hw' (count + 1) (by omega) (by omega)
      rw [hmoved.hdr.capacityNew, hmoved.hdr.hIdxNew, hidx, hcap', h.old.scan_pop hx hx0] at hgo
      rw [if_neg hx0, he]
      simp only [hnext, hs']
      rw [if_neg (by omega)]
      dsimp only at hgo ⊢
      rw [getLastD_append, hs']
      exact ⟨hsafe.append hgo.1 hmoved, hmoved.trans hgo.2.1, hgo.2.2⟩

def switched (s : LsShmHash) : LsShmHash :=
  { s with
    shm := s.shm.release2 (oldBlk s.table) (sz2TableSz s.capacity + sz2BitMapSz s.capacity)
    table := { s.table with
      x_iWorkIterOff := 0
      hIdx := Function.update s.table.hIdx s.table.x_iHIdx s.releasedIdx
      x_iCapacity := s.table.x_iCapacityNew
      x_iHIdx := s.table.x_iHIdxNew } }

theorem rehashFinish_eq (s : LsShmHash)
    : ∃ released s₃, s.rehashFinish s.table.x_iCapacityNew s.table.x_iHIdxNew =
        s.setWork 0 :: (released ++ [s₃, s.switched]) ∧ released.length = s.releaseStores.length + 1 := by
  have hfinish : ∀ s₂, (s.setWork 0).releaseIdx.getLastD (s.setWork 0) = s₂ →
      s.rehashFinish s.table.x_iCapacityNew s.table.x_iHIdxNew =
        s.setWork 0 :: ((s.setWork 0).releaseIdx ++
          [s₂.setTable fun t => { t with x_iCapacity := s.table.x_iCapacityNew },
            s₂.setTable fun t =>
              { t with x_iCapacity := s.table.x_iCapacityNew, x_iHIdx := s.table.x_iHIdxNew }]) := by
    rintro _ rfl
    rfl
  have hlast : (s.setWork 0).releaseIdx.getLastD (s.setWork 0) =
      (s.setWork 0).withIdx
        (s.shm.release2 (oldBlk s.table) (sz2TableSz s.capacity + sz2BitMapSz s.capacity))
        s.releasedIdx := List.getLastD_concat
  exact ⟨_, _, hfinish _ hlast, length_releaseIdx (s.setWork 0)⟩

theorem Moved.releaseStores (h : Moved s s') : s'.releaseStores = s.releaseStores := by
  unfold LsShmHash.releaseStores capacity
  rw [h.hdr.pool, h.hdr.hIdx, h.hdr.capacity]

theorem Moving.switched (h : Moving s E D none) (hall : ∀ x ∈ E, x ∈ D) : Rep s.switched E := by
  have hb := h.base
  have hmem : ∀ x, x ∈ D ↔ x ∈ E := fun x => ⟨h.sub x, hall x⟩
  have hhIdx : s.switched.table.hIdx s.switched.table.x_iHIdx =
      s.table.hIdx s.table.x_iHIdxNew := Function.update_of_ne (Ne.symm hb.hIdx_ne) _ _
  have howns : ∀ x n, s.shm.Owns x n → x ≠ oldBlk s.table → s.switched.shm.Owns x n :=
    fun x n ho hne => Shm.owns_release2.mpr ⟨ho, hne⟩
  constructor
  case nodup => exact hb.nodup
  case size => exact hb.size
  case size_le => exact Nat.le_trans hb.size_le hb.cap_le_new
  case elems =>
    intro x hx
    obtain ⟨e, he, hok⟩ := hb.elems x hx
    refine ⟨e, he, hok.congr rfl rfl rfl (howns x _ hok.owns ?_)⟩
    rintro rfl
    exact hb.notMem.1 hx
  case keys => exact hb.keys
  case buckets =>
    rw [hhIdx]
    exact h.new.congr (fun _ _ => rfl) (fun _ _ => rfl) (fun _ _ => rfl) (fun x => (hmem x).symm)
  case bits =>
    rw [hhIdx]
    intro hsz b hlt
    obtain ⟨h₁, h₂⟩ := h.bits hsz b hlt
    refine ⟨?_, h₁⟩
    intro hbit
    obtain ⟨x, hx, hxb⟩ := h₂ hbit
    exact (h.new.head_ne_nil_iff hlt).mpr ⟨x, hall x hx, hxb⟩
  case tableOk =>
    refine ⟨hb.prime_new, hb.cap_le, hb.fullFactor, hb.growFactor, rfl, rfl, hb.bitMapSz, hb.hIdxNew, ?_⟩
    exact howns _ _ hb.owns_new (Ne.symm hb.blk_ne)
  case table_notMem => exact hb.notMem.2
  case blks =>
    apply hb.blks.withShm
    intro x n ho hu
    apply howns x n ho
    rintro rfl
    exact hb.unused _ (Or.inr (Or.inl rfl)) hu
  case unused =>
    rintro x (rfl | hx)
    . exact hb.unused _ (Or.inl rfl)
    . exact hb.unused x (Or.inr (Or.inr hx))

def grownCapacity (s : LsShmHash) : Nat :=
  s_primeList.getD (findRange s.capacity + s.table.x_iGrowFactor) 0

theorem grownCapacity_spec {m : Shm} (h : TableOk m s.table)
    : s.grownCapacity ∈ s_primeList ∧ s.capacity < s.grownCapacity ∧
      (sz2TableSz s.grownCapacity + sz2BitMapSz s.grownCapacity ≤ LSSHM_MAXSIZE →
        s.grownCapacity * 4 + sz2BitMapSz s.grownCapacity ≤ LSSHM_MAXSIZE) := by
  have hlist : ∀ c ∈ s_primeList, c * 4 + sz2BitMapSz c ≤ LSSHM_MAXSIZE →
      s_primeList.getD (findRange c + 2) 0 ∈ s_primeList ∧
        c < s_primeList.getD (findRange c + 2) 0 ∧
        (sz2TableSz (s_primeList.getD (findRange c + 2) 0) +
            sz2BitMapSz (s_primeList.getD (findRange c + 2) 0) ≤ LSSHM_MAXSIZE →
          s_primeList.getD (findRange c + 2) 0 * 4 +
            sz2BitMapSz (s_primeList.getD (findRange c + 2) 0) ≤ LSSHM_MAXSIZE) := by
    decide
  unfold grownCapacity
  rw [h.growFactor]
  exact hlist _ h.prime h.cap_le

def started (s : LsShmHash) (m : Shm) (off : Nat) : LsShmHash :=
  let newIdxOff := off + sz2BitMapSz s.grownCapacity
  { s with
    shm := m
    table := { s.table with
      hIdx := Function.update s.table.hIdx newIdxOff (fun _ => 0)
      bitMap := Function.update s.table.bitMap off (fun _ => false)
      x_iBitMap := off
      x_iBitMapSz := sz2BitMapSz s.grownCapacity
      x_iCapacityNew := s.grownCapacity
      x_iHIdxNew := newIdxOff } }

theorem oldBlk_eq (h : Rep s E) : oldBlk s.table = s.table.x_iBitMap := by
  have h₁ := h.tableOk.hIdx
  have h₂ := h.tableOk.bitMapSz
  unfold oldBlk
  omega

theorem sz2TableSz_eq {n : Nat} (h : n * 4 + sz2BitMapSz n ≤ LSSHM_MAXSIZE)
    : sz2TableSz n = n * 4 := by
  unfold LSSHM_MAXSIZE at h
  exact Nat.mod_eq_of_lt (by omega)

theorem Rep.started (h : Rep s E) {m : Shm} {off : Nat} (hg : Shm.Grows s.shm m)
    (hf : Shm.Fresh s.shm m off
      (size2roundSize (sz2TableSz s.grownCapacity + sz2BitMapSz s.grownCapacity)))
    (hsz : sz2TableSz s.grownCapacity + sz2BitMapSz s.grownCapacity ≤ LSSHM_MAXSIZE)
    : Moving (s.started m off) E [] none := by
  have hcap := h.tableOk.cap_pos
  obtain ⟨hprime, hle, hfit⟩ := grownCapacity_spec h.tableOk
  have hold := oldBlk_eq h
  have hpos : 0 < sz2TableSz s.grownCapacity := by
    rw [sz2TableSz_eq (hfit hsz)]
    have hcap' : 0 < s.capacity := hcap
    omega
  have hfresh : ∀ x n, s.shm.Owns x n → x ≠ off := by
    rintro x n ho rfl
    exact hf.not_owns (size2roundSize_pos (by omega)) ho
  have hblk : s.table.x_iBitMap ≠ off := hfresh _ _ h.tableOk.owns
  have hoffE : off ∉ E := by
    intro hx
    obtain ⟨e, _, hok⟩ := h.elems off hx
    exact hfresh _ _ hok.owns rfl
  have hne : s.table.x_iHIdx ≠ off + sz2BitMapSz s.grownCapacity := by
    have hap := (h.tableOk.owns.grows hg).apart hf.owns hblk
    have h₁ := le_size2roundSize (sz2TableSz s.table.x_iCapacity + sz2BitMapSz s.table.x_iCapacity)
    have h₂ := le_size2roundSize (sz2TableSz s.grownCapacity + sz2BitMapSz s.grownCapacity)
    have h₃ := sz2TableSz_eq h.tableOk.cap_le
    have h₄ := h.tableOk.hIdx
    have h₅ := h.tableOk.bitMapSz
    unfold Apart at hap
    dsimp only at hap
    omega
  have hidx : (s.started m off).table.hIdx s.table.x_iHIdx = s.table.hIdx s.table.x_iHIdx :=
    Function.update_of_ne hne _ _
  have hidxNew : (s.started m off).table.hIdx (s.started m off).table.x_iHIdxNew = fun _ => 0 :=
    Function.update_self _ _ _
  have hbase : MoveBase (s.started m off) E := by
    constructor
    case nodup => exact h.nodup
    case size => exact h.size
    case size_le => exact h.size_le
    case elems =>
      intro x hx
      obtain ⟨e, he, hok⟩ := h.elems x hx
      exact ⟨e, he, hok.congr rfl rfl rfl (hok.owns.grows hg)⟩
    case keys => exact h.keys
    case cap_pos => exact hcap
    case prime_new => exact hprime
    case cap_le_new => exact Nat.le_of_lt hle
    case cap_le => exact hfit hsz
    case fullFactor => exact h.tableOk.fullFactor
    case growFactor => exact h.tableOk.growFactor
    case bitMapSz => rfl
    case hIdxNew => rfl
    case owns_new => exact hf.owns
    case owns_old =>
      show m.Owns (oldBlk s.table) _
      rw [hold]
      exact h.tableOk.owns.grows hg
    case hIdx_eq =>
      show s.table.x_iHIdx = oldBlk s.table + sz2BitMapSz s.table.x_iCapacity
      rw [hold, h.tableOk.hIdx, h.tableOk.bitMapSz]
    case hIdx_ne => exact hne
    case blk_ne =>
      show oldBlk s.table ≠ off
      rw [hold]
      exact hblk
    case notMem =>
      show oldBlk s.table ∉ E ∧ off ∉ E
      rw [hold]
      exact ⟨h.table_notMem, hoffE⟩
    case blks => exact h.blks.withShm (fun _ _ ho _ => ho.grows hg)
    case unused =>
      rintro x (rfl | rfl | hx)
      . intro hu
        obtain ⟨n, ho⟩ := h.blks.uses_owns hu
        exact hfresh _ _ ho rfl
      . show ¬ s.toLsShmTidMgr.Uses (oldBlk s.table)
        rw [hold]
        exact h.unused _ (Or.inl rfl)
      . exact h.unused x (Or.inr hx)
  constructor
  case base => exact hbase
  case sub => simp
  case old =>
    show Linked.Buckets s.table.next 0 ((s.started m off).table.hIdx s.table.x_iHIdx)
      s.table.getIndex s.capacity _
    rw [hidx]
    apply h.buckets.congr (fun _ _ => rfl) (fun _ _ => rfl) (fun _ _ => rfl)
    simp
  case new =>
    rw [hidxNew]
    exact Linked.Buckets.empty (fun _ _ => rfl) (by simp)
  case bits =>
    intro _ b _
    rw [hidxNew]
    simp [LsShmHash.started]
  case limbo_mem => simp

theorem MoveBase.offset2ptr_hIdx (h : MoveBase s E)
    : s.shm.offset2ptr s.table.x_iHIdx = true := by
  have hle := le_size2roundSize (sz2TableSz s.capacity + sz2BitMapSz s.capacity)
  have hv := h.owns_old.isOffsetValid (k := sz2BitMapSz s.capacity) (by omega)
  rw [← h.hIdx_eq] at hv
  have hhdr := h.owns_old.hdr_le
  have hge : sizeofShmMapHdr ≤ s.table.x_iHIdx := by
    rw [h.hIdx_eq]
    omega
  simp [Shm.offset2ptr, hv, hge]

theorem Moving.complete_safe (h : Moving s E D (some x)) (hm : Marked s x)
    : Safe s E [s.pointNext x, (s.pointNext x).enterNew x] ∧
      Moved s ((s.pointNext x).enterNew x) ∧
      Moving ((s.pointNext x).enterNew x) E (x :: D) none ∧
      WorkOk ((s.pointNext x).enterNew x) E (x :: D) none := by
  obtain ⟨⟨h₄, hw₄⟩, h₅, hw₅⟩ := h.complete hm
  refine ⟨?_, (moved_pointNext s x).trans (moved_enterNew _ x), h₅, hw₅⟩
  apply Safe.cons (moved_pointNext s x) ⟨D, some x, h₄, hw₄⟩
  exact Safe.cons (moved_enterNew _ x) ⟨x :: D, none, h₅, hw₅⟩ (Safe.nil _ _)

theorem rehashResume_spec (h : Moving s E D limbo) (hw : WorkOk s E D limbo)
    : Safe s E s.rehashResume ∧ Moved s (s.rehashResume.getLastD s) ∧
      ∃ D', Moving (s.rehashResume.getLastD s) E D' none ∧
        WorkOk (s.rehashResume.getLastD s) E D' none := by
  have hnone : WorkOk s E D none → s.rehashResume = [] → limbo = none →
      Safe s E s.rehashResume ∧ Moved s (s.rehashResume.getLastD s) ∧
      ∃ D', Moving (s.rehashResume.getLastD s) E D' none ∧
        WorkOk (s.rehashResume.getLastD s) E D' none := by
    rintro hw' heq rfl
    rw [heq]
    exact ⟨Safe.nil s E, Moved.refl s, D, h, hw'⟩
  have hptr := h.base.offset2ptr_hIdx
  cases hw with
  | idle h0 => exact hnone (WorkOk.idle h0) (by simp [rehashResume, h0]) rfl
  | done hmem hhead =>
    apply hnone (WorkOk.done hmem hhead) _ rfl
    obtain ⟨e, he, hslot⟩ := h.base.elem_some (h.sub _ hmem)
    rw [hslot] at hhead
    simp [rehashResume, he, hhead]
  | pending hp hm =>
    generalize hx : s.table.x_iWorkIterOff = x at hp hm
    obtain ⟨e, he, hslot⟩ := h.base.elem_some hp.mem
    have hne := h.base.ne_zero hp.mem
    have hnew := h.headNew_ne hp.mem hp.notMem
    have hhead := hp.head
    have hleave := h.storeOld hp hx
    obtain ⟨hsafe, hmoved, h', hw'⟩ := hleave.complete_safe hm
    have heq : s.rehashResume =
        [s.leaveOld x, (s.leaveOld x).pointNext x, ((s.leaveOld x).pointNext x).enterNew x] := by
      unfold rehashResume
      simp only [hx, if_neg hne, he, ← hslot]
      rw [if_pos ⟨hnew, hptr⟩, if_pos hhead]
      rfl
    rw [heq]
    refine ⟨?_, (moved_leaveOld s x).trans hmoved, x :: D, h', hw'⟩
    subst hx
    exact Safe.cons (moved_leaveOld s _) ⟨D, some _, hleave, WorkOk.limbo hm⟩ hsafe
  | limbo hm =>
    generalize hx : s.table.x_iWorkIterOff = x at *
    obtain ⟨hmem, hnotMem, _⟩ := h.limbo_mem x rfl
    obtain ⟨e, he, hslot⟩ := h.base.elem_some hmem
    have hne := h.base.ne_zero hmem
    have hnew := h.headNew_ne hmem hnotMem
    have hhead : s.table.hIdx s.table.x_iHIdx (s.table.slot s.capacity x) ≠ x := by
      intro heq
      have hlt : s.table.slot s.capacity x < s.capacity := Nat.mod_lt _ h.base.cap_pos
      have hm := (h.old.head_mem hlt (by rw [heq]; exact hne)).1
      rw [heq] at hm
      exact hm.2.2 rfl
    obtain ⟨hsafe, hmoved, h', hw'⟩ := h.complete_safe hm
    have heq : s.rehashResume = [s.pointNext x, (s.pointNext x).enterNew x] := by
      unfold rehashResume
      simp only [hx, if_neg hne, he, ← hslot]
      rw [if_pos ⟨hnew, hptr⟩, if_neg hhead]
      rfl
    rw [heq]
    exact ⟨hsafe, hmoved, x :: D, h', hw'⟩

/--
The stores from the loop on. Up to the release of the old index they leave states that can be resumed;
from its first store on there is nothing to resume from until `x_iHIdx` is stored.
-/
theorem rehashBody_spec (h : Moving s E D none) (hw : WorkOk s E D none)
    : ∃ l released s₃ s', s.rehashBody s.table.x_iCapacityNew s.table.x_iHIdxNew =
        l ++ (released ++ [s₃, s'.switched]) ∧ released.length = s.releaseStores.length + 1 ∧
        Safe s E l ∧ Moved s s' ∧ Rep s'.switched E := by
  have hfuel : (todo E D).length < s.fuel := by
    apply Nat.lt_succ_of_le
    apply s.shm.length_le_live (List.Nodup.filter _ h.base.nodup)
    intro y hy
    obtain ⟨e, _, hok⟩ := h.base.elems y (mem_todo.mp hy).1
    exact ⟨_, hok.owns⟩
  have hcount : 0 + (todo E D).length ≤ s.capacity := by
    have hle : (todo E D).length ≤ E.length := List.length_filter_le _ _
    have hsz := h.base.size_le
    omega
  have hbegin := begin_eq h.old h.base.cap_pos (by
    intro hz y hy
    have hnil := List.length_eq_zero_iff.mp (h.base.size.symm.trans hz)
    rw [hnil] at hy
    simp at hy)
  obtain ⟨hsafe, hmoved, D', h', hall⟩ := rehashLoop_spec h hw 0 hfuel hcount
  unfold rehashBody
  rw [hbegin]
  dsimp only
  generalize rehashLoop _ _ _ s _ 0 = moves at hsafe hmoved h' ⊢
  generalize moves.getLastD s = s' at hmoved h' ⊢
  have hwork : Safe s E (moves ++ [s'.setWork 0]) := by
    apply hsafe.append _ hmoved
    exact Safe.cons (moved_setWork s' 0) ⟨D', none, h'.storeWork 0, WorkOk.idle rfl⟩ (Safe.nil _ _)
  rw [← hmoved.hdr.capacityNew, ← hmoved.hdr.hIdxNew]
  obtain ⟨released, s₃, hfinish, hlen⟩ := rehashFinish_eq s'
  rw [hmoved.releaseStores] at hlen
  refine ⟨moves ++ [s'.setWork 0], released, s₃, s', ?_, hlen, hwork, hmoved, h'.switched hall⟩
  rw [hfinish, List.append_assoc]
  rfl

structure Kept (s s' : LsShmHash) : Prop where
  tid : s'.toLsShmTidMgr = { s.toLsShmTidMgr with shm := s'.shm }
  hf : s'.m_hf = s.m_hf
  flagLru : s'.flagLru = s.flagLru
  flagTid : s'.flagTid = s.flagTid
  elem : s'.table.elem = s.table.elem
  fullFactor : s'.table.x_iFullFactor = s.table.x_iFullFactor
  lru : s'.lru = s.lru
  tidLink : s'.tidLink = s.tidLink
  rebuilt : s'.rebuilt = s.rebuilt

theorem Kept.refl (s : LsShmHash) : Kept s s := ⟨rfl, rfl, rfl, rfl, rfl, rfl, rfl, rfl, rfl⟩

theorem Kept.trans {s₁ s₂ s₃ : LsShmHash} (h₁ : Kept s₁ s₂) (h₂ : Kept s₂ s₃) : Kept s₁ s₃ where
  tid := by rw [h₂.tid, h₁.tid]
  hf := h₂.hf.trans h₁.hf
  flagLru := h₂.flagLru.trans h₁.flagLru
  flagTid := h₂.flagTid.trans h₁.flagTid
  elem := h₂.elem.trans h₁.elem
  fullFactor := h₂.fullFactor.trans h₁.fullFactor
  lru := h₂.lru.trans h₁.lru
  tidLink := h₂.tidLink.trans h₁.tidLink
  rebuilt := h₂.rebuilt.trans h₁.rebuilt

theorem Moved.kept (h : Moved s s') : Kept s s' := by
  obtain ⟨hrest, hhdr⟩ := h
  rw [hrest]
  exact ⟨rfl, rfl, rfl, rfl, hhdr.elem, hhdr.fullFactor, rfl, rfl, rfl⟩

theorem kept_started (s : LsShmHash) (m : Shm) (off : Nat) : Kept s (s.started m off) :=
  ⟨rfl, rfl, rfl, rfl, rfl, rfl, rfl, rfl, rfl⟩

theorem kept_switched (s : LsShmHash) : Kept s s.switched :=
  ⟨rfl, rfl, rfl, rfl, rfl, rfl, rfl, rfl, rfl⟩

theorem rehashStart_fail {r : Shm × Nat} (h0 : r.2 = 0)
    (hr : s.shm.alloc2 (sz2TableSz s.grownCapacity + sz2BitMapSz s.grownCapacity) = r)
    : s.rehashStart = ([{ s with shm := r.1 }], none) := by
  unfold rehashStart
  rw [← grownCapacity]
  dsimp only
  rw [hr, if_pos h0]

/--
The states before `started`: the block is allocated and cleared, then its offset, the size of its
bitmap and the number of its buckets are stored.
-/
def startStores (s : LsShmHash) (m : Shm) (off : Nat) : List LsShmHash :=
  let s₀ := { s with shm := m }
  let s₁ := s₀.setTable fun t =>
    { t with
      hIdx := Function.update t.hIdx (off + sz2BitMapSz s.grownCapacity) (fun _ => 0)
      bitMap := Function.update t.bitMap off (fun _ => false) }
  let s₂ := s₁.setTable fun t => { t with x_iBitMap := off }
  let s₃ := s₂.setTable fun t => { t with x_iBitMapSz := sz2BitMapSz s.grownCapacity }
  let s₄ := s₃.setTable fun t => { t with x_iCapacityNew := s.grownCapacity }
  [s₀, s₁, s₂, s₃, s₄]

theorem rehashStart_ok {r : Shm × Nat} (h0 : r.2 ≠ 0)
    (hr : s.shm.alloc2 (sz2TableSz s.grownCapacity + sz2BitMapSz s.grownCapacity) = r)
    : s.rehashStart = (s.startStores r.1 r.2 ++ [s.started r.1 r.2],
        some ((s.started r.1 r.2).table.x_iCapacityNew, (s.started r.1 r.2).table.x_iHIdxNew)) := by
  unfold rehashStart
  rw [← grownCapacity]
  dsimp only
  rw [hr, if_neg h0]
  rfl

theorem rehashStores_cases (h : Rep s E)
    : let r := s.shm.alloc2 (sz2TableSz s.grownCapacity + sz2BitMapSz s.grownCapacity)
      (r.2 = 0 ∧ s.rehashStores = ([{ s with shm := r.1 }], false)) ∨
      (r.2 ≠ 0 ∧ Shm.Grows s.shm r.1 ∧ Moving (s.started r.1 r.2) E [] none ∧
        ∃ l released s₃ s', s.rehashStores =
            ((s.startStores r.1 r.2 ++ s.started r.1 r.2 :: l) ++ (released ++ [s₃, s'.switched]), true) ∧
          released.length = s.releaseStores.length + 1 ∧ Safe (s.started r.1 r.2) E l ∧ Moved (s.started r.1 r.2) s' ∧ Rep s'.switched E) := by
  dsimp only
  generalize hr : s.shm.alloc2 (sz2TableSz s.grownCapacity + sz2BitMapSz s.grownCapacity) = r
  have hidle : ¬ s.table.x_iHIdx ≠ s.table.x_iHIdxNew := not_not.mpr h.tableOk.idle.symm
  by_cases h0 : r.2 = 0
  . refine Or.inl ⟨h0, ?_⟩
    unfold rehashStores
    simp only [if_neg hidle, rehashStart_fail h0 hr]
  . have hne : (s.shm.alloc2 (sz2TableSz s.grownCapacity + sz2BitMapSz s.grownCapacity)).2 ≠ 0 := by
      rw [hr]
      exact h0
    have hg := Shm.grows_alloc2 s.shm (sz2TableSz s.grownCapacity + sz2BitMapSz s.grownCapacity)
    have hf := Shm.fresh_alloc2 _ _ hne
    have hsz := Shm.alloc2_size _ _ hne
    rw [hr] at hg hf
    have hmoving := h.started hg hf hsz.2
    obtain ⟨l, released, s₃, s', hbody, hlen, hsafe, hmoved, hrep⟩ :=
      rehashBody_spec hmoving (WorkOk.idle h.tableOk.work)
    refine Or.inr ⟨h0, hg, hmoving, l, released, s₃, s', ?_, hlen, hsafe, hmoved, hrep⟩
    have hlast : (s.startStores r.1 r.2 ++ [s.started r.1 r.2]).getLastD s = s.started r.1 r.2 :=
      List.getLastD_concat
    unfold rehashStores
    simp only [if_neg hidle, rehashStart_ok h0 hr, hlast, hbody]
    simp

theorem rehash_cases (h : Rep s E)
    : let r := s.shm.alloc2 (sz2TableSz s.grownCapacity + sz2BitMapSz s.grownCapacity)
      (r.2 = 0 ∧ s.rehash = ({ s with shm := r.1 }, false)) ∨
      (r.2 ≠ 0 ∧ Moving (s.started r.1 r.2) E [] none ∧
        ∃ s', s.rehash = (s'.switched, true) ∧ Moved (s.started r.1 r.2) s' ∧
          Rep s'.switched E) := by
  unfold rehash
  rcases rehashStores_cases h with
    ⟨h0, heq⟩ | ⟨h0, _, hmoving, l, released, s₃, s', heq, _, _, hmoved, hrep⟩
  . refine Or.inl ⟨h0, ?_⟩
    rw [heq]
    rfl
  . refine Or.inr ⟨h0, hmoving, s', ?_, hmoved, hrep⟩
    rw [heq]
    dsimp only
    rw [getLastD_append, getLastD_append]
    rfl

theorem rehashStores_resume (h : Resumable s E)
    : ∃ l released s₃ s', s.rehashStores = (l ++ (released ++ [s₃, s'.switched]), true) ∧
        released.length = s.releaseStores.length + 1 ∧ Safe s E l ∧ Moved s s' ∧
        Rep s'.switched E := by
  obtain ⟨D, limbo, hm, hw⟩ := h
  obtain ⟨hsafe, hmoved, D', hm', hw'⟩ := rehashResume_spec hm hw
  obtain ⟨l, released, s₃, s', hbody, hlen, hsafe', hmoved', hrep⟩ := rehashBody_spec hm' hw'
  rw [hmoved.releaseStores] at hlen
  refine ⟨s.rehashResume ++ l, released, s₃, s', ?_, hlen, hsafe.append hsafe' hmoved,
    hmoved.trans hmoved', hrep⟩
  rw [hmoved.hdr.capacityNew, hmoved.hdr.hIdxNew] at hbody
  unfold rehashStores
  rw [if_pos hm.base.hIdx_ne]
  dsimp only
  rw [hbody, List.append_assoc]

end LsShmHash

end Lsmcd
