import Lsmcd.Lib.Run
import Lsmcd.Shm.HashMap

/-!
A process that dies in `rehash`, and the process that takes the lock over from it.
-/

namespace Lsmcd

open LsShmHTable

namespace LsShmHash

def rehashUntil (s : LsShmHash) (n : Nat) : LsShmHash :=
  (s.rehashStores.1.take n).getLastD s

def lockChkRehashUntil (s : LsShmHash) (n : Nat) : LsShmHash :=
  if s.table.x_iHIdx ≠ s.table.x_iHIdxNew then s.rehashUntil n else s

/--
The process does not die between the first store of the release of the old index and the store of
`x_iHIdx`, the last one of all; nor, in a rehash that starts, between the stores of `x_iBitMap` and of
`x_iHIdxNew` while `find2` would look into the new bitmap.
-/
structure CrashOk (s : LsShmHash) (n : Nat) : Prop where
  release : s.rehashStores.2 = true →
    n + (s.releaseStores.length + 3) ≤ s.rehashStores.1.length ∨ s.rehashStores.1.length ≤ n
  bitMap : s.table.x_iHIdx = s.table.x_iHIdxNew → n = 3 → s.table.x_iBitMapSz = 0
  bitMapSz : s.table.x_iHIdx = s.table.x_iHIdxNew → n = 4 ∨ n = 5 → sz2BitMapSz s.grownCapacity = 0

def RecoverOk (s : LsShmHash) (n : Nat) : Prop :=
  s.table.x_iHIdx ≠ s.table.x_iHIdxNew → s.CrashOk n

structure SameTable (s t : LsShmHash) : Prop where
  find : ∀ key, t.findKey key = s.findKey key
  elem : t.table.elem = s.table.elem
  size : t.size = s.size
  traversal : ∃ xs ys, Linked.Chain (fun x => (s.next x).2) 0 s.begin xs ∧
    Linked.Chain (fun x => (t.next x).2) 0 t.begin ys ∧ ys.Perm xs
  rebuilt : t.rebuilt = s.rebuilt

variable {s t : LsShmHash} {E : List Nat}

theorem Lookup.sameTable (hs : Lookup s E) (ht : Lookup t E) (hnd : E.Nodup) (hk : Kept s t)
    : SameTable s t := by
  have hkey : ∀ x, t.table.keyOf x = s.table.keyOf x := keyOf_kept hk
  obtain ⟨_, xs, hcs, hps⟩ := hs.traversal hnd
  obtain ⟨_, ys, hct, hpt⟩ := ht.traversal hnd
  refine ⟨?_, hk.elem, ht.size.trans hs.size.symm, ⟨xs, ys, hcs, hct, hpt.trans hps.symm⟩,
    hk.rebuilt⟩
  intro key
  rcases hs.find2_cases key with ⟨hz, hnone⟩ | ⟨hx, hkx⟩
  . refine Eq.trans ?_ hz.symm
    apply ht.find2_eq_zero_iff.mpr
    intro x hx
    rw [hkey x]
    exact hnone x hx
  . exact ht.find2_eq hx ((hkey _).trans hkx)

structure Crashed (s t : LsShmHash) (E : List Nat) : Prop where
  kept : Kept s t
  table : (t.table.x_iHIdx = t.table.x_iHIdxNew ∧ Lookup t E) ∨ Resumable t E

theorem rehashUntil_append {l l' : List LsShmHash} {b : Bool} {n : Nat}
    (h : s.rehashStores = (l ++ l', b))
    : (n ≤ l.length ∧ s.rehashUntil n = (l.take n).getLastD s) ∨
      (l.length < n ∧ s.rehashUntil n = (l'.take (n - l.length)).getLastD (l.getLastD s)) := by
  unfold rehashUntil
  rw [h]
  dsimp only
  rw [List.take_append]
  by_cases hn : n ≤ l.length
  . left
    rw [Nat.sub_eq_zero_of_le hn, List.take_zero, List.append_nil]
    exact ⟨hn, rfl⟩
  . right
    rw [List.take_of_length_le (by omega), getLastD_append]
    exact ⟨by omega, rfl⟩

theorem getLastD_take_mem {α : Type} (l : List α) (n : Nat) (a : α)
    : (l.take n).getLastD a = a ∨ (l.take n).getLastD a ∈ l := by
  have hmem := List.getLastD_mem_cons (l := l.take n) (a := a)
  rcases List.mem_cons.mp hmem with heq | hin
  . exact Or.inl heq
  . exact Or.inr (List.mem_of_mem_take hin)

/--
The stores from the release on: a crash before them leaves a state in which the move goes on, a crash
between them is excluded.
-/
theorem rehashUntil_tail {l released : List LsShmHash} {s₃ s' : LsShmHash} {n : Nat}
    (h : s.rehashStores = (l ++ (released ++ [s₃, s']), true))
    (hreleased : released.length = s.releaseStores.length + 1) (hok : s.CrashOk n)
    : s.rehashUntil n = (l.take n).getLastD s ∨ s.rehashUntil n = s' := by
  have hlen : s.rehashStores.1.length = l.length + (released.length + 2) := by
    rw [h]
    simp
  have hrel := hok.release (by rw [h])
  rw [hlen] at hrel
  rcases rehashUntil_append h with ⟨_, heq⟩ | ⟨hn, heq⟩
  . exact Or.inl heq
  . right
    rw [heq, List.take_of_length_le (by simp; omega), getLastD_append]
    rfl

theorem Resumable.crash {n : Nat} (h : Resumable s E) (hok : s.CrashOk n)
    : Crashed s (s.rehashUntil n) E := by
  obtain ⟨l, released, s₃, s', hstores, hlen, hsafe, hmoved, hrep⟩ := rehashStores_resume h
  rcases rehashUntil_tail hstores hlen hok with heq | heq
  . rw [heq]
    rcases getLastD_take_mem l n s with heq' | hin
    . rw [heq']
      exact ⟨Kept.refl s, Or.inr h⟩
    . exact ⟨(hsafe.moved _ hin).kept, Or.inr (hsafe.resumable _ hin)⟩
  . rw [heq]
    exact ⟨hmoved.kept.trans (kept_switched s'), Or.inl ⟨hrep.tableOk.idle.symm, hrep.lookup⟩⟩

theorem Resumable.lockChkRehash (h : Resumable s E)
    : Kept s s.lockChkRehash ∧ Rep s.lockChkRehash E := by
  obtain ⟨l, released, s₃, s', hstores, _, _, hmoved, hrep⟩ := rehashStores_resume h
  obtain ⟨D, limbo, hm, _⟩ := h
  have heq : s.lockChkRehash = s'.switched := by
    unfold LsShmHash.lockChkRehash rehash
    rw [if_pos hm.base.hIdx_ne, hstores]
    dsimp only
    rw [getLastD_append, getLastD_append]
    rfl
  rw [heq]
  exact ⟨hmoved.kept.trans (kept_switched s'), hrep⟩

theorem Rep.lookup_of (h : Rep s E) {m : Shm} (hg : Shm.Grows s.shm m) {t : LsShmHTable}
    (hsize : t.x_iSize = s.table.x_iSize) (helem : t.elem = s.table.elem)
    (hcap : t.x_iCapacity = s.table.x_iCapacity) (hnext : t.next = s.table.next)
    (hheads : t.hIdx t.x_iHIdx = s.table.hIdx s.table.x_iHIdx)
    (hbits : t.x_iBitMapSz = 0 ∨ (t.x_iBitMapSz = s.table.x_iBitMapSz ∧
      t.bitMap t.x_iBitMap = s.table.bitMap s.table.x_iBitMap))
    : Lookup { s with shm := m, table := t } E := by
  constructor
  case size => exact hsize.trans h.size
  case elems =>
    intro x hx
    obtain ⟨e, he, hok⟩ := h.elems x hx
    exact ⟨e, by rw [← he, ← helem], hok.congr rfl rfl rfl (hok.owns.grows hg)⟩
  case keys =>
    show ∀ x ∈ E, ∀ y ∈ E, t.keyOf x = t.keyOf y → x = y
    simp only [keyOf, helem]
    exact h.keys
  case cap_pos =>
    show 0 < t.x_iCapacity
    rw [hcap]
    exact h.tableOk.cap_pos
  case buckets =>
    show Linked.Buckets t.next 0 (t.hIdx t.x_iHIdx) (t.slot t.x_iCapacity) t.x_iCapacity _
    have hslot : t.slot = s.table.slot := by
      funext cap x
      simp only [slot, hkeyOf, helem]
    rw [hnext, hheads, hslot, hcap]
    exact h.buckets
  case bits =>
    show t.x_iBitMapSz ≠ 0 → ∀ b < t.x_iCapacity, (t.bitMap t.x_iBitMap b = true ↔ _)
    rw [hcap]
    intro hsz
    rcases hbits with h0 | ⟨hsz', hmap⟩
    . exact absurd h0 hsz
    . rw [hmap]
      show ∀ b < s.capacity, (_ ↔ t.hIdx t.x_iHIdx b ≠ 0)
      rw [hheads]
      exact h.bits (fun h0 => hsz (hsz'.trans h0))

theorem Rep.crash_start (h : Rep s E) {m : Shm} {off n : Nat} (hg : Shm.Grows s.shm m)
    (hm : Moving (s.started m off) E [] none) (hn : n ≤ 5) (hok : s.CrashOk n)
    : Crashed s (((s.startStores m off).take n).getLastD s) E := by
  have hidle := h.tableOk.idle.symm
  have hheads : Function.update s.table.hIdx (off + sz2BitMapSz s.grownCapacity) (fun _ => 0)
      s.table.x_iHIdx = s.table.hIdx s.table.x_iHIdx :=
    Function.update_of_ne hm.base.hIdx_ne _ _
  have hblk : s.table.x_iBitMap ≠ off := by
    rw [← oldBlk_eq h]
    exact hm.base.blk_ne
  have hbit := hok.bitMap hidle
  have hbitSz := hok.bitMapSz hidle
  have hkept : ∀ t : LsShmHTable, t.elem = s.table.elem → t.x_iFullFactor = s.table.x_iFullFactor →
      Kept s { s with shm := m, table := t } :=
    fun t he hff => ⟨rfl, rfl, rfl, rfl, he, hff, rfl, rfl, rfl⟩
  match n, hn with
  | 0, _ => exact ⟨Kept.refl s, Or.inl ⟨hidle, h.lookup⟩⟩
  | 1, _ =>
    exact ⟨hkept s.table rfl rfl, Or.inl ⟨hidle, (h.withShm hg).lookup⟩⟩
  | 2, _ =>
    refine ⟨hkept _ rfl rfl, Or.inl ⟨hidle, h.lookup_of hg rfl rfl rfl rfl hheads (Or.inr ⟨rfl, ?_⟩)⟩⟩
    exact Function.update_of_ne hblk _ _
  | 3, _ =>
    exact ⟨hkept _ rfl rfl, Or.inl ⟨hidle,
      h.lookup_of hg rfl rfl rfl rfl hheads (Or.inl (hbit rfl))⟩⟩
  | 4, _ =>
    exact ⟨hkept _ rfl rfl, Or.inl ⟨hidle,
      h.lookup_of hg rfl rfl rfl rfl hheads (Or.inl (hbitSz (Or.inl rfl)))⟩⟩
  | 5, _ =>
    exact ⟨hkept _ rfl rfl, Or.inl ⟨hidle,
      h.lookup_of hg rfl rfl rfl rfl hheads (Or.inl (hbitSz (Or.inr rfl)))⟩⟩

theorem Rep.crash {n : Nat} (h : Rep s E) (hok : s.CrashOk n) : Crashed s (s.rehashUntil n) E := by
  have hidle := h.tableOk.idle.symm
  rcases rehashStores_cases h with
    ⟨_, hstores⟩ | ⟨_, hg, hm, l, released, s₃, s', hstores, hrellen, hsafe, hmoved, hrep⟩
  . unfold rehashUntil
    rw [hstores]
    dsimp only
    cases n with
    | zero => exact ⟨Kept.refl s, Or.inl ⟨hidle, h.lookup⟩⟩
    | succ n =>
      rw [List.take_of_length_le (by simp)]
      exact ⟨⟨rfl, rfl, rfl, rfl, rfl, rfl, rfl, rfl, rfl⟩, Or.inl ⟨hidle,
        (h.withShm (Shm.grows_alloc2 _ _)).lookup⟩⟩
  . generalize s.shm.alloc2 _ = r at *
    rcases rehashUntil_tail hstores hrellen hok with heq | heq
    . rw [heq]
      by_cases hn : n ≤ 5
      . rw [List.take_append_of_le_length hn]
        exact h.crash_start hg hm hn hok
      . have hlen : (s.startStores r.1 r.2).length = 5 := rfl
        obtain ⟨k, rfl⟩ : ∃ k, n = 5 + (k + 1) := ⟨n - 6, by omega⟩
        rw [List.take_append, List.take_of_length_le (by omega), hlen, Nat.add_sub_cancel_left,
          List.take_succ_cons, getLastD_append, List.getLastD_cons]
        have hstart : Crashed s (s.started r.1 r.2) E :=
          ⟨kept_started s _ _, Or.inr ⟨[], none, hm, WorkOk.idle h.tableOk.work⟩⟩
        rcases getLastD_take_mem l k (s.started r.1 r.2) with heq' | hin
        . rw [heq']
          exact hstart
        . exact ⟨hstart.kept.trans (hsafe.moved _ hin).kept, Or.inr (hsafe.resumable _ hin)⟩
    . rw [heq]
      exact ⟨((kept_started s _ _).trans hmoved.kept).trans (kept_switched s'),
        Or.inl ⟨hrep.tableOk.idle.symm, hrep.lookup⟩⟩

theorem Crashed.step {n : Nat} (h : Crashed s t E) (hok : t.RecoverOk n)
    : Crashed s (t.lockChkRehashUntil n) E := by
  unfold lockChkRehashUntil
  rcases h.table with ⟨hidle, _⟩ | hres
  . rw [if_neg (not_not.mpr hidle)]
    exact h
  . obtain ⟨D, limbo, hm, _⟩ := id hres
    rw [if_pos hm.base.hIdx_ne]
    have hc := hres.crash (hok hm.base.hIdx_ne)
    exact ⟨h.kept.trans hc.kept, hc.table⟩

theorem Crashed.recover (h : Crashed s t E) (hs : Rep s E) : SameTable s t.lockChkRehash := by
  rcases h.table with ⟨hidle, hlk⟩ | hres
  . unfold lockChkRehash
    rw [if_neg (not_not.mpr hidle)]
    exact hs.lookup.sameTable hlk hs.nodup h.kept
  . obtain ⟨hkept, hrep⟩ := hres.lockChkRehash
    exact hs.lookup.sameTable hrep.lookup hs.nodup (h.kept.trans hkept)

def sampleCrash : Option LsShmHash :=
  allocHTable (Shm.empty [Answer.clean 0x400 320, Answer.clean 0x800 64, Answer.clean 0x1000 32,
    Answer.clean 0x1100 32, Answer.clean 0x1400 224]) (HashParm.clean false false) 7

theorem sampleCrash_isSome : sampleCrash.isSome = true := by decide

def sampleCrashHash : LsShmHash :=
  (Run.exec HashRun.step (HashRun.init (sampleCrash.get sampleCrash_isSome))
    [.doSet [1] (ValParm.ofBytes [10]), .doSet [2] (ValParm.ofBytes [20])]).hash

theorem sampleCrash_rep : ∃ E, Rep sampleCrashHash E := by
  have hinit := HashRun.init_represents (Option.some_get sampleCrash_isSome).symm (by decide)
  obtain ⟨E, hrep, _⟩ := Run.exec_invariant HashRun.Represents HashRun.step_represents hinit
    (show Run.Meets HashRun.step HashRun.Ok _
      [.doSet [1] (ValParm.ofBytes [10]), .doSet [2] (ValParm.ofBytes [20])] by decide)
  exact ⟨E, hrep⟩

/--
A hash of 98317 buckets, the next larger index being one with a bitmap.
-/
def sampleBitMap : Option LsShmHash :=
  allocHTable (Shm.empty [Answer.clean 0x400 320, Answer.clean 0x1000 394240,
    Answer.clean 0x800 32, { Answer.clean 0x100000 1623040 with fileSize := 0x400000 }])
    (HashParm.clean false false) 90000

theorem sampleBitMap_isSome : sampleBitMap.isSome = true := by decide

def sampleBitMapHash : LsShmHash :=
  (Run.exec HashRun.step (HashRun.init (sampleBitMap.get sampleBitMap_isSome))
    [.doSet [1] (ValParm.ofBytes [10])]).hash

end LsShmHash

end Lsmcd
