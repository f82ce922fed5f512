import Lsmcd.Shm.PageList

/-!
The free pages as a list of blocks, and what taking and giving back pages do to it.
-/

namespace Lsmcd

open Linked Cover

namespace PagePool

structure Units (s : PagePool) (b : Nat × Nat) : Prop where
  off : b.1 % LSSHM_SHM_UNITSIZE = 0
  size : b.2 % LSSHM_SHM_UNITSIZE = 0
  pos : 0 < b.2
  low : LSSHM_SHM_UNITSIZE ≤ b.1
  high : b.1 + b.2 ≤ s.maxSize

def block (s : PagePool) (o : Nat) : Nat × Nat :=
  (o, s.size o)

def blocks (s : PagePool) (xs : List Nat) : List (Nat × Nat) :=
  xs.map s.block

structure FreeList (s : PagePool) (xs : List Nat) : Prop where
  list : ∃ tail, DList s.next s.prev 0 tail s.x_iFreePageList xs
  top : ∀ o ∈ xs, s.marker o = LSSHM_FREE_AMARKER
  back : ∀ o ∈ xs, s.back (o + s.size o - sizeofFreeBot) = o
  bottom : ∀ o ∈ xs, s.bottom (o + s.size o - sizeofFreeBot) = LSSHM_FREE_BMARKER
  units : ∀ o ∈ xs, s.Units (s.block o)
  apart : ∀ o ∈ xs, ∀ p ∈ xs, o ≠ p → Apart (s.block o) (s.block p)
  cnt : s.m_iGpFreeListCnt = xs.length
  fits : s.maxSize < 2 ^ 32

variable {s s' : PagePool} {xs : List Nat} {o : Nat} {b : Nat × Nat}

theorem Units.mono (h : s.Units b) (hle : s.maxSize ≤ s'.maxSize) : s'.Units b :=
  ⟨h.off, h.size, h.pos, h.low, h.high.trans hle⟩

theorem offset2ptr_eq {off : Nat} (hlo : sizeofShmMapHdr ≤ off) (hhi : off ≤ s.maxSize) : s.offset2ptr off = some off := by
  unfold maxSize at hhi
  unfold sizeofShmMapHdr at hlo
  unfold offset2ptr sizeofShmMapHdr
  rw [if_neg (by omega)]

@[simp]
theorem offset2ptr_write (p v : Nat) : (s.write p v).offset2ptr = s.offset2ptr := rfl

theorem mem_write_ne {p a : Nat} (h : a ≠ p) (v : Nat) : (s.write p v).mem a = s.mem a :=
  Function.update_of_ne h _ _

theorem mem_write_self (p v : Nat) : (s.write p v).mem p = v :=
  Function.update_self ..

namespace FreeList

theorem nodup (h : FreeList s xs) : xs.Nodup := by
  obtain ⟨_, hlist⟩ := h.list
  exact hlist.nodup

theorem aligned (h : FreeList s xs) (ho : o ∈ xs) : o % LSSHM_SHM_UNITSIZE = 0 := (h.units o ho).off

theorem next_cases (h : FreeList s xs) (ho : o ∈ xs) : s.next o = 0 ∨ s.next o ∈ xs := by
  obtain ⟨_, hlist⟩ := h.list
  by_cases hn : s.next o = 0
  . exact .inl hn
  . exact .inr (hlist.next_mem ho hn).1

theorem prev_cases (h : FreeList s xs) (ho : o ∈ xs) : s.prev o = 0 ∨ s.prev o ∈ xs := by
  obtain ⟨_, hlist⟩ := h.list
  by_cases hp : s.prev o = 0
  . exact .inl hp
  . exact .inr (hlist.prev_mem ho hp)

theorem ptr (h : FreeList s xs) (ho : o ∈ xs) {off : Nat} (hlo : o ≤ off) (hhi : off ≤ o + s.size o)
    : s.offset2ptr off = some off := by
  have hu := h.units o ho
  have hlow := hu.low
  have hhigh := hu.high
  unfold block LSSHM_SHM_UNITSIZE at hlow
  unfold block at hhigh
  apply offset2ptr_eq
  . unfold sizeofShmMapHdr
    dsimp only at hlow
    omega
  . dsimp only at hhigh
    omega

end FreeList

structure ChangesIn (s s' : PagePool) (bs : List (Nat × Nat)) : Prop where
  shm : s'.m_pShm = s.m_pShm
  mem : ∀ a, (∀ b ∈ bs, ¬ Cover.Within b a) → s'.mem a = s.mem a

structure SameSizes (s s' : PagePool) : Prop where
  size : ∀ p, p % LSSHM_SHM_UNITSIZE = 0 → s'.size p = s.size p
  bottom : ∀ e, e % LSSHM_SHM_UNITSIZE = 0 → LSSHM_SHM_UNITSIZE ≤ e →
    s'.back (e - sizeofFreeBot) = s.back (e - sizeofFreeBot) ∧
      s'.bottom (e - sizeofFreeBot) = s.bottom (e - sizeofFreeBot)

/--
The marker of the top of a free block comes to no other place, and goes with the block.
-/
def Marks (s s' : PagePool) (xs xs' : List Nat) : Prop :=
  ∀ a, s'.marker a = LSSHM_FREE_AMARKER → a ∈ xs' ∨ a ∉ xs ∧ s.marker a = LSSHM_FREE_AMARKER

theorem Marks.of_mem (h : ∀ a, s'.mem a = LSSHM_FREE_AMARKER → s.mem a = LSSHM_FREE_AMARKER) : Marks s s' xs xs :=
  fun a ha => or_iff_not_imp_left.mpr fun hno => ⟨hno, h a ha⟩

theorem ne_marker {v : Nat} (hv : v % LSSHM_SHM_UNITSIZE = 0) : v ≠ LSSHM_FREE_AMARKER := by
  rintro rfl
  exact absurd hv (by decide)

theorem update_marker {m : Nat → Nat} {p v a : Nat} (hv : v ≠ LSSHM_FREE_AMARKER)
    (ha : Function.update m p v a = LSSHM_FREE_AMARKER) : a ≠ p ∧ m a = LSSHM_FREE_AMARKER := by
  rw [Function.update_apply] at ha
  split at ha
  . exact absurd ha hv
  . next hne => exact ⟨hne, ha⟩

section Disconnect

theorem FreeList.link_ptr (h : FreeList s xs) {p : Nat} (hp : p = 0 ∨ p ∈ xs) (hne : p ≠ 0) (t : PagePool)
    (ht : t.m_pShm = s.m_pShm) (d v : Nat) : t.writeAt p d v = t.write (p + d) v := by
  have hptr := h.ptr (hp.resolve_left hne) (Nat.le_refl p) (Nat.le_add_right ..)
  unfold writeAt
  have heq : t.offset2ptr p = some p := by
    unfold offset2ptr at hptr ⊢
    rw [ht]
    exact hptr
  rw [heq]

theorem FreeList.disconnect_eq (h : FreeList s xs) (ho : o ∈ xs)
    : let m₁ := Function.update s.mem o 0
      let m₂ := if s.prev o = 0 then m₁ else Function.update m₁ (s.prev o + 8) (s.next o)
      let m₃ := if s.next o = 0 then m₂ else Function.update m₂ (s.next o + 12) (s.prev o)
      (s.markTopUsed o).disconnectFromFree o = {
        m_pShm := s.m_pShm
        mem := m₃
        x_iFreePageList := if s.prev o = 0 then s.next o else s.x_iFreePageList
        m_iGpFreeListCnt := s.m_iGpFreeListCnt - 1 } := by
  have hnext : (s.markTopUsed o).next o = s.next o := mem_write_ne (by omega) 0
  have hprev : (s.markTopUsed o).prev o = s.prev o := mem_write_ne (by omega) 0
  unfold disconnectFromFree
  dsimp only
  rw [hnext, hprev]
  by_cases hp : s.prev o = 0
  . by_cases hn : s.next o = 0
    . rw [if_neg (not_not.mpr hp), if_neg (not_not.mpr hn), if_pos hp, if_pos hn, if_pos hp]
      rfl
    . rw [if_neg (not_not.mpr hp), if_pos hn, if_pos hp, if_neg hn, if_pos hp,
        h.link_ptr (h.next_cases ho) hn]
      . rfl
      . rfl
  . by_cases hn : s.next o = 0
    . rw [if_pos hp, if_neg (not_not.mpr hn), if_neg hp, if_pos hn, if_neg hp, h.link_ptr (h.prev_cases ho) hp]
      . rfl
      . rfl
    . rw [if_pos hp, if_pos hn, if_neg hp, if_neg hn, if_neg hp, h.link_ptr (h.prev_cases ho) hp,
        h.link_ptr (h.next_cases ho) hn]
      . rfl
      . rfl
      . rfl

theorem FreeList.aligned_zero (h : FreeList s xs) {p : Nat} (hp : p = 0 ∨ p ∈ xs) : p % LSSHM_SHM_UNITSIZE = 0 := by
  rcases hp with rfl | hp
  . rfl
  . exact h.aligned hp

theorem FreeList.disconnect_mem (h : FreeList s xs) (ho : o ∈ xs) {a : Nat} (hao : a ≠ o)
    (hprev : s.prev o ≠ 0 → a ≠ s.prev o + 8) (hnext : s.next o ≠ 0 → a ≠ s.next o + 12)
    : ((s.markTopUsed o).disconnectFromFree o).mem a = s.mem a := by
  rw [h.disconnect_eq ho]
  dsimp only
  split
  . split
    . exact Function.update_of_ne hao ..
    . next hp => rw [Function.update_of_ne (hprev hp), Function.update_of_ne hao]
  . next hn =>
    rw [Function.update_of_ne (hnext hn)]
    split
    . exact Function.update_of_ne hao ..
    . next hp => rw [Function.update_of_ne (hprev hp), Function.update_of_ne hao]

theorem FreeList.disconnect_next (h : FreeList s xs) (ho : o ∈ xs) {p : Nat} (hp : p % LSSHM_SHM_UNITSIZE = 0)
    : ((s.markTopUsed o).disconnectFromFree o).next p =
        (if s.prev o = 0 then s.next else Function.update s.next (s.prev o) (s.next o)) p := by
  have hao := h.aligned ho
  have hap := h.aligned_zero (h.prev_cases ho)
  have han := h.aligned_zero (h.next_cases ho)
  unfold LSSHM_SHM_UNITSIZE at hp hao hap han
  unfold next at *
  split
  . next hz => exact h.disconnect_mem ho (by omega) (fun hne => absurd hz hne) fun _ => by unfold next; omega
  . next hz =>
    by_cases hpp : p = s.prev o
    . rw [hpp, Function.update_self, h.disconnect_eq ho]
      dsimp only
      rw [if_neg hz]
      split
      . exact Function.update_self ..
      . rw [Function.update_of_ne (by unfold next; omega)]
        exact Function.update_self ..
    . rw [Function.update_of_ne hpp]
      exact h.disconnect_mem ho (by omega) (fun _ => by omega) fun _ => by unfold next; omega

theorem FreeList.disconnect_prev (h : FreeList s xs) (ho : o ∈ xs) {p : Nat} (hp : p % LSSHM_SHM_UNITSIZE = 0)
    : ((s.markTopUsed o).disconnectFromFree o).prev p =
        (if s.next o = 0 then s.prev else Function.update s.prev (s.next o) (s.prev o)) p := by
  have hao := h.aligned ho
  have hap := h.aligned_zero (h.prev_cases ho)
  have han := h.aligned_zero (h.next_cases ho)
  unfold LSSHM_SHM_UNITSIZE at hp hao hap han
  unfold prev at *
  split
  . next hz => exact h.disconnect_mem ho (by omega) (fun _ => by unfold prev; omega) fun hne => absurd hz hne
  . next hz =>
    by_cases hpp : p = s.next o
    . rw [hpp, Function.update_self, h.disconnect_eq ho]
      dsimp only
      rw [if_neg hz]
      exact Function.update_self ..
    . rw [Function.update_of_ne hpp]
      exact h.disconnect_mem ho (by omega) (fun _ => by unfold prev; omega) fun _ => by omega

theorem FreeList.disconnect_sizes (h : FreeList s xs) (ho : o ∈ xs)
    : SameSizes s ((s.markTopUsed o).disconnectFromFree o) := by
  have hao := h.aligned ho
  have hap := h.aligned_zero (h.prev_cases ho)
  have han := h.aligned_zero (h.next_cases ho)
  unfold LSSHM_SHM_UNITSIZE at hao hap han
  constructor
  . intro p hp
    unfold LSSHM_SHM_UNITSIZE at hp
    exact h.disconnect_mem ho (by omega) (fun _ => by omega) fun _ => by omega
  . intro e he hle
    unfold LSSHM_SHM_UNITSIZE at he hle
    unfold sizeofFreeBot
    exact ⟨h.disconnect_mem ho (by omega) (fun _ => by omega) fun _ => by omega,
      h.disconnect_mem ho (by omega) (fun _ => by omega) fun _ => by omega⟩

theorem FreeList.within_top (h : FreeList s xs) (ho : o ∈ xs) {d : Nat} (hd : d < LSSHM_SHM_UNITSIZE)
    : ∃ b ∈ s.blocks xs, Cover.Within b (o + d) := by
  refine ⟨s.block o, List.mem_map_of_mem ho, ?_⟩
  have hpos := (h.units o ho).pos
  have hsize := (h.units o ho).size
  unfold Cover.Within
  unfold LSSHM_SHM_UNITSIZE at *
  unfold block at *
  dsimp only at *
  omega

theorem FreeList.disconnect_within (h : FreeList s xs) (ho : o ∈ xs)
    : ChangesIn s ((s.markTopUsed o).disconnectFromFree o) (s.blocks xs) where
  shm := by rw [h.disconnect_eq ho]
  mem := by
    intro a ha
    have hout : ∀ p, p = 0 ∨ p ∈ xs → p ≠ 0 → ∀ d, d < LSSHM_SHM_UNITSIZE → a ≠ p + d := by
      rintro p hp hne d hd rfl
      obtain ⟨b, hb, hin⟩ := h.within_top (hp.resolve_left hne) hd
      exact ha b hb hin
    have ho0 : o ≠ 0 := by
      obtain ⟨_, hlist⟩ := h.list
      exact hlist.ne_nil ho
    exact h.disconnect_mem ho (hout o (.inr ho) ho0 0 (by decide))
      (fun hne => hout _ (h.prev_cases ho) hne 8 (by decide)) fun hne => hout _ (h.next_cases ho) hne 12 (by decide)

theorem FreeList.disconnect_marker (h : FreeList s xs) (ho : o ∈ xs) {a : Nat}
    (ha : ((s.markTopUsed o).disconnectFromFree o).mem a = LSSHM_FREE_AMARKER) : a ≠ o ∧ s.mem a = LSSHM_FREE_AMARKER := by
  have hnext := ne_marker (h.aligned_zero (h.next_cases ho))
  have hprev := ne_marker (h.aligned_zero (h.prev_cases ho))
  have hzero : (0 : Nat) ≠ LSSHM_FREE_AMARKER := ne_marker rfl
  rw [h.disconnect_eq ho] at ha
  dsimp only at ha
  split at ha <;> split at ha
  . exact update_marker hzero ha
  . exact update_marker hzero (update_marker hnext ha).2
  . exact update_marker hzero (update_marker hprev ha).2
  . exact update_marker hzero (update_marker hnext (update_marker hprev ha).2).2

theorem FreeList.disconnect (h : FreeList s xs) (ho : o ∈ xs)
    : FreeList ((s.markTopUsed o).disconnectFromFree o) (xs.erase o) := by
  have hsizes := h.disconnect_sizes ho
  have hnd := h.nodup
  have hmem : ∀ p ∈ xs.erase o, p ∈ xs ∧ p ≠ o := fun p hp =>
    ⟨List.mem_of_mem_erase hp, (hnd.mem_erase_iff.mp hp).1⟩
  have hblock : ∀ p ∈ xs.erase o, ((s.markTopUsed o).disconnectFromFree o).block p = s.block p := fun p hp => by
    unfold block
    rw [hsizes.size p (h.aligned (hmem p hp).1)]
  have hshm : ((s.markTopUsed o).disconnectFromFree o).m_pShm = s.m_pShm := (h.disconnect_within ho).shm
  have hmax : ((s.markTopUsed o).disconnectFromFree o).maxSize = s.maxSize := by
    unfold maxSize
    rw [hshm]
  have hend : ∀ p ∈ xs, (p + s.size p) % LSSHM_SHM_UNITSIZE = 0 ∧ LSSHM_SHM_UNITSIZE ≤ p + s.size p := by
    intro p hp
    have hu := h.units p hp
    have hoff := hu.off
    have hsize := hu.size
    have hlow := hu.low
    unfold block LSSHM_SHM_UNITSIZE at *
    dsimp only at *
    omega
  refine ⟨?_, ?_, ?_, ?_, ?_, ?_, ?_, ?_⟩
  . obtain ⟨tail, hlist⟩ := h.list
    have hhead : ((s.markTopUsed o).disconnectFromFree o).x_iFreePageList =
        if s.prev o = 0 then s.next o else s.x_iFreePageList := by
      rw [h.disconnect_eq ho]
    rw [hhead]
    exact ⟨_, (hlist.unlink ho).congr (fun p hp => h.disconnect_next ho (h.aligned (hmem p hp).1))
      fun p hp => h.disconnect_prev ho (h.aligned (hmem p hp).1)⟩
  . intro p hp
    obtain ⟨hpx, hne⟩ := hmem p hp
    have hap := h.aligned hpx
    have hpp := h.aligned_zero (h.prev_cases ho)
    have hpn := h.aligned_zero (h.next_cases ho)
    unfold LSSHM_SHM_UNITSIZE at hap hpp hpn
    exact (h.disconnect_mem ho hne (fun _ => by omega) fun _ => by omega).trans (h.top p hpx)
  . intro p hp
    obtain ⟨hpx, _⟩ := hmem p hp
    rw [hsizes.size p (h.aligned hpx), (hsizes.bottom _ (hend p hpx).1 (hend p hpx).2).1]
    exact h.back p hpx
  . intro p hp
    obtain ⟨hpx, _⟩ := hmem p hp
    rw [hsizes.size p (h.aligned hpx), (hsizes.bottom _ (hend p hpx).1 (hend p hpx).2).2]
    exact h.bottom p hpx
  . intro p hp
    rw [hblock p hp]
    exact (h.units p (hmem p hp).1).mono (Nat.le_of_eq hmax.symm)
  . intro p hp q hq hne
    rw [hblock p hp, hblock q hq]
    exact h.apart p (hmem p hp).1 q (hmem q hq).1 hne
  . rw [List.length_erase_of_mem ho, ← h.cnt, h.disconnect_eq ho]
  . rw [hmax]
    exact h.fits

end Disconnect

section Resize

structure Resized (s s' : PagePool) (xs : List Nat) (o n : Nat) : Prop where
  links : ∀ p ∈ xs, s'.next p = s.next p ∧ s'.prev p = s.prev p ∧ s'.marker p = s.marker p
  size : s'.size o = n
  back : s'.back (o + n - sizeofFreeBot) = o
  bottom : s'.bottom (o + n - sizeofFreeBot) = LSSHM_FREE_BMARKER
  others : ∀ p ∈ xs, p ≠ o → s'.size p = s.size p ∧
    s'.back (p + s.size p - sizeofFreeBot) = s.back (p + s.size p - sizeofFreeBot) ∧
    s'.bottom (p + s.size p - sizeofFreeBot) = s.bottom (p + s.size p - sizeofFreeBot)
  head : s'.x_iFreePageList = s.x_iFreePageList
  cnt : s'.m_iGpFreeListCnt = s.m_iGpFreeListCnt
  shm : s'.m_pShm = s.m_pShm

theorem FreeList.resize (h : FreeList s xs) {n : Nat} (hr : Resized s s' xs o n) (hn : s.Units (o, n))
    (hapart : ∀ p ∈ xs, p ≠ o → Apart (o, n) (s.block p)) : FreeList s' xs := by
  have hmax : s'.maxSize = s.maxSize := by
    unfold maxSize
    rw [hr.shm]
  have hblock : ∀ p ∈ xs, p ≠ o → s'.block p = s.block p := fun p hp hne => by
    unfold block
    rw [(hr.others p hp hne).1]
  have hself : s'.block o = (o, n) := by
    unfold block
    rw [hr.size]
  refine ⟨?_, ?_, ?_, ?_, ?_, ?_, ?_, ?_⟩
  . obtain ⟨tail, hlist⟩ := h.list
    rw [hr.head]
    exact ⟨tail, hlist.congr (fun p hp => (hr.links p hp).1) fun p hp => (hr.links p hp).2.1⟩
  . intro p hp
    rw [(hr.links p hp).2.2]
    exact h.top p hp
  . intro p hp
    by_cases hpo : p = o
    . rw [hpo, hr.size]
      exact hr.back
    . rw [(hr.others p hp hpo).1, (hr.others p hp hpo).2.1]
      exact h.back p hp
  . intro p hp
    by_cases hpo : p = o
    . rw [hpo, hr.size]
      exact hr.bottom
    . rw [(hr.others p hp hpo).1, (hr.others p hp hpo).2.2]
      exact h.bottom p hp
  . intro p hp
    by_cases hpo : p = o
    . rw [hpo, hself]
      exact hn.mono (Nat.le_of_eq hmax.symm)
    . rw [hblock p hp hpo]
      exact (h.units p hp).mono (Nat.le_of_eq hmax.symm)
  . intro p hp q hq hne
    by_cases hpo : p = o
    . rw [hpo, hself, hblock q hq fun hqo => hne (hpo.trans hqo.symm)]
      exact hapart q hq fun hqo => hne (hpo.trans hqo.symm)
    . rw [hblock p hp hpo]
      by_cases hqo : q = o
      . rw [hqo, hself]
        exact (hapart p hp hpo).symm
      . rw [hblock q hq hqo]
        exact h.apart p hp q hq hne
  . rw [hr.cnt]
    exact h.cnt
  . rw [hmax]
    exact h.fits

end Resize

section Shrink

variable {n : Nat}

theorem Units.part (h : s.Units b) (hn : n % LSSHM_SHM_UNITSIZE = 0) (hpos : 0 < n) (hle : n ≤ b.2) : s.Units (b.1, n) where
  off := h.off
  size := hn
  pos := hpos
  low := h.low
  high := by
    have hhigh := h.high
    dsimp only
    omega

theorem FreeList.shrink (h : FreeList s xs) (ho : o ∈ xs) (hn : n % LSSHM_SHM_UNITSIZE = 0) (hpos : 0 < n)
    (hle : n ≤ s.size o)
    : FreeList (s.reduceFreeFromBot o o n) xs ∧ (s.reduceFreeFromBot o o n).size o = n ∧
      (∀ p ∈ xs, p ≠ o → (s.reduceFreeFromBot o o n).size p = s.size p) ∧
      ChangesIn s (s.reduceFreeFromBot o o n) (s.blocks xs) ∧ Marks s (s.reduceFreeFromBot o o n) xs xs := by
  have hu := h.units o ho
  have hoff := h.aligned ho
  have hlow := hu.low
  have hptr : s.offset2ptr (o + n - sizeofFreeBot) = some (o + n - sizeofFreeBot) := h.ptr ho
    (by unfold LSSHM_SHM_UNITSIZE sizeofFreeBot at *; omega) (by unfold sizeofFreeBot; omega)
  have heq : s.reduceFreeFromBot o o n =
      ((s.write (o + n - sizeofFreeBot) o).write (o + n - sizeofFreeBot + 4) LSSHM_FREE_BMARKER).write (o + 4) n := by
    unfold reduceFreeFromBot
    rw [if_neg (by omega), hptr]
  rw [heq]
  have hapart : ∀ p ∈ xs, p ≠ o → Apart (o, n) (s.block p) := by
    intro p hp hne
    have hap := h.apart o ho p hp (Ne.symm hne)
    unfold Apart block at *
    dsimp only at *
    omega
  unfold LSSHM_SHM_UNITSIZE at hoff hn hlow
  unfold block at hlow
  dsimp only at hlow
  have hothers : ∀ p ∈ xs, p ≠ o → p % 1024 = 0 ∧ s.size p % 1024 = 0 ∧ 1024 ≤ p ∧ p + s.size p ≠ o + n ∧ 0 < s.size p := by
    intro p hp hne
    have hup := h.units p hp
    have hap := hapart p hp hne
    have hpoff := hup.off
    have hpsize := hup.size
    have hppos := hup.pos
    have hplow := hup.low
    unfold Apart block LSSHM_SHM_UNITSIZE at *
    dsimp only at *
    omega
  have hres : Resized s (((s.write (o + n - sizeofFreeBot) o).write (o + n - sizeofFreeBot + 4)
      LSSHM_FREE_BMARKER).write (o + 4) n) xs o n := by
    constructor
    . intro p hp
      have hpo := h.aligned hp
      unfold LSSHM_SHM_UNITSIZE at hpo
      simp only [next, prev, marker, write, sizeofFreeBot, Function.update_apply]
      refine ⟨?_, ?_, ?_⟩ <;> (split_ifs <;> first | rfl | omega)
    . exact mem_write_self ..
    . simp only [PagePool.back, write, sizeofFreeBot, Function.update_apply]
      split_ifs <;> first | rfl | omega
    . simp only [PagePool.bottom, write, sizeofFreeBot, Function.update_apply]
      split_ifs <;> first | rfl | omega
    . intro p hp hne
      obtain ⟨hpo, hps, hpl, hpe, hpp⟩ := hothers p hp hne
      unfold size at *
      simp only [PagePool.back, PagePool.bottom, write, sizeofFreeBot, Function.update_apply]
      refine ⟨?_, ?_, ?_⟩ <;> (split_ifs <;> first | rfl | omega)
    . rfl
    . rfl
    . rfl
  refine ⟨h.resize hres (hu.part hn hpos hle) hapart, hres.size, fun p hp hne => (hres.others p hp hne).1, ⟨rfl, ?_⟩, ?_⟩
  . intro a ha
    have hout := ha _ (List.mem_map_of_mem ho)
    unfold Cover.Within block at hout
    dsimp only at hout
    simp only [write, sizeofFreeBot, Function.update_apply]
    split_ifs <;> first | rfl | omega
  . have hbmark : LSSHM_FREE_BMARKER ≠ LSSHM_FREE_AMARKER := by decide
    exact .of_mem fun a ha =>
      (update_marker (ne_marker hoff) (update_marker hbmark (update_marker (ne_marker hn) ha).2).2).2

end Shrink

section Take

variable {n : Nat}

inductive Taken (s : PagePool) (n : Nat) (rest : List Nat) : PagePool × Nat → Prop
  | none : (∀ p ∈ rest, s.size p < n) → Taken s n rest (s, 0)
  | whole (o : Nat) : o ∈ rest → s.size o = n → Taken s n rest ((s.markTopUsed o).disconnectFromFree o, o)
  | part (o : Nat) : o ∈ rest → n < s.size o →
    Taken s n rest (s.reduceFreeFromBot o o (s.size o - n), o + (s.size o - n))

theorem Taken.cons {a : Nat} {rest : List Nat} {r : PagePool × Nat} (h : Taken s n rest r) (ha : s.size a < n)
    : Taken s n (a :: rest) r := by
  cases h with
  | none hsmall =>
    refine .none fun p hp => ?_
    rcases List.mem_cons.mp hp with rfl | hp
    . exact ha
    . exact hsmall p hp
  | whole o ho hsize => exact .whole o (List.mem_cons_of_mem _ ho) hsize
  | part o ho hsize => exact .part o (List.mem_cons_of_mem _ ho) hsize

theorem FreeList.reduce_zero (h : FreeList s xs) (ho : o ∈ xs)
    : s.reduceFreeFromBot o o 0 = (s.markTopUsed o).disconnectFromFree o := by
  have hu := h.units o ho
  have hpos := hu.pos
  have hsize := hu.size
  have hhigh := hu.high
  have hkeep : (s.markTopUsed o).size o = s.size o := mem_write_ne (by omega) 0
  have hptr : (s.markTopUsed o).offset2ptr (s.size o - sizeofFreeBot) = some (s.size o - sizeofFreeBot) := by
    have hmax : (s.markTopUsed o).maxSize = s.maxSize := rfl
    unfold block LSSHM_SHM_UNITSIZE at *
    dsimp only at *
    apply offset2ptr_eq
    . unfold sizeofShmMapHdr sizeofFreeBot
      omega
    . rw [hmax]
      omega
  unfold reduceFreeFromBot
  rw [if_pos rfl]
  dsimp only
  rw [hkeep, hptr]

theorem FreeList.loop_taken (h : FreeList s xs) {rest : List Nat} (hsub : ∀ p ∈ rest, p ∈ xs) {a fuel : Nat}
    (hc : Chain s.next 0 a rest) (hfuel : rest.length < fuel) : Taken s n rest (getFromFreeListLoop n fuel s a) := by
  induction rest generalizing a fuel with
  | nil =>
    cases fuel with
    | zero => exact absurd hfuel (Nat.not_lt_zero _)
    | succ fuel =>
      unfold getFromFreeListLoop
      rw [if_neg (not_not.mpr (chain_nil_iff.mp hc))]
      exact .none fun _ hp => nomatch hp
  | cons x rest ih =>
    cases fuel with
    | zero => exact absurd hfuel (Nat.not_lt_zero _)
    | succ fuel =>
      obtain ⟨rfl, hne, hc⟩ := hc
      have hax := hsub a List.mem_cons_self
      unfold getFromFreeListLoop
      rw [if_pos hne, h.ptr hax (Nat.le_refl a) (Nat.le_add_right ..)]
      dsimp only
      split
      . next hle =>
        rcases Nat.eq_or_lt_of_le hle with heq | hlt
        . rw [heq, Nat.sub_self, Nat.add_zero, h.reduce_zero hax]
          exact .whole a List.mem_cons_self rfl
        . exact .part a List.mem_cons_self hlt
      . next hsmall =>
        have hlen : rest.length < fuel := by simpa using hfuel
        exact (ih (fun p hp => hsub p (List.mem_cons_of_mem _ hp)) hc hlen).cons (Nat.lt_of_not_le hsmall)

theorem FreeList.taken (h : FreeList s xs) (n : Nat) : Taken s n xs (s.getFromFreeList n) := by
  obtain ⟨tail, hlist⟩ := h.list
  unfold getFromFreeList
  exact h.loop_taken (fun _ hp => hp) hlist.up (by rw [h.cnt]; exact Nat.lt_succ_self _)

structure Gives (s s' : PagePool) (xs xs' : List Nat) (b : Nat × Nat) : Prop where
  free : FreeList s' xs'
  count : ∀ x, count (s.blocks xs) x = count (s'.blocks xs') x + count [b] x
  within : ChangesIn s s' (s.blocks xs)
  units : s.Units b
  kept : ∀ p ∈ xs', p ∈ xs ∧ s'.size p ≤ s.size p
  marks : Marks s s' xs xs'

theorem FreeList.gives_whole (h : FreeList s xs) (ho : o ∈ xs)
    : Gives s ((s.markTopUsed o).disconnectFromFree o) xs (xs.erase o) (s.block o) := by
  have hsizes := h.disconnect_sizes ho
  have hmem : ∀ p ∈ xs.erase o, p ∈ xs := fun p hp => List.mem_of_mem_erase hp
  refine ⟨h.disconnect ho, ?_, h.disconnect_within ho, h.units o ho, ?_, ?_⟩
  . intro x
    have hsame : (xs.erase o).map ((s.markTopUsed o).disconnectFromFree o).block = (xs.erase o).map s.block := by
      apply List.map_congr_left
      intro p hp
      unfold block
      rw [hsizes.size p (h.aligned (hmem p hp))]
    unfold blocks
    rw [count_map_erase s.block ho, hsame]
    omega
  . intro p hp
    exact ⟨hmem p hp, Nat.le_of_eq (hsizes.size p (h.aligned (hmem p hp)))⟩
  . intro a ha
    obtain ⟨hao, hold⟩ := h.disconnect_marker ho ha
    by_cases hin : a ∈ xs
    . exact .inl (h.nodup.mem_erase_iff.mpr ⟨hao, hin⟩)
    . exact .inr ⟨hin, hold⟩

theorem FreeList.gives_part (h : FreeList s xs) (ho : o ∈ xs) (hn : n % LSSHM_SHM_UNITSIZE = 0) (hpos : 0 < n)
    (hlt : n < s.size o)
    : Gives s (s.reduceFreeFromBot o o (s.size o - n)) xs xs (o + (s.size o - n), n) := by
  have hu := h.units o ho
  have hsize := hu.size
  have hoff := hu.off
  have hlow := hu.low
  have hhigh := hu.high
  have hleft : (s.size o - n) % LSSHM_SHM_UNITSIZE = 0 := by
    unfold block LSSHM_SHM_UNITSIZE at *
    dsimp only at *
    omega
  obtain ⟨hfree, hself, hothers, hwithin, hmarks⟩ := h.shrink ho hleft (Nat.sub_pos_of_lt hlt) (Nat.sub_le ..)
  refine ⟨hfree, ?_, hwithin, ?_, ?_, hmarks⟩
  . intro x
    have heq := count_map_eq h.nodup ho (f := s.block) (g := (s.reduceFreeFromBot o o (s.size o - n)).block)
      (fun p hp hne => by unfold block; rw [hothers p hp hne]) x
    have hsplit := count_split o (s.size o - n) n x
    rw [Nat.sub_add_cancel (Nat.le_of_lt hlt)] at hsplit
    unfold blocks
    unfold block at heq ⊢
    rw [hself] at heq
    omega
  . constructor
    . unfold block LSSHM_SHM_UNITSIZE at *
      dsimp only at *
      omega
    . exact hn
    . exact hpos
    . unfold block at hlow
      dsimp only at *
      omega
    . unfold block at hhigh
      dsimp only at *
      omega
  . intro p hp
    by_cases hpo : p = o
    . rw [hpo, hself]
      exact ⟨ho, Nat.sub_le ..⟩
    . exact ⟨hp, Nat.le_of_eq (hothers p hp hpo)⟩

theorem FreeList.get (h : FreeList s xs) (hn : n % LSSHM_SHM_UNITSIZE = 0) (hpos : 0 < n)
    : ((∀ p ∈ xs, s.size p < n) ∧ s.getFromFreeList n = (s, 0)) ∨
      (∃ p ∈ xs, n ≤ s.size p) ∧ (s.getFromFreeList n).2 ≠ 0 ∧
        ∃ xs', Gives s (s.getFromFreeList n).1 xs xs' ((s.getFromFreeList n).2, n) := by
  have htaken := h.taken n
  generalize s.getFromFreeList n = r at htaken
  cases htaken with
  | none hsmall => exact .inl ⟨hsmall, rfl⟩
  | whole o ho hsize =>
    obtain ⟨_, hlist⟩ := h.list
    have hgives := h.gives_whole ho
    unfold block at hgives
    rw [hsize] at hgives
    exact .inr ⟨⟨o, ho, Nat.le_of_eq hsize.symm⟩, hlist.ne_nil ho, _, hgives⟩
  | part o ho hlt => exact .inr ⟨⟨o, ho, Nat.le_of_lt hlt⟩, by dsimp only; omega, _, h.gives_part ho hn hpos hlt⟩

end Take

end PagePool

end Lsmcd
