import Lsmcd.Shm.PageRep

/-!
Pages that come back are joined with the free blocks next to them.
-/

namespace Lsmcd

open Linked Cover

namespace PagePool

def freeStarts (s : PagePool) : List Nat :=
  cells s.next 0 s.m_iGpFreeListCnt s.x_iFreePageList

/--
The marker of a free block is found above or below an offset only where there is a free block. Data may hold
anything else.
-/
def HonestAbove (s : PagePool) (o : Nat) : Prop :=
  s.bottom (o - sizeofFreeBot) = LSSHM_FREE_BMARKER →
    s.marker (s.back (o - sizeofFreeBot)) = LSSHM_FREE_AMARKER → s.back (o - sizeofFreeBot) ∈ s.freeStarts

def HonestBelow (s : PagePool) (o : Nat) : Prop :=
  s.marker o = LSSHM_FREE_AMARKER → o ∈ s.freeStarts

instance (s : PagePool) (o : Nat) : Decidable (s.HonestAbove o) := inferInstanceAs (Decidable (_ → _ → _))

instance (s : PagePool) (o : Nat) : Decidable (s.HonestBelow o) := inferInstanceAs (Decidable (_ → _))

/--
No two free blocks touch.
-/
def Joined (s : PagePool) (xs : List Nat) : Prop :=
  ∀ p ∈ xs, p + s.size p ∉ xs

variable {s s' : PagePool} {xs : List Nat} {o c offset n : Nat}

theorem FreeList.freeStarts_eq (h : FreeList s xs) : s.freeStarts = xs := by
  obtain ⟨_, hlist⟩ := h.list
  exact hlist.up.cells_eq (Nat.le_of_eq h.cnt.symm)

structure Loose (s : PagePool) (xs : List Nat) (offset n : Nat) : Prop where
  units : s.Units (offset, n)
  apart : ∀ p ∈ xs, Apart (s.block p) (offset, n)

theorem FreeList.nums (h : FreeList s xs) (ho : o ∈ xs)
    : o % 1024 = 0 ∧ s.size o % 1024 = 0 ∧ 1024 ≤ s.size o ∧ 1024 ≤ o ∧ o + s.size o ≤ s.maxSize := by
  have hu := h.units o ho
  have hoff := hu.off
  have hsize := hu.size
  have hpos := hu.pos
  have hlow := hu.low
  have hhigh := hu.high
  unfold block LSSHM_SHM_UNITSIZE at *
  dsimp only at *
  omega

theorem Loose.nums (h : Loose s xs offset n)
    : offset % 1024 = 0 ∧ n % 1024 = 0 ∧ 1024 ≤ n ∧ 1024 ≤ offset ∧ offset + n ≤ s.maxSize := by
  have hoff := h.units.off
  have hsize := h.units.size
  have hpos := h.units.pos
  have hlow := h.units.low
  have hhigh := h.units.high
  unfold LSSHM_SHM_UNITSIZE at *
  dsimp only at *
  omega

theorem Loose.apart_num (h : Loose s xs offset n) (ho : o ∈ xs) : o + s.size o ≤ offset ∨ offset + n ≤ o := h.apart o ho

theorem FreeList.apart_num (h : FreeList s xs) (ho : o ∈ xs) (hc : c ∈ xs) (hne : o ≠ c)
    : o + s.size o ≤ c ∨ c + s.size c ≤ o := h.apart o ho c hc hne

section Above

def growAbove (s : PagePool) (p offset n : Nat) : PagePool :=
  (((s.write (p + 4) (s.size p + n)).write (offset + n - sizeofFreeBot + 4) LSSHM_FREE_BMARKER).write
    (offset + n - sizeofFreeBot) p).markTopUsed offset

theorem FreeList.above_found (h : FreeList s xs) (hl : Loose s xs offset n) (ho : o ∈ xs) (heq : o + s.size o = offset)
    : s.isFreeBlockAbove offset n 1 = (s.growAbove o offset n, true) := by
  obtain ⟨hoff, hsize, hge, hlow, hhigh⟩ := h.nums ho
  obtain ⟨hoff', hn, hnge, hlow', hhigh'⟩ := hl.nums
  have hfits := h.fits
  have hback : s.back (offset - sizeofFreeBot) = o := heq ▸ h.back o ho
  have hbottom : s.bottom (offset - sizeofFreeBot) = LSSHM_FREE_BMARKER := heq ▸ h.bottom o ho
  have hptr : ∀ off, 32 ≤ off → off ≤ s.maxSize → s.offset2ptr off = some off := fun _ hlo hhi => offset2ptr_eq hlo hhi
  unfold isFreeBlockAbove
  dsimp only
  rw [if_neg (by unfold sizeofFreeBot LSSHM_SHM_UNITSIZE; omega),
    hptr _ (by unfold sizeofFreeBot; omega) (by unfold sizeofFreeBot; omega)]
  dsimp only
  rw [hback, hbottom, if_pos ⟨rfl, by unfold LSSHM_SHM_UNITSIZE; omega, by unfold sizeofFreeBot; omega⟩,
    hptr o (by omega) (by omega)]
  dsimp only
  rw [h.top o ho, if_pos ⟨rfl, by omega⟩, if_pos (by decide), Nat.mod_eq_of_lt (show s.size o + n < 2 ^ 32 by omega),
    offset2ptr_write, hptr _ (by unfold sizeofFreeBot; omega) (by unfold sizeofFreeBot; omega)]
  dsimp only
  rw [offset2ptr_write, offset2ptr_write, offset2ptr_write, hptr offset (by omega) (by omega)]
  have hkeep : ((s.write (o + 4) (s.size o + n)).write (offset + n - sizeofFreeBot + 4) LSSHM_FREE_BMARKER).back
      (offset - sizeofFreeBot) = o := by
    unfold PagePool.back
    rw [mem_write_ne (by unfold sizeofFreeBot; omega), mem_write_ne (by unfold sizeofFreeBot; omega)]
    exact hback
  rw [hkeep]
  rfl

theorem FreeList.above_none (h : FreeList s xs) (hon : s.HonestAbove offset)
    (hnone : ∀ p ∈ xs, p + s.size p ≠ offset) (j : Nat) : s.isFreeBlockAbove offset n j = (s, false) := by
  unfold HonestAbove at hon
  rw [h.freeStarts_eq] at hon
  unfold isFreeBlockAbove
  dsimp only
  split
  . rfl
  . split
    . rfl
    . next bp hbp =>
      have hbp' : bp = offset - sizeofFreeBot := by
        unfold offset2ptr at hbp
        split at hbp
        . cases hbp
        . exact (Option.some.inj hbp).symm
      subst hbp'
      split
      . next hcond =>
        split
        . rfl
        . next ap hap =>
          have hap' : ap = s.back (offset - sizeofFreeBot) := by
            unfold offset2ptr at hap
            split at hap
            . cases hap
            . exact (Option.some.inj hap).symm
          subst hap'
          rw [if_neg]
          rintro ⟨hmark, hend⟩
          have hin := hon hcond.1 hmark
          obtain ⟨_, _, _, _, hhigh⟩ := h.nums hin
          have hfits := h.fits
          exact hnone _ hin (by omega)
      . rfl

theorem FreeList.grow (h : FreeList s xs) (ho : o ∈ xs) (hl : Loose s xs (o + s.size o) n)
    (hr : Resized s s' xs o (s.size o + n))
    : FreeList s' xs ∧ ∀ x, count (s'.blocks xs) x = count (s.blocks xs) x + count [(o + s.size o, n)] x := by
  obtain ⟨hoff, hsize, hge, hlow, hhigh⟩ := h.nums ho
  obtain ⟨hoff', hn, hnge, hlow', hhigh'⟩ := hl.nums
  constructor
  . refine h.resize hr ⟨hoff, ?_, ?_, hlow, ?_⟩ ?_
    . unfold LSSHM_SHM_UNITSIZE
      dsimp only
      omega
    . dsimp only
      omega
    . dsimp only
      omega
    . intro p hp hne
      obtain ⟨_, _, hpge, _, _⟩ := h.nums hp
      have hap := h.apart_num ho hp (Ne.symm hne)
      have hap' := hl.apart_num hp
      unfold Apart block
      dsimp only
      omega
  . intro x
    have heq := count_map_eq h.nodup ho (f := s.block) (g := s'.block)
      (fun p hp hne => by unfold block; rw [(hr.others p hp hne).1]) x
    have hsplit := count_split o (s.size o) n x
    unfold blocks
    unfold block at heq ⊢
    rw [hr.size] at heq
    omega

theorem FreeList.resized_growAbove (h : FreeList s xs) (ho : o ∈ xs) (hl : Loose s xs (o + s.size o) n)
    : Resized s (s.growAbove o (o + s.size o) n) xs o (s.size o + n) := by
  obtain ⟨hoff, hsize, hge, hlow, hhigh⟩ := h.nums ho
  obtain ⟨hoff', hn, hnge, hlow', hhigh'⟩ := hl.nums
  unfold growAbove markTopUsed
  constructor
  . intro p hp
    obtain ⟨hpo, _, hpge, _, _⟩ := h.nums hp
    have hap := hl.apart_num hp
    simp only [next, prev, marker, write, sizeofFreeBot, Function.update_apply]
    refine ⟨?_, ?_, ?_⟩ <;> (split_ifs <;> first | rfl | omega)
  . simp only [size, write, sizeofFreeBot, Function.update_apply] at *
    split_ifs <;> first | rfl | omega
  . simp only [PagePool.back, write, sizeofFreeBot, Function.update_apply]
    split_ifs <;> first | rfl | omega
  . simp only [PagePool.bottom, write, sizeofFreeBot, Function.update_apply]
    split_ifs <;> first | rfl | omega
  . intro p hp hne
    obtain ⟨hpo, hps, hpge, _, _⟩ := h.nums hp
    have hap := hl.apart_num hp
    unfold size at *
    simp only [PagePool.back, PagePool.bottom, write, sizeofFreeBot, Function.update_apply]
    refine ⟨?_, ?_, ?_⟩ <;> (split_ifs <;> first | rfl | omega)
  . rfl
  . rfl
  . rfl

theorem growAbove_marker {a : Nat} (ho : o % LSSHM_SHM_UNITSIZE = 0) (hn : (s.size o + n) % LSSHM_SHM_UNITSIZE = 0)
    (ha : (s.growAbove o offset n).mem a = LSSHM_FREE_AMARKER) : s.mem a = LSSHM_FREE_AMARKER :=
  have hbmark : LSSHM_FREE_BMARKER ≠ LSSHM_FREE_AMARKER := by decide
  (update_marker (ne_marker hn) (update_marker hbmark (update_marker (ne_marker ho)
    (update_marker (ne_marker rfl) ha).2).2).2).2

end Above

section Below

theorem FreeList.below_none (h : FreeList s xs) (hon : s.HonestBelow (offset + n)) (hnone : offset + n ∉ xs) (j : Nat)
    : s.isFreeBlockBelow offset n j = (s, false) := by
  unfold HonestBelow at hon
  rw [h.freeStarts_eq] at hon
  unfold isFreeBlockBelow
  dsimp only
  split
  . rfl
  . split
    . rfl
    . next ap hap =>
      have hap' : ap = offset + n := by
        unfold offset2ptr at hap
        split at hap
        . cases hap
        . exact (Option.some.inj hap).symm
      subst hap'
      rw [if_neg fun hmark => hnone (hon hmark)]

theorem FreeList.below_found (h : FreeList s xs) (hc : offset + n ∈ xs) {j : Nat} (hj : j ≠ 0)
    : s.isFreeBlockBelow offset n j =
        let c := offset + n
        let bp := c + s.size c - sizeofFreeBot
        let t := s.markTopUsed c
        if j = 2 then
          let t := t.disconnectFromFree c
          match t.offset2ptr offset with
          | none => (t, false)
          | some xp => ((t.write (xp + 4) ((t.size xp + t.size c) % 2 ^ 32)).write bp offset, true)
        else
          match t.offset2ptr offset with
          | none => (t, false)
          | some np =>
            let t := t.write np LSSHM_FREE_AMARKER
            let t := t.write (np + 4) ((n + t.size c) % 2 ^ 32)
            let t := t.write (np + 8) (t.next c)
            let t := t.write (np + 12) (t.prev c)
            let t := t.write bp offset
            let t := if t.next np ≠ 0 then t.writeAt (t.next np) 12 offset else t
            let t := if t.prev np ≠ 0 then t.writeAt (t.prev np) 8 offset else t.setFreePageList offset
            (t, true) := by
  obtain ⟨hoff, hsize, hge, hlow, hhigh⟩ := h.nums hc
  have hfits := h.fits
  have hback := h.back _ hc
  have hbottom := h.bottom _ hc
  have hend : (offset + n + s.size (offset + n)) % 2 ^ 32 = offset + n + s.size (offset + n) :=
    Nat.mod_eq_of_lt (Nat.lt_of_le_of_lt hhigh hfits)
  have hptr : s.offset2ptr (offset + n) = some (offset + n) := h.ptr hc (Nat.le_refl _) (Nat.le_add_right ..)
  have hptr' : s.offset2ptr (offset + n + s.size (offset + n) - sizeofFreeBot) =
      some (offset + n + s.size (offset + n) - sizeofFreeBot) :=
    h.ptr hc (by unfold sizeofFreeBot; omega) (Nat.sub_le ..)
  unfold isFreeBlockBelow
  dsimp only
  rw [if_neg (by omega), hptr]
  dsimp only
  rw [if_pos (h.top _ hc), hend, if_neg (by unfold LSSHM_SHM_UNITSIZE; omega), hptr']
  dsimp only
  rewrite [if_pos ⟨hbottom, hback⟩, if_pos hj]
  rfl

structure Sizes (s s' : PagePool) (xs : List Nat) (o n : Nat) : Prop where
  self : s'.size o = n
  others : ∀ p ∈ xs, p ≠ o → s'.size p = s.size p

theorem FreeList.joinBelow (h : FreeList s xs) (ho : o ∈ xs) (hc : o + s.size o ∈ xs)
    : let c := o + s.size o
      let r := s.isFreeBlockBelow o (s.size o) 2
      FreeList r.1 (xs.erase c) ∧ (∀ x, count (r.1.blocks (xs.erase c)) x = count (s.blocks xs) x) ∧
      ChangesIn s r.1 (s.blocks xs) ∧ Sizes s r.1 (xs.erase c) o (s.size o + s.size c) ∧ Marks s r.1 xs (xs.erase c) := by
  obtain ⟨hoff, hsize, hge, hlow, hhigh⟩ := h.nums ho
  obtain ⟨hcoff, hcsize, hcge, hclow, hchigh⟩ := h.nums hc
  have hfits := h.fits
  have hfound := h.below_found hc (j := 2) (by decide)
  generalize hcc : o + s.size o = c at hc hcoff hcsize hcge hclow hchigh hfound ⊢
  have hgives := h.gives_whole hc
  have hsizes := h.disconnect_sizes hc
  have hptr : ((s.markTopUsed c).disconnectFromFree c).offset2ptr o = some o := by
    apply offset2ptr_eq
    . unfold sizeofShmMapHdr
      omega
    . unfold maxSize at *
      rw [hgives.within.shm]
      omega
  dsimp only at hfound ⊢
  rw [if_pos rfl, hptr] at hfound
  generalize ht : (s.markTopUsed c).disconnectFromFree c = t at hgives hsizes hptr hfound
  have hfree := hgives.free
  have hwithin := hgives.within
  have hto : t.size o = s.size o := hsizes.size o hoff
  have htc : t.size c = s.size c := hsizes.size c hcoff
  have hoc : o ∈ xs.erase c := (h.nodup.mem_erase_iff).mpr ⟨by omega, ho⟩
  have hbot := (hsizes.bottom (c + s.size c) (by unfold LSSHM_SHM_UNITSIZE; omega) (by unfold LSSHM_SHM_UNITSIZE; omega)).2
  rw [h.bottom c hc] at hbot
  dsimp only at hfound
  rw [hto, htc, Nat.mod_eq_of_lt (show s.size o + s.size c < 2 ^ 32 by omega)] at hfound
  rw [hfound]
  dsimp only
  have hmem : ∀ p ∈ xs.erase c, p ∈ xs ∧ p ≠ c := fun p hp =>
    ⟨List.mem_of_mem_erase hp, (h.nodup.mem_erase_iff.mp hp).1⟩
  have hloose : Loose t (xs.erase c) (o + t.size o) (s.size c) := by
    rw [hto, hcc]
    refine ⟨⟨hcoff, hcsize, Nat.lt_of_lt_of_le (by decide) hcge, hclow, ?_⟩, ?_⟩
    . unfold maxSize at *
      rw [hwithin.shm]
      exact hchigh
    . intro p hp
      obtain ⟨hpx, hne⟩ := hmem p hp
      unfold block
      rw [hsizes.size p (h.aligned hpx)]
      exact h.apart p hpx c hc hne
  have hres : Resized t ((t.write (o + 4) (s.size o + s.size c)).write (c + s.size c - sizeofFreeBot) o) (xs.erase c) o
      (t.size o + s.size c) := by
    rw [hto]
    constructor
    . intro p hp
      obtain ⟨hpo, _, _, _, _⟩ := hfree.nums hp
      simp only [next, prev, marker, write, sizeofFreeBot, Function.update_apply]
      refine ⟨?_, ?_, ?_⟩ <;> (split_ifs <;> first | rfl | omega)
    . refine (mem_write_ne (s := t.write (o + 4) (s.size o + s.size c)) ?_ o).trans (mem_write_self ..)
      unfold sizeofFreeBot
      omega
    . rw [← Nat.add_assoc, hcc]
      exact mem_write_self ..
    . rw [← Nat.add_assoc, hcc, ← hbot]
      unfold PagePool.bottom
      rw [mem_write_ne (by omega), mem_write_ne (by unfold sizeofFreeBot; omega)]
    . intro p hp hne
      obtain ⟨hpx, hpc⟩ := hmem p hp
      obtain ⟨hpo, hps, hpge, _, _⟩ := h.nums hpx
      have hap := h.apart_num hpx hc hpc
      rw [hsizes.size p (h.aligned hpx)]
      refine ⟨?_, ?_, ?_⟩
      . refine Eq.trans ?_ (hsizes.size p (h.aligned hpx))
        unfold PagePool.size
        rw [mem_write_ne (by unfold sizeofFreeBot PagePool.size at *; omega), mem_write_ne (by omega)]
      . unfold PagePool.back
        rw [mem_write_ne (by unfold sizeofFreeBot; omega), mem_write_ne (by unfold sizeofFreeBot; omega)]
      . unfold PagePool.bottom
        rw [mem_write_ne (by unfold sizeofFreeBot; omega), mem_write_ne (by unfold sizeofFreeBot; omega)]
    . rfl
    . rfl
    . rfl
  obtain ⟨hgrown, hcount⟩ := hfree.grow hoc hloose hres
  refine ⟨hgrown, ?_, ⟨hwithin.shm, ?_⟩, ⟨hto ▸ hres.size, ?_⟩, ?_⟩
  . intro x
    have hold := hgives.count x
    have hnew := hcount x
    rw [hto, hcc] at hnew
    unfold block at hold
    omega
  . intro a ha
    have hout : ∀ p ∈ xs, ¬ Cover.Within (s.block p) a := fun p hp => ha _ (List.mem_map_of_mem hp)
    have houto := hout o ho
    have houtc := hout c hc
    unfold Cover.Within block at houto houtc
    dsimp only at houto houtc
    refine Eq.trans ?_ (hwithin.mem a ha)
    rw [mem_write_ne (by unfold sizeofFreeBot; omega), mem_write_ne (by omega)]
  . intro p hp hne
    rw [(hres.others p hp hne).1]
    exact hsizes.size p (h.aligned (hmem p hp).1)
  . intro a ha
    have hsum : (s.size o + s.size c) % LSSHM_SHM_UNITSIZE = 0 := by
      unfold LSSHM_SHM_UNITSIZE
      omega
    exact hgives.marks a (update_marker (ne_marker hsum) (update_marker (ne_marker hoff) ha).2).2

def placeBelow (s : PagePool) (offset n : Nat) : PagePool :=
  let c := offset + n
  let s' := (((((s.markTopUsed c).write offset LSSHM_FREE_AMARKER).write (offset + 4) (n + s.size c)).write
    (offset + 8) (s.next c)).write (offset + 12) (s.prev c)).write (c + s.size c - sizeofFreeBot) offset
  let s' := if s.next c = 0 then s' else s'.write (s.next c + 12) offset
  if s.prev c = 0 then s'.setFreePageList offset else s'.write (s.prev c + 8) offset

def moveTo (c offset p : Nat) : Nat :=
  if p = c then offset else p

theorem FreeList.placeBelow_eq (h : FreeList s xs) (hl : Loose s xs offset n) (hc : offset + n ∈ xs)
    : s.isFreeBlockBelow offset n 1 = (s.placeBelow offset n, true) := by
  obtain ⟨hoff, hn, hnge, hlow, hhigh⟩ := hl.nums
  obtain ⟨hcoff, hcsize, hcge, hclow, hchigh⟩ := h.nums hc
  have hfits := h.fits
  have hptr : s.offset2ptr offset = some offset := offset2ptr_eq (by unfold sizeofShmMapHdr; omega) (by omega)
  have hnext := h.next_cases hc
  have hprev := h.prev_cases hc
  have hfound := h.below_found hc (j := 1) (by decide)
  dsimp only at hfound
  rw [if_neg (by decide), show (s.markTopUsed (offset + n)).offset2ptr offset = s.offset2ptr offset from rfl, hptr] at hfound
  dsimp only at hfound
  rw [hfound]
  unfold placeBelow
  dsimp only
  generalize hcc : offset + n = c at *
  have hsize : ((s.markTopUsed c).write offset LSSHM_FREE_AMARKER).size c = s.size c := by
    unfold PagePool.size markTopUsed
    rw [mem_write_ne (by omega), mem_write_ne (by omega)]
  rw [hsize, Nat.mod_eq_of_lt (show n + s.size c < 2 ^ 32 by omega)]
  generalize ht : ((s.markTopUsed c).write offset LSSHM_FREE_AMARKER).write (offset + 4) (n + s.size c) = t
  have htn : t.next c = s.next c := by
    rw [← ht]
    unfold next markTopUsed
    rw [mem_write_ne (by omega), mem_write_ne (by omega), mem_write_ne (by omega)]
  have htp : (t.write (offset + 8) (s.next c)).prev c = s.prev c := by
    rw [← ht]
    unfold prev markTopUsed
    rw [mem_write_ne (by omega), mem_write_ne (by omega), mem_write_ne (by omega), mem_write_ne (by omega)]
  rw [htn, htp]
  generalize hu : ((t.write (offset + 8) (s.next c)).write (offset + 12) (s.prev c)).write
    (c + s.size c - sizeofFreeBot) offset = u
  have hshm : u.m_pShm = s.m_pShm := by
    rw [← hu, ← ht]
    rfl
  have hun : u.next offset = s.next c := by
    rw [← hu]
    unfold next
    rw [mem_write_ne (by unfold sizeofFreeBot; omega), mem_write_ne (by omega)]
    exact mem_write_self ..
  have hup : u.prev offset = s.prev c := by
    rw [← hu]
    unfold prev
    rw [mem_write_ne (by unfold sizeofFreeBot; omega)]
    exact mem_write_self ..
  rw [hun]
  by_cases hnz : s.next c = 0
  . rw [if_neg (not_not.mpr hnz), if_pos hnz, hup]
    by_cases hpz : s.prev c = 0
    . rw [if_neg (not_not.mpr hpz), if_pos hpz]
    . rw [if_pos hpz, if_neg hpz, h.link_ptr hprev hpz u hshm]
  . rw [if_pos hnz, if_neg hnz, h.link_ptr hnext hnz u hshm]
    have hup' : (u.write (s.next c + 12) offset).prev offset = s.prev c := by
      rw [← hup]
      have hne : s.next c ≠ offset := fun he => by
        have := hl.apart_num (hnext.resolve_left hnz)
        have := h.nums (hnext.resolve_left hnz)
        omega
      exact mem_write_ne (by omega) _
    rw [hup']
    by_cases hpz : s.prev c = 0
    . rw [if_neg (not_not.mpr hpz), if_pos hpz]
    . rw [if_pos hpz, if_neg hpz, h.link_ptr hprev hpz]
      exact hshm

theorem placeBelow_mem (s : PagePool) (offset n a : Nat)
    : (s.placeBelow offset n).mem a =
        let c := offset + n
        if s.prev c ≠ 0 ∧ a = s.prev c + 8 then offset
        else if s.next c ≠ 0 ∧ a = s.next c + 12 then offset
        else if a = c + s.size c - sizeofFreeBot then offset
        else if a = offset + 12 then s.prev c
        else if a = offset + 8 then s.next c
        else if a = offset + 4 then n + s.size c
        else if a = offset then LSSHM_FREE_AMARKER
        else if a = c then 0
        else s.mem a := by
  unfold placeBelow markTopUsed setFreePageList write
  dsimp only
  by_cases hn : s.next (offset + n) = 0
  . by_cases hp : s.prev (offset + n) = 0
    . simp [hn, hp, Function.update_apply]
    . simp [hn, hp, Function.update_apply]
  . by_cases hp : s.prev (offset + n) = 0
    . simp [hn, hp, Function.update_apply]
    . simp [hn, hp, Function.update_apply]

theorem placeBelow_same (s : PagePool) (offset n : Nat)
    : (s.placeBelow offset n).m_pShm = s.m_pShm ∧ (s.placeBelow offset n).m_iGpFreeListCnt = s.m_iGpFreeListCnt ∧
      (s.placeBelow offset n).x_iFreePageList =
        if s.prev (offset + n) = 0 then offset else s.x_iFreePageList := by
  unfold placeBelow
  dsimp only
  split
  . split <;> exact ⟨rfl, rfl, rfl⟩
  . split <;> exact ⟨rfl, rfl, rfl⟩

theorem FreeList.place_next (h : FreeList s xs) (hl : Loose s xs offset n) (hc : offset + n ∈ xs) (ho : o ∈ xs)
    : (s.placeBelow offset n).next (moveTo (offset + n) offset o) = moveTo (offset + n) offset (s.next o) := by
  obtain ⟨hoff, hn, hnge, hlow, hhigh⟩ := hl.nums
  obtain ⟨hcoff, hcsize, hcge, hclow, hchigh⟩ := h.nums hc
  have hmem := s.placeBelow_mem offset n
  have hna := h.aligned_zero (h.next_cases hc)
  have hpa := h.aligned_zero (h.prev_cases hc)
  obtain ⟨tail, hlist⟩ := h.list
  have hnotin : offset ∉ xs := fun hin => by
    have := hl.apart_num hin
    have := h.nums hin
    omega
  unfold LSSHM_SHM_UNITSIZE at hna hpa
  unfold sizeofFreeBot at hmem
  dsimp only at hmem
  unfold moveTo
  by_cases hoc : o = offset + n
  . have hself : s.next (offset + n) ≠ offset + n := by
      by_cases hz : s.next (offset + n) = 0
      . omega
      . exact (hlist.next_mem hc hz).2
    have hprev : s.prev (offset + n) ≠ 0 → s.prev (offset + n) ≠ offset := fun hne he =>
      hnotin (he ▸ (h.prev_cases hc).resolve_left hne)
    rw [if_pos hoc, hoc, if_neg hself]
    show (s.placeBelow offset n).mem (offset + 8) = _
    rw [hmem, if_neg (by omega), if_neg (by omega), if_neg (by omega), if_neg (by omega), if_pos rfl]
  . rw [if_neg hoc]
    show (s.placeBelow offset n).mem (o + 8) = _
    obtain ⟨hoa, _⟩ := h.nums ho
    have hone : o ≠ offset := fun he => hnotin (he ▸ ho)
    by_cases hback : s.next o = offset + n
    . have hprev : s.prev (offset + n) = o := by
        rw [← hback]
        exact hlist.prev_next ho (by rw [hback]; omega)
      have hne := hlist.ne_nil ho
      rw [if_pos hback, hmem, if_pos (by omega)]
    . have hprev : s.prev (offset + n) ≠ 0 → s.prev (offset + n) ≠ o := fun hne he =>
        hback (he ▸ hlist.next_prev hc hne)
      rw [if_neg hback, hmem, if_neg (by omega), if_neg (by omega), if_neg (by omega), if_neg (by omega),
        if_neg (by omega), if_neg (by omega), if_neg (by omega), if_neg (by omega)]
      rfl

theorem FreeList.place_prev (h : FreeList s xs) (hl : Loose s xs offset n) (hc : offset + n ∈ xs) (ho : o ∈ xs)
    : (s.placeBelow offset n).prev (moveTo (offset + n) offset o) = moveTo (offset + n) offset (s.prev o) := by
  obtain ⟨hoff, hn, hnge, hlow, hhigh⟩ := hl.nums
  obtain ⟨hcoff, hcsize, hcge, hclow, hchigh⟩ := h.nums hc
  have hmem := s.placeBelow_mem offset n
  have hna := h.aligned_zero (h.next_cases hc)
  have hpa := h.aligned_zero (h.prev_cases hc)
  obtain ⟨tail, hlist⟩ := h.list
  have hnotin : offset ∉ xs := fun hin => by
    have := hl.apart_num hin
    have := h.nums hin
    omega
  unfold LSSHM_SHM_UNITSIZE at hna hpa
  unfold sizeofFreeBot at hmem
  dsimp only at hmem
  unfold moveTo
  by_cases hoc : o = offset + n
  . have hself : s.prev (offset + n) ≠ offset + n := by
      by_cases hz : s.prev (offset + n) = 0
      . omega
      . exact (hlist.reverse.next_mem (List.mem_reverse.mpr hc) hz).2
    have hnext : s.next (offset + n) ≠ 0 → s.next (offset + n) ≠ offset := fun hne he =>
      hnotin (he ▸ (h.next_cases hc).resolve_left hne)
    rw [if_pos hoc, hoc, if_neg hself]
    show (s.placeBelow offset n).mem (offset + 12) = _
    rw [hmem, if_neg (by omega), if_neg (by omega), if_neg (by omega), if_pos rfl]
  . rw [if_neg hoc]
    show (s.placeBelow offset n).mem (o + 12) = _
    obtain ⟨hoa, _⟩ := h.nums ho
    have hone : o ≠ offset := fun he => hnotin (he ▸ ho)
    by_cases hback : s.prev o = offset + n
    . have hnext : s.next (offset + n) = o := by
        rw [← hback]
        exact hlist.next_prev ho (by rw [hback]; omega)
      have hne := hlist.ne_nil ho
      rw [if_pos hback, hmem, if_neg (by omega), if_pos (by omega)]
    . have hnext : s.next (offset + n) ≠ 0 → s.next (offset + n) ≠ o := fun hne he =>
        hback (he ▸ hlist.prev_next hc hne)
      rw [if_neg hback, hmem, if_neg (by omega), if_neg (by omega), if_neg (by omega), if_neg (by omega),
        if_neg (by omega), if_neg (by omega), if_neg (by omega), if_neg (by omega)]
      rfl

theorem FreeList.place (h : FreeList s xs) (hl : Loose s xs offset n) (hc : offset + n ∈ xs)
    : let s' := s.placeBelow offset n
      let xs' := xs.map (moveTo (offset + n) offset)
      FreeList s' xs' ∧ (∀ x, count (s'.blocks xs') x = count (s.blocks xs) x + count [(offset, n)] x) ∧
      ChangesIn s s' ((offset, n) :: s.blocks xs) ∧ Sizes s s' xs' offset (n + s.size (offset + n)) ∧ Marks s s' xs xs' := by
  intro s' xs'
  obtain ⟨hoff, hn, hnge, hlow, hhigh⟩ := hl.nums
  obtain ⟨hcoff, hcsize, hcge, hclow, hchigh⟩ := h.nums hc
  have hfits := h.fits
  have hnext := h.next_cases hc
  have hprev := h.prev_cases hc
  have hna := h.aligned_zero hnext
  have hpa := h.aligned_zero hprev
  have hmem := s.placeBelow_mem offset n
  obtain ⟨hshm, hcnt, hhead⟩ := s.placeBelow_same offset n
  dsimp only at hmem
  have hnotin : offset ∉ xs := fun hin => by
    have := hl.apart_num hin
    have := h.nums hin
    omega
  have hothers : ∀ p ∈ xs, p ≠ offset + n → p + s.size p ≤ offset ∨ offset + n + s.size (offset + n) ≤ p := by
    intro p hp hne
    have hap := hl.apart_num hp
    have hap' := h.apart_num hp hc hne
    have hnum := h.nums hp
    omega
  unfold LSSHM_SHM_UNITSIZE at hna hpa
  have hself : s'.size offset = n + s.size (offset + n) := by
    show s'.mem (offset + 4) = _
    rw [hmem, if_neg (by omega), if_neg (by omega), if_neg (by unfold sizeofFreeBot; omega), if_neg (by omega),
      if_neg (by omega), if_pos rfl]
  have hsize : ∀ p ∈ xs, p ≠ offset + n → s'.size p = s.size p := by
    intro p hp hne
    obtain ⟨hpo, _⟩ := h.nums hp
    have hpne : p ≠ offset := fun he => hnotin (he ▸ hp)
    show s'.mem (p + 4) = s.mem (p + 4)
    rw [hmem, if_neg (by omega), if_neg (by omega), if_neg (by unfold sizeofFreeBot; omega), if_neg (by omega),
      if_neg (by omega), if_neg (by omega), if_neg (by omega), if_neg (by omega)]
  have hbotself : s'.back (offset + s'.size offset - sizeofFreeBot) = offset ∧
      s'.bottom (offset + s'.size offset - sizeofFreeBot) = LSSHM_FREE_BMARKER := by
    rw [hself, ← Nat.add_assoc]
    constructor
    . show s'.mem _ = _
      rw [hmem, if_neg (by unfold sizeofFreeBot; omega), if_neg (by unfold sizeofFreeBot; omega), if_pos rfl]
    . rw [← h.bottom _ hc]
      show s'.mem _ = s.mem _
      unfold sizeofFreeBot at hmem ⊢
      rw [hmem, if_neg (by omega), if_neg (by omega), if_neg (by omega), if_neg (by omega),
        if_neg (by omega), if_neg (by omega), if_neg (by omega), if_neg (by omega)]
  have hbot : ∀ p ∈ xs, p ≠ offset + n → s'.back (p + s.size p - sizeofFreeBot) = p ∧
      s'.bottom (p + s.size p - sizeofFreeBot) = LSSHM_FREE_BMARKER := by
    intro p hp hne
    obtain ⟨hpo, hps, hpge, _⟩ := h.nums hp
    have hap := hothers p hp hne
    constructor
    . rw [← h.back p hp]
      show s'.mem _ = s.mem _
      rw [h.back p hp]
      unfold sizeofFreeBot at hmem ⊢
      rw [hmem, if_neg (by omega), if_neg (by omega), if_neg (by omega), if_neg (by omega),
        if_neg (by omega), if_neg (by omega), if_neg (by omega), if_neg (by omega)]
    . rw [← h.bottom p hp]
      show s'.mem _ = s.mem _
      unfold sizeofFreeBot at hmem ⊢
      rw [hmem, if_neg (by omega), if_neg (by omega), if_neg (by omega), if_neg (by omega),
        if_neg (by omega), if_neg (by omega), if_neg (by omega), if_neg (by omega)]
  have htop : s'.marker offset = LSSHM_FREE_AMARKER := by
    show s'.mem offset = _
    rw [hmem, if_neg (by omega), if_neg (by omega), if_neg (by unfold sizeofFreeBot; omega), if_neg (by omega),
      if_neg (by omega), if_neg (by omega), if_pos rfl]
  have htops : ∀ p ∈ xs, p ≠ offset + n → s'.marker p = LSSHM_FREE_AMARKER := by
    intro p hp hne
    obtain ⟨hpo, _⟩ := h.nums hp
    have hpne : p ≠ offset := fun he => hnotin (he ▸ hp)
    rw [← h.top p hp]
    show s'.mem p = s.mem p
    rw [hmem, if_neg (by omega), if_neg (by omega), if_neg (by unfold sizeofFreeBot; omega), if_neg (by omega),
      if_neg (by omega), if_neg (by omega), if_neg hpne, if_neg hne]
  have hmax : s'.maxSize = s.maxSize := by
    unfold maxSize
    rw [hshm]
  have hmove : ∀ q ∈ xs', (q = offset) ∨ (q ∈ xs ∧ q ≠ offset + n) := by
    intro q hq
    obtain ⟨p, hp, rfl⟩ := List.mem_map.mp hq
    unfold moveTo
    split
    . exact .inl rfl
    . next hne => exact .inr ⟨hp, hne⟩
  refine ⟨⟨?_, ?_, ?_, ?_, ?_, ?_, ?_, ?_⟩, ?_, ⟨hshm, ?_⟩, ⟨hself, ?_⟩, ?_⟩
  . obtain ⟨tail, hlist⟩ := h.list
    have hne0 : offset + n ≠ 0 := by omega
    have hhead' : s'.x_iFreePageList = moveTo (offset + n) offset s.x_iFreePageList := by
      rw [hhead]
      unfold moveTo
      simp only [hlist.prev_eq_nil_iff hc]
    rw [hhead']
    refine ⟨_, hlist.map (f := moveTo (offset + n) offset) ?_ ?_ ?_ ?_⟩
    . unfold moveTo
      rw [if_neg (Ne.symm hne0)]
    . intro p hp
      unfold moveTo
      split
      . omega
      . exact hlist.ne_nil hp
    . exact fun p hp => h.place_next hl hc hp
    . exact fun p hp => h.place_prev hl hc hp
  . intro q hq
    rcases hmove q hq with rfl | ⟨hp, hne⟩
    . exact htop
    . exact htops q hp hne
  . intro q hq
    rcases hmove q hq with rfl | ⟨hp, hne⟩
    . exact hbotself.1
    . rw [hsize q hp hne]
      exact (hbot q hp hne).1
  . intro q hq
    rcases hmove q hq with rfl | ⟨hp, hne⟩
    . exact hbotself.2
    . rw [hsize q hp hne]
      exact (hbot q hp hne).2
  . intro q hq
    rcases hmove q hq with rfl | ⟨hp, hne⟩
    . unfold block
      rw [hself]
      refine ⟨hoff, ?_, ?_, hlow, ?_⟩
      . unfold LSSHM_SHM_UNITSIZE
        dsimp only
        omega
      . dsimp only
        omega
      . rw [hmax]
        dsimp only
        omega
    . have hu := h.units q hp
      unfold block at hu ⊢
      rw [hsize q hp hne]
      exact hu.mono (Nat.le_of_eq hmax.symm)
  . intro p hp q hq hne
    unfold Apart block
    dsimp only
    rcases hmove p hp with rfl | ⟨hpx, hpc⟩
    . rcases hmove q hq with rfl | ⟨hqx, hqc⟩
      . exact absurd rfl hne
      . rw [hself, hsize q hqx hqc]
        have := hothers q hqx hqc
        omega
    . rw [hsize p hpx hpc]
      rcases hmove q hq with rfl | ⟨hqx, hqc⟩
      . rw [hself]
        have := hothers p hpx hpc
        omega
      . rw [hsize q hqx hqc]
        exact h.apart_num hpx hqx hne
  . rw [hcnt, h.cnt, List.length_map]
  . rw [hmax]
    exact hfits
  . intro x
    have hmap : xs'.map s'.block = xs.map fun p => s'.block (moveTo (offset + n) offset p) := by
      rw [List.map_map]
      rfl
    have heq := count_map_eq h.nodup hc (f := s.block) (g := fun p => s'.block (moveTo (offset + n) offset p))
      (fun p hp hne => by
        unfold moveTo block
        rw [if_neg hne, hsize p hp hne]) x
    have hsplit := count_split offset n (s.size (offset + n)) x
    unfold blocks
    rw [hmap]
    unfold moveTo block at heq ⊢
    rw [if_pos rfl, hself] at heq
    omega
  . intro a ha
    have hout : ∀ p ∈ xs, ¬ Cover.Within (s.block p) a := fun p hp =>
      ha _ (List.mem_cons_of_mem _ (List.mem_map_of_mem hp))
    have houtc := hout _ hc
    have houto := ha _ List.mem_cons_self
    have houtn : s.next (offset + n) ≠ 0 → ¬ Cover.Within (s.block (s.next (offset + n))) a :=
      fun hne => hout _ (hnext.resolve_left hne)
    have houtp : s.prev (offset + n) ≠ 0 → ¬ Cover.Within (s.block (s.prev (offset + n))) a :=
      fun hne => hout _ (hprev.resolve_left hne)
    have hnn : s.next (offset + n) ≠ 0 → 1024 ≤ s.size (s.next (offset + n)) :=
      fun hne => (h.nums (hnext.resolve_left hne)).2.2.1
    have hpn : s.prev (offset + n) ≠ 0 → 1024 ≤ s.size (s.prev (offset + n)) :=
      fun hne => (h.nums (hprev.resolve_left hne)).2.2.1
    unfold Cover.Within at houto
    unfold Cover.Within block at houtc houtn houtp
    dsimp only at houtc houto houtn houtp
    unfold sizeofFreeBot at hmem
    rw [hmem, if_neg (by omega), if_neg (by omega), if_neg (by omega), if_neg (by omega),
      if_neg (by omega), if_neg (by omega), if_neg (by omega), if_neg (by omega)]
  . intro q hq hne
    rcases hmove q hq with rfl | ⟨hp, hpc⟩
    . exact absurd rfl hne
    . exact hsize q hp hpc
  . intro a ha
    have hoffm := ne_marker hoff
    have hsum : n + s.size (offset + n) ≠ LSSHM_FREE_AMARKER := ne_marker (by unfold LSSHM_SHM_UNITSIZE; omega)
    have hzero : (0 : Nat) ≠ LSSHM_FREE_AMARKER := ne_marker rfl
    unfold marker at ha
    rw [hmem] at ha
    split_ifs at ha with _ _ _ _ _ _ hao hac
    . exact absurd ha hoffm
    . exact absurd ha hoffm
    . exact absurd ha hoffm
    . exact absurd ha (ne_marker hpa)
    . exact absurd ha (ne_marker hna)
    . exact absurd ha hsum
    . exact .inl (List.mem_map.mpr ⟨offset + n, hc, by rw [hao]; exact if_pos rfl⟩)
    . exact absurd ha hzero
    . by_cases hin : a ∈ xs
      . exact .inl (List.mem_map.mpr ⟨a, hin, if_neg hac⟩)
      . exact .inr ⟨hin, ha⟩

end Below

section Push

theorem FreeList.join_eq (h : FreeList s xs) (hl : Loose s xs offset n)
    : s.joinFreeList offset n =
        let m := Function.update (Function.update (Function.update (Function.update s.mem offset LSSHM_FREE_AMARKER)
          (offset + 4) n) (offset + 8) s.x_iFreePageList) (offset + 12) 0
        let m := if s.x_iFreePageList = 0 then m else Function.update m (s.x_iFreePageList + 12) offset
        { m_pShm := s.m_pShm
          mem := Function.update (Function.update m (offset + n - sizeofFreeBot) offset)
            (offset + n - sizeofFreeBot + 4) LSSHM_FREE_BMARKER
          x_iFreePageList := offset
          m_iGpFreeListCnt := s.m_iGpFreeListCnt + 1 } := by
  obtain ⟨hoff, hn, hnge, hlow, hhigh⟩ := hl.nums
  have hptr : ∀ off, 32 ≤ off → off ≤ s.maxSize → s.offset2ptr off = some off := fun _ hlo hhi => offset2ptr_eq hlo hhi
  have hlast : s.x_iFreePageList = 0 ∨ s.x_iFreePageList ∈ xs := by
    obtain ⟨tail, hlist⟩ := h.list
    by_cases hz : s.x_iFreePageList = 0
    . exact .inl hz
    . exact .inr (hlist.last_mem hz)
  unfold joinFreeList
  rw [hptr offset (by omega) (by omega)]
  dsimp only
  generalize hu : ((((s.write offset LSSHM_FREE_AMARKER).write (offset + 4) n).write (offset + 8)
    ((s.write offset LSSHM_FREE_AMARKER).write (offset + 4) n).x_iFreePageList).write (offset + 12) 0).setFreePageList
      offset = u
  have hun : u.next offset = s.x_iFreePageList := by
    rw [← hu]
    refine (mem_write_ne (by omega) 0).trans ?_
    exact mem_write_self ..
  have hshm : u.m_pShm = s.m_pShm := by
    rw [← hu]
    rfl
  have hbot : u.offset2ptr (offset + n - sizeofFreeBot) = some (offset + n - sizeofFreeBot) := by
    rw [← hu]
    exact hptr _ (by unfold sizeofFreeBot; omega) (by unfold sizeofFreeBot; omega)
  rw [hun]
  by_cases hz : s.x_iFreePageList = 0
  . rw [if_neg (not_not.mpr hz), if_pos hz, hbot, ← hu]
    rfl
  . rw [if_pos hz, if_neg hz, h.link_ptr hlast hz u hshm, offset2ptr_write, hbot, ← hu]
    rfl

theorem FreeList.join_mem (h : FreeList s xs) (hl : Loose s xs offset n) (a : Nat)
    : (s.joinFreeList offset n).mem a =
        if a = offset + n - sizeofFreeBot + 4 then LSSHM_FREE_BMARKER
        else if a = offset + n - sizeofFreeBot then offset
        else if s.x_iFreePageList ≠ 0 ∧ a = s.x_iFreePageList + 12 then offset
        else if a = offset + 12 then 0
        else if a = offset + 8 then s.x_iFreePageList
        else if a = offset + 4 then n
        else if a = offset then LSSHM_FREE_AMARKER
        else s.mem a := by
  rw [h.join_eq hl]
  dsimp only
  by_cases hz : s.x_iFreePageList = 0
  . simp [hz, Function.update_apply]
  . simp [hz, Function.update_apply]

theorem FreeList.joinFree (h : FreeList s xs) (hl : Loose s xs offset n)
    : let s' := s.joinFreeList offset n
      FreeList s' (offset :: xs) ∧
      (∀ x, count (s'.blocks (offset :: xs)) x = count (s.blocks xs) x + count [(offset, n)] x) ∧
      ChangesIn s s' ((offset, n) :: s.blocks xs) ∧ Sizes s s' (offset :: xs) offset n ∧ Marks s s' xs (offset :: xs) := by
  intro s'
  obtain ⟨hoff, hn, hnge, hlow, hhigh⟩ := hl.nums
  have hfits := h.fits
  have hmem := h.join_mem hl
  obtain ⟨tail, hlist⟩ := h.list
  have hlast : s.x_iFreePageList = 0 ∨ s.x_iFreePageList ∈ xs := by
    by_cases hz : s.x_iFreePageList = 0
    . exact .inl hz
    . exact .inr (hlist.last_mem hz)
  have hla := h.aligned_zero hlast
  have hlnum : s.x_iFreePageList ≠ 0 → 1024 ≤ s.size s.x_iFreePageList := fun hne =>
    (h.nums (hlast.resolve_left hne)).2.2.1
  have hnotin : offset ∉ xs := fun hin => by
    have := hl.apart_num hin
    have := h.nums hin
    omega
  unfold LSSHM_SHM_UNITSIZE at hla
  unfold sizeofFreeBot at hmem
  have hself : s'.size offset = n := by
    show s'.mem (offset + 4) = _
    rw [hmem, if_neg (by omega), if_neg (by omega), if_neg (by omega), if_neg (by omega), if_neg (by omega),
      if_pos rfl]
  have hsize : ∀ p ∈ xs, s'.size p = s.size p := by
    intro p hp
    obtain ⟨hpo, _⟩ := h.nums hp
    have hpne : p ≠ offset := fun he => hnotin (he ▸ hp)
    show s'.mem (p + 4) = s.mem (p + 4)
    rw [hmem, if_neg (by omega), if_neg (by omega), if_neg (by omega), if_neg (by omega), if_neg (by omega),
      if_neg (by omega), if_neg (by omega)]
  have hmax : s'.maxSize = s.maxSize := by
    show (s.joinFreeList offset n).m_pShm.m_iFileSize = _
    rw [h.join_eq hl]
    rfl
  refine ⟨⟨?_, ?_, ?_, ?_, ?_, ?_, ?_, ?_⟩, ?_, ⟨?_, ?_⟩, ⟨hself, ?_⟩, ?_⟩
  . have hhead : s'.x_iFreePageList = offset := by
      show (s.joinFreeList offset n).x_iFreePageList = _
      rw [h.join_eq hl]
    rw [hhead]
    refine ⟨_, (hlist.push hnotin (by omega)).congr ?_ ?_⟩
    . intro p hp
      show s'.mem (p + 8) = _
      rcases List.mem_cons.mp hp with hpo | hpx
      . rw [hpo, Function.update_self, hmem, if_neg (by omega), if_neg (by omega), if_neg (by omega),
          if_neg (by omega), if_pos rfl]
      . obtain ⟨hpa, _⟩ := h.nums hpx
        have hpne : p ≠ offset := fun he => hnotin (he ▸ hpx)
        rw [Function.update_of_ne hpne, hmem, if_neg (by omega), if_neg (by omega), if_neg (by omega),
          if_neg (by omega), if_neg (by omega), if_neg (by omega), if_neg (by omega)]
        rfl
    . intro p hp
      show s'.mem (p + 12) = _
      have hlne : s.x_iFreePageList ≠ 0 → s.x_iFreePageList ≠ offset := fun hne he =>
        hnotin (he ▸ hlast.resolve_left hne)
      rcases List.mem_cons.mp hp with hpo | hpx
      . rw [hpo, Function.update_self, hmem, if_neg (by omega), if_neg (by omega), if_neg (by omega), if_pos rfl]
      . obtain ⟨hpa, _⟩ := h.nums hpx
        have hpne : p ≠ offset := fun he => hnotin (he ▸ hpx)
        rw [Function.update_of_ne hpne, hmem, if_neg (by omega), if_neg (by omega)]
        by_cases hz : s.x_iFreePageList = 0
        . rw [if_pos hz, if_neg (by omega), if_neg (by omega), if_neg (by omega), if_neg (by omega), if_neg (by omega)]
          rfl
        . rw [if_neg hz]
          by_cases hpl : p = s.x_iFreePageList
          . rw [if_pos ⟨hz, by omega⟩, hpl, Function.update_self]
          . rw [Function.update_of_ne hpl, if_neg (by omega), if_neg (by omega), if_neg (by omega), if_neg (by omega),
              if_neg (by omega)]
            rfl
  . intro p hp
    show s'.mem p = _
    rcases List.mem_cons.mp hp with hpo | hpx
    . rw [hpo, hmem, if_neg (by omega), if_neg (by omega), if_neg (by omega), if_neg (by omega), if_neg (by omega),
        if_neg (by omega), if_pos rfl]
    . obtain ⟨hpa, _⟩ := h.nums hpx
      have hpne : p ≠ offset := fun he => hnotin (he ▸ hpx)
      rw [← h.top p hpx, hmem, if_neg (by omega), if_neg (by omega), if_neg (by omega), if_neg (by omega),
        if_neg (by omega), if_neg (by omega), if_neg (by omega)]
      rfl
  . intro p hp
    show s'.mem (p + s'.size p - 8) = p
    rcases List.mem_cons.mp hp with hpo | hpx
    . rw [hpo, hself, hmem, if_neg (by omega), if_pos rfl]
    . obtain ⟨hpa, hps, hpge, _⟩ := h.nums hpx
      have hap := hl.apart_num hpx
      have hback := h.back p hpx
      unfold PagePool.back sizeofFreeBot at hback
      rw [hsize p hpx, hmem, if_neg (by omega), if_neg (by omega), if_neg (by omega), if_neg (by omega),
        if_neg (by omega), if_neg (by omega), if_neg (by omega), hback]
  . intro p hp
    show s'.mem (p + s'.size p - 8 + 4) = _
    rcases List.mem_cons.mp hp with hpo | hpx
    . rw [hpo, hself, hmem, if_pos rfl]
    . obtain ⟨hpa, hps, hpge, _⟩ := h.nums hpx
      have hap := hl.apart_num hpx
      have hbottom := h.bottom p hpx
      unfold PagePool.bottom sizeofFreeBot at hbottom
      rw [hsize p hpx, hmem, if_neg (by omega), if_neg (by omega), if_neg (by omega), if_neg (by omega),
        if_neg (by omega), if_neg (by omega), if_neg (by omega), hbottom]
  . intro p hp
    rcases List.mem_cons.mp hp with rfl | hp
    . unfold block
      rw [hself]
      exact hl.units.mono (Nat.le_of_eq hmax.symm)
    . have hu := h.units p hp
      unfold block at hu ⊢
      rw [hsize p hp]
      exact hu.mono (Nat.le_of_eq hmax.symm)
  . intro p hp q hq hne
    unfold Apart block
    dsimp only
    rcases List.mem_cons.mp hp with hpo | hpx
    . rcases List.mem_cons.mp hq with hqo | hqx
      . exact absurd (hpo.trans hqo.symm) hne
      . rw [hpo, hself, hsize q hqx]
        exact (hl.apart_num hqx).symm
    . rw [hsize p hpx]
      rcases List.mem_cons.mp hq with hqo | hqx
      . rw [hqo, hself]
        exact hl.apart_num hpx
      . rw [hsize q hqx]
        exact h.apart_num hpx hqx hne
  . show (s.joinFreeList offset n).m_iGpFreeListCnt = _
    rw [h.join_eq hl, List.length_cons, ← h.cnt]
  . rw [hmax]
    exact hfits
  . intro x
    have hmap : xs.map s'.block = xs.map s.block := by
      apply List.map_congr_left
      intro p hp
      unfold block
      rw [hsize p hp]
    unfold blocks
    rw [List.map_cons, count_cons, hmap]
    unfold block
    rw [hself]
    omega
  . show (s.joinFreeList offset n).m_pShm = _
    rw [h.join_eq hl]
  . intro a ha
    have houto := ha _ List.mem_cons_self
    have houtl : s.x_iFreePageList ≠ 0 → ¬ Cover.Within (s.block s.x_iFreePageList) a := fun hne =>
      ha _ (List.mem_cons_of_mem _ (List.mem_map_of_mem (hlast.resolve_left hne)))
    unfold Cover.Within at houto
    unfold Cover.Within block at houtl
    dsimp only at houto houtl
    rw [hmem, if_neg (by omega), if_neg (by omega), if_neg (by omega), if_neg (by omega), if_neg (by omega),
      if_neg (by omega), if_neg (by omega)]
  . intro p hp hne
    exact hsize p ((List.mem_cons.mp hp).resolve_left hne)
  . intro a ha
    have hoffm := ne_marker hoff
    have hbmark : LSSHM_FREE_BMARKER ≠ LSSHM_FREE_AMARKER := by decide
    have hzero : (0 : Nat) ≠ LSSHM_FREE_AMARKER := ne_marker rfl
    unfold marker at ha
    rw [hmem] at ha
    split_ifs at ha with _ _ _ _ _ _ hao
    . exact absurd ha hbmark
    . exact absurd ha hoffm
    . exact absurd ha hoffm
    . exact absurd ha hzero
    . exact absurd ha (ne_marker hla)
    . exact absurd ha (ne_marker hn)
    . exact .inl (hao ▸ List.mem_cons_self)
    . by_cases hin : a ∈ xs
      . exact .inl (List.mem_cons_of_mem _ hin)
      . exact .inr ⟨hin, ha⟩

end Push

section Release

structure Takes (s s' : PagePool) (xs xs' : List Nat) (offset n : Nat) : Prop where
  free : FreeList s' xs'
  count : ∀ x, count (s'.blocks xs') x = count (s.blocks xs) x + count [(offset, n)] x
  within : ChangesIn s s' ((offset, n) :: s.blocks xs)
  joined : s.Joined xs → s'.Joined xs'
  marks : Marks s s' xs xs'

theorem roundPageSize_eq (hn : n % LSSHM_SHM_UNITSIZE = 0) : roundPageSize n = n := by
  unfold roundPageSize LSSHM_SHM_UNITSIZE at *
  omega

theorem FreeList.takes_above (h : FreeList s xs) (hl : Loose s xs (o + s.size o) n) (ho : o ∈ xs)
    (hnone : o + s.size o + n ∉ xs) : Takes s (s.growAbove o (o + s.size o) n) xs xs (o + s.size o) n := by
  have hres := h.resized_growAbove ho hl
  obtain ⟨hfree, hcount⟩ := h.grow ho hl hres
  obtain ⟨hoff, hsize, hge, _, _⟩ := h.nums ho
  obtain ⟨_, hn, hnge, _, _⟩ := hl.nums
  refine ⟨hfree, hcount, ⟨hres.shm, ?_⟩, ?_, ?_⟩
  . intro a ha
    have houtn := ha _ List.mem_cons_self
    have houto := ha _ (List.mem_cons_of_mem _ (List.mem_map_of_mem ho))
    unfold Cover.Within at houtn
    unfold Cover.Within block at houto
    dsimp only at houtn houto
    unfold growAbove markTopUsed sizeofFreeBot
    rw [mem_write_ne (by omega), mem_write_ne (by omega), mem_write_ne (by omega), mem_write_ne (by omega)]
  . intro hjoined p hp
    by_cases hpo : p = o
    . rw [hpo, hres.size, ← Nat.add_assoc]
      exact hnone
    . rw [(hres.others p hp hpo).1]
      exact hjoined p hp
  . exact .of_mem fun a ha => growAbove_marker hoff (by unfold LSSHM_SHM_UNITSIZE; omega) ha

theorem FreeList.takes_both (h : FreeList s xs) (hl : Loose s xs (o + s.size o) n) (ho : o ∈ xs)
    (hc : o + s.size o + n ∈ xs)
    : let g := s.growAbove o (o + s.size o) n
      Takes s (g.isFreeBlockBelow o (g.size o) 2).1 xs (xs.erase (o + s.size o + n)) (o + s.size o) n := by
  intro g
  have hres : Resized s g xs o (s.size o + n) := h.resized_growAbove ho hl
  obtain ⟨hfree, hcount⟩ := h.grow ho hl hres
  obtain ⟨hoff, hsize, hge, _, _⟩ := h.nums ho
  obtain ⟨_, hn, hnge, _, _⟩ := hl.nums
  have hgo : g.size o = s.size o + n := hres.size
  have hoc : o + s.size o + n ≠ o := by omega
  have hgc : g.size (o + s.size o + n) = s.size (o + s.size o + n) := (hres.others _ hc hoc).1
  have hend : o + g.size o = o + s.size o + n := by rw [hgo, Nat.add_assoc]
  obtain ⟨hfree', hcount', hwithin', hsizes, hmarks⟩ := hfree.joinBelow ho (hend ▸ hc)
  rw [hend] at hfree' hcount' hsizes hmarks
  have hmem : ∀ p ∈ xs.erase (o + s.size o + n), p ∈ xs ∧ p ≠ o + s.size o + n := fun p hp =>
    ⟨List.mem_of_mem_erase hp, (h.nodup.mem_erase_iff.mp hp).1⟩
  refine ⟨hfree', fun x => (hcount' x).trans (hcount x), ⟨hwithin'.shm.trans hres.shm, ?_⟩, ?_, ?_⟩
  . intro a ha
    have houtn := ha _ List.mem_cons_self
    have hout : ∀ p ∈ xs, ¬ Cover.Within (s.block p) a := fun p hp =>
      ha _ (List.mem_cons_of_mem _ (List.mem_map_of_mem hp))
    have hgrown : ∀ b ∈ g.blocks xs, ¬ Cover.Within b a := by
      intro b hb
      obtain ⟨p, hp, rfl⟩ := List.mem_map.mp hb
      have houtp := hout p hp
      unfold Cover.Within at houtn
      unfold Cover.Within block at houtp ⊢
      by_cases hpo : p = o
      . rw [hpo] at houtp ⊢
        rw [hgo]
        dsimp only at *
        omega
      . rw [(hres.others p hp hpo).1]
        exact houtp
    have houto := hout o ho
    unfold Cover.Within at houtn
    unfold Cover.Within block at houto
    dsimp only at houtn houto
    refine (hwithin'.mem a hgrown).trans ?_
    show (s.growAbove o (o + s.size o) n).mem a = _
    unfold growAbove markTopUsed sizeofFreeBot
    rw [mem_write_ne (by omega), mem_write_ne (by omega), mem_write_ne (by omega), mem_write_ne (by omega)]
  . intro hjoined p hp hin
    obtain ⟨hpx, hpc⟩ := hmem p hp
    have hin' := (hmem _ hin).1
    by_cases hpo : p = o
    . rw [hpo, hsizes.self, ← Nat.add_assoc, hend, hgc] at hin'
      exact hjoined _ hc hin'
    . rw [hsizes.others p hp hpo, (hres.others p hpx hpo).1] at hin'
      exact hjoined p hpx hin'
  . intro a ha
    refine (hmarks a ha).imp_right fun ⟨hin, hold⟩ => ⟨hin, ?_⟩
    exact growAbove_marker hoff (by unfold LSSHM_SHM_UNITSIZE; omega) hold

theorem FreeList.release (h : FreeList s xs) (hl : Loose s xs offset n) (hA : s.HonestAbove offset)
    (hB : s.HonestBelow (offset + n)) : ∃ xs', Takes s (s.releasePageLocked offset n) xs xs' offset n := by
  obtain ⟨hoff, hn, hnge, hlow, hhigh⟩ := hl.nums
  have hround : roundPageSize n = n := roundPageSize_eq hn
  unfold releasePageLocked
  dsimp only
  rw [hround]
  by_cases habove : ∃ p ∈ xs, p + s.size p = offset
  . obtain ⟨p, hp, rfl⟩ := habove
    obtain ⟨hpoff, hpsize, hpge, hplow, hphigh⟩ := h.nums hp
    have hres := h.resized_growAbove hp hl
    have hfree := (h.grow hp hl hres).1
    rw [h.above_found hl hp rfl, if_pos rfl]
    dsimp only
    have hptr : (s.growAbove p (p + s.size p) n).offset2ptr (p + s.size p + n - sizeofFreeBot) =
        some (p + s.size p + n - sizeofFreeBot) :=
      offset2ptr_eq (s := s) (by unfold sizeofShmMapHdr sizeofFreeBot; omega) (by unfold sizeofFreeBot; omega)
    have hback := hres.back
    rw [← Nat.add_assoc] at hback
    rw [hptr]
    dsimp only
    rw [hback, hfree.ptr hp (Nat.le_refl p) (Nat.le_add_right ..)]
    by_cases hc : p + s.size p + n ∈ xs
    . exact ⟨_, h.takes_both hl hp hc⟩
    . have hend : p + (s.growAbove p (p + s.size p) n).size p = p + s.size p + n := by rw [hres.size, Nat.add_assoc]
      have hmark : (s.growAbove p (p + s.size p) n).marker (p + s.size p + n) = s.marker (p + s.size p + n) := by
        unfold growAbove markTopUsed marker sizeofFreeBot
        rw [mem_write_ne (by omega), mem_write_ne (by omega), mem_write_ne (by omega), mem_write_ne (by omega)]
      have hhon : (s.growAbove p (p + s.size p) n).HonestBelow (p + (s.growAbove p (p + s.size p) n).size p) := by
        unfold HonestBelow at hB ⊢
        rw [hend, hmark, hfree.freeStarts_eq]
        rwa [h.freeStarts_eq] at hB
      dsimp only
      rw [hfree.below_none hhon (hend ▸ hc)]
      exact ⟨xs, h.takes_above hl hp hc⟩
  . have hnone : ∀ p ∈ xs, p + s.size p ≠ offset := fun p hp he => habove ⟨p, hp, he⟩
    rw [h.above_none hA hnone, if_neg Bool.false_ne_true]
    have hnotin : offset ∉ xs := fun hin => by
      have := hl.apart_num hin
      have := h.nums hin
      omega
    by_cases hc : offset + n ∈ xs
    . rw [h.placeBelow_eq hl hc, if_pos rfl]
      obtain ⟨hfree, hcount, hwithin, hsizes, hmarks⟩ := h.place hl hc
      refine ⟨_, hfree, hcount, hwithin, ?_, hmarks⟩
      have hmove : ∀ q ∈ xs.map (moveTo (offset + n) offset), q = offset ∨ (q ∈ xs ∧ q ≠ offset + n) := by
        intro q hq
        obtain ⟨p, hp, rfl⟩ := List.mem_map.mp hq
        unfold moveTo
        split
        . exact .inl rfl
        . next hne => exact .inr ⟨hp, hne⟩
      intro hjoined p hp hin
      by_cases hpo : p = offset
      . rw [hpo, hsizes.self] at hin
        rcases hmove _ hin with he | ⟨hin, _⟩
        . omega
        . rw [← Nat.add_assoc] at hin
          exact hjoined _ hc hin
      . obtain ⟨hpx, _⟩ := (hmove p hp).resolve_left hpo
        rw [hsizes.others p hp hpo] at hin
        rcases hmove _ hin with he | ⟨hin, _⟩
        . exact hnone p hpx he
        . exact hjoined p hpx hin
    . rw [h.below_none hB hc, if_neg Bool.false_ne_true]
      obtain ⟨hfree, hcount, hwithin, hsizes, hmarks⟩ := h.joinFree hl
      refine ⟨_, hfree, hcount, hwithin, ?_, hmarks⟩
      intro hjoined p hp hin
      by_cases hpo : p = offset
      . rw [hpo, hsizes.self] at hin
        rcases List.mem_cons.mp hin with he | hin
        . omega
        . exact hc hin
      . have hpx := (List.mem_cons.mp hp).resolve_left hpo
        rw [hsizes.others p hp hpo] at hin
        rcases List.mem_cons.mp hin with he | hin
        . exact hnone p hpx he
        . exact hjoined p hpx hin

end Release

end PagePool

end Lsmcd
