import Lsmcd.Lib.Chain
import Lsmcd.Lib.Cover
import Lsmcd.Shm.Pool

/-!
The free blocks of a pool as lists of offsets, and what the operations on the chunk and the buckets do
to them.
-/

namespace Lsmcd

open Linked Cover

namespace PoolShm

variable {m : PoolShm} {off p : Nat}

def word (m : PoolShm) (off : Nat) : Nat :=
  m.mem ((m.offset2ptr off).getD 0)

theorem offset2ptr_eq (h : m.offset2ptr off = some p)
    : ∃ page, m.m_off2ptrTable[off / LARGE_PAGE_SIZE]? = some page ∧
      p = page * LARGE_PAGE_SIZE + off % LARGE_PAGE_SIZE := by
  unfold offset2ptr at h
  split at h
  . cases h
  . obtain ⟨page, hpage, hp⟩ := Option.map_eq_some_iff.mp h
    exact ⟨page, hpage, hp.symm⟩

theorem offset2ptr_ne_zero (h : m.offset2ptr off = some p) : p ≠ 0 := by
  obtain ⟨page, hpage, rfl⟩ := offset2ptr_eq h
  have hmem := List.mem_of_getElem? hpage
  have hne : page ≠ 0 := fun hz => m.table_pos (hz ▸ hmem)
  unfold LARGE_PAGE_SIZE
  omega

theorem offset2ptr_inj {off' : Nat} (h : m.offset2ptr off = some p) (h' : m.offset2ptr off' = some p)
    : off = off' := by
  obtain ⟨page, hpage, rfl⟩ := offset2ptr_eq h
  obtain ⟨page', hpage', heq⟩ := offset2ptr_eq h'
  have hl := Nat.mod_lt off (show 0 < LARGE_PAGE_SIZE by decide)
  have hl' := Nat.mod_lt off' (show 0 < LARGE_PAGE_SIZE by decide)
  have hsame : page = page' ∧ off % LARGE_PAGE_SIZE = off' % LARGE_PAGE_SIZE := by
    unfold LARGE_PAGE_SIZE at *
    omega
  obtain ⟨rfl, hmod⟩ := hsame
  obtain ⟨hlt, hget⟩ := List.getElem?_eq_some_iff.mp hpage
  obtain ⟨hlt', hget'⟩ := List.getElem?_eq_some_iff.mp hpage'
  have hidx := (m.table_nodup.getElem_inj_iff).mp (hget.trans hget'.symm)
  rw [← Nat.div_add_mod off LARGE_PAGE_SIZE, ← Nat.div_add_mod off' LARGE_PAGE_SIZE, hidx, hmod]

theorem offset2ptr_isSome (hlo : sizeofShmMapHdr ≤ off) (hhi : off < m.m_iFileSize)
    : ∃ p, m.offset2ptr off = some p := by
  have hvalid : m.isOffsetValid off = true := by
    unfold isOffsetValid
    simp
    omega
  have hpage : off / LARGE_PAGE_SIZE < m.m_off2ptrTable.length := by
    have hmapped := m.mapped
    unfold LARGE_PAGE_SIZE at *
    omega
  unfold offset2ptr
  rw [if_neg (by simp [hvalid]; omega), List.getElem?_eq_getElem hpage]
  exact ⟨_, rfl⟩

theorem isOffsetValid_of_le (hpos : 0 < m.m_iFileSize) (hle : off ≤ m.m_iFileSize)
    : m.isOffsetValid off = true := by
  unfold isOffsetValid
  simp
  omega

@[simp]
theorem offset2ptr_write (p v : Nat) : (m.write p v).offset2ptr = m.offset2ptr := rfl

theorem word_write (h : m.offset2ptr off = some p) (v : Nat)
    : (m.write p v).word = Function.update m.word off v := by
  funext o
  unfold word write
  show Function.update m.mem p v ((m.offset2ptr o).getD 0) = _
  by_cases ho : o = off
  . rw [ho, h, Option.getD_some, Function.update_self, Function.update_self]
  . rw [Function.update_of_ne ho, Function.update_of_ne]
    cases hq : m.offset2ptr o with
    | none => exact (offset2ptr_ne_zero h).symm
    | some q =>
      rintro rfl
      exact ho (offset2ptr_inj hq h)

theorem word_eq (h : m.offset2ptr off = some p) : m.word off = m.mem p := by
  unfold word
  rw [h, Option.getD_some]

def Keeps (m m' : PoolShm) (bs : List (Nat × Nat)) : Prop :=
  ∀ b ∈ bs, ∀ o, Within b o → m'.word o = m.word o

theorem Keeps.refl (m : PoolShm) (bs : List (Nat × Nat)) : Keeps m m bs := fun _ _ _ _ => rfl

theorem Keeps.trans {m₁ m₂ m₃ : PoolShm} {bs : List (Nat × Nat)} (h₁ : Keeps m₁ m₂ bs) (h₂ : Keeps m₂ m₃ bs)
    : Keeps m₁ m₃ bs :=
  fun b hb o ho => (h₂ b hb o ho).trans (h₁ b hb o ho)

theorem Keeps.mono {m m' : PoolShm} {bs cs : List (Nat × Nat)} (h : Keeps m m' cs) (hsub : ∀ b ∈ bs, b ∈ cs)
    : Keeps m m' bs :=
  fun b hb => h b (hsub b hb)

theorem keeps_write {bs : List (Nat × Nat)} (h : m.offset2ptr off = some p) (v : Nat)
    (hout : ∀ b ∈ bs, ¬ Within b off) : Keeps m (m.write p v) bs := by
  intro b hb o ho
  rw [word_write h, Function.update_of_ne]
  rintro rfl
  exact hout b hb ho

theorem count_pages_le (m : PoolShm) (x : Nat) : count m.pages x ≤ 1 :=
  count_le_one m.pages_apart x

theorem range_of_within {b : Nat × Nat} (hb : b ∈ m.pages) (h : Within b off)
    : sizeofShmMapHdr ≤ off ∧ off < m.m_iFileSize := by
  obtain ⟨hlo, -, hhi⟩ := m.pages_range b hb
  unfold Within at h
  omega

theorem offset2ptr_take {size : Nat} {a : PageAnswer} (hpos : 0 < size) (hfits : Fits m size a)
    (hlo : sizeofShmMapHdr ≤ off) (hhi : off < m.m_iFileSize)
    : (m.take size a hpos hfits).offset2ptr off = m.offset2ptr off := by
  obtain ⟨p, hp⟩ := offset2ptr_isSome hlo hhi
  obtain ⟨page, hpage, rfl⟩ := offset2ptr_eq hp
  have hgrown : off < (m.take size a hpos hfits).m_iFileSize := Nat.lt_of_lt_of_le hhi hfits.grown
  obtain ⟨q, hq⟩ := offset2ptr_isSome hlo hgrown
  obtain ⟨page', hpage', rfl⟩ := offset2ptr_eq hq
  obtain ⟨t, ht⟩ := hfits.table_prefix
  have hlt := (List.getElem?_eq_some_iff.mp hpage).1
  have hsame : page' = page := by
    have htable : (m.take size a hpos hfits).m_off2ptrTable = m.m_off2ptrTable ++ t := ht.symm
    rw [htable, List.getElem?_append_left hlt, hpage] at hpage'
    exact (Option.some.inj hpage').symm
  rw [hp, hq, hsame]

theorem litter_cons (m : PoolShm) (off size : Nat) (w : Nat × Nat) (junk : List (Nat × Nat))
    : m.litter off size (w :: junk) =
      (if w.1 < size then
        match m.offset2ptr (off + w.1) with
        | none => m
        | some p => m.write p w.2
      else m).litter off size junk := rfl

theorem litter_same (off size : Nat) (junk : List (Nat × Nat)) (m : PoolShm)
    : (m.litter off size junk).pages = m.pages ∧ (m.litter off size junk).m_iFileSize = m.m_iFileSize := by
  induction junk generalizing m with
  | nil => exact ⟨rfl, rfl⟩
  | cons w junk ih =>
    rw [litter_cons]
    obtain ⟨hpages, hsize⟩ := ih (if w.1 < size then
        match m.offset2ptr (off + w.1) with
        | none => m
        | some p => m.write p w.2
      else m)
    rw [hpages, hsize]
    split
    . split
      . exact ⟨rfl, rfl⟩
      . exact ⟨rfl, rfl⟩
    . exact ⟨rfl, rfl⟩

theorem keeps_litter {bs : List (Nat × Nat)} (size : Nat) (junk : List (Nat × Nat)) (m : PoolShm)
    (hout : ∀ b ∈ bs, ∀ o, Within (off, size) o → ¬ Within b o) : Keeps m (m.litter off size junk) bs := by
  induction junk generalizing m with
  | nil => exact .refl m bs
  | cons w junk ih =>
    rw [litter_cons]
    refine Keeps.trans ?_ (ih _)
    split
    . rename_i hlt
      split
      . exact .refl m bs
      . rename_i p hp
        refine keeps_write hp _ fun b hb => hout b hb _ ?_
        unfold Within
        dsimp only
        omega
    . exact .refl m bs

structure Obtains (m m' : PoolShm) (off size : Nat) : Prop where
  ne : off ≠ 0
  pages : m'.pages = (off, size) :: m.pages
  fileSize : m.m_iFileSize ≤ m'.m_iFileSize
  keeps : Keeps m m' m.pages

structure Unchanged (m m' : PoolShm) : Prop where
  pages : m'.pages = m.pages
  fileSize : m'.m_iFileSize = m.m_iFileSize
  word : m'.word = m.word

theorem allocPage_cases (m : PoolShm) (pagesize : Nat)
    : ((m.allocPage pagesize).2 = 0 ∧ Unchanged m (m.allocPage pagesize).1) ∨
      Obtains m (m.allocPage pagesize).1 (m.allocPage pagesize).2 (roundPageSize pagesize) := by
  unfold allocPage
  split
  . exact .inl ⟨rfl, rfl, rfl, rfl⟩
  dsimp only
  split
  . exact .inl ⟨rfl, rfl, rfl, rfl⟩
  rename_i a as _
  split
  . rename_i hfits
    right
    obtain ⟨hpages, hsize⟩ := litter_same a.off (roundPageSize pagesize) a.junk
      (m.take (roundPageSize pagesize) a hfits.1 hfits.2)
    refine ⟨?_, hpages, ?_, ?_⟩
    . have hhdr := hfits.2.hdr
      unfold sizeofShmMapHdr at hhdr
      dsimp only
      omega
    . dsimp only
      rw [hsize]
      exact hfits.2.grown
    . have htake : Keeps m (m.take (roundPageSize pagesize) a hfits.1 hfits.2) m.pages := by
        intro b hb o ho
        obtain ⟨hlo, hhi⟩ := range_of_within hb ho
        unfold word
        rw [offset2ptr_take hfits.1 hfits.2 hlo hhi]
        rfl
      refine htake.trans (keeps_litter _ _ _ ?_)
      intro b hb o ho hbo
      have hap := hfits.2.apart b hb
      unfold Apart at hap
      unfold Within at ho hbo
      dsimp only at *
      omega
  . exact .inl ⟨rfl, rfl, rfl, rfl⟩

end PoolShm

namespace LsShmPoolMap

variable {w w' : Nat → Nat} {d : LsShmPoolMap} {xs : Nat → List Nat} {b off : Nat}

def blocks (b : Nat) (l : List Nat) : List (Nat × Nat) :=
  l.map fun o => (o, LSSHM_POOL_BCKTINCR * b)

def inBuckets (xs : Nat → List Nat) : List (Nat × Nat) :=
  (List.range LSSHM_POOL_NUMBUCKET).flatMap fun b => blocks b (xs b)

def free (d : LsShmPoolMap) (xs : Nat → List Nat) : List (Nat × Nat) :=
  (d.x_iStart, d.x_iEnd - d.x_iStart) :: inBuckets xs

/--
The chains of the buckets in the words `w` are the lists `xs` and end in 0. The bucket of the size 0 and
the free list are empty.
-/
structure Rep (w : Nat → Nat) (d : LsShmPoolMap) (xs : Nat → List Nat) : Prop where
  chain : ∀ b, b < LSSHM_POOL_NUMBUCKET → Chain w 0 (d.x_aFreeBucket b) (xs b)
  zero : xs 0 = []
  le : d.x_iStart ≤ d.x_iEnd
  aligned : (d.x_iEnd - d.x_iStart) % LSSHM_POOL_UNITSIZE = 0
  freeList : d.x_iFreeList = 0

theorem mem_inBuckets (hb : b < LSSHM_POOL_NUMBUCKET) {y : Nat} (hy : y ∈ xs b)
    : (y, LSSHM_POOL_BCKTINCR * b) ∈ inBuckets xs :=
  List.mem_flatMap.mpr ⟨b, List.mem_range.mpr hb, List.mem_map.mpr ⟨y, hy, rfl⟩⟩

theorem Rep.within (h : Rep w d xs) {y : Nat} (hy : y ∈ xs b) : Within (y, LSSHM_POOL_BCKTINCR * b) y := by
  have hne : b ≠ 0 := by
    rintro rfl
    rw [h.zero] at hy
    cases hy
  unfold Within LSSHM_POOL_BCKTINCR
  dsimp only
  omega

theorem Rep.congr (h : Rep w d xs) (heq : ∀ c ∈ free d xs, ∀ o, Within c o → w' o = w o) : Rep w' d xs where
  chain b hb := (h.chain b hb).congr fun y hy =>
    heq _ (List.mem_cons_of_mem _ (mem_inBuckets hb hy)) y (h.within hy)
  zero := h.zero
  le := h.le
  aligned := h.aligned
  freeList := h.freeList

theorem Rep.update_out (h : Rep w d xs) (hout : ∀ c ∈ free d xs, ¬ Within c off) (v : Nat)
    : Rep (Function.update w off v) d xs := by
  apply h.congr
  intro c hc o ho
  rw [Function.update_of_ne]
  rintro rfl
  exact hout c hc ho

theorem Rep.fill (h : Rep w d xs) (hne : b ≠ 0) (heq : ∀ c ∈ free d xs, ∀ o, Within c o → w' o = w o)
    {head : Nat} {l : List Nat} (hc : Chain w' 0 head l)
    : Rep w' { d with x_aFreeBucket := Function.update d.x_aFreeBucket b head } (Function.update xs b l) where
  chain j hj := by
    dsimp only
    by_cases hjb : j = b
    . subst hjb
      rw [Function.update_self, Function.update_self]
      exact hc
    . rw [Function.update_of_ne hjb, Function.update_of_ne hjb]
      exact (h.congr heq).chain j hj
  zero := by
    rw [Function.update_of_ne (Ne.symm hne)]
    exact h.zero
  le := h.le
  aligned := h.aligned
  freeList := h.freeList

theorem Rep.push (h : Rep w d xs) (hb : b < LSSHM_POOL_NUMBUCKET) (hne : b ≠ 0) (hoff : off ≠ 0)
    (hout : ∀ c ∈ free d xs, ¬ Within c off)
    : Rep (Function.update w off (d.x_aFreeBucket b))
        { d with x_aFreeBucket := Function.update d.x_aFreeBucket b off }
        (Function.update xs b (off :: xs b)) := by
  apply h.fill hne
  . intro c hc o ho
    rw [Function.update_of_ne]
    rintro rfl
    exact hout c hc ho
  . refine (h.chain b hb).push (fun hmem => ?_) hoff
    exact hout _ (List.mem_cons_of_mem _ (mem_inBuckets hb hmem)) (h.within hmem)

theorem Rep.pop (h : Rep w d xs) (hb : b < LSSHM_POOL_NUMBUCKET) {l : List Nat} (hx : xs b = off :: l)
    : Rep w { d with x_aFreeBucket := Function.update d.x_aFreeBucket b (w off) } (Function.update xs b l) := by
  refine h.fill ?_ (fun _ _ _ _ => rfl) ?_
  . rintro rfl
    rw [h.zero] at hx
    cases hx
  . have hc := h.chain b hb
    rw [hx] at hc
    exact hc.2.2

theorem count_free (d : LsShmPoolMap) (xs : Nat → List Nat) (x : Nat)
    : count (free d xs) x = count [(d.x_iStart, d.x_iEnd - d.x_iStart)] x + count (inBuckets xs) x :=
  count_cons ..

theorem count_blocks_cons (b o : Nat) (l : List Nat) (x : Nat)
    : count (blocks b (o :: l)) x = count [(o, LSSHM_POOL_BCKTINCR * b)] x + count (blocks b l) x :=
  count_cons ..

theorem count_inBuckets_update (hb : b < LSSHM_POOL_NUMBUCKET) (l : List Nat) (x : Nat)
    : count (inBuckets (Function.update xs b l)) x + count (blocks b (xs b)) x =
      count (inBuckets xs) x + count (blocks b l) x := by
  have hfam := @count_family (fun j => blocks j (xs j)) (fun j => blocks j (Function.update xs b l j)) _ _ hb
    (fun j hj => by rw [Function.update_of_ne hj]) x
  rw [Function.update_self] at hfam
  exact hfam

end LsShmPoolMap

end Lsmcd
