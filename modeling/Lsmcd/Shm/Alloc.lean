import Mathlib.Data.List.Nodup
import Mathlib.Data.List.Perm.Subperm
import Mathlib.Data.List.Pairwise
import Mathlib.Order.Interval.Finset.Nat
import Lsmcd.Shm.Types

/-!
The allocator as the hash sees it: `LsShmPool::alloc2` and `release2` over an `alloc2Ex` that
answers anything an allocator may answer, and the charging done by `LsShmHash::alloc2`.

`alloc2Ex` is driven by a list of answers, one for each call. An answer that is not a free block of
the size asked for counts as a failure, so that quantifying over the list of answers is quantifying
over all allocators that return fresh disjoint blocks or fail.
-/

namespace Lsmcd

/--
What a block still holds from its previous owner, where a hash element will keep its fields.
-/
structure Junk where
  x_iLen : Nat
  x_iValOff : Nat
  x_tid : Nat
  x_data : Nat → UInt8

structure Answer where
  off : Nat
  size : Nat
  fileSize : Nat
  junk : Junk

def Answer.clean (off size : Nat) : Answer where
  off := off
  size := size
  fileSize := LARGE_PAGE_SIZE
  junk := { x_iLen := 0, x_iValOff := 0, x_tid := 0, x_data := fun _ => 0 }

def Apart (a b : Nat × Nat) : Prop :=
  a.1 + a.2 ≤ b.1 ∨ b.1 + b.2 ≤ a.1

instance (a b : Nat × Nat) : Decidable (Apart a b) :=
  inferInstanceAs (Decidable (_ ∨ _))

instance : Std.Symm Apart := ⟨fun _ _ h => Or.symm h⟩

/--
The blocks handed out and not yet released, the file they lie in, the statistics of the hash and
the answers that `alloc2Ex` is still going to give.
-/
structure Shm where
  live : List (Nat × Nat)
  m_iFileSize : Nat
  m_iHashInUse : Nat
  junk : Nat → Junk
  answers : List Answer
  live_apart : live.Pairwise Apart
  live_range : ∀ b ∈ live, sizeofShmMapHdr ≤ b.1 ∧ 0 < b.2 ∧ b.1 + b.2 ≤ m_iFileSize
  fileSize_lt : m_iFileSize < 2 ^ 32

namespace Shm

def empty (answers : List Answer) : Shm where
  live := []
  m_iFileSize := 0
  m_iHashInUse := 0
  junk := fun _ => { x_iLen := 0, x_iValOff := 0, x_tid := 0, x_data := fun _ => 0 }
  answers := answers
  live_apart := List.Pairwise.nil
  live_range := by simp
  fileSize_lt := by decide

def isOffsetValid (m : Shm) (off : Nat) : Bool :=
  m.m_iFileSize ≠ 0 && off ≤ m.m_iFileSize

def offset2ptr (m : Shm) (off : Nat) : Bool :=
  sizeofShmMapHdr ≤ off && m.isOffsetValid off

structure Fits (m : Shm) (size : Nat) (a : Answer) : Prop where
  pos : 0 < a.size
  size_eq : a.size = size2roundSize size
  hdr : sizeofShmMapHdr ≤ a.off
  grown : m.m_iFileSize ≤ a.fileSize
  inside : a.off + a.size ≤ a.fileSize
  fileSize_lt : a.fileSize < 2 ^ 32
  apart : ∀ b ∈ m.live, Apart (a.off, a.size) b

instance (m : Shm) (size : Nat) (a : Answer) : Decidable (Fits m size a) :=
  decidable_of_iff
    (0 < a.size ∧ a.size = size2roundSize size ∧ sizeofShmMapHdr ≤ a.off ∧
      m.m_iFileSize ≤ a.fileSize ∧ a.off + a.size ≤ a.fileSize ∧ a.fileSize < 2 ^ 32 ∧
      ∀ b ∈ m.live, Apart (a.off, a.size) b)
    ⟨fun ⟨h1, h2, h3, h4, h5, h6, h7⟩ => ⟨h1, h2, h3, h4, h5, h6, h7⟩,
      fun ⟨h1, h2, h3, h4, h5, h6, h7⟩ => ⟨h1, h2, h3, h4, h5, h6, h7⟩⟩

def take (m : Shm) (size : Nat) (a : Answer) (h : Fits m size a) : Shm where
  live := (a.off, a.size) :: m.live
  m_iFileSize := a.fileSize
  m_iHashInUse := m.m_iHashInUse
  junk := Function.update m.junk a.off a.junk
  answers := m.answers.tail
  live_apart := List.pairwise_cons.mpr ⟨h.apart, m.live_apart⟩
  live_range := by
    intro b hb
    cases hb with
    | head => exact ⟨h.hdr, h.pos, h.inside⟩
    | tail _ hb =>
      have hr := m.live_range b hb
      exact ⟨hr.1, hr.2.1, Nat.le_trans hr.2.2 h.grown⟩
  fileSize_lt := h.fileSize_lt

def alloc2Ex (m : Shm) (size : Nat) : Shm × Nat :=
  match m.answers with
  | [] => (m, 0)
  | a :: as => if h : Fits m size a then (m.take size a h, a.off) else ({ m with answers := as }, 0)

/--
`LsShmPool::alloc2`: the offset and the size that `*size` is left with. A block of less than a
large page that lies across two of them is not given back before a whole large page is asked for.
-/
def poolAlloc2 (m : Shm) (size : Nat) : Shm × Nat × Nat :=
  if size = 0 ∨ 0x80000000 ≤ size ∨ LSSHM_MAXSIZE < size then
    (m, 0, size)
  else
    let size := roundDataSize size
    let r := m.alloc2Ex size
    if LARGE_PAGE_SIZE ≤ size ∨ r.2 >>> LARGE_PAGE_BITS = (r.2 + size - 1) >>> LARGE_PAGE_BITS then
      (r.1, r.2, size)
    else
      let r' := r.1.alloc2Ex LARGE_PAGE_SIZE
      (r'.1, r'.2, LARGE_PAGE_SIZE)

def poolRelease2 (m : Shm) (off : Nat) : Shm where
  live := m.live.eraseP (·.1 = off)
  m_iFileSize := m.m_iFileSize
  m_iHashInUse := m.m_iHashInUse
  junk := m.junk
  answers := m.answers
  live_apart := m.live_apart.sublist List.eraseP_sublist
  live_range := fun b hb => m.live_range b (List.mem_of_mem_eraseP hb)
  fileSize_lt := m.fileSize_lt

def alloc2 (m : Shm) (size : Nat) : Shm × Nat :=
  let r := m.poolAlloc2 size
  if r.2.1 ≠ 0 then
    ({ r.1 with m_iHashInUse := (r.1.m_iHashInUse + size2roundSize r.2.2) % 2 ^ 32 }, r.2.1)
  else
    (r.1, r.2.1)

def release2 (m : Shm) (off size : Nat) : Shm :=
  let m := m.poolRelease2 off
  { m with m_iHashInUse := (m.m_iHashInUse + (2 ^ 32 - size2roundSize size % 2 ^ 32)) % 2 ^ 32 }

def Owns (m : Shm) (off n : Nat) : Prop :=
  ∃ b ∈ m.live, b.1 = off ∧ n ≤ b.2

structure Grows (m m' : Shm) : Prop where
  live : ∀ b ∈ m.live, b ∈ m'.live
  fileSize : m.m_iFileSize ≤ m'.m_iFileSize

theorem Grows.refl (m : Shm) : Grows m m := ⟨fun _ h => h, Nat.le_refl _⟩

theorem Grows.trans {m₁ m₂ m₃ : Shm} (h₁ : Grows m₁ m₂) (h₂ : Grows m₂ m₃) : Grows m₁ m₃ :=
  ⟨fun b hb => h₂.live b (h₁.live b hb), Nat.le_trans h₁.fileSize h₂.fileSize⟩

theorem Owns.grows {m m' : Shm} {off n : Nat} (h : m.Owns off n) (hg : Grows m m')
    : m'.Owns off n := by
  obtain ⟨b, hb, heq, hn⟩ := h
  exact ⟨b, hg.live b hb, heq, hn⟩

theorem Owns.mono {m : Shm} {off n k : Nat} (h : m.Owns off n) (hk : k ≤ n) : m.Owns off k := by
  obtain ⟨b, hb, heq, hn⟩ := h
  exact ⟨b, hb, heq, Nat.le_trans hk hn⟩

theorem Owns.hdr_le {m : Shm} {off n : Nat} (h : m.Owns off n) : sizeofShmMapHdr ≤ off := by
  obtain ⟨b, hb, rfl, _⟩ := h
  exact (m.live_range b hb).1

theorem Owns.ne_zero {m : Shm} {off n : Nat} (h : m.Owns off n) : off ≠ 0 := by
  have hle := h.hdr_le
  unfold sizeofShmMapHdr at hle
  omega

theorem Owns.add_le {m : Shm} {off n : Nat} (h : m.Owns off n) : off + n ≤ m.m_iFileSize := by
  obtain ⟨b, hb, rfl, hn⟩ := h
  have := (m.live_range b hb).2.2
  omega

theorem Owns.isOffsetValid {m : Shm} {off n k : Nat} (h : m.Owns off n) (hk : k ≤ n)
    : m.isOffsetValid (off + k) = true := by
  have hadd := h.add_le
  have hne := h.ne_zero
  simp only [Shm.isOffsetValid, ne_eq, decide_not, Bool.and_eq_true, Bool.not_eq_true',
    decide_eq_false_iff_not, decide_eq_true_eq]
  omega

theorem Owns.offset2ptr {m : Shm} {off n : Nat} (h : m.Owns off n) : m.offset2ptr off = true := by
  have hv := h.isOffsetValid (Nat.zero_le n)
  rw [Nat.add_zero] at hv
  simp [Shm.offset2ptr, h.hdr_le, hv]

theorem offset2ptr_zero (m : Shm) : m.offset2ptr 0 = false := by
  simp [offset2ptr, sizeofShmMapHdr]

theorem grows_take (m : Shm) (size : Nat) (a : Answer) (h : Fits m size a)
    : Grows m (m.take size a h) :=
  ⟨fun _ hb => List.mem_cons_of_mem _ hb, h.grown⟩

theorem grows_alloc2Ex (m : Shm) (size : Nat) : Grows m (m.alloc2Ex size).1 := by
  unfold alloc2Ex
  split
  . exact Grows.refl m
  . split
    . next hfit => exact grows_take m size _ hfit
    . exact ⟨fun _ h => h, Nat.le_refl _⟩

theorem grows_poolAlloc2 (m : Shm) (size : Nat) : Grows m (m.poolAlloc2 size).1 := by
  unfold poolAlloc2
  split
  . exact Grows.refl m
  . dsimp only
    split
    . exact grows_alloc2Ex m _
    . exact (grows_alloc2Ex m _).trans (grows_alloc2Ex _ _)

theorem grows_alloc2 (m : Shm) (size : Nat) : Grows m (m.alloc2 size).1 := by
  unfold alloc2
  dsimp only
  split
  . exact ⟨(grows_poolAlloc2 m size).live, (grows_poolAlloc2 m size).fileSize⟩
  . exact grows_poolAlloc2 m size

structure Fresh (m m' : Shm) (off n : Nat) : Prop where
  owns : m'.Owns off n
  apart : ∀ b ∈ m.live, Apart (off, n) b

theorem fresh_alloc2Ex (m : Shm) (size : Nat) (h : (m.alloc2Ex size).2 ≠ 0)
    : Fresh m (m.alloc2Ex size).1 (m.alloc2Ex size).2 (size2roundSize size) := by
  unfold alloc2Ex at h ⊢
  split
  . simp_all
  . next a as heq =>
    rw [heq] at h
    dsimp only at h ⊢
    split
    . next hfit =>
      refine ⟨⟨(a.off, a.size), List.mem_cons_self, rfl, ?_⟩, ?_⟩
      . exact Nat.le_of_eq hfit.size_eq.symm
      . intro b hb
        rw [← hfit.size_eq]
        exact hfit.apart b hb
    . next hfit => simp [hfit] at h

theorem Fresh.mono {m m' : Shm} {off n k : Nat} (h : Fresh m m' off n) (hk : k ≤ n)
    : Fresh m m' off k := by
  refine ⟨h.owns.mono hk, ?_⟩
  intro b hb
  cases h.apart b hb with
  | inl hle => exact Or.inl (by dsimp only at hle ⊢; omega)
  | inr hle => exact Or.inr hle

theorem Fresh.of_grows {m₁ m₂ m₃ : Shm} {off n : Nat} (hg : Grows m₁ m₂) (h : Fresh m₂ m₃ off n)
    : Fresh m₁ m₃ off n :=
  ⟨h.owns, fun b hb => h.apart b (hg.live b hb)⟩

theorem Fresh.not_owns {m m' : Shm} {off n k : Nat} (h : Fresh m m' off n) (hn : 0 < n)
    : ¬ m.Owns off k := by
  rintro ⟨b, hb, rfl, _⟩
  have hpos := (m.live_range b hb).2.1
  cases h.apart b hb with
  | inl hle => dsimp only at hle; omega
  | inr hle => dsimp only at hle; omega

theorem fresh_poolAlloc2 (m : Shm) (size : Nat) (h : (m.poolAlloc2 size).2.1 ≠ 0)
    : Fresh m (m.poolAlloc2 size).1 (m.poolAlloc2 size).2.1 (size2roundSize size) := by
  unfold poolAlloc2 at h ⊢
  split
  . simp_all
  . next hsz =>
    simp only [hsz, if_false] at h
    dsimp only at h ⊢
    split
    . next hone =>
      rw [if_pos hone] at h
      rw [← size2roundSize_roundDataSize size]
      exact fresh_alloc2Ex m _ h
    . next hone =>
      rw [if_neg hone] at h
      apply Fresh.of_grows (grows_alloc2Ex m (roundDataSize size))
      apply Fresh.mono (fresh_alloc2Ex _ _ h)
      rw [← size2roundSize_roundDataSize size]
      apply size2roundSize_mono
      omega

theorem fresh_alloc2 (m : Shm) (size : Nat) (h : (m.alloc2 size).2 ≠ 0)
    : Fresh m (m.alloc2 size).1 (m.alloc2 size).2 (size2roundSize size) := by
  unfold alloc2 at h ⊢
  dsimp only at h ⊢
  split
  . next hne =>
    have hf := fresh_poolAlloc2 m size hne
    exact ⟨hf.owns, hf.apart⟩
  . next hne =>
    rw [if_neg hne] at h
    exact absurd h hne

theorem poolAlloc2_size (m : Shm) (size : Nat) (h : (m.poolAlloc2 size).2.1 ≠ 0)
    : 0 < size ∧ size ≤ LSSHM_MAXSIZE := by
  by_contra hz
  have hbad : size = 0 ∨ 0x80000000 ≤ size ∨ LSSHM_MAXSIZE < size := by omega
  simp [poolAlloc2, hbad] at h

theorem alloc2_size (m : Shm) (size : Nat) (h : (m.alloc2 size).2 ≠ 0)
    : 0 < size ∧ size ≤ LSSHM_MAXSIZE := by
  apply poolAlloc2_size m size
  intro h0
  simp [alloc2, h0] at h

theorem live_fst_ne (m : Shm) : m.live.Pairwise (fun a b => a.1 ≠ b.1) := by
  apply m.live_apart.imp_of_mem
  intro a b ha hb hab heq
  have hpa := (m.live_range a ha).2.1
  have hpb := (m.live_range b hb).2.1
  unfold Apart at hab
  omega

theorem mem_eraseP_fst {l : List (Nat × Nat)} (hne : l.Pairwise (fun a b => a.1 ≠ b.1)) (off : Nat)
    (b : Nat × Nat) : b ∈ l.eraseP (·.1 = off) ↔ b ∈ l ∧ b.1 ≠ off := by
  induction l with
  | nil => simp
  | cons a as ih =>
    rw [List.pairwise_cons] at hne
    rw [List.eraseP_cons, Bool.cond_decide]
    split
    . next ha =>
      constructor
      . intro hb
        exact ⟨List.mem_cons_of_mem a hb, fun h => hne.1 b hb (ha.trans h.symm)⟩
      . rintro ⟨hb, hboff⟩
        rcases List.mem_cons.mp hb with rfl | hb
        . exact absurd ha hboff
        . exact hb
    . next ha =>
      rw [List.mem_cons, List.mem_cons, ih hne.2]
      constructor
      . rintro (rfl | ⟨hb, hboff⟩)
        . exact ⟨Or.inl rfl, ha⟩
        . exact ⟨Or.inr hb, hboff⟩
      . rintro ⟨rfl | hb, hboff⟩
        . exact Or.inl rfl
        . exact Or.inr ⟨hb, hboff⟩

theorem mem_poolRelease2 (m : Shm) (off : Nat) (b : Nat × Nat)
    : b ∈ (m.poolRelease2 off).live ↔ b ∈ m.live ∧ b.1 ≠ off :=
  mem_eraseP_fst m.live_fst_ne off b

theorem owns_release2 {m : Shm} {off size x n : Nat}
    : (m.release2 off size).Owns x n ↔ m.Owns x n ∧ x ≠ off := by
  constructor
  . rintro ⟨b, hb, rfl, hn⟩
    have hb' := (mem_poolRelease2 m off b).mp hb
    exact ⟨⟨b, hb'.1, rfl, hn⟩, hb'.2⟩
  . rintro ⟨⟨b, hb, rfl, hn⟩, hne⟩
    exact ⟨b, (mem_poolRelease2 m off b).mpr ⟨hb, hne⟩, rfl, hn⟩

theorem Owns.apart {m : Shm} {x y n k : Nat} (hx : m.Owns x n) (hy : m.Owns y k) (hne : x ≠ y)
    : Apart (x, n) (y, k) := by
  obtain ⟨a, ha, rfl, hna⟩ := hx
  obtain ⟨b, hb, rfl, hkb⟩ := hy
  have hab : a ≠ b := fun h => hne (by rw [h])
  have hap := m.live_apart.forall ha hb hab
  unfold Apart at hap ⊢
  dsimp only
  omega

theorem length_le_live (m : Shm) {xs : List Nat} (hnd : xs.Nodup)
    (hown : ∀ x ∈ xs, ∃ n, m.Owns x n) : xs.length ≤ m.live.length := by
  have hsub : xs ⊆ m.live.map Prod.fst := by
    intro x hx
    obtain ⟨n, b, hb, rfl, _⟩ := hown x hx
    exact List.mem_map_of_mem hb
  calc
    xs.length ≤ (m.live.map Prod.fst).length := (List.Nodup.subperm hnd hsub).length_le
    _ = m.live.length := List.length_map _

/--
No block of less than a large page that `alloc2Ex` is going to hand out lies across two of them.
-/
def Whole (m : Shm) : Prop :=
  ∀ a ∈ m.answers, a.size < LARGE_PAGE_SIZE →
    a.off >>> LARGE_PAGE_BITS = (a.off + a.size - 1) >>> LARGE_PAGE_BITS

instance (m : Shm) : Decidable m.Whole :=
  inferInstanceAs (Decidable (∀ a ∈ m.answers, a.size < LARGE_PAGE_SIZE →
    a.off >>> LARGE_PAGE_BITS = (a.off + a.size - 1) >>> LARGE_PAGE_BITS))

/--
From `m` to `m'` the hash was charged `c`, a negative `c` being a refund. The counter is 32 bit wide.
-/
structure Charged (m m' : Shm) (c : Int) : Prop where
  whole : m.Whole → m'.Whole
  inUse : m.Whole → (m'.m_iHashInUse : Int) % 2 ^ 32 = (m.m_iHashInUse + c) % 2 ^ 32
  lt : m.m_iHashInUse < 2 ^ 32 → m'.m_iHashInUse < 2 ^ 32

theorem Charged.refl (m : Shm) : Charged m m 0 := ⟨fun h => h, fun _ => by omega, fun h => h⟩

theorem Charged.trans {m₁ m₂ m₃ : Shm} {c d e : Int} (h₁ : Charged m₁ m₂ c) (h₂ : Charged m₂ m₃ d)
    (he : e = c + d) : Charged m₁ m₃ e where
  whole := fun h => h₂.whole (h₁.whole h)
  inUse := by
    intro h
    have hc := h₁.inUse h
    have hd := h₂.inUse (h₁.whole h)
    omega
  lt := fun h => h₂.lt (h₁.lt h)

theorem answers_alloc2Ex (m : Shm) (size : Nat) : (m.alloc2Ex size).1.answers = m.answers.tail := by
  unfold alloc2Ex
  split
  . next h => simp [h]
  . next h =>
    split
    . rfl
    . simp [h]

theorem Whole.alloc2Ex {m : Shm} (h : m.Whole) (size : Nat) : (m.alloc2Ex size).1.Whole := by
  unfold Whole
  rw [answers_alloc2Ex]
  exact fun a ha => h a (List.mem_of_mem_tail ha)

theorem Whole.poolAlloc2 {m : Shm} (h : m.Whole) (size : Nat) : (m.poolAlloc2 size).1.Whole := by
  unfold Shm.poolAlloc2
  split
  . exact h
  . dsimp only
    split
    . exact h.alloc2Ex _
    . exact (h.alloc2Ex _).alloc2Ex _

theorem inUse_alloc2Ex (m : Shm) (size : Nat)
    : (m.alloc2Ex size).1.m_iHashInUse = m.m_iHashInUse := by
  unfold alloc2Ex
  split
  . rfl
  . split <;> rfl

theorem inUse_poolAlloc2 (m : Shm) (size : Nat)
    : (m.poolAlloc2 size).1.m_iHashInUse = m.m_iHashInUse := by
  unfold poolAlloc2
  split
  . rfl
  . dsimp only
    split <;> simp [inUse_alloc2Ex]

theorem size2roundSize_le_large {size : Nat} (h : size < LARGE_PAGE_SIZE)
    : size2roundSize size ≤ LARGE_PAGE_SIZE := by
  unfold size2roundSize roundPageSize roundDataSize LSSHM_SHM_UNITSIZE LSSHM_POOL_UNITSIZE
    LARGE_PAGE_SIZE at *
  split <;> omega

theorem Whole.alloc2Ex_cases {m : Shm} (h : m.Whole) {size : Nat} (hlt : size < LARGE_PAGE_SIZE)
    (hpos : 0 < size)
    : (m.alloc2Ex size).2 >>> LARGE_PAGE_BITS = ((m.alloc2Ex size).2 + size - 1) >>> LARGE_PAGE_BITS ∨
      size2roundSize size = LARGE_PAGE_SIZE := by
  have hzero : (0 : Nat) >>> LARGE_PAGE_BITS = (0 + size - 1) >>> LARGE_PAGE_BITS := by
    unfold LARGE_PAGE_BITS LARGE_PAGE_SIZE at *
    simp only [Nat.shiftRight_eq_div_pow]
    omega
  unfold Shm.alloc2Ex
  split
  . exact Or.inl hzero
  . next a as heq =>
    split
    . next hfit =>
      have hsz := hfit.size_eq
      have hle := le_size2roundSize size
      by_cases hsmall : a.size < LARGE_PAGE_SIZE
      . left
        have hw := h a (by rw [heq]; exact List.mem_cons_self) hsmall
        unfold LARGE_PAGE_BITS at *
        simp only [Nat.shiftRight_eq_div_pow] at *
        omega
      . right
        rw [hsz] at hsmall
        exact Nat.le_antisymm (size2roundSize_le_large hlt) (Nat.le_of_not_lt hsmall)
    . exact Or.inl hzero

theorem Whole.poolAlloc2_size {m : Shm} (h : m.Whole) {size : Nat}
    (hne : (m.poolAlloc2 size).2.1 ≠ 0)
    : size2roundSize (m.poolAlloc2 size).2.2 = size2roundSize size := by
  have hpos := (Shm.poolAlloc2_size m size hne).1
  unfold Shm.poolAlloc2
  split
  . rfl
  . dsimp only
    split
    . exact size2roundSize_roundDataSize size
    . next hstr =>
      have hle := le_roundDataSize size
      rw [not_or, Nat.not_le] at hstr
      have hbig := (h.alloc2Ex_cases hstr.1 (by omega)).resolve_left hstr.2
      rw [← size2roundSize_roundDataSize size, hbig]
      exact (by decide : size2roundSize LARGE_PAGE_SIZE = LARGE_PAGE_SIZE)

theorem charged_alloc2 (m : Shm) (size : Nat)
    : Charged m (m.alloc2 size).1 (if (m.alloc2 size).2 = 0 then 0 else size2roundSize size) := by
  unfold alloc2
  dsimp only
  by_cases h0 : (m.poolAlloc2 size).2.1 = 0
  . rw [if_neg (not_not.mpr h0)]
    refine ⟨fun h => h.poolAlloc2 size, fun _ => ?_, fun h => ?_⟩
    . simp [inUse_poolAlloc2, h0]
    . rw [inUse_poolAlloc2]
      exact h
  . rw [if_pos h0]
    refine ⟨fun h => h.poolAlloc2 size, fun h => ?_, fun _ => Nat.mod_lt _ (by decide)⟩
    simp only [inUse_poolAlloc2, h0, if_false, h.poolAlloc2_size h0]
    omega

theorem charged_release2 (m : Shm) (off size : Nat)
    : Charged m (m.release2 off size) (-(size2roundSize size : Int)) := by
  refine ⟨fun h => h, fun _ => ?_, fun _ => Nat.mod_lt _ (by decide)⟩
  have hrel : (m.release2 off size).m_iHashInUse =
    (m.m_iHashInUse + (2 ^ 32 - size2roundSize size % 2 ^ 32)) % 2 ^ 32 := rfl
  rw [hrel]
  omega

theorem sum_le_of_apart {bs : List (Nat × Nat)} {n : Nat} (hap : bs.Pairwise Apart)
    (hin : ∀ b ∈ bs, b.1 + b.2 ≤ n) : (bs.map Prod.snd).sum ≤ n := by
  have hcover : ∃ S : Finset Nat, S ⊆ Finset.range n ∧ S.card = (bs.map Prod.snd).sum ∧
      ∀ i ∈ S, ∃ b ∈ bs, b.1 ≤ i ∧ i < b.1 + b.2 := by
    induction bs with
    | nil => exact ⟨∅, by simp, by simp, by simp⟩
    | cons b bs ih =>
      rw [List.pairwise_cons] at hap
      obtain ⟨S, hS, hcard, hmem⟩ := ih hap.2 (fun c hc => hin c (List.mem_cons_of_mem b hc))
      have hb := hin b List.mem_cons_self
      have hdisj : Disjoint (Finset.Ico b.1 (b.1 + b.2)) S := by
        rw [Finset.disjoint_left]
        intro i hi hiS
        obtain ⟨c, hc, hle, hlt⟩ := hmem i hiS
        have hbc := hap.1 c hc
        rw [Finset.mem_Ico] at hi
        unfold Apart at hbc
        omega
      refine ⟨Finset.Ico b.1 (b.1 + b.2) ∪ S, ?_, ?_, ?_⟩
      . intro i hi
        rcases Finset.mem_union.mp hi with hi | hi
        . rw [Finset.mem_Ico] at hi
          rw [Finset.mem_range]
          omega
        . exact hS hi
      . rw [Finset.card_union_of_disjoint hdisj, Nat.card_Ico, hcard, List.map_cons, List.sum_cons]
        omega
      . intro i hi
        rcases Finset.mem_union.mp hi with hi | hi
        . exact ⟨b, List.mem_cons_self, Finset.mem_Ico.mp hi⟩
        . obtain ⟨c, hc, hi⟩ := hmem i hi
          exact ⟨c, List.mem_cons_of_mem b hc, hi⟩
  obtain ⟨S, hS, hcard, _⟩ := hcover
  rw [← hcard]
  exact (Finset.card_le_card hS).trans_eq (Finset.card_range n)

theorem sum_le_fileSize (m : Shm) {bs : List (Nat × Nat)} (hnd : (bs.map Prod.fst).Nodup)
    (hown : ∀ b ∈ bs, m.Owns b.1 b.2) : (bs.map Prod.snd).sum ≤ m.m_iFileSize := by
  apply sum_le_of_apart _ (fun b hb => (hown b hb).add_le)
  have hne : bs.Pairwise (fun a b => a.1 ≠ b.1) := List.pairwise_map.mp hnd
  apply hne.imp_of_mem
  intro a b ha hb hab
  exact (hown a ha).apart (hown b hb) hab

theorem charged_alloc2_of_ne {m : Shm} {size : Nat} (h : (m.alloc2 size).2 ≠ 0)
    : Charged m (m.alloc2 size).1 (size2roundSize size) := by
  have hc := charged_alloc2 m size
  rw [if_neg h] at hc
  exact hc

theorem charged_alloc2_of_eq {m : Shm} {size : Nat} (h : (m.alloc2 size).2 = 0)
    : Charged m (m.alloc2 size).1 0 := by
  have hc := charged_alloc2 m size
  rw [if_pos h] at hc
  exact hc

end Shm

end Lsmcd
