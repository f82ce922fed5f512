import Lsmcd.Shm.Hash
import Mathlib.Data.Set.Insert
import Mathlib.Data.List.GetD

/-!
`Addr2OffMap` (`addrmap.h`, `addrmap.cpp`): the offset of a page of memory by its address, in a table whose
collisions go to one of the next three slots.
-/

namespace Lsmcd

/--
A page of memory and its offset, with a null pointer in an empty slot.
-/
structure AddrOffPair where
  m_ptr : Nat
  m_offset : Nat
  deriving DecidableEq

namespace AddrOffPair

def page (e : AddrOffPair) : Nat :=
  e.m_ptr / LARGE_PAGE_SIZE

end AddrOffPair

structure Addr2OffMap where
  m_table : Nat → AddrOffPair
  m_tableSize : Nat

namespace Addr2OffMap

def alloc (size : Nat) : Addr2OffMap where
  m_table _ := ⟨0, 0⟩
  m_tableSize := size

/--
The slots after `pInfo`, up to `pEnd`, around the end of the table. The first one with `p`.
-/
def probe (t : Addr2OffMap) (p : AddrOffPair → Bool) (pEnd : Nat) : Nat → Nat → Option Nat
  | 0, _ => none
  | fuel + 1, pInfo =>
    if pInfo = pEnd then none
    else
      let pInfo := if pInfo = t.m_tableSize - 1 then 0 else pInfo + 1
      if p (t.m_table pInfo) then some pInfo else probe t p pEnd fuel pInfo

def probeEnd (t : Addr2OffMap) (pInfo : Nat) : Nat :=
  if t.m_tableSize ≤ pInfo + 3 then pInfo + 3 - t.m_tableSize else pInfo + 3

def store (t : Addr2OffMap) (pInfo : Nat) (p : AddrOffPair) : Addr2OffMap :=
  { t with m_table := Function.update t.m_table pInfo p }

def add_collide (t : Addr2OffMap) (p : AddrOffPair) (pInfo : Nat) : Option Addr2OffMap :=
  (t.probe (fun e => e.m_ptr = 0) (t.probeEnd pInfo) t.m_tableSize pInfo).map fun i => t.store i p

def lookup_collid (t : Addr2OffMap) (p pInfo : Nat) : Option AddrOffPair :=
  (t.probe (fun e => e.page = p / LARGE_PAGE_SIZE) (t.probeEnd pInfo) t.m_tableSize pInfo).map t.m_table

def lookup (t : Addr2OffMap) (p : Nat) : Option AddrOffPair :=
  let page := p / LARGE_PAGE_SIZE
  let pInfo := page % t.m_tableSize
  if (t.m_table pInfo).page = page then some (t.m_table pInfo) else t.lookup_collid p pInfo

def addEx (t : Addr2OffMap) (p : AddrOffPair) : Option Addr2OffMap :=
  let pInfo := p.page % t.m_tableSize
  if (t.m_table pInfo).m_ptr = 0 then some (t.store pInfo p) else t.add_collide p pInfo

def addAll (t newTable : Addr2OffMap) : Nat → Option Addr2OffMap
  | 0 => some newTable
  | n + 1 => do
    let newTable ← addAll t newTable n
    if (t.m_table n).m_ptr = 0 then some newTable else newTable.addEx (t.m_table n)

/--
The fuel bounds how often a table is too small. `none` without any left.
-/
def rehash (t : Addr2OffMap) : Nat → Nat → Option Addr2OffMap
  | 0, _ => none
  | fuel + 1, new_size =>
    let new_size := roundUp new_size
    match addAll t (alloc new_size) t.m_tableSize with
    | some newTable => some newTable
    | none => rehash t fuel (new_size * 2)

def add : Nat → Addr2OffMap → AddrOffPair → Option Addr2OffMap
  | 0, _, _ => none
  | fuel + 1, t, p =>
    match t.addEx p with
    | some t => some t
    | none => do
      let t ← t.rehash fuel (t.m_tableSize * 2)
      add fuel t p

variable {t t' : Addr2OffMap} {S : Set AddrOffPair} {e f p : AddrOffPair}

def slot (t : Addr2OffMap) (page k : Nat) : Nat :=
  (page + k) % t.m_tableSize

theorem slot_lt (h : 16 ≤ t.m_tableSize) (page k : Nat) : t.slot page k < t.m_tableSize :=
  Nat.mod_lt _ (by omega)

theorem add_mod_cases {a k n : Nat} (h : k < n)
    : (a + k) % n = if a % n + k < n then a % n + k else a % n + k - n := by
  have hlt : a % n < n := Nat.mod_lt _ (by omega)
  rw [Nat.add_mod, Nat.mod_eq_of_lt h]
  split
  . rename_i hsum
    exact Nat.mod_eq_of_lt hsum
  . rw [Nat.mod_eq_sub_mod (by omega), Nat.mod_eq_of_lt (by omega)]

theorem next_slot (h : 16 ≤ t.m_tableSize) (page k : Nat)
    : (if t.slot page k = t.m_tableSize - 1 then 0 else t.slot page k + 1) = t.slot page (k + 1) := by
  have hlt := t.slot_lt h page k
  unfold slot at *
  rw [← Nat.add_assoc, @add_mod_cases (page + k) 1 _ (by omega)]
  split <;> split <;> omega

theorem probeEnd_eq (h : 16 ≤ t.m_tableSize) (page : Nat) : t.probeEnd (t.slot page 0) = t.slot page 3 := by
  have hlt : page % t.m_tableSize < t.m_tableSize := Nat.mod_lt _ (by omega)
  unfold probeEnd slot
  rw [@add_mod_cases page 3 _ (by omega)]
  simp only [Nat.add_zero]
  split <;> split <;> omega

theorem slot_ne (h : 16 ≤ t.m_tableSize) {page k : Nat} (hk : k < 3) : t.slot page k ≠ t.slot page 3 := by
  have hlt : page % t.m_tableSize < t.m_tableSize := Nat.mod_lt _ (by omega)
  unfold slot
  rw [@add_mod_cases page 3 _ (by omega), @add_mod_cases page k _ (by omega)]
  split <;> split <;> omega

theorem probe_eq (h : 16 ≤ t.m_tableSize) (q : AddrOffPair → Bool) (page : Nat)
    : t.probe q (t.probeEnd (t.slot page 0)) t.m_tableSize (t.slot page 0) =
      ([1, 2, 3].map (t.slot page)).find? (fun i => q (t.m_table i)) := by
  have hstep : ∀ fuel k, k < 3 → t.probe q (t.slot page 3) (fuel + 1) (t.slot page k) =
      if q (t.m_table (t.slot page (k + 1))) then some (t.slot page (k + 1))
      else t.probe q (t.slot page 3) fuel (t.slot page (k + 1)) := by
    intro fuel k hk
    rw [probe, if_neg (slot_ne h hk)]
    dsimp only
    rw [next_slot h]
  obtain ⟨n, hn⟩ : ∃ n, t.m_tableSize = n + 1 + 1 + 1 + 1 := ⟨t.m_tableSize - 4, by omega⟩
  rw [probeEnd_eq h, hn, hstep _ 0 (by omega), hstep _ 1 (by omega), hstep _ 2 (by omega), probe, if_pos rfl]
  simp only [List.map_cons, List.map_nil, List.find?_cons, List.find?_nil]
  cases q (t.m_table (t.slot page (0 + 1))) <;> cases q (t.m_table (t.slot page (1 + 1))) <;>
    cases q (t.m_table (t.slot page (2 + 1))) <;> rfl

def MAX_PAGES : Nat := 2 ^ 28

structure Pages (S : Set AddrOffPair) : Prop where
  pos : ∀ e ∈ S, 0 < e.page
  lt : ∀ e ∈ S, e.page < MAX_PAGES
  inj : ∀ e ∈ S, ∀ f ∈ S, e.page = f.page → e = f

/--
The table has the pages of `S`. One that is larger than the number of pages has no collisions.
-/
structure Holds (t : Addr2OffMap) (S : Set AddrOffPair) : Prop where
  size : 16 ≤ t.m_tableSize
  found : ∀ e ∈ S, ∃ k ≤ 3, t.m_table (t.slot e.page k) = e
  stored : ∀ i < t.m_tableSize, (t.m_table i).m_ptr ≠ 0 → t.m_table i ∈ S
  once : ∀ i < t.m_tableSize, ∀ j < t.m_tableSize, (t.m_table i).m_ptr ≠ 0 → t.m_table i = t.m_table j → i = j
  home : MAX_PAGES ≤ t.m_tableSize → ∀ i < t.m_tableSize, (t.m_table i).m_ptr ≠ 0 → (t.m_table i).page = i

theorem ptr_ne_zero (h : 0 < e.page) : e.m_ptr ≠ 0 := by
  intro hz
  unfold AddrOffPair.page at h
  rw [hz, Nat.zero_div] at h
  exact Nat.lt_irrefl 0 h

theorem Holds.alloc {size : Nat} (h : 16 ≤ size) : Holds (alloc size) ∅ where
  size := h
  found _ he := nomatch he
  stored _ _ hne := absurd rfl hne
  once _ _ _ _ hne := absurd rfl hne
  home _ _ _ hne := absurd rfl hne

theorem Holds.lookup (h : Holds t S) (hS : Pages S) (he : e ∈ S) {ptr : Nat} (hptr : ptr / LARGE_PAGE_SIZE = e.page)
    : t.lookup ptr = some e := by
  -- a slot with the page holds `e`
  have hslot : ∀ k, (t.m_table (t.slot e.page k)).page = e.page → t.m_table (t.slot e.page k) = e := by
    intro k hk
    have hne : (t.m_table (t.slot e.page k)).m_ptr ≠ 0 := ptr_ne_zero (by rw [hk]; exact hS.pos e he)
    exact hS.inj _ (h.stored _ (slot_lt h.size _ _) hne) _ he hk
  have hhome : e.page % t.m_tableSize = t.slot e.page 0 := rfl
  obtain ⟨k, hk, hfound⟩ := h.found e he
  unfold Addr2OffMap.lookup
  dsimp only
  rw [hptr, hhome]
  split
  . rename_i hpage
    rw [hslot 0 hpage]
  . rename_i hpage
    have hk0 : k ≠ 0 := by
      rintro rfl
      exact hpage (by rw [hfound])
    unfold lookup_collid
    rw [hptr, probe_eq h.size]
    have hsome : (([1, 2, 3].map (t.slot e.page)).find? fun i => decide ((t.m_table i).page = e.page)).isSome := by
      rw [List.find?_isSome]
      refine ⟨t.slot e.page k, List.mem_map.mpr ⟨k, ?_, rfl⟩, by simp [hfound]⟩
      simp only [List.mem_cons, List.not_mem_nil, or_false]
      omega
    obtain ⟨i, hi⟩ := Option.isSome_iff_exists.mp hsome
    obtain ⟨l, -, rfl⟩ := List.mem_map.mp (List.mem_of_find?_eq_some hi)
    have hpred := List.find?_some hi
    rw [hi, Option.map_some, hslot l (of_decide_eq_true hpred)]

theorem addEx_eq_some (hsize : 16 ≤ t.m_tableSize) (h : t.addEx p = some t')
    : ∃ k ≤ 3, (t.m_table (t.slot p.page k)).m_ptr = 0 ∧ t' = t.store (t.slot p.page k) p ∧
      ((t.m_table (t.slot p.page 0)).m_ptr = 0 → k = 0) := by
  have hhome : p.page % t.m_tableSize = t.slot p.page 0 := rfl
  unfold addEx at h
  dsimp only at h
  rw [hhome] at h
  split at h
  . rename_i hfree
    exact ⟨0, by omega, hfree, (Option.some.inj h).symm, fun _ => rfl⟩
  . rename_i hfull
    unfold add_collide at h
    rw [probe_eq hsize, Option.map_eq_some_iff] at h
    obtain ⟨i, hi, rfl⟩ := h
    obtain ⟨k, hk, rfl⟩ := List.mem_map.mp (List.mem_of_find?_eq_some hi)
    have hpred := List.find?_some hi
    have hk : k ≤ 3 := by
      simp only [List.mem_cons, List.not_mem_nil, or_false] at hk
      omega
    exact ⟨k, hk, of_decide_eq_true hpred, rfl, fun hc => absurd hc hfull⟩

theorem Holds.home_free (h : Holds t S) (hbig : MAX_PAGES ≤ t.m_tableSize) (hlt : p.page < MAX_PAGES)
    (hnew : ∀ e ∈ S, e.page ≠ p.page) : (t.m_table (t.slot p.page 0)).m_ptr = 0 := by
  have hslot : t.slot p.page 0 = p.page := Nat.mod_eq_of_lt (by omega)
  by_contra hne
  rw [hslot] at hne
  exact hnew _ (h.stored _ (by omega) hne) (h.home hbig _ (by omega) hne)

theorem Holds.addEx (h : Holds t S) (hS : Pages S) (hlt : p.page < MAX_PAGES) (hnew : ∀ e ∈ S, e.page ≠ p.page)
    (hadd : t.addEx p = some t') : Holds t' (insert p S) ∧ t'.m_tableSize = t.m_tableSize := by
  obtain ⟨k, hk, hfree, rfl, hzero⟩ := addEx_eq_some h.size hadd
  have hsize := h.size
  have hi := slot_lt hsize p.page k
  generalize hslot : t.slot p.page k = i at *
  have hself : (t.store i p).m_table i = p := Function.update_self ..
  have hother : ∀ {j}, j ≠ i → (t.store i p).m_table j = t.m_table j := fun hj => Function.update_of_ne hj ..
  -- the new page is in no other slot
  have hnot : ∀ j < t.m_tableSize, (t.m_table j).m_ptr ≠ 0 → t.m_table j ≠ p := by
    intro j hj hne hc
    exact hnew _ (h.stored j hj hne) (by rw [hc])
  refine ⟨⟨hsize, ?_, ?_, ?_, ?_⟩, rfl⟩
  . rintro e (rfl | he)
    . exact ⟨k, hk, by rw [show (t.store i e).slot e.page k = i from hslot, hself]⟩
    . obtain ⟨l, hl, hfound⟩ := h.found e he
      refine ⟨l, hl, ?_⟩
      show (t.store i p).m_table (t.slot e.page l) = e
      rw [hother, hfound]
      rintro hc
      rw [hc] at hfound
      exact ptr_ne_zero (hS.pos e he) (hfound ▸ hfree)
  . intro j hj hne
    by_cases hji : j = i
    . subst hji
      rw [hself]
      exact .inl rfl
    . rw [hother hji] at hne ⊢
      exact .inr (h.stored j hj hne)
  . intro a ha b hb hne heq
    by_cases hai : a = i <;> by_cases hbi : b = i
    . omega
    . subst hai
      rw [hself] at hne heq
      rw [hother hbi] at heq
      exact absurd heq.symm (hnot b hb (heq ▸ hne))
    . subst hbi
      rw [hother hai] at hne heq
      rw [hself] at heq
      exact absurd heq (hnot a ha hne)
    . rw [hother hai] at hne heq
      rw [hother hbi] at heq
      exact h.once a ha b hb hne heq
  . intro hbig j hj hne
    by_cases hji : j = i
    . subst hji
      rw [hself, ← hslot, hzero (h.home_free hbig hlt hnew)]
      exact (Nat.mod_eq_of_lt (Nat.lt_of_lt_of_le hlt hbig)).symm
    . rw [hother hji] at hne ⊢
      exact h.home hbig j hj hne

def upTo (t : Addr2OffMap) (n : Nat) : Set AddrOffPair :=
  {e | ∃ i < n, (t.m_table i).m_ptr ≠ 0 ∧ t.m_table i = e}

theorem upTo_succ (t : Addr2OffMap) (n : Nat)
    : t.upTo (n + 1) = if (t.m_table n).m_ptr = 0 then t.upTo n else insert (t.m_table n) (t.upTo n) := by
  ext e
  split
  . rename_i hz
    constructor
    . rintro ⟨i, hi, hne, rfl⟩
      exact ⟨i, Nat.lt_of_le_of_ne (by omega) (fun hc => hne (hc ▸ hz)), hne, rfl⟩
    . rintro ⟨i, hi, hne, rfl⟩
      exact ⟨i, by omega, hne, rfl⟩
  . rename_i hne
    constructor
    . rintro ⟨i, hi, hi0, rfl⟩
      by_cases hin : i = n
      . exact .inl (by rw [hin])
      . exact .inr ⟨i, by omega, hi0, rfl⟩
    . rintro (rfl | ⟨i, hi, hi0, rfl⟩)
      . exact ⟨n, by omega, hne, rfl⟩
      . exact ⟨i, by omega, hi0, rfl⟩

theorem Holds.upTo_eq (h : Holds t S) (hS : Pages S) : t.upTo t.m_tableSize = S := by
  ext e
  constructor
  . rintro ⟨i, hi, hne, rfl⟩
    exact h.stored i hi hne
  . intro he
    obtain ⟨k, -, hfound⟩ := h.found e he
    exact ⟨_, slot_lt h.size _ k, by rw [hfound]; exact ptr_ne_zero (hS.pos e he), hfound⟩

theorem Holds.slot_new (h : Holds t S) (hS : Pages S) {n : Nat} (hn : n < t.m_tableSize)
    (hne : (t.m_table n).m_ptr ≠ 0) : ∀ e ∈ t.upTo n, e.page ≠ (t.m_table n).page := by
  rintro e ⟨i, hi, hi0, rfl⟩ heq
  have hsame := hS.inj _ (h.stored i (by omega) hi0) _ (h.stored n hn hne) heq
  have := h.once i (by omega) n hn hi0 hsame
  omega

theorem Holds.pages_upTo (h : Holds t S) (hS : Pages S) {n : Nat} (hn : n ≤ t.m_tableSize) : Pages (t.upTo n) := by
  have hsub : ∀ e ∈ t.upTo n, e ∈ S := by
    rintro e ⟨i, hi, hne, rfl⟩
    exact h.stored i (by omega) hne
  exact ⟨fun e he => hS.pos e (hsub e he), fun e he => hS.lt e (hsub e he),
    fun e he f hf => hS.inj e (hsub e he) f (hsub f hf)⟩

theorem Holds.addAll (h : Holds t S) (hS : Pages S) {size : Nat} (hsize : 16 ≤ size) (n : Nat)
    (hn : n ≤ t.m_tableSize) : (∀ t', t.addAll (.alloc size) n = some t' →
        Holds t' (t.upTo n) ∧ t'.m_tableSize = size) ∧
      (MAX_PAGES ≤ size → (t.addAll (.alloc size) n).isSome) := by
  induction n with
  | zero =>
    have hnone : t.upTo 0 = ∅ := by
      ext e
      exact ⟨fun ⟨i, hi, _⟩ => absurd hi (Nat.not_lt_zero i), fun he => nomatch he⟩
    refine ⟨fun t' ht => ?_, fun _ => rfl⟩
    rw [hnone, ← Option.some.inj ht]
    exact ⟨.alloc hsize, rfl⟩
  | succ n ih =>
    obtain ⟨hholds, hsome⟩ := ih (by omega)
    rw [upTo_succ, Addr2OffMap.addAll]
    by_cases hz : (t.m_table n).m_ptr = 0
    . simp only [if_pos hz]
      rw [show (do let newTable ← t.addAll (.alloc size) n; some newTable) = t.addAll (.alloc size) n from
        Option.bind_fun_some _]
      exact ⟨hholds, hsome⟩
    . simp only [if_neg hz]
      have hpages := h.pages_upTo hS (n := n) (by omega)
      have hmem := h.stored n (by omega) hz
      have hnew := h.slot_new hS (by omega) hz
      constructor
      . intro t' ht
        obtain ⟨t₁, ht₁, hadd⟩ := Option.bind_eq_some_iff.mp ht
        obtain ⟨h₁, hsize₁⟩ := hholds t₁ ht₁
        obtain ⟨h', hsize'⟩ := h₁.addEx hpages (hS.lt _ hmem) hnew hadd
        exact ⟨h', hsize'.trans hsize₁⟩
      . intro hbig
        obtain ⟨t₁, ht₁⟩ := Option.isSome_iff_exists.mp (hsome hbig)
        obtain ⟨h₁, hsize₁⟩ := hholds t₁ ht₁
        have hfree := h₁.home_free (by omega) (hS.lt _ hmem) hnew
        rw [ht₁]
        show (t₁.addEx (t.m_table n)).isSome
        rw [show t₁.addEx (t.m_table n) = some _ from if_pos hfree]
        rfl

theorem le_roundUp {n : Nat} (hn : n ≤ 1610612741) : n ≤ roundUp n := by
  have hlast : ∃ x ∈ (s_primeList.drop 1).take 29, decide (n ≤ x) = true :=
    ⟨1610612741, by decide, decide_eq_true hn⟩
  have hlt := List.findIdx_lt_length_of_exists hlast
  have hle := of_decide_eq_true (List.findIdx_getElem (w := hlt))
  unfold roundUp findRange
  rw [List.getElem_take, List.getElem_drop] at hle
  rw [List.getD_eq_getElem _ _ (by
    rw [List.length_take, List.length_drop] at hlt
    omega)]
  exact hle

theorem Holds.rehash (h : Holds t S) (hS : Pages S) (fuel new_size : Nat) (hsize : 16 ≤ new_size)
    (hmax : new_size ≤ 2 * MAX_PAGES) (hfuel : MAX_PAGES ≤ new_size * 2 ^ fuel)
    : ∃ t', t.rehash (fuel + 1) new_size = some t' ∧ Holds t' S ∧ new_size ≤ t'.m_tableSize := by
  have hround := @le_roundUp new_size (le_trans hmax (by decide))
  have hall := h.addAll hS (show 16 ≤ roundUp new_size by omega) t.m_tableSize (Nat.le_refl _)
  rw [h.upTo_eq hS] at hall
  induction fuel generalizing new_size with
  | zero =>
    obtain ⟨t', ht'⟩ := Option.isSome_iff_exists.mp (hall.2 (by omega))
    obtain ⟨h', hsize'⟩ := hall.1 t' ht'
    refine ⟨t', ?_, h', by omega⟩
    rw [Addr2OffMap.rehash, ht']
  | succ fuel ih =>
    rw [Addr2OffMap.rehash]
    cases hcopy : t.addAll (.alloc (roundUp new_size)) t.m_tableSize with
    | some t' =>
      obtain ⟨h', hsize'⟩ := hall.1 t' hcopy
      exact ⟨t', rfl, h', by omega⟩
    | none =>
      have hsmall : roundUp new_size < MAX_PAGES := by
        by_contra hbig
        have hsome := hall.2 (Nat.not_lt.mp hbig)
        rw [hcopy] at hsome
        nomatch hsome
      have hdouble : MAX_PAGES ≤ roundUp new_size * 2 * 2 ^ fuel := by
        rw [Nat.pow_succ'] at hfuel
        calc
          MAX_PAGES ≤ new_size * (2 * 2 ^ fuel) := hfuel
          _ ≤ roundUp new_size * (2 * 2 ^ fuel) := Nat.mul_le_mul_right _ hround
          _ = _ := (Nat.mul_assoc ..).symm
      have hround' := @le_roundUp (roundUp new_size * 2) (le_trans (by omega) (show 2 * MAX_PAGES ≤ _ by decide))
      have hall' := h.addAll hS (show 16 ≤ roundUp (roundUp new_size * 2) by omega) t.m_tableSize (Nat.le_refl _)
      rw [h.upTo_eq hS] at hall'
      obtain ⟨t', ht', h', hsize'⟩ := ih _ (by omega) (by omega) hdouble hround' hall'
      exact ⟨t', ht', h', by omega⟩

theorem Holds.add (h : Holds t S) (hS : Pages S) (hlt : p.page < MAX_PAGES) (hnew : ∀ e ∈ S, e.page ≠ p.page)
    (fuel : Nat) (hfuel : MAX_PAGES ≤ t.m_tableSize * 2 ^ fuel)
    : ∃ t', add (fuel + 1) t p = some t' ∧ Holds t' (insert p S) ∧ t.m_tableSize ≤ t'.m_tableSize := by
  induction fuel generalizing t with
  | zero =>
    have hfree := h.home_free (by omega) hlt hnew
    have hadd : t.addEx p = some (t.store (t.slot p.page 0) p) := if_pos hfree
    obtain ⟨h', hsize'⟩ := h.addEx hS hlt hnew hadd
    refine ⟨_, ?_, h', by omega⟩
    rw [Addr2OffMap.add, hadd]
  | succ fuel ih =>
    rw [Addr2OffMap.add]
    cases hadd : t.addEx p with
    | some t' =>
      obtain ⟨h', hsize'⟩ := h.addEx hS hlt hnew hadd
      exact ⟨t', rfl, h', by omega⟩
    | none =>
      have hsmall : t.m_tableSize < MAX_PAGES := by
        by_contra hbig
        have hfree := h.home_free (Nat.not_lt.mp hbig) hlt hnew
        rw [show t.addEx p = some (t.store (t.slot p.page 0) p) from if_pos hfree] at hadd
        nomatch hadd
      have hsize := h.size
      obtain ⟨t₁, ht₁, h₁, hsize₁⟩ := h.rehash hS fuel (t.m_tableSize * 2) (by omega) (by omega) (by
        rw [Nat.pow_succ'] at hfuel
        rw [Nat.mul_assoc]
        exact hfuel)
      have hfuel₁ : MAX_PAGES ≤ t₁.m_tableSize * 2 ^ fuel := by
        rw [Nat.pow_succ', ← Nat.mul_assoc] at hfuel
        exact le_trans hfuel (Nat.mul_le_mul_right _ hsize₁)
      obtain ⟨t', ht', h', hsize'⟩ := ih h₁ hfuel₁
      refine ⟨t', ?_, h', by omega⟩
      dsimp only
      rw [ht₁]
      exact ht'

end Addr2OffMap

end Lsmcd
