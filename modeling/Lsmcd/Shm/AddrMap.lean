import Lsmcd.Lib.Run
import Lsmcd.Shm.Addr2Off

/-!
`AddrMap` (`addrmap.h`, `addrmap.cpp`): the large pages that a file is mapped to, by their offset and by their
address.
-/

namespace Lsmcd

open Run

structure AddrMap where
  m_off2ptrTable : List Nat
  m_ptr2offTable : Addr2OffMap

namespace AddrMap

def LS_OK : Int := 0

def LS_FAIL : Int := -1

def new : AddrMap where
  m_off2ptrTable := []
  m_ptr2offTable := .alloc 16

def getMaxOffset (m : AddrMap) : Nat :=
  m.m_off2ptrTable.length * LARGE_PAGE_SIZE

def offset2ptr (m : AddrMap) (offset : Nat) : Option Nat :=
  (m.m_off2ptrTable[offset / LARGE_PAGE_SIZE]?).map fun page => page + offset % LARGE_PAGE_SIZE

def ptr2offset (m : AddrMap) (ptr : Nat) : Nat :=
  match m.m_ptr2offTable.lookup ptr with
  | none => 0
  | some pInfo => pInfo.m_offset + (ptr - pInfo.m_ptr)

def REHASHES : Nat := 25

def addLargePage (m : AddrMap) (info : AddrOffPair) («end» : Nat) : Nat → Option AddrMap
  | 0 => none
  | fuel + 1 =>
    if info.m_ptr < «end» then do
      let m_ptr2offTable ← Addr2OffMap.add REHASHES m.m_ptr2offTable info
      addLargePage { m_off2ptrTable := m.m_off2ptrTable ++ [info.m_ptr], m_ptr2offTable }
        ⟨info.m_ptr + LARGE_PAGE_SIZE, info.m_offset + LARGE_PAGE_SIZE⟩ «end» fuel
    else some m

/--
The difference is cut to an `int`.
-/
def needed (m : AddrMap) (total : Nat) : Int :=
  ((total : Int) - m.getMaxOffset).bmod (2 ^ 32)

def bytes (m : AddrMap) (total : Nat) : Nat :=
  ((m.needed total).toNat + (LARGE_PAGE_SIZE - 1)) / LARGE_PAGE_SIZE * LARGE_PAGE_SIZE

/--
`region` is what `mmap` returns for `bytes` and one page more. What is not in whole pages of it is given back.
-/
def mapAddrSpace (m : AddrMap) (total region : Nat) : Option (Int × AddrMap) :=
  if m.needed total ≤ 0 then some (LS_OK, m)
  else if region = 0 then some (LS_FAIL, m)
  else
    let bytes := m.bytes total
    let aligned := region % LARGE_PAGE_SIZE = 0
    let ptr := if aligned then region else region / LARGE_PAGE_SIZE * LARGE_PAGE_SIZE + LARGE_PAGE_SIZE
    let bytes := if aligned then bytes + LARGE_PAGE_SIZE else bytes
    (m.addLargePage ⟨ptr, m.getMaxOffset⟩ (ptr + bytes) (bytes / LARGE_PAGE_SIZE + 1)).map fun m => (LS_OK, m)

structure Call where
  total : Nat
  region : Nat

def step (m : AddrMap) (c : Call) : AddrMap :=
  ((m.mapAddrSpace c.total c.region).map Prod.snd).getD m

/--
`mmap` returns a region of the address space that does not overlap the pages in use.
-/
def Mapped (m : AddrMap) (c : Call) : Prop :=
  c.total < 2 ^ 32 ∧ (0 < m.needed c.total →
    0 < c.region ∧ c.region + (m.bytes c.total + LARGE_PAGE_SIZE) ≤ 2 ^ 48 ∧
      ∀ page ∈ m.m_off2ptrTable, page + LARGE_PAGE_SIZE ≤ c.region ∨
        c.region + (m.bytes c.total + LARGE_PAGE_SIZE) ≤ page)

def Fits (m : AddrMap) (c : Call) : Prop :=
  c.total < m.getMaxOffset + 2 ^ 31

def Covers (m : AddrMap) (c : Call) : Prop :=
  ∃ r, m.mapAddrSpace c.total c.region = some r ∧ (r.1 = LS_OK → c.total ≤ r.2.getMaxOffset)

structure Translates (m : AddrMap) : Prop where
  round_trip : ∀ offset < m.getMaxOffset, ∃ ptr, m.offset2ptr offset = some ptr ∧ m.ptr2offset ptr = offset
  distinct : ∀ o < m.getMaxOffset, ∀ o' < m.getMaxOffset, m.offset2ptr o = m.offset2ptr o' → o = o'
  lookup : ∀ i page, m.m_off2ptrTable[i]? = some page → ∀ ptr, page ≤ ptr → ptr < page + LARGE_PAGE_SIZE →
    m.m_ptr2offTable.lookup ptr = some ⟨page, i * LARGE_PAGE_SIZE⟩

variable {m m' : AddrMap} {c : Call}

def pairs (m : AddrMap) : Set AddrOffPair :=
  {e | ∃ i, m.m_off2ptrTable[i]? = some e.m_ptr ∧ e.m_offset = i * LARGE_PAGE_SIZE}

structure Inv (m : AddrMap) : Prop where
  aligned : ∀ page ∈ m.m_off2ptrTable, LARGE_PAGE_SIZE ∣ page
  pos : ∀ page ∈ m.m_off2ptrTable, 0 < page
  lt : ∀ page ∈ m.m_off2ptrTable, page < 2 ^ 48
  nodup : m.m_off2ptrTable.Nodup
  holds : m.m_ptr2offTable.Holds m.pairs

theorem Inv.new : Inv .new where
  aligned _ h := nomatch h
  pos _ h := nomatch h
  lt _ h := nomatch h
  nodup := .nil
  holds := by
    have hnone : pairs .new = ∅ := by
      ext e
      exact ⟨fun ⟨i, hi, _⟩ => (nomatch hi), fun he => (nomatch he)⟩
    rw [hnone]
    exact .alloc (by decide)

theorem page_lt {ptr : Nat} (h : ptr < 2 ^ 48) : ptr / LARGE_PAGE_SIZE < Addr2OffMap.MAX_PAGES := by
  unfold LARGE_PAGE_SIZE Addr2OffMap.MAX_PAGES
  omega

theorem eq_of_page {a b : Nat} (ha : LARGE_PAGE_SIZE ∣ a) (hb : LARGE_PAGE_SIZE ∣ b)
    (h : a / LARGE_PAGE_SIZE = b / LARGE_PAGE_SIZE) : a = b := by
  rw [← Nat.div_mul_cancel ha, ← Nat.div_mul_cancel hb, h]

theorem Inv.pages (h : Inv m) : Addr2OffMap.Pages m.pairs where
  pos := by
    rintro e ⟨i, hi, -⟩
    have hmem := List.mem_of_getElem? hi
    exact Nat.div_pos (Nat.le_of_dvd (h.pos _ hmem) (h.aligned _ hmem)) (by decide)
  lt := by
    rintro e ⟨i, hi, -⟩
    exact page_lt (h.lt _ (List.mem_of_getElem? hi))
  inj := by
    rintro e ⟨i, hi, hoff⟩ f ⟨j, hj, hoff'⟩ heq
    have hptr := eq_of_page (h.aligned _ (List.mem_of_getElem? hi)) (h.aligned _ (List.mem_of_getElem? hj)) heq
    obtain ⟨hlt, he⟩ := List.getElem?_eq_some_iff.mp hi
    obtain ⟨hlt', hf⟩ := List.getElem?_eq_some_iff.mp hj
    have hij : i = j := (h.nodup.getElem_inj_iff).mp (by rw [he, hf, hptr])
    obtain ⟨p, o⟩ := e
    obtain ⟨p', o'⟩ := f
    simp only at hptr hoff hoff'
    rw [hptr, hoff, hoff', hij]

theorem Inv.lookup (h : Inv m) {i page : Nat} (hpage : m.m_off2ptrTable[i]? = some page) {ptr : Nat} (hle : page ≤ ptr)
    (hlt : ptr < page + LARGE_PAGE_SIZE) : m.m_ptr2offTable.lookup ptr = some ⟨page, i * LARGE_PAGE_SIZE⟩ := by
  apply h.holds.lookup h.pages (show ⟨page, i * LARGE_PAGE_SIZE⟩ ∈ m.pairs from ⟨i, hpage, rfl⟩)
  obtain ⟨k, rfl⟩ := h.aligned page (List.mem_of_getElem? hpage)
  unfold AddrOffPair.page LARGE_PAGE_SIZE at *
  dsimp only
  omega

theorem offset2ptr_eq {offset : Nat} (h : offset < m.getMaxOffset)
    : ∃ page, m.m_off2ptrTable[offset / LARGE_PAGE_SIZE]? = some page ∧
      m.offset2ptr offset = some (page + offset % LARGE_PAGE_SIZE) := by
  have hlt : offset / LARGE_PAGE_SIZE < m.m_off2ptrTable.length := Nat.div_lt_of_lt_mul (by
    rw [Nat.mul_comm]
    exact h)
  refine ⟨_, List.getElem?_eq_getElem hlt, ?_⟩
  unfold offset2ptr
  rw [List.getElem?_eq_getElem hlt]
  rfl

theorem Inv.ptr2offset (h : Inv m) {offset : Nat} (hlt : offset < m.getMaxOffset) {ptr : Nat}
    (hptr : m.offset2ptr offset = some ptr) : m.ptr2offset ptr = offset := by
  obtain ⟨page, hpage, heq⟩ := offset2ptr_eq hlt
  obtain rfl := Option.some.inj (heq.symm.trans hptr)
  have hmod : offset % LARGE_PAGE_SIZE < LARGE_PAGE_SIZE := Nat.mod_lt _ (by decide)
  unfold AddrMap.ptr2offset
  rw [h.lookup hpage (Nat.le_add_right ..) (by omega)]
  dsimp only
  rw [Nat.add_sub_cancel_left, Nat.mul_comm]
  exact Nat.div_add_mod ..

theorem Inv.translates (h : Inv m) : Translates m where
  round_trip offset hlt := by
    obtain ⟨page, -, heq⟩ := offset2ptr_eq hlt
    exact ⟨_, heq, h.ptr2offset hlt heq⟩
  distinct o ho o' ho' heq := by
    obtain ⟨page, -, hptr⟩ := offset2ptr_eq ho
    rw [← h.ptr2offset ho hptr, ← h.ptr2offset ho' (heq ▸ hptr)]
  lookup i page hpage ptr hle hlt := h.lookup hpage hle hlt

theorem Inv.push (h : Inv m) {ptr : Nat} (haligned : LARGE_PAGE_SIZE ∣ ptr) (hpos : 0 < ptr) (hlt : ptr < 2 ^ 48)
    (hnew : ptr ∉ m.m_off2ptrTable)
    : ∃ t, Addr2OffMap.add REHASHES m.m_ptr2offTable ⟨ptr, m.getMaxOffset⟩ = some t ∧
      Inv ⟨m.m_off2ptrTable ++ [ptr], t⟩ := by
  have hpage : ∀ e ∈ m.pairs, e.page ≠ AddrOffPair.page ⟨ptr, m.getMaxOffset⟩ := by
    rintro e ⟨i, hi, -⟩ heq
    have hmem := List.mem_of_getElem? hi
    exact hnew (eq_of_page (h.aligned _ hmem) haligned heq ▸ hmem)
  have hsize := h.holds.size
  obtain ⟨t, ht, hholds, -⟩ := h.holds.add h.pages (page_lt hlt) hpage 24 (by
    unfold Addr2OffMap.MAX_PAGES
    omega)
  have hpairs : pairs ⟨m.m_off2ptrTable ++ [ptr], t⟩ = insert ⟨ptr, m.getMaxOffset⟩ m.pairs := by
    ext ⟨p, o⟩
    constructor
    . rintro ⟨i, hi, ho⟩
      dsimp only at hi ho
      rw [List.getElem?_append] at hi
      split at hi
      . exact .inr ⟨i, hi, ho⟩
      . rename_i hge
        obtain ⟨hlt, hp⟩ := List.getElem?_eq_some_iff.mp hi
        have hi : i = m.m_off2ptrTable.length := by
          rw [List.length_singleton] at hlt
          omega
        left
        rw [ho, hi, ← hp, List.getElem_singleton]
        rfl
    . rintro (heq | ⟨i, hi, ho⟩)
      . refine ⟨m.m_off2ptrTable.length, ?_, congrArg AddrOffPair.m_offset heq⟩
        rw [List.getElem?_concat_length]
        exact congrArg (fun e => some e.m_ptr) heq.symm
      . refine ⟨i, ?_, ho⟩
        rw [List.getElem?_append_left (List.getElem?_eq_some_iff.mp hi).1]
        exact hi
  refine ⟨t, ht, ?_, ?_, ?_, ?_, hpairs ▸ hholds⟩
  . intro page hp
    obtain hp | hp := List.mem_append.mp hp
    . exact h.aligned page hp
    . rw [List.mem_singleton.mp hp]
      exact haligned
  . intro page hp
    obtain hp | hp := List.mem_append.mp hp
    . exact h.pos page hp
    . rw [List.mem_singleton.mp hp]
      exact hpos
  . intro page hp
    obtain hp | hp := List.mem_append.mp hp
    . exact h.lt page hp
    . rw [List.mem_singleton.mp hp]
      exact hlt
  . exact h.nodup.append (List.nodup_singleton ptr) (fun p hp hs => hnew (List.mem_singleton.mp hs ▸ hp))

theorem Inv.addLargePage (h : Inv m) (ptr n : Nat) (haligned : LARGE_PAGE_SIZE ∣ ptr) (hpos : 0 < ptr)
    (hend : ptr + n * LARGE_PAGE_SIZE ≤ 2 ^ 48)
    (hnew : ∀ page ∈ m.m_off2ptrTable, page + LARGE_PAGE_SIZE ≤ ptr ∨ ptr + n * LARGE_PAGE_SIZE ≤ page)
    : ∃ m', m.addLargePage ⟨ptr, m.getMaxOffset⟩ (ptr + n * LARGE_PAGE_SIZE) (n + 1) = some m' ∧ Inv m' ∧
      m'.getMaxOffset = m.getMaxOffset + n * LARGE_PAGE_SIZE := by
  induction n generalizing m ptr with
  | zero =>
    refine ⟨m, ?_, h, by omega⟩
    rw [AddrMap.addLargePage, if_neg (by simp)]
  | succ n ih =>
    rw [Nat.succ_mul] at *
    have hsize : 0 < LARGE_PAGE_SIZE := by decide
    have hnot : ptr ∉ m.m_off2ptrTable := by
      intro hmem
      have := hnew ptr hmem
      omega
    obtain ⟨t, ht, hinv⟩ := h.push haligned hpos (by omega) hnot
    have hmax : getMaxOffset ⟨m.m_off2ptrTable ++ [ptr], t⟩ = m.getMaxOffset + LARGE_PAGE_SIZE := by
      unfold getMaxOffset
      rw [List.length_append, Nat.add_mul, List.length_singleton, Nat.one_mul]
    obtain ⟨m', hm', hinv', hmax'⟩ := ih hinv (ptr + LARGE_PAGE_SIZE) (Nat.dvd_add haligned (Nat.dvd_refl _)) (by omega) (by omega) (by
      intro page hpage
      obtain hpage | hpage := List.mem_append.mp hpage
      . have := hnew page hpage
        omega
      . rw [List.mem_singleton.mp hpage]
        exact .inl (Nat.le_refl _))
    refine ⟨m', ?_, hinv', by omega⟩
    have hend' : ptr + LARGE_PAGE_SIZE + n * LARGE_PAGE_SIZE = ptr + (n * LARGE_PAGE_SIZE + LARGE_PAGE_SIZE) := by omega
    rw [hmax, hend'] at hm'
    rw [AddrMap.addLargePage, if_pos (by dsimp only; omega), ht, Option.bind_eq_bind, Option.bind_some]
    dsimp only
    rw [hm']

theorem mapAddrSpace_of_le (h : m.needed c.total ≤ 0) : m.mapAddrSpace c.total c.region = some (LS_OK, m) :=
  if_pos h

theorem Inv.mapAddrSpace (h : Inv m) (hc : Mapped m c) (hneed : 0 < m.needed c.total)
    : ∃ m', m.mapAddrSpace c.total c.region = some (LS_OK, m') ∧ Inv m' ∧
      m.getMaxOffset + (m.needed c.total).toNat ≤ m'.getMaxOffset := by
  obtain ⟨-, hc⟩ := hc
  obtain ⟨hpos, hend, hapart⟩ := hc hneed
  have hbytes : ∃ k, m.bytes c.total = k * LARGE_PAGE_SIZE ∧ (m.needed c.total).toNat ≤ k * LARGE_PAGE_SIZE := by
    refine ⟨_, rfl, ?_⟩
    unfold LARGE_PAGE_SIZE
    omega
  obtain ⟨k, hk, hle⟩ := hbytes
  -- the pages that are kept lie in the region
  have hkept : ∃ n ptr, (if c.region % LARGE_PAGE_SIZE = 0 then c.region
        else c.region / LARGE_PAGE_SIZE * LARGE_PAGE_SIZE + LARGE_PAGE_SIZE) = ptr ∧
      (if c.region % LARGE_PAGE_SIZE = 0 then m.bytes c.total + LARGE_PAGE_SIZE else m.bytes c.total) =
        n * LARGE_PAGE_SIZE ∧ LARGE_PAGE_SIZE ∣ ptr ∧ c.region ≤ ptr ∧ k ≤ n ∧
      ptr + n * LARGE_PAGE_SIZE ≤ c.region + (m.bytes c.total + LARGE_PAGE_SIZE) := by
    by_cases haligned : c.region % LARGE_PAGE_SIZE = 0
    . refine ⟨k + 1, c.region, if_pos haligned, ?_, Nat.dvd_of_mod_eq_zero haligned, Nat.le_refl _, by omega, ?_⟩
      . rw [if_pos haligned, hk, Nat.succ_mul]
      . rw [hk, Nat.succ_mul]
    . refine ⟨k, _, rfl, ?_, ?_, ?_, Nat.le_refl _, ?_⟩
      . rw [if_neg haligned, hk]
      . rw [if_neg haligned]
        exact Nat.dvd_add (Nat.dvd_mul_left ..) (Nat.dvd_refl _)
      . rw [if_neg haligned]
        unfold LARGE_PAGE_SIZE
        omega
      . rw [if_neg haligned, hk]
        unfold LARGE_PAGE_SIZE
        omega
  obtain ⟨n, ptr, hptr, hn, haligned, hge, hkn, hinside⟩ := hkept
  have hkn := Nat.mul_le_mul_right LARGE_PAGE_SIZE hkn
  obtain ⟨m', hm', hinv, hmax⟩ := h.addLargePage ptr n haligned (by omega) (by omega) (fun page hpage => by
    have := hapart page hpage
    omega)
  refine ⟨m', ?_, hinv, by omega⟩
  unfold AddrMap.mapAddrSpace
  rw [if_neg (by omega), if_neg (by omega)]
  dsimp only
  rw [hptr, hn, Nat.mul_div_cancel n (by decide), hm', Option.map_some]

theorem Inv.step (h : Inv m) (hc : Mapped m c) : Inv (step m c) := by
  unfold AddrMap.step
  by_cases hneed : 0 < m.needed c.total
  . obtain ⟨m', hm', hinv, -⟩ := h.mapAddrSpace hc hneed
    rw [hm', Option.map_some, Option.getD_some]
    exact hinv
  . rw [mapAddrSpace_of_le (Int.not_lt.mp hneed), Option.map_some, Option.getD_some]
    exact h

theorem needed_eq (m : AddrMap) (total : Nat)
    : m.needed total = if ((total : Int) - m.getMaxOffset) % 2 ^ 32 < 2 ^ 31
      then ((total : Int) - m.getMaxOffset) % 2 ^ 32 else ((total : Int) - m.getMaxOffset) % 2 ^ 32 - 2 ^ 32 := by
  unfold needed
  rw [Int.bmod_def]
  rfl

theorem Inv.covers_iff (h : Inv m) (hc : Mapped m c) : Covers m c ↔ Fits m c := by
  have hneeded := m.needed_eq c.total
  have htotal := hc.1
  unfold Covers Fits
  by_cases hneed : 0 < m.needed c.total
  . obtain ⟨m', hm', -, hmax⟩ := h.mapAddrSpace hc hneed
    rw [hm']
    have hfits : c.total < m.getMaxOffset + 2 ^ 31 := by
      split at hneeded <;> omega
    refine ⟨fun _ => hfits, fun _ => ⟨_, rfl, fun _ => ?_⟩⟩
    dsimp only
    split at hneeded <;> omega
  . rw [mapAddrSpace_of_le (Int.not_lt.mp hneed)]
    constructor
    . rintro ⟨r, hr, hcover⟩
      obtain rfl := Option.some.inj hr
      have := hcover rfl
      dsimp only at this
      omega
    . intro hfits
      refine ⟨_, rfl, fun _ => ?_⟩
      dsimp only
      split at hneeded <;> omega

/--
In every run the pages are translated both ways. All that was asked for is mapped exactly when no call misses
more than an `int` can say.
-/
theorem mapped_iff (cs : List Call) (h : Meets step Mapped new cs)
    : (Meets step Covers new cs ↔ Meets step Fits new cs) ∧ Translates (exec step new cs) := by
  constructor
  . constructor
    . intro hcovers
      exact Meets.of_invariant Inv (fun _ _ hm hc => hm.step hc.1) (fun _ _ hm hc => (hm.covers_iff hc.1).mp hc.2) .new
        (h.and hcovers)
    . intro hfits
      exact Meets.of_invariant Inv (fun _ _ hm hc => hm.step hc.1) (fun _ _ hm hc => (hm.covers_iff hc.1).mpr hc.2) .new
        (h.and hfits)
  . exact (exec_invariant Inv (fun _ _ hm hc => hm.step hc) .new h).translates

theorem mapped_iff_sample
    : (Meets step Covers new [⟨0x200000, 0x7f0000001000⟩] ↔ Meets step Fits new [⟨0x200000, 0x7f0000001000⟩]) ∧
      Translates (exec step new [⟨0x200000, 0x7f0000001000⟩]) :=
  mapped_iff _ ⟨⟨by decide, fun _ => ⟨by decide, by decide, fun _ h => nomatch h⟩⟩, trivial⟩

/--
The first call asks for 2 GB, returns `LS_OK` and maps nothing.
-/
theorem mapAddrSpace_2GB
    : ¬ ∀ cs, Meets step Mapped new cs → Meets step Covers new cs := by
  intro h
  obtain ⟨r, hr, hcover⟩ := (h [⟨2 ^ 31, 2 ^ 32⟩] ⟨⟨by decide, fun hneed => absurd hneed (by decide)⟩, trivial⟩).1
  have hret : new.mapAddrSpace (2 ^ 31) (2 ^ 32) = some (LS_OK, new) := mapAddrSpace_of_le (c := ⟨2 ^ 31, 2 ^ 32⟩) (by decide)
  obtain rfl := Option.some.inj (hret.symm.trans hr)
  exact absurd (hcover rfl) (by decide)

end AddrMap

end Lsmcd
