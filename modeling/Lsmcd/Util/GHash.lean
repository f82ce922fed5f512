import Lsmcd.Lib.Buckets
import Lsmcd.Lib.Run
import Mathlib.Data.List.Perm.Subperm

/-!
`GHash` (`ghash.cpp`): a table of chains of elements, by pointer keys with a hash function and a comparison or
by the numbers themselves.
-/

namespace Lsmcd

open Linked Run

/--
A hash function and a comparison of pointers that go together.
-/
structure HashFn where
  hf : Nat → Nat
  vc : Nat → Nat → Int
  refl : ∀ k, vc k k = 0
  symm : ∀ k k', vc k k' = 0 → vc k' k = 0
  trans : ∀ k k' k'', vc k k' = 0 → vc k' k'' = 0 → vc k k'' = 0
  hash_eq : ∀ k k', vc k k' = 0 → hf k = hf k'

structure GHash where
  m_table : Nat → Nat
  m_capacity : Nat
  m_size : Nat
  m_pNext : Nat → Nat
  m_pKey : Nat → Nat
  m_pData : Nat → Nat
  m_hkey : Nat → Nat

namespace GHash

def s_prime_list : List Nat :=
  [7, 13, 29, 53, 97, 193, 389, 769, 1543, 3079, 6151, 12289, 24593, 49157, 98317, 196613, 393241,
    786433, 1572869, 3145739, 6291469, 12582917, 25165843, 50331653, 100663319, 201326611,
    402653189, 805306457, 1610612741, 3221225473, 4294967291]

/--
The search starts at the second prime and takes the last one without a comparison.
-/
def findRange (sz : Nat) : Nat :=
  1 + ((s_prime_list.drop 1).take 29).findIdx (fun p => decide (sz ≤ p))

def roundUp (sz : Nat) : Nat :=
  s_prime_list.getD (findRange sz) 0

def m_full_factor : Nat := 2

def m_grow_factor : Nat := 2

def new (init_size : Nat) : GHash where
  m_table _ := 0
  m_capacity := roundUp init_size
  m_size := 0
  m_pNext _ := 0
  m_pKey _ := 0
  m_pData _ := 0
  m_hkey _ := 0

def index (s : GHash) (iter : Nat) : Nat :=
  s.m_hkey iter % s.m_capacity

def begin (s : GHash) : Nat :=
  if s.m_size = 0 then 0 else scan s.m_table 0 s.m_capacity 0

def next (s : GHash) (iter : Nat) : Nat :=
  if iter = 0 then 0 else succ s.m_pNext 0 s.m_table s.index s.m_capacity iter

def elems (s : GHash) : List Nat :=
  cells s.next 0 s.m_size s.begin

/--
A size from 2^31 on is a negative `int`, for which there is no memory.
-/
def rehash (s : GHash) (malloc : Bool) : GHash :=
  let newSize := s_prime_list.getD (findRange s.m_capacity + m_grow_factor) 0
  if malloc = false ∨ 2 ^ 31 ≤ newSize then s
  else
    let r := relink 0 s.m_table s.index s.m_capacity (fun iter => s.m_hkey iter % newSize) s.m_size s.begin
      s.m_pNext (fun _ => 0)
    { s with m_table := r.2, m_capacity := newSize, m_pNext := r.1 }

def clear (s : GHash) : GHash :=
  { s with m_table := fun _ => 0, m_size := 0 }

def erase (s : GHash) (iter : Nat) : GHash :=
  if iter = 0 then s
  else
    let index := s.index iter
    let pElem := s.m_table index
    if pElem = iter then
      { s with m_table := Function.update s.m_table index (s.m_pNext iter), m_size := s.m_size - 1 }
    else
      let pElem := seek s.m_pNext 0 (fun p => s.m_pNext p = iter) (s.m_size + 1) pElem
      if pElem = 0 then s
      else { s with m_pNext := Function.update s.m_pNext pElem (s.m_pNext iter), m_size := s.m_size - 1 }

def find_num (s : GHash) (pKey : Nat) : Nat :=
  seek s.m_pNext 0 (fun pElem => pKey = s.m_pKey pElem) (s.m_size + 1) (s.m_table (pKey % s.m_capacity))

def find2 (f : HashFn) (s : GHash) (pKey key : Nat) : Nat :=
  seek s.m_pNext 0 (fun pElem => f.vc pKey (s.m_pKey pElem) = 0) (s.m_size + 1) (s.m_table (key % s.m_capacity))

/--
The answers of `malloc` for a larger table and of `g_pool` for an element, which is 0 when there is no memory.
-/
structure Memory where
  malloc : Bool
  pNew : Nat

def insert2 (s : GHash) (mem : Memory) (pKey pValue key : Nat) : Nat × GHash :=
  let s := if s.m_capacity < s.m_size * m_full_factor then s.rehash mem.malloc else s
  if mem.pNew = 0 then (0, s)
  else
    let index := key % s.m_capacity
    (mem.pNew, { s with
      m_table := Function.update s.m_table index mem.pNew
      m_size := s.m_size + 1
      m_pNext := Function.update s.m_pNext mem.pNew (s.m_table index)
      m_pKey := Function.update s.m_pKey mem.pNew pKey
      m_pData := Function.update s.m_pData mem.pNew pValue
      m_hkey := Function.update s.m_hkey mem.pNew key })

def insert_num (s : GHash) (mem : Memory) (pKey pValue : Nat) : Nat × GHash :=
  if s.find_num pKey ≠ 0 then (0, s) else s.insert2 mem pKey pValue pKey

def update_num (s : GHash) (mem : Memory) (pKey pValue : Nat) : Nat × GHash :=
  let iter := s.find_num pKey
  if iter ≠ 0 then (iter, { s with m_pData := Function.update s.m_pData iter pValue })
  else s.insert2 mem pKey pValue pKey

def insert_p (f : HashFn) (s : GHash) (mem : Memory) (pKey pValue : Nat) : Nat × GHash :=
  let key := f.hf pKey
  if find2 f s pKey key ≠ 0 then (0, s) else s.insert2 mem pKey pValue key

def update_p (f : HashFn) (s : GHash) (mem : Memory) (pKey pValue : Nat) : Nat × GHash :=
  let key := f.hf pKey
  let iter := find2 f s pKey key
  if iter ≠ 0 then
    (iter, { s with m_pKey := Function.update s.m_pKey iter pKey, m_pData := Function.update s.m_pData iter pValue })
  else s.insert2 mem pKey pValue key

def find_p (f : HashFn) (s : GHash) (pKey : Nat) : Nat :=
  find2 f s pKey (f.hf pKey)

/--
`m_find`, `m_insert` and `m_update` are set by whether there is a hash function.
-/
def find (m_hf : Option HashFn) (s : GHash) (pKey : Nat) : Nat :=
  match m_hf with
  | none => s.find_num pKey
  | some f => find_p f s pKey

def insert (m_hf : Option HashFn) (s : GHash) (mem : Memory) (pKey pValue : Nat) : Nat × GHash :=
  match m_hf with
  | none => s.insert_num mem pKey pValue
  | some f => insert_p f s mem pKey pValue

def update (m_hf : Option HashFn) (s : GHash) (mem : Memory) (pKey pValue : Nat) : Nat × GHash :=
  match m_hf with
  | none => s.update_num mem pKey pValue
  | some f => update_p f s mem pKey pValue

def Same (m_hf : Option HashFn) (k k' : Nat) : Prop :=
  match m_hf with
  | none => k = k'
  | some f => f.vc k k' = 0

instance (m_hf : Option HashFn) (k k' : Nat) : Decidable (Same m_hf k k') :=
  match m_hf with
  | none => inferInstanceAs (Decidable (k = k'))
  | some f => inferInstanceAs (Decidable (f.vc k k' = 0))

end GHash

/--
A table beside the map that it stands for: the value stored last for each key.
-/
structure GHashUse where
  hash : GHash
  map : Nat → Option Nat

namespace GHashUse

open GHash

inductive Op where
  | insert (mem : Memory) (pKey pValue : Nat)
  | update (mem : Memory) (pKey pValue : Nat)
  | erase (iter : Nat)
  | clear

def new (init_size : Nat) : GHashUse where
  hash := .new init_size
  map _ := none

def put (m_hf : Option HashFn) (map : Nat → Option Nat) (k : Nat) (v : Option Nat) : Nat → Option Nat :=
  fun k' => if Same m_hf k' k then v else map k'

def step (m_hf : Option HashFn) (u : GHashUse) : Op → GHashUse
  | .insert mem pKey pValue => {
    hash := (u.hash.insert m_hf mem pKey pValue).2
    map := if u.map pKey = none ∧ mem.pNew ≠ 0 then put m_hf u.map pKey (some pValue) else u.map }
  | .update mem pKey pValue => {
    hash := (u.hash.update m_hf mem pKey pValue).2
    map := if u.map pKey ≠ none ∨ mem.pNew ≠ 0 then put m_hf u.map pKey (some pValue) else u.map }
  | .erase iter => {
    hash := u.hash.erase iter
    map := if iter = 0 then u.map else put m_hf u.map (u.hash.m_pKey iter) none }
  | .clear => {
    hash := u.hash.clear
    map := fun _ => none }

/--
Keys are not null, new elements are not in use, erased ones are, and the list of primes has a larger table for
the elements.
-/
def Allowed (u : GHashUse) : Op → Prop
  | .insert mem pKey _ => pKey ≠ 0 ∧ mem.pNew ∉ u.hash.elems ∧ u.hash.m_size * m_full_factor ≤ 1610612741
  | .update mem pKey _ => pKey ≠ 0 ∧ mem.pNew ∉ u.hash.elems ∧ u.hash.m_size * m_full_factor ≤ 1610612741
  | .erase iter => iter = 0 ∨ iter ∈ u.hash.elems
  | .clear => True

def Returns (m_hf : Option HashFn) (u : GHashUse) : Op → Prop
  | .insert mem pKey pValue =>
    (u.map pKey ≠ none → u.hash.insert m_hf mem pKey pValue = (0, u.hash)) ∧
      (u.map pKey = none → (u.hash.insert m_hf mem pKey pValue).1 = mem.pNew)
  | .update mem pKey pValue =>
    (u.map pKey ≠ none → (u.hash.update m_hf mem pKey pValue).1 = u.hash.find m_hf pKey) ∧
      (u.map pKey = none → (u.hash.update m_hf mem pKey pValue).1 = mem.pNew)
  | _ => True

/--
The table is the map: `find` returns the element with the value of the key, and `begin` and `next` visit each
element once.
-/
structure IsMap (m_hf : Option HashFn) (u : GHashUse) : Prop where
  find_none : ∀ k, u.hash.find m_hf k = 0 ↔ u.map k = none
  find_some : ∀ k v, u.map k = some v → u.hash.find m_hf k ∈ u.hash.elems ∧
    Same m_hf k (u.hash.m_pKey (u.hash.find m_hf k)) ∧ u.hash.m_pData (u.hash.find m_hf k) = v
  visits : Chain u.hash.next 0 u.hash.begin u.hash.elems
  once : u.hash.elems.Nodup
  size : u.hash.m_size = u.hash.elems.length
  keys : ∀ x ∈ u.hash.elems, u.hash.m_pKey x ≠ 0 ∧ u.hash.find m_hf (u.hash.m_pKey x) = x

end GHashUse

namespace GHash

variable {m_hf : Option HashFn} {s : GHash} {xs : List Nat} {k k' k'' x : Nat}

def hash (m_hf : Option HashFn) (k : Nat) : Nat :=
  match m_hf with
  | none => k
  | some f => f.hf k

theorem Same.refl (m_hf : Option HashFn) (k : Nat) : Same m_hf k k := by
  cases m_hf with
  | none => rfl
  | some f => exact f.refl k

theorem Same.symm (h : Same m_hf k k') : Same m_hf k' k := by
  cases m_hf with
  | none => exact Eq.symm h
  | some f => exact f.symm k k' h

theorem Same.trans (h : Same m_hf k k') (h' : Same m_hf k' k'') : Same m_hf k k'' := by
  cases m_hf with
  | none => exact Eq.trans h h'
  | some f => exact f.trans k k' k'' h h'

theorem Same.hash_eq (h : Same m_hf k k') : hash m_hf k = hash m_hf k' := by
  cases m_hf with
  | none => exact h
  | some f => exact f.hash_eq k k' h

theorem find_eq (m_hf : Option HashFn) (s : GHash) (k : Nat)
    : s.find m_hf k = seek s.m_pNext 0 (fun pElem => Same m_hf k (s.m_pKey pElem)) (s.m_size + 1)
      (s.m_table (hash m_hf k % s.m_capacity)) := by
  cases m_hf <;> rfl

theorem insert_eq (m_hf : Option HashFn) (s : GHash) (mem : Memory) (k v : Nat)
    : s.insert m_hf mem k v = if s.find m_hf k ≠ 0 then (0, s) else s.insert2 mem k v (hash m_hf k) := by
  cases m_hf <;> rfl

def newKey (m_hf : Option HashFn) (s : GHash) (iter k : Nat) : Nat → Nat :=
  match m_hf with
  | none => s.m_pKey
  | some _ => Function.update s.m_pKey iter k

theorem update_eq (m_hf : Option HashFn) (s : GHash) (mem : Memory) (k v : Nat)
    : s.update m_hf mem k v = if s.find m_hf k ≠ 0 then
        (s.find m_hf k, { s with
          m_pKey := newKey m_hf s (s.find m_hf k) k
          m_pData := Function.update s.m_pData (s.find m_hf k) v })
      else s.insert2 mem k v (hash m_hf k) := by
  cases m_hf <;> rfl

structure Rep (m_hf : Option HashFn) (s : GHash) (xs : List Nat) : Prop where
  cap_pos : 0 < s.m_capacity
  buckets : Buckets s.m_pNext 0 s.m_table s.index s.m_capacity (· ∈ xs)
  nodup : xs.Nodup
  size : s.m_size = xs.length
  hkey : ∀ x ∈ xs, s.m_hkey x = hash m_hf (s.m_pKey x)
  keys : ∀ x ∈ xs, ∀ y ∈ xs, Same m_hf (s.m_pKey x) (s.m_pKey y) → x = y
  nonnull : ∀ x ∈ xs, s.m_pKey x ≠ 0

theorem Rep.index_lt (h : Rep m_hf s xs) (x : Nat) : s.index x < s.m_capacity :=
  Nat.mod_lt _ h.cap_pos

theorem Rep.ne_zero (h : Rep m_hf s xs) (hx : x ∈ xs) : x ≠ 0 :=
  h.buckets.ne_nil hx (h.index_lt x)

theorem Rep.fuel (h : Rep m_hf s xs) (ys : List Nat) (hnd : ys.Nodup) (hsub : ∀ y ∈ ys, y ∈ xs)
    : ys.length < s.m_size + 1 := by
  rw [h.size]
  exact Nat.lt_succ_of_le (List.subperm_of_subset hnd hsub).length_le

theorem Rep.find_cases (h : Rep m_hf s xs) (k : Nat)
    : (s.find m_hf k = 0 ∧ ∀ x ∈ xs, ¬ Same m_hf k (s.m_pKey x)) ∨
      (s.find m_hf k ∈ xs ∧ Same m_hf k (s.m_pKey (s.find m_hf k))) := by
  rw [find_eq]
  have hcases := h.buckets.seek_cases (Nat.mod_lt (hash m_hf k) h.cap_pos)
    (fun pElem => Same m_hf k (s.m_pKey pElem)) h.fuel
  generalize seek s.m_pNext 0 _ _ _ = r at *
  obtain ⟨hnil, hnone⟩ | ⟨hmem, -, hsame⟩ := hcases
  . refine .inl ⟨hnil, fun x hx hs => ?_⟩
    have hidx : s.index x = hash m_hf k % s.m_capacity := by
      rw [hs.hash_eq, ← h.hkey x hx]
      rfl
    exact of_decide_eq_false (hnone x hx hidx) hs
  . exact .inr ⟨hmem, of_decide_eq_true hsame⟩

theorem Rep.find_self (h : Rep m_hf s xs) (hx : x ∈ xs) (hs : Same m_hf k (s.m_pKey x)) : s.find m_hf k = x := by
  obtain ⟨-, hnone⟩ | ⟨hmem, hsame⟩ := h.find_cases k
  . exact absurd hs (hnone x hx)
  . exact h.keys _ hmem x hx (hsame.symm.trans hs)

theorem Rep.elems (h : Rep m_hf s xs) : Chain s.next 0 s.begin s.elems ∧ ∀ x, x ∈ s.elems ↔ x ∈ xs := by
  obtain ⟨ys, hc, hmem⟩ := h.buckets.traversal (Nat.zero_add s.m_capacity)
  have hmem : ∀ x, x ∈ ys ↔ x ∈ xs := fun x =>
    (hmem x).trans ⟨fun hx => hx.1, fun hx => ⟨hx, Nat.zero_le _, h.index_lt x⟩⟩
  have hlen : ys.length = s.m_size := by
    rw [h.size]
    exact ((List.perm_ext_iff_of_nodup hc.nodup h.nodup).mpr hmem).length_eq
  have hbegin : s.begin = scan s.m_table 0 s.m_capacity 0 := by
    unfold begin
    split
    . rename_i hzero
      have hnil : ys = [] := List.eq_nil_of_length_eq_zero (hlen.trans hzero)
      rw [hnil] at hc
      exact (chain_nil_iff.mp hc).symm
    . rfl
  have hchain : Chain s.next 0 s.begin ys := by
    rw [hbegin]
    apply hc.congr
    intro x hx
    exact if_neg (h.ne_zero ((hmem x).mp hx))
  have helems : s.elems = ys := hchain.cells_eq (Nat.le_of_eq hlen)
  rw [helems]
  exact ⟨hchain, hmem⟩

theorem findRange_le {n : Nat} (hn : n ≤ 1610612741) : findRange n ≤ 28 := by
  unfold findRange
  by_contra hlt
  have hlt : 27 < ((s_prime_list.drop 1).take 29).findIdx (fun p => decide (n ≤ p)) := by omega
  have hfalse := List.not_of_lt_findIdx hlt
  exact absurd hn (of_decide_eq_false hfalse)

theorem Rep.rehash (h : Rep m_hf s xs) (malloc : Bool) (hcap : s.m_capacity ≤ 1610612741)
    : Rep m_hf (s.rehash malloc) xs := by
  unfold GHash.rehash
  dsimp only
  have hpos : 0 < s_prime_list.getD (findRange s.m_capacity + m_grow_factor) 0 := by
    have hall : ∀ i ≤ 28, 0 < s_prime_list.getD (i + 2) 0 := by decide
    exact hall _ (findRange_le hcap)
  generalize s_prime_list.getD (findRange s.m_capacity + m_grow_factor) 0 = newSize at *
  split
  . exact h
  . obtain ⟨hchain, hmem⟩ := h.elems
    have hlen : s.elems.length ≤ s.m_size := Nat.le_of_lt_succ (h.fuel _ hchain.nodup (fun x hx => (hmem x).mp hx))
    have hsucc : Chain (succ s.m_pNext 0 s.m_table s.index s.m_capacity) 0 s.begin s.elems := by
      apply hchain.congr
      intro x hx
      exact (if_neg (h.ne_zero ((hmem x).mp hx))).symm
    have hempty : Buckets s.m_pNext 0 (fun _ => 0) (fun iter => s.m_hkey iter % newSize) newSize (fun _ => False) :=
      .empty (fun _ _ => rfl) (fun _ hx => hx)
    exact {
      cap_pos := hpos
      buckets := (hempty.relink hsucc (fun _ _ hx => hx) hlen).congr (fun _ _ => rfl) (fun _ _ => rfl)
        (fun _ _ => rfl) (fun x => by rw [hmem, or_false])
      nodup := h.nodup
      size := h.size
      hkey := h.hkey
      keys := h.keys
      nonnull := h.nonnull }

theorem Rep.clear (h : Rep m_hf s xs) : Rep m_hf s.clear [] where
  cap_pos := h.cap_pos
  buckets := .empty (fun _ _ => rfl) (fun _ hx => nomatch hx)
  nodup := .nil
  size := rfl
  hkey _ hx := nomatch hx
  keys _ hx := nomatch hx
  nonnull _ hx := nomatch hx

theorem Rep.without (h : Rep m_hf s xs) (hx : x ∈ xs) {s' : GHash} (hcap : s'.m_capacity = s.m_capacity)
    (hsize : s'.m_size = s.m_size - 1) (hkey : s'.m_pKey = s.m_pKey) (hhkey : s'.m_hkey = s.m_hkey)
    (hbuckets : Buckets s'.m_pNext 0 s'.m_table s'.index s'.m_capacity (fun y => y ∈ xs ∧ y ≠ x))
    : Rep m_hf s' (xs.erase x) where
  cap_pos := hcap ▸ h.cap_pos
  buckets := hbuckets.congr (fun _ _ => rfl) (fun _ _ => rfl) (fun _ _ => rfl)
    (fun y => by rw [h.nodup.mem_erase_iff, and_comm])
  nodup := h.nodup.erase x
  size := by rw [hsize, h.size, List.length_erase_of_mem hx]
  hkey y hy := by rw [hhkey, hkey]; exact h.hkey y (List.mem_of_mem_erase hy)
  keys y hy z hz := by rw [hkey]; exact h.keys y (List.mem_of_mem_erase hy) z (List.mem_of_mem_erase hz)
  nonnull y hy := by rw [hkey]; exact h.nonnull y (List.mem_of_mem_erase hy)

theorem Rep.erase (h : Rep m_hf s xs) (hx : x ∈ xs) : Rep m_hf (s.erase x) (xs.erase x) := by
  have hne := h.ne_zero hx
  unfold GHash.erase
  rw [if_neg hne]
  dsimp only
  split
  . rename_i hhead
    exact h.without hx rfl rfl rfl rfl (h.buckets.pop hne hhead)
  . -- the element has a predecessor in its bucket
    rename_i hhead
    obtain ⟨p, hp, hidx, hpx⟩ := h.buckets.exists_pred hx (h.index_lt x) hhead
    have hcases := h.buckets.seek_cases (h.index_lt x) (fun p => s.m_pNext p = x) h.fuel
    generalize seek s.m_pNext 0 _ _ _ = r at *
    obtain ⟨-, hnone⟩ | ⟨hr, -, hrx⟩ := hcases
    . exact absurd hpx (of_decide_eq_false (hnone p hp hidx))
    . rw [if_neg (h.ne_zero hr)]
      exact h.without hx rfl rfl rfl rfl (h.buckets.unlink hne hr (h.index_lt r) (of_decide_eq_true hrx))

theorem rehash_fields (s : GHash) (malloc : Bool) : (s.rehash malloc).m_pKey = s.m_pKey ∧
    (s.rehash malloc).m_pData = s.m_pData ∧ (s.rehash malloc).m_hkey = s.m_hkey ∧
    (s.rehash malloc).m_size = s.m_size := by
  unfold GHash.rehash
  dsimp only
  split
  . exact ⟨rfl, rfl, rfl, rfl⟩
  . exact ⟨rfl, rfl, rfl, rfl⟩

theorem Rep.grown (h : Rep m_hf s xs) (malloc : Bool) (hsize : s.m_size * m_full_factor ≤ 1610612741)
    : ∃ s', (if s.m_capacity < s.m_size * m_full_factor then s.rehash malloc else s) = s' ∧ Rep m_hf s' xs ∧
      s'.m_pKey = s.m_pKey ∧ s'.m_pData = s.m_pData := by
  refine ⟨_, rfl, ?_⟩
  split
  . rename_i hfull
    have hfields := s.rehash_fields malloc
    exact ⟨h.rehash malloc (by omega), hfields.1, hfields.2.1⟩
  . exact ⟨h, rfl, rfl⟩

theorem Rep.push (h : Rep m_hf s xs) {e v : Nat} (he : e ∉ xs) (hne : e ≠ 0) (hk : k ≠ 0)
    (hnew : ∀ x ∈ xs, ¬ Same m_hf k (s.m_pKey x)) : Rep m_hf { s with
      m_table := Function.update s.m_table (hash m_hf k % s.m_capacity) e
      m_size := s.m_size + 1
      m_pNext := Function.update s.m_pNext e (s.m_table (hash m_hf k % s.m_capacity))
      m_pKey := Function.update s.m_pKey e k
      m_pData := Function.update s.m_pData e v
      m_hkey := Function.update s.m_hkey e (hash m_hf k) } (e :: xs) := by
  have hother : ∀ {x}, x ∈ xs → x ≠ e := fun hx hc => he (hc ▸ hx)
  have hbuckets : Buckets s.m_pNext 0 s.m_table
      (fun x => Function.update s.m_hkey e (hash m_hf k) x % s.m_capacity) s.m_capacity (· ∈ xs) :=
    h.buckets.congr (fun _ _ => rfl) (fun _ _ => rfl)
      (fun x hx => by rw [Function.update_of_ne (hother hx)]; rfl) (fun _ => Iff.rfl)
  have hpush := hbuckets.push he hne
  rw [Function.update_self] at hpush
  refine ⟨h.cap_pos, ?_, List.nodup_cons.mpr ⟨he, h.nodup⟩, ?_, ?_, ?_, ?_⟩
  . exact hpush.congr (fun _ _ => rfl) (fun _ _ => rfl) (fun _ _ => rfl) (fun _ => List.mem_cons)
  . rw [List.length_cons, ← h.size]
  . intro x hx
    dsimp only
    obtain rfl | hx := List.mem_cons.mp hx
    . rw [Function.update_self, Function.update_self]
    . rw [Function.update_of_ne (hother hx), Function.update_of_ne (hother hx)]
      exact h.hkey x hx
  . intro x hx y hy
    dsimp only
    obtain rfl | hx' := List.mem_cons.mp hx <;> obtain rfl | hy' := List.mem_cons.mp hy
    . exact fun _ => rfl
    . rw [Function.update_self, Function.update_of_ne (hother hy')]
      exact fun hs => absurd hs (hnew y hy')
    . rw [Function.update_self, Function.update_of_ne (hother hx')]
      exact fun hs => absurd hs.symm (hnew x hx')
    . rw [Function.update_of_ne (hother hx'), Function.update_of_ne (hother hy')]
      exact h.keys x hx' y hy'
  . intro x hx
    dsimp only
    obtain rfl | hx := List.mem_cons.mp hx
    . rw [Function.update_self]
      exact hk
    . rw [Function.update_of_ne (hother hx)]
      exact h.nonnull x hx

theorem Rep.rekey (h : Rep m_hf s xs) (hx : x ∈ xs) (hs : Same m_hf k (s.m_pKey x)) (hk : k ≠ 0) (data : Nat → Nat)
    : Rep m_hf { s with m_pKey := newKey m_hf s x k, m_pData := data } xs ∧
      ∀ y, Same m_hf (newKey m_hf s x k y) (s.m_pKey y) := by
  have hsame : ∀ y, Same m_hf (newKey m_hf s x k y) (s.m_pKey y) := by
    intro y
    cases m_hf with
    | none => exact .refl none _
    | some f =>
      by_cases hy : y = x
      . subst hy
        rw [show newKey (some f) s y k y = k from Function.update_self ..]
        exact hs
      . rw [show newKey (some f) s x k y = s.m_pKey y from Function.update_of_ne hy ..]
        exact .refl (some f) _
  refine ⟨⟨h.cap_pos, h.buckets, h.nodup, h.size, ?_, ?_, ?_⟩, hsame⟩
  . intro y hy
    exact (h.hkey y hy).trans (hsame y).hash_eq.symm
  . intro y hy z hz hyz
    exact h.keys y hy z hz ((hsame y).symm.trans (hyz.trans (hsame z)))
  . intro y hy
    cases m_hf with
    | none => exact h.nonnull y hy
    | some f =>
      dsimp only
      by_cases hyx : y = x
      . subst hyx
        rw [show newKey (some f) s y k y = k from Function.update_self ..]
        exact hk
      . rw [show newKey (some f) s x k y = s.m_pKey y from Function.update_of_ne hyx ..]
        exact h.nonnull y hy

theorem erase_fields (s : GHash) (iter : Nat) : (s.erase iter).m_pKey = s.m_pKey ∧
    (s.erase iter).m_pData = s.m_pData := by
  unfold GHash.erase
  dsimp only
  split
  . exact ⟨rfl, rfl⟩
  . split
    . exact ⟨rfl, rfl⟩
    . split
      . exact ⟨rfl, rfl⟩
      . exact ⟨rfl, rfl⟩

end GHash

namespace GHashUse

open GHash

variable {m_hf : Option HashFn} {u : GHashUse} {xs : List Nat} {k v : Nat}

structure Inv (m_hf : Option HashFn) (u : GHashUse) (xs : List Nat) : Prop where
  rep : Rep m_hf u.hash xs
  map : ∀ k v, u.map k = some v ↔ ∃ x ∈ xs, Same m_hf k (u.hash.m_pKey x) ∧ u.hash.m_pData x = v

theorem Inv.map_none (h : Inv m_hf u xs) (k : Nat)
    : u.map k = none ↔ ∀ x ∈ xs, ¬ Same m_hf k (u.hash.m_pKey x) := by
  constructor
  . intro hnone x hx hs
    have := (h.map k _).mpr ⟨x, hx, hs, rfl⟩
    rw [hnone] at this
    nomatch this
  . intro hall
    by_contra hne
    obtain ⟨v, hv⟩ := Option.ne_none_iff_exists'.mp hne
    obtain ⟨x, hx, hs, -⟩ := (h.map k v).mp hv
    exact hall x hx hs

theorem Inv.find_none (h : Inv m_hf u xs) (k : Nat) : u.hash.find m_hf k = 0 ↔ u.map k = none := by
  rw [h.map_none]
  obtain ⟨hzero, hnone⟩ | ⟨hmem, hs⟩ := h.rep.find_cases k
  . exact ⟨fun _ => hnone, fun _ => hzero⟩
  . exact ⟨fun hz => absurd hz (h.rep.ne_zero hmem), fun hall => absurd hs (hall _ hmem)⟩

theorem Inv.isMap (h : Inv m_hf u xs) : IsMap m_hf u := by
  obtain ⟨hchain, hmem⟩ := h.rep.elems
  refine ⟨h.find_none, ?_, hchain, hchain.nodup, ?_, ?_⟩
  . intro k v hv
    obtain ⟨x, hx, hs, hdata⟩ := (h.map k v).mp hv
    rw [h.rep.find_self hx hs]
    exact ⟨(hmem x).mpr hx, hs, hdata⟩
  . rw [h.rep.size]
    exact ((List.perm_ext_iff_of_nodup hchain.nodup h.rep.nodup).mpr hmem).length_eq.symm
  . intro x hx
    have hx := (hmem x).mp hx
    exact ⟨h.rep.nonnull x hx, h.rep.find_self hx (.refl m_hf _)⟩

theorem Inv.new (m_hf : Option HashFn) {init_size : Nat} (hsize : 0 < GHash.roundUp init_size)
    : Inv m_hf (.new init_size) [] where
  rep := {
    cap_pos := hsize
    buckets := .empty (fun _ _ => rfl) (fun _ hx => nomatch hx)
    nodup := .nil
    size := rfl
    hkey := fun _ hx => nomatch hx
    keys := fun _ hx => nomatch hx
    nonnull := fun _ hx => nomatch hx }
  map _ _ := ⟨fun hc => (nomatch hc), fun ⟨_, hx, _⟩ => (nomatch hx)⟩

theorem Inv.insert2 (h : Inv m_hf u xs) (hnone : u.map k = none) (hk : k ≠ 0) {mem : Memory}
    (hnew : mem.pNew ∉ u.hash.elems) (hsize : u.hash.m_size * m_full_factor ≤ 1610612741)
    : (u.hash.insert2 mem k v (GHash.hash m_hf k)).1 = mem.pNew ∧
      ∃ xs', Inv m_hf { hash := (u.hash.insert2 mem k v (GHash.hash m_hf k)).2
                        map := if mem.pNew ≠ 0 then put m_hf u.map k (some v) else u.map } xs' := by
  have hnew : mem.pNew ∉ xs := fun hc => hnew ((h.rep.elems.2 _).mpr hc)
  have hkeys := (h.map_none k).mp hnone
  obtain ⟨s', hs', hrep, hkey, hdata⟩ := h.rep.grown mem.malloc hsize
  unfold GHash.insert2
  dsimp only
  rw [hs']
  by_cases hz : mem.pNew = 0
  . rw [if_pos hz, if_neg (not_not.mpr hz)]
    refine ⟨hz.symm, xs, hrep, ?_⟩
    dsimp only
    rw [hkey, hdata]
    exact h.map
  . rw [if_neg hz, if_pos hz]
    refine ⟨rfl, _, hrep.push hnew hz hk (by rw [hkey]; exact hkeys), fun k' v' => ?_⟩
    have hother : ∀ {x}, x ∈ xs → x ≠ mem.pNew := fun hx hc => hnew (hc ▸ hx)
    have hmap := h.map k' v'
    dsimp only
    rw [hkey, hdata]
    unfold put
    by_cases hs : Same m_hf k' k
    . rw [if_pos hs]
      constructor
      . rintro hv
        refine ⟨_, List.mem_cons_self, ?_⟩
        rw [Function.update_self, Function.update_self]
        exact ⟨hs, Option.some.inj hv⟩
      . rintro ⟨x, hx, hsx, hv⟩
        obtain rfl | hx := List.mem_cons.mp hx
        . rw [Function.update_self] at hv
          rw [hv]
        . rw [Function.update_of_ne (hother hx)] at hsx
          exact absurd (hs.symm.trans hsx) (hkeys x hx)
    . rw [if_neg hs, hmap]
      constructor
      . rintro ⟨x, hx, hsx, hv⟩
        refine ⟨x, List.mem_cons_of_mem _ hx, ?_⟩
        rw [Function.update_of_ne (hother hx), Function.update_of_ne (hother hx)]
        exact ⟨hsx, hv⟩
      . rintro ⟨x, hx, hsx, hv⟩
        obtain rfl | hx := List.mem_cons.mp hx
        . rw [Function.update_self] at hsx
          exact absurd hsx hs
        . rw [Function.update_of_ne (hother hx)] at hsx hv
          exact ⟨x, hx, hsx, hv⟩

theorem Inv.assign (h : Inv m_hf u xs) (hsome : u.map k ≠ none) (hk : k ≠ 0)
    : Inv m_hf { hash := { u.hash with
                   m_pKey := newKey m_hf u.hash (u.hash.find m_hf k) k
                   m_pData := Function.update u.hash.m_pData (u.hash.find m_hf k) v }
                 map := put m_hf u.map k (some v) } xs := by
  obtain ⟨hzero, -⟩ | ⟨hmem, hsame⟩ := h.rep.find_cases k
  . exact absurd ((h.find_none k).mp hzero) hsome
  generalize u.hash.find m_hf k = x at *
  obtain ⟨hrep, hkeys⟩ := h.rep.rekey hmem hsame hk (Function.update u.hash.m_pData x v)
  refine ⟨hrep, fun k' v' => ?_⟩
  -- only `x` has the key
  have honly : ∀ y ∈ xs, Same m_hf k (u.hash.m_pKey y) → y = x := fun y hy hs =>
    h.rep.keys y hy x hmem (hs.symm.trans hsame)
  dsimp only
  unfold put
  by_cases hs : Same m_hf k' k
  . rw [if_pos hs]
    constructor
    . intro hv
      refine ⟨x, hmem, hs.trans (hsame.trans (hkeys x).symm), ?_⟩
      rw [Function.update_self]
      exact Option.some.inj hv
    . rintro ⟨y, hy, hsy, hv⟩
      have hyx := honly y hy (hs.symm.trans (hsy.trans (hkeys y)))
      rw [hyx, Function.update_self] at hv
      rw [hv]
  . rw [if_neg hs, h.map]
    constructor
    . rintro ⟨y, hy, hsy, hv⟩
      have hyx : y ≠ x := fun hc => hs (hsy.trans (hc ▸ hsame.symm))
      refine ⟨y, hy, hsy.trans (hkeys y).symm, ?_⟩
      rw [Function.update_of_ne hyx]
      exact hv
    . rintro ⟨y, hy, hsy, hv⟩
      have hsy := hsy.trans (hkeys y)
      have hyx : y ≠ x := fun hc => hs (hsy.trans (hc ▸ hsame.symm))
      rw [Function.update_of_ne hyx] at hv
      exact ⟨y, hy, hsy, hv⟩

theorem Inv.erase (h : Inv m_hf u xs) {x : Nat} (hx : x ∈ xs)
    : Inv m_hf { hash := u.hash.erase x, map := put m_hf u.map (u.hash.m_pKey x) none } (xs.erase x) where
  rep := h.rep.erase hx
  map k v := by
    obtain ⟨hkey, hdata⟩ := u.hash.erase_fields x
    dsimp only
    rw [hkey, hdata]
    unfold put
    by_cases hs : Same m_hf k (u.hash.m_pKey x)
    . rw [if_pos hs]
      refine ⟨fun hc => (nomatch hc), ?_⟩
      rintro ⟨y, hy, hsy, -⟩
      obtain ⟨hyx, hy⟩ := h.rep.nodup.mem_erase_iff.mp hy
      exact absurd (h.rep.keys y hy x hx (hsy.symm.trans hs)) hyx
    . rw [if_neg hs, h.map]
      constructor
      . rintro ⟨y, hy, hsy, hv⟩
        exact ⟨y, h.rep.nodup.mem_erase_iff.mpr ⟨fun hc => hs (hc ▸ hsy), hy⟩, hsy, hv⟩
      . rintro ⟨y, hy, hsy, hv⟩
        exact ⟨y, List.mem_of_mem_erase hy, hsy, hv⟩

theorem Inv.step (h : Inv m_hf u xs) (op : Op) (hop : Allowed u op)
    : Returns m_hf u op ∧ ∃ xs', Inv m_hf (step m_hf u op) xs' := by
  cases op with
  | insert mem k v =>
    obtain ⟨hk, hnew, hsize⟩ := hop
    unfold Returns GHashUse.step
    dsimp only
    rw [insert_eq]
    by_cases hnone : u.map k = none
    . obtain ⟨hret, xs', hinv⟩ := @Inv.insert2 m_hf u xs k v h hnone hk mem hnew hsize
      rw [if_neg (not_not.mpr ((h.find_none k).mpr hnone))]
      refine ⟨⟨fun hc => absurd hnone hc, fun _ => hret⟩, xs', ?_⟩
      simp only [hnone, true_and]
      exact hinv
    . rw [if_pos fun hz => hnone ((h.find_none k).mp hz), if_neg fun hc => hnone hc.1]
      exact ⟨⟨fun _ => rfl, fun hc => absurd hc hnone⟩, xs, h⟩
  | update mem k v =>
    obtain ⟨hk, hnew, hsize⟩ := hop
    unfold Returns GHashUse.step
    dsimp only
    rw [update_eq]
    by_cases hnone : u.map k = none
    . obtain ⟨hret, xs', hinv⟩ := @Inv.insert2 m_hf u xs k v h hnone hk mem hnew hsize
      rw [if_neg (not_not.mpr ((h.find_none k).mpr hnone))]
      refine ⟨⟨fun hc => absurd hnone hc, fun _ => hret⟩, xs', ?_⟩
      simp only [hnone, ne_eq, not_true_eq_false, false_or]
      exact hinv
    . rw [if_pos fun hz => hnone ((h.find_none k).mp hz), if_pos (.inl hnone)]
      exact ⟨⟨fun _ => rfl, fun hc => absurd hc hnone⟩, xs, h.assign hnone hk⟩
  | erase iter =>
    refine ⟨trivial, ?_⟩
    unfold GHashUse.step
    dsimp only
    by_cases hz : iter = 0
    . rw [if_pos hz, show u.hash.erase iter = u.hash from if_pos hz]
      exact ⟨xs, h⟩
    . rw [if_neg hz]
      exact ⟨_, h.erase ((h.rep.elems.2 iter).mp (hop.resolve_left hz))⟩
  | clear =>
    exact ⟨trivial, [], h.rep.clear, fun _ _ => ⟨fun hc => (nomatch hc), fun ⟨_, hx, _⟩ => (nomatch hx)⟩⟩

theorem roundUp_pos (init_size : Nat) : 0 < GHash.roundUp init_size := by
  have hlt : GHash.findRange init_size < 31 := by
    have hle := @List.findIdx_le_length _ (fun p => decide (init_size ≤ p)) ((s_prime_list.drop 1).take 29)
    unfold GHash.findRange
    have hlen : ((s_prime_list.drop 1).take 29).length = 29 := rfl
    omega
  have hall : ∀ i < 31, 0 < s_prime_list.getD i 0 := by decide
  exact hall _ hlt

/--
In every run the table is the map of the values stored last, and the calls return what they say of it.
-/
theorem isMap_run (m_hf : Option HashFn) (init_size : Nat) (ops : List Op)
    (h : Meets (step m_hf) Allowed (new init_size) ops)
    : IsMap m_hf (exec (step m_hf) (new init_size) ops) ∧ Meets (step m_hf) (Returns m_hf) (new init_size) ops := by
  have hnew := Inv.new m_hf (roundUp_pos init_size)
  constructor
  . obtain ⟨xs, hinv⟩ : ∃ xs, Inv m_hf (exec (step m_hf) (new init_size) ops) xs :=
      exec_invariant (fun u => ∃ xs, Inv m_hf u xs) (fun _ op ⟨_, hu⟩ hok => (hu.step op hok).2) ⟨[], hnew⟩ h
    exact hinv.isMap
  . exact Meets.of_invariant (fun u => ∃ xs, Inv m_hf u xs) (fun _ op ⟨_, hu⟩ hok => (hu.step op hok).2)
      (fun _ op ⟨_, hu⟩ hok => (hu.step op hok).1) ⟨[], hnew⟩ h

def sampleOps : List Op :=
  [.insert ⟨true, 1⟩ 5 50, .insert ⟨true, 2⟩ 18 60, .insert ⟨true, 3⟩ 12 70, .insert ⟨true, 4⟩ 31 80,
    .insert ⟨true, 5⟩ 44 90, .insert ⟨true, 6⟩ 57 91, .insert ⟨true, 7⟩ 6 92, .insert ⟨true, 8⟩ 19 93,
    .update ⟨true, 9⟩ 5 51, .erase 2]

theorem isMap_run_sample
    : (IsMap none (exec (step none) (new 7) sampleOps) ∧
        Meets (step none) (Returns none) (new 7) sampleOps) ∧
      (new 7).hash.m_capacity < (exec (step none) (new 7) sampleOps).hash.m_capacity :=
  ⟨isMap_run none 7 sampleOps
      ⟨⟨by decide, by decide, by decide⟩, ⟨by decide, by decide, by decide⟩, ⟨by decide, by decide, by decide⟩,
        ⟨by decide, by decide, by decide⟩, ⟨by decide, by decide, by decide⟩, ⟨by decide, by decide, by decide⟩,
        ⟨by decide, by decide, by decide⟩, ⟨by decide, by decide +kernel, by decide⟩,
        ⟨by decide, by decide +kernel, by decide +kernel⟩, .inr (by decide +kernel), trivial⟩,
    by decide +kernel⟩

end GHashUse

end Lsmcd
