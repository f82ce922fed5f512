import Lsmcd.Lib.DList
import Lsmcd.Shm.Trim
import Lsmcd.Shm.HashMap

/-!
The LRU list as a doubly linked list.

`set_linkNext` and `set_linkPrev` do not store a 0, so that a neighbour is not told when it becomes
the end of the list. The lemmas below say when the list stays in order all the same.
-/

namespace Lsmcd

open LsShmHTable

structure LruList (l : LsHashLruInfo) (xs : List Nat) : Prop where
  list : Linked.DList l.linkNext l.linkPrev 0 l.linkFirst l.linkLast xs
  nvalset : l.nvalset = xs.length

namespace LsShmHash

structure HasLink (s : LsShmHash) (x : Nat) : Prop where
  ptr : s.getLruLinkPtr x = true
  iter : ∃ e, s.offset2iterator x = some e

/--
The element has two neighbours or none, so that taking it out makes no other element an end of the
list.
-/
def UnlinkOk (s : LsShmHash) (x : Nat) : Prop :=
  s.lru.linkNext x = 0 ↔ s.lru.linkPrev x = 0

/--
The element is the topmost one, or it is not the last one.
-/
def TopOk (s : LsShmHash) (x : Nat) : Prop :=
  s.lru.linkNext x = 0 ∨ s.lru.linkPrev x ≠ 0

instance (s : LsShmHash) (x : Nat) : Decidable (s.UnlinkOk x) :=
  inferInstanceAs (Decidable (_ ↔ _))

instance (s : LsShmHash) (x : Nat) : Decidable (s.TopOk x) :=
  inferInstanceAs (Decidable (_ ∨ _))

variable {s s' : LsShmHash} {xs : List Nat} {x : Nat}

theorem setLink_eq {value : Nat} (h : s.HasLink x) (hv : value ≠ 0)
    (f : LsHashLruInfo → LsHashLruInfo) : s.setLink x value f = (s.setLru f, false) := by
  obtain ⟨hptr, e, he⟩ := h
  unfold setLink
  rw [if_pos hv, he]
  dsimp only
  rw [if_pos hptr]

theorem HasLink.setLru {f : LsHashLruInfo → LsHashLruInfo} (h : s.HasLink x)
    : (s.setLru f).HasLink x := ⟨h.ptr, h.iter⟩

section Links

variable (h : LruList s.lru xs)
include h

theorem exists_mid (hx : x ∈ xs) (hn : s.lru.linkNext x ≠ 0) (hp : s.lru.linkPrev x ≠ 0)
    : s.lru.linkNext x ∈ xs ∧ s.lru.linkPrev x ∈ xs ∧ x ≠ s.lru.linkNext x ∧
      Linked.DList (Function.update s.lru.linkNext (s.lru.linkPrev x) (s.lru.linkNext x))
        (Function.update s.lru.linkPrev (s.lru.linkNext x) (s.lru.linkPrev x)) 0
        s.lru.linkFirst s.lru.linkLast (xs.erase x) :=
  h.list.erase_mid hx hn hp

variable (hlinks : ∀ y ∈ xs, s.HasLink y)
include hlinks

theorem linkHElem_list (hx : x ∉ xs) (hx0 : x ≠ 0) (hlink : s.HasLink x)
    : LruList (s.linkHElem x).lru (xs ++ [x]) := by
  have hcount : s.lru.nvalset + 1 = ((xs ++ [x]).length : Int) := by
    rw [h.nvalset]
    simp
  unfold linkHElem
  rw [if_neg (by simp [hlink.ptr])]
  by_cases hf : s.lru.linkFirst = 0
  . have hnil := h.list.first_eq_nil_iff.mp hf
    rw [if_neg (not_not.mpr hf)]
    subst hnil
    exact ⟨Linked.DList.push_empty hx0, hcount⟩
  . rw [if_pos hf]
    dsimp only
    rw [set_linkNext, setLink_eq (hlinks _ (h.list.first_mem hf)) hx0]
    exact ⟨h.list.push_top hx hx0 hf, hcount⟩

theorem unlinkHElem_list (hx : x ∈ xs) (hok : s.UnlinkOk x)
    : LruList (s.unlinkHElem x).lru (xs.erase x) := by
  have hlink := hlinks x hx
  have hcount : s.lru.nvalset - 1 = ((xs.erase x).length : Int) := by
    have hpos := List.length_pos_of_mem hx
    rw [h.nvalset, List.length_erase_of_mem hx]
    omega
  unfold unlinkHElem
  rw [if_neg (by simp [hlink.ptr])]
  by_cases hn : s.lru.linkNext x = 0
  . -- the only element
    have hp := hok.mp hn
    have hxs := h.list.eq_singleton hx hn hp
    simp only [hn, ne_eq, not_true_eq_false, if_false, setLru, hp]
    refine ⟨?_, hcount⟩
    rw [hxs, List.erase_cons_head]
    exact Linked.DList.empty
  . have hp := mt hok.mpr hn
    obtain ⟨hnmem, hpmem, hxn, hlist⟩ := exists_mid h hx hn hp
    dsimp only
    rw [if_pos hn, set_linkPrev, setLink_eq (hlinks _ hnmem) hp]
    have hp' : (s.setLru (·.setPrev (s.lru.linkNext x) (s.lru.linkPrev x))).lru.linkPrev x =
        s.lru.linkPrev x := Function.update_of_ne hxn _ _
    have hn' : (s.setLru (·.setPrev (s.lru.linkNext x) (s.lru.linkPrev x))).lru.linkNext x =
        s.lru.linkNext x := rfl
    simp only [hp', hn', ne_eq, hp, not_false_eq_true, if_true, set_linkNext]
    rw [setLink_eq (HasLink.setLru (hlinks _ hpmem)) hn]
    exact ⟨hlist, hcount⟩

theorem linkSetTop_list (hx : x ∈ xs) (hok : s.TopOk x)
    : ∃ ys, ys.Perm xs ∧ LruList (s.linkSetTop x).lru ys := by
  have hlink := hlinks x hx
  have hx0 := h.list.ne_nil hx
  unfold linkSetTop
  rw [if_neg (by simp [hlink.ptr])]
  by_cases hn : s.lru.linkNext x = 0
  . simp only [hn, ne_eq, not_true_eq_false, if_false]
    exact ⟨xs, List.Perm.refl xs, h.list, h.nvalset⟩
  . have hp := hok.resolve_left hn
    obtain ⟨hnmem, hpmem, hxn, hlist⟩ := exists_mid h hx hn hp
    have hnot : x ∉ xs.erase x := h.list.nodup.not_mem_erase
    have hf : s.lru.linkFirst ≠ 0 := by
      intro hf
      rw [h.list.first_eq_nil_iff.mp hf] at hx
      cases hx
    have hfx : s.lru.linkFirst ≠ x := by
      intro heq
      have hnf := h.list.next_first hf
      rw [heq] at hnf
      exact hn hnf
    refine ⟨xs.erase x ++ [x], ?_, ?_⟩
    . exact (List.perm_append_singleton x _).trans (List.perm_cons_erase hx).symm
    . dsimp only
      rw [if_pos hn, if_neg hp, set_linkNext, setLink_eq (hlinks _ hpmem) hn]
      simp only [Bool.false_eq_true, if_false]
      rw [set_linkPrev, setLink_eq (HasLink.setLru (hlinks _ hnmem)) hp]
      simp only [Bool.false_eq_true, if_false]
      generalize hs₃ : ((s.setLru _).setLru _).setLru _ = s₃
      have hfirst : s₃.HasLink s₃.lru.linkFirst := by
        rw [← hs₃]
        exact HasLink.setLru (HasLink.setLru (HasLink.setLru (hlinks _ (h.list.first_mem hf))))
      rw [set_linkNext, setLink_eq hfirst hx0, if_neg (by simp)]
      have hnext : s₃.lru.linkNext = Function.update (Function.update s.lru.linkNext
          (s.lru.linkPrev x) (s.lru.linkNext x)) x 0 := by rw [← hs₃]; rfl
      have hprev : s₃.lru.linkPrev = Function.update (Function.update s.lru.linkPrev
          (s.lru.linkNext x) (s.lru.linkPrev x)) x s.lru.linkFirst := by rw [← hs₃]; rfl
      have hf₃ : s₃.lru.linkFirst = s.lru.linkFirst := by rw [← hs₃]; rfl
      have hl₃ : s₃.lru.linkLast = s.lru.linkLast := by rw [← hs₃]; rfl
      have hc₃ : s₃.lru.nvalset = s.lru.nvalset := by rw [← hs₃]; rfl
      have htop := hlist.push_top hnot hx0 hf
      rw [Function.update_comm hfx, ← hnext, ← hprev, ← hf₃, ← hl₃] at htop
      refine ⟨htop, ?_⟩
      have hlen := ((List.perm_append_singleton x (xs.erase x)).trans
        (List.perm_cons_erase hx).symm).length_eq
      show s₃.lru.nvalset = _
      rw [hc₃, h.nvalset, hlen]

end Links

end LsShmHash

end Lsmcd
