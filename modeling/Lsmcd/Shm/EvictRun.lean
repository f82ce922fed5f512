import Lsmcd.Shm.Evict

/-!
Whole calls of `trim`, `trimsize` and `trimByCb`: when they take the oldest elements out of the table and
leave the others, the order of the list and the counters that `check` looks at as they should be.
-/

namespace Lsmcd

def TrimState.Over (st : TrimState) : Prop := st.offElem = 0 ∨ st.left ≤ 0

instance (st : TrimState) : Decidable st.Over := inferInstanceAs (Decidable (_ ∨ _))

inductive TrimCall
  | trim (tmCutoff : Nat) (func : Option (LsShmHElem → Int))
  | trimsize (need : Int) (func : Option (LsShmHElem → Int))
  | trimByCb (maxCnt : Int) (func : Option (LsShmHElem → Int))

namespace LsShmHash

def trimRun (act : Nat → LsShmHElem → TrimAct) (cost : LsShmHElem → Int) (st : TrimState) (n : Nat)
    : TrimState :=
  Run.exec (fun st (_ : Unit) => trimIter act cost st) st (List.replicate n ())

def trimTrace (act : Nat → LsShmHElem → TrimAct) (cost : LsShmHElem → Int)
    : Nat → TrimState → List (Nat × TrimState)
  | 0, _ => []
  | n + 1, st =>
    if st.Over then []
    else (st.offElem, trimIter act cost st) :: trimTrace act cost n (trimIter act cost st)

def oldest (len : Nat → Nat) : Int → List Nat → List Nat
  | _, [] => []
  | need, x :: xs => if need ≤ 0 then [] else x :: oldest len (need - len x) xs

end LsShmHash

namespace TrimCall

open LsShmHash LsShmHTable

def func : TrimCall → Option (LsShmHElem → Int)
  | trim _ func => func
  | trimsize _ func => func
  | trimByCb _ func => func

def act : TrimCall → Nat → LsShmHElem → TrimAct
  | trim tmCutoff func => trimAct tmCutoff func
  | trimsize _ func => fun _ e => .erase (trimRet func e)
  | trimByCb _ func => trimByCbAct func

def cost : TrimCall → LsShmHElem → Int
  | trim _ _ => fun _ => 0
  | trimsize _ _ => fun e => e.x_iLen
  | trimByCb _ _ => fun _ => 1

def left : TrimCall → Int
  | trim _ _ => 1
  | trimsize need _ => need
  | trimByCb maxCnt _ => maxCnt

def exec (c : TrimCall) (s : LsShmHash) (n : Nat) : LsShmHash × Int :=
  match c with
  | trim tmCutoff func => s.trim tmCutoff func n
  | trimsize need func => s.trimsize need func n
  | trimByCb maxCnt func => s.trimByCb maxCnt func n

def run (c : TrimCall) (s : LsShmHash) (n : Nat) : TrimState :=
  trimRun c.act c.cost (s.trimStart c.left) n

def trace (c : TrimCall) (s : LsShmHash) (n : Nat) : List (Nat × TrimState) :=
  trimTrace c.act c.cost n (s.trimStart c.left)

def ret (c : TrimCall) (s : LsShmHash) (x : Nat) : Int :=
  match s.table.elem x with
  | none => 0
  | some e => trimRet c.func e

def acted (c : TrimCall) (s : LsShmHash) (tmCutoff : Nat) (xs : List Nat) : List Nat :=
  xs.takeWhile (fun x => s.lru.lasttime x < tmCutoff ∧ 0 ≤ c.ret s x)

/--
What `trimByCb` has to erase: of the first `maxCnt` elements, up to one for which the callback fails,
those for which it returns a positive number.
-/
def picked (ret : Nat → Int) (maxCnt : Int) (xs : List Nat) : List Nat :=
  ((xs.take maxCnt.toNat).takeWhile (fun x => 0 ≤ ret x)).filter (fun x => 0 < ret x)

def gone (c : TrimCall) (s : LsShmHash) (xs : List Nat) : List Nat :=
  match c with
  | trim tmCutoff _ => xs.filter (fun x => s.lru.lasttime x < tmCutoff ∧ c.ret s x = 1)
  | trimsize need _ => oldest (lenOf s.table) need xs
  | trimByCb maxCnt _ => picked (c.ret s) maxCnt xs

def top (c : TrimCall) (s : LsShmHash) (xs : List Nat) : List Nat :=
  match c with
  | trim tmCutoff _ => (c.acted s tmCutoff xs).filter (fun x => c.ret s x ≠ 1)
  | trimsize _ _ => []
  | trimByCb _ _ => []

def rest (c : TrimCall) (s : LsShmHash) (xs : List Nat) : List Nat :=
  xs.filter (fun x => x ∉ c.gone s xs ∧ x ∉ c.top s xs) ++ c.top s xs

/--
The call ends after `n` iterations, it has looked at each element at most once, from the oldest on, it
returns the number of elements erased, these were the right ones, the others keep key, value and
order except for those moved to the top, and `check` finds nothing wrong if it did not before.
-/
structure Evicts (c : TrimCall) (s : LsShmHash) (xs : List Nat) (n : Nat) : Prop where
  ended : (c.run s n).Over
  looked : (c.trace s n).map Prod.fst <+: xs
  bound : ∀ maxCnt func, c = trimByCb maxCnt func → (c.trace s n).length ≤ maxCnt.toNat
  moved : ∀ p ∈ c.trace s n, p.1 ∈ c.top s xs → p.2.hash.lru.linkFirst = p.1
  del : (c.exec s n).2 = (c.gone s xs).length
  find : ∀ key, (c.exec s n).1.findKey key =
    if s.findKey key ∈ c.gone s xs then 0 else s.findKey key
  elem : ∀ x ∈ xs, x ∉ c.gone s xs → (c.exec s n).1.table.elem x = s.table.elem x
  order : Linked.Chain (c.exec s n).1.lru.linkNext 0 (c.exec s n).1.lru.linkLast (c.rest s xs)
  check : s.Checked → (c.exec s n).1.Checked

/--
No element is handled whose neighbour below was taken away by the same call, and the newest one of
several elements is not erased.
-/
def LinksFit (c : TrimCall) (s : LsShmHash) (xs : List Nat) : Prop :=
  match c with
  | trim tmCutoff _ =>
    ((c.acted s tmCutoff xs).length ≤ 1 ∨ ∃ x y, xs = [x, y] ∧ c.ret s x = 1 ∧ c.ret s y ≠ 1) ∧
      ∀ x ∈ c.gone s xs, x ∈ c.acted s tmCutoff xs
  | trimsize _ _ => (c.gone s xs).length ≤ 1
  | trimByCb _ _ => xs.length ≤ 1 ∨
    (∃ x ∈ xs.take 2, x ∉ c.gone s xs) ∧ ∀ x ∈ xs.getLast?, x ∉ c.gone s xs

/--
Beyond that, what the callback returns for the erased elements must add up to 0 if `ndataset` is 0
before.
-/
def Fits (c : TrimCall) (s : LsShmHash) (xs : List Nat) : Prop :=
  c.LinksFit s xs ∧ (s.lru.ndataset = 0 → ((c.gone s xs).map (c.ret s)).sum = 0)

variable {c : TrimCall} {s s' : LsShmHash} {xs ys g : List Nat} {x : Nat}

theorem exec_eq (c : TrimCall) (s : LsShmHash) (n : Nat)
    : c.exec s n = s.trimLoop c.act c.cost c.left n := by
  cases c <;> rfl

theorem ret_eq {e : LsShmHElem} (he : s.table.elem x = some e) : c.ret s x = trimRet c.func e := by
  unfold ret
  rw [he]

end TrimCall

namespace LsShmHash

open LsShmHTable

section Iter

variable {act : Nat → LsShmHElem → TrimAct} {cost : LsShmHElem → Int} {st : TrimState}
variable {s : LsShmHash} {xs : List Nat} {x : Nat}

theorem trimRun_succ (st : TrimState) (n : Nat)
    : trimRun act cost st (n + 1) = trimRun act cost (trimIter act cost st) n := rfl

theorem trimRun_add (st : TrimState) (n k : Nat)
    : trimRun act cost st (n + k) = trimRun act cost (trimRun act cost st n) k := by
  unfold trimRun
  rw [List.replicate_add, Run.exec_append]

theorem trimIter_over (h : st.Over) : trimIter act cost st = st := by
  unfold trimIter
  exact if_pos h

theorem trimRun_over (h : st.Over) (n : Nat) : trimRun act cost st n = st := by
  induction n with
  | zero => rfl
  | succ n ih => rw [trimRun_succ, trimIter_over h, ih]

theorem trimTrace_over (h : st.Over) (n : Nat) : trimTrace act cost n st = [] := by
  cases n with
  | zero => rfl
  | succ n => rw [trimTrace, if_pos h]

theorem trimRun_unique {n k : Nat} (hn : (trimRun act cost st n).Over)
    (hk : (trimRun act cost st k).Over) : trimRun act cost st n = trimRun act cost st k := by
  rcases Nat.le_total n k with hle | hle
  . obtain ⟨d, rfl⟩ := Nat.exists_eq_add_of_le hle
    rw [trimRun_add, trimRun_over hn]
  . obtain ⟨d, rfl⟩ := Nat.exists_eq_add_of_le hle
    rw [trimRun_add, trimRun_over hk]

theorem quiet_grownTid (s : LsShmHash) : Quiet s s.grownTid :=
  quiet_ite (fun _ => quiet_checkTidTbl s)

theorem grownTid_lru (s : LsShmHash) : s.grownTid.lru = s.lru := by
  unfold grownTid
  split <;> rfl

theorem UpOk.grownTid (h : UpOk s xs) : UpOk s.grownTid xs :=
  h.relinked (quiet_grownTid s) (List.Perm.refl _) (by rw [grownTid_lru]; exact h.list)

theorem LruOk.grownTid (h : LruOk s xs) : LruOk s.grownTid xs :=
  h.quiet (quiet_grownTid s) (by rw [grownTid_lru]; exact h.list)

theorem trimIter_eq {e : LsShmHElem} (h : UpOk st.hash xs) (hx : st.offElem ∈ xs)
    (hleft : 0 < st.left) (he : st.hash.table.elem st.offElem = some e)
    : trimIter act cost st =
        match act (st.hash.lru.lasttime st.offElem) e with
        | .stop => { st with hash := st.hash.grownTid, offElem := 0 }
        | .skip =>
          { st with
            hash := st.hash.grownTid
            offElem := st.hash.lru.linkNext st.offElem
            left := st.left - cost e }
        | .top =>
          { st with
            hash := st.hash.grownTid.linkSetTop st.offElem
            offElem := st.hash.lru.linkNext st.offElem
            left := st.left - cost e }
        | .erase ret =>
          { hash := (st.hash.grownTid.eraseIteratorHelper st.offElem).setLru fun l =>
              { l with ndataexp := l.ndataexp + ret, ndataset := l.ndataset - ret }
            offElem := st.hash.lru.linkNext st.offElem
            left := st.left - cost e
            del := st.del + 1 } := by
  have h₁ := h.grownTid
  have hlink := h₁.hasLink hx
  obtain ⟨e', he'⟩ := hlink.iter
  have heq : e' = e := by
    have hel := elem_of_offset2iterator he'
    rw [(quiet_grownTid st.hash).table, he] at hel
    exact (Option.some.inj hel).symm
  subst heq
  have hx0 := h.list.list.ne_nil hx
  unfold trimIter
  rw [if_neg (by omega), ← LsShmHash.grownTid]
  dsimp only
  rw [he']
  dsimp only
  rewrite [getLruLinkNext_eq hlink, getLruLasttime, if_pos hlink.ptr, grownTid_lru]
  cases act (st.hash.lru.lasttime st.offElem) e' <;> rfl

end Iter

end LsShmHash

namespace TrimCall

open LsShmHash LsShmHTable

variable {c : TrimCall} {s s' s'' : LsShmHash} {st : TrimState} {xs ys g : List Nat} {x : Nat}

structure Evicted (c : TrimCall) (s s' : LsShmHash) (g ys : List Nat) : Prop where
  ok : UpOk s' ys
  elem : ∀ y ∈ ys, s'.table.elem y = s.table.elem y
  hf : s'.m_hf = s.m_hf
  ndataset : s'.lru.ndataset = s.lru.ndataset - (g.map (c.ret s)).sum

theorem Evicted.start (h : LruOk s xs) : Evicted c s s [] xs :=
  ⟨h.upOk, fun _ _ => rfl, rfl, by simp⟩

theorem Evicted.relinked (h : Evicted c s s' g xs) (hq : Quiet s' s'') (hp : ys.Perm xs)
    (hok : UpOk s'' ys) (hd : s''.lru.ndataset = s'.lru.ndataset) : Evicted c s s'' g ys := by
  refine ⟨hok, ?_, hq.hf.trans h.hf, hd.trans h.ndataset⟩
  rw [hq.table]
  exact fun y hy => h.elem y (hp.mem_iff.mp hy)

theorem Evicted.grownTid (h : Evicted c s s' g xs) : Evicted c s s'.grownTid g xs :=
  h.relinked (quiet_grownTid s') (List.Perm.refl _) h.ok.grownTid (by rw [grownTid_lru])

theorem Evicted.erase (h : Evicted c s s' g xs) (hx : x ∈ xs)
    (he : UpOk (s'.eraseIteratorHelper x) (xs.erase x))
    (hd : (s'.eraseIteratorHelper x).lru.ndataset = s'.lru.ndataset)
    : Evicted c s ((s'.eraseIteratorHelper x).setLru fun l =>
        { l with ndataexp := l.ndataexp + c.ret s x, ndataset := l.ndataset - c.ret s x })
        (g ++ [x]) (xs.erase x) := by
  obtain ⟨hparm, hothers, _⟩ := erase_others h.ok.rep hx rfl
  refine ⟨he.setLru ⟨he.list.list, he.list.nvalset⟩, ?_, hparm.hf.trans h.hf, ?_⟩
  . intro y hy
    rw [h.ok.rep.nodup.mem_erase_iff] at hy
    exact (hothers y hy.1).trans (h.elem y hy.2)
  . show (s'.eraseIteratorHelper x).lru.ndataset - c.ret s x = _
    rw [hd, h.ndataset, List.map_append, List.sum_append]
    simp
    omega

/--
What `n` iterations from `st` on do when the elements `zs` are still to be looked at and `tops` are the
ones to be moved to the top.
-/
structure Walked (c : TrimCall) (s : LsShmHash) (tops : List Nat) (st : TrimState) (zs g ys : List Nat)
    (n : Nat) : Prop where
  ended : (trimRun c.act c.cost st n).Over
  evicted : Evicted c s (trimRun c.act c.cost st n).hash g ys
  del : (trimRun c.act c.cost st n).del = g.length
  looked : (trimTrace c.act c.cost n st).map Prod.fst <+: zs
  moved : ∀ p ∈ trimTrace c.act c.cost n st, p.1 ∈ tops → p.2.hash.lru.linkFirst = p.1

variable {tops : List Nat}

theorem Walked.zero {zs : List Nat} (hover : st.Over) (h : Evicted c s st.hash g ys)
    (hdel : st.del = g.length) : Walked c s tops st zs g ys 0 :=
  ⟨hover, h, hdel, List.nil_prefix, fun _ hp => nomatch hp⟩

theorem Walked.succ {zs : List Nat} {n : Nat} (hgo : ¬ st.Over) (hoff : st.offElem = x)
    (htop : x ∈ tops → (trimIter c.act c.cost st).hash.lru.linkFirst = x)
    (h : Walked c s tops (trimIter c.act c.cost st) zs g ys n)
    : Walked c s tops st (x :: zs) g ys (n + 1) := by
  refine ⟨h.ended, h.evicted, h.del, ?_, ?_⟩
  . rw [trimTrace, if_neg hgo, List.map_cons, hoff]
    exact List.cons_prefix_cons.mpr ⟨rfl, h.looked⟩
  . rw [trimTrace, if_neg hgo, hoff]
    intro p hp hin
    rcases List.mem_cons.mp hp with rfl | hp
    . exact htop hin
    . exact h.moved p hp hin

theorem not_over (hoff : st.offElem = x) (hx : x ≠ 0) (hleft : 0 < st.left) : ¬ st.Over := by
  rintro (hz | hz)
  . exact hx (hoff.symm.trans hz)
  . omega

section ByCb

theorem picked_nil (ret : Nat → Int) (maxCnt : Int) : picked ret maxCnt [] = [] := by
  unfold picked
  simp

theorem picked_stop {ret : Nat → Int} {maxCnt : Int} (h : maxCnt ≤ 0 ∨ ret x < 0)
    : picked ret maxCnt (x :: xs) = [] := by
  unfold picked
  rcases h with h | h
  . rw [Int.toNat_of_nonpos h]
    rfl
  . cases maxCnt.toNat with
    | zero => rfl
    | succ n =>
      rw [List.take_succ_cons, List.takeWhile_cons_of_neg (by simpa using h)]
      rfl

theorem picked_cons {ret : Nat → Int} {maxCnt : Int} (hleft : 0 < maxCnt) (hret : 0 ≤ ret x)
    : picked ret maxCnt (x :: xs) =
        if ret x = 0 then picked ret (maxCnt - 1) xs else x :: picked ret (maxCnt - 1) xs := by
  unfold picked
  obtain ⟨n, hn⟩ : ∃ n, maxCnt.toNat = n + 1 := ⟨(maxCnt - 1).toNat, by omega⟩
  have hn' : (maxCnt - 1).toNat = n := by omega
  rw [hn, hn', List.take_succ_cons, List.takeWhile_cons_of_pos (by simpa using hret), List.filter_cons]
  split
  . rw [if_neg (by simp at *; omega)]
  . rw [if_pos (by simp at *; omega)]

theorem picked_subset (ret : Nat → Int) (maxCnt : Int) (xs : List Nat)
    : ∀ x ∈ picked ret maxCnt xs, x ∈ xs := by
  intro x hx
  unfold picked at hx
  have hmem := List.mem_of_mem_filter hx
  exact List.mem_of_mem_take ((List.takeWhile_sublist _).mem hmem)

theorem byCb_act {maxCnt : Int} {func : Option (LsShmHElem → Int)} {e : LsShmHElem}
    (hc : c = trimByCb maxCnt func) (he : s.table.elem x = some e) (t : Nat)
    : c.act t e =
        if c.ret s x < 0 then .stop else if c.ret s x = 0 then .skip else .erase (c.ret s x) := by
  rw [ret_eq he, hc]
  rfl

theorem filter_cons_notMem (hx : x ∉ xs) (ps : List Nat)
    : (x :: xs).filter (fun y => y ∉ x :: ps) = xs.filter (fun y => y ∉ ps) := by
  rw [List.filter_cons_of_neg (by simp)]
  apply List.filter_congr
  intro y hy
  have hyx : y ≠ x := fun heq => hx (heq ▸ hy)
  simp [hyx]

theorem getLast?_cons_of {y : Nat} {zs : List Nat} (h : y ∈ zs.getLast?) : y ∈ (x :: zs).getLast? := by
  rw [List.getLast?_cons, h]
  rfl

theorem headD_of_up {front zs : List Nat} (h : UpOk s (front ++ x :: zs)) : s.lru.linkNext x = zs.headD 0 :=
  h.up.suffix.2.2.head_eq

theorem ne_linkLast {front zs : List Nat} (h : UpOk s (front ++ x :: zs)) (hne : front ≠ [])
    : x ≠ s.lru.linkLast := by
  obtain ⟨y, ys, rfl⟩ := List.exists_cons_of_ne_nil hne
  have hnd := h.rep.nodup
  have hl := h.up.head_eq
  rw [List.cons_append, List.headD_cons] at hl
  rintro rfl
  rw [hl] at hnd
  simp at hnd

/--
The rest of the loop of `trimByCb`, `front` being the elements below that stay. The one at the bottom
and the one on top stay, all others may go.
-/
theorem byCb_walk {maxCnt : Int} {func : Option (LsShmHElem → Int)} {front zs : List Nat}
    (hc : c = trimByCb maxCnt func) (h : Evicted c s st.hash g (front ++ zs))
    (hoff : st.offElem = zs.headD 0) (hdel : st.del = g.length)
    (hhead : front = [] → ∀ x ∈ zs.head?, x ∉ picked (c.ret s) st.left zs)
    (hlast : ∀ x ∈ zs.getLast?, x ∉ picked (c.ret s) st.left zs)
    : ∃ n, Walked c s [] st zs (g ++ picked (c.ret s) st.left zs)
        (front ++ zs.filter (fun x => x ∉ picked (c.ret s) st.left zs)) n := by
  induction zs generalizing st front g with
  | nil =>
    rw [picked_nil, List.append_nil]
    exact ⟨0, .zero (.inl hoff) h hdel⟩
  | cons x zs ih =>
    have hoff : st.offElem = x := hoff
    have hx : x ∈ front ++ x :: zs := by simp
    obtain ⟨e, he, _⟩ := h.ok.rep.elems x hx
    have hnext := headD_of_up h.ok
    have hx0 := h.ok.list.list.ne_nil hx
    have hnd := List.nodup_append.mp h.ok.rep.nodup
    have hxzs : x ∉ zs := (List.nodup_cons.mp hnd.2.1).1
    have hxfront : x ∉ front := fun hin => hnd.2.2 x hin x List.mem_cons_self rfl
    have hxpicked : x ∉ picked (c.ret s) (st.left - 1) zs := fun hin => hxzs (picked_subset _ _ _ x hin)
    by_cases hleft : st.left ≤ 0
    . rw [picked_stop (.inl hleft), List.append_nil]
      refine ⟨0, .zero (.inr hleft) ?_ hdel⟩
      simpa using h
    have hgo := not_over hoff hx0 (by omega)
    have hiter := @trimIter_eq c.act c.cost st _ e h.ok (hoff ▸ hx) (by omega) (hoff ▸ he)
    rw [hoff] at hiter
    have hact := byCb_act hc ((h.elem x hx).symm.trans he) (st.hash.lru.lasttime x)
    have hcost : c.cost e = 1 := by
      rw [hc]
      rfl
    rw [hact, hcost] at hiter
    rcases Int.lt_trichotomy (c.ret s x) 0 with hneg | hzero | hpos
    . rw [picked_stop (.inr hneg), List.append_nil]
      rw [if_pos hneg] at hiter
      refine ⟨1, .succ hgo hoff (fun hin => nomatch hin) (.zero ?_ ?_ ?_)⟩
      . rw [hiter]
        exact .inl rfl
      . rw [hiter]
        simpa using h.grownTid
      . rw [hiter]
        exact hdel
    . rw [if_neg (by omega), if_pos hzero] at hiter
      rw [picked_cons (by omega) (by omega), if_pos hzero] at hlast ⊢
      obtain ⟨n, hn⟩ := @ih (trimIter c.act c.cost st) g (front ++ [x])
        (by rw [hiter, List.append_assoc]; exact h.grownTid) (by rw [hiter]; exact hnext)
        (by rw [hiter]; exact hdel) (fun hnil => absurd hnil (by simp))
        (by rw [hiter]; exact fun y hy => hlast y (getLast?_cons_of hy))
      rw [hiter] at hn
      refine ⟨n + 1, ?_⟩
      rw [List.filter_cons_of_pos (by simpa using hxpicked), List.append_cons front]
      exact .succ hgo hoff (fun hin => nomatch hin) (hiter ▸ hn)
    . rw [if_neg (by omega), if_neg (by omega)] at hiter
      rw [picked_cons (by omega) (by omega), if_neg (by omega)] at hhead hlast ⊢
      have hfront : front ≠ [] := fun hnil => hhead hnil x rfl List.mem_cons_self
      have hn0 : st.hash.lru.linkNext x ≠ 0 := by
        intro hz
        have hnil : zs = [] := by
          cases zs with
          | nil => rfl
          | cons y zs => exact absurd (hnext.symm.trans hz) (h.ok.list.list.ne_nil (by simp))
        subst hnil
        exact hlast x rfl List.mem_cons_self
      have hbase := h.grownTid
      obtain ⟨hok, hd⟩ := hbase.ok.erase_mid hx (by rw [grownTid_lru]; exact ne_linkLast h.ok hfront)
        (by rw [grownTid_lru]; exact hn0)
      have herase : (front ++ x :: zs).erase x = front ++ zs := by
        rw [List.erase_append_right _ hxfront, List.erase_cons_head]
      have hnew := hbase.erase hx hok hd
      rw [herase] at hnew
      obtain ⟨n, hn⟩ := @ih (trimIter c.act c.cost st) (g ++ [x]) front
        (by rw [hiter]; exact hnew) (by rw [hiter]; exact hnext)
        (by rw [hiter, List.length_append]; simp [hdel]) (fun hnil => absurd hnil hfront)
        (by rw [hiter]; exact fun y hy hin => hlast y (getLast?_cons_of hy) (List.mem_cons_of_mem _ hin))
      rw [hiter] at hn
      refine ⟨n + 1, ?_⟩
      rw [List.append_cons g, filter_cons_notMem hxzs]
      exact .succ hgo hoff (fun hin => nomatch hin) (hiter ▸ hn)

end ByCb

section Start

theorem offElem_start (h : LruOk s xs) (left : Int) : (s.trimStart left).offElem = xs.headD 0 :=
  h.list.list.up.head_eq

structure First (c : TrimCall) (s : LsShmHash) (e : LsShmHElem) (zs g ys : List Nat) (st : TrimState)
    : Prop where
  evicted : Evicted c s st.hash g ys
  offElem : st.offElem = zs.headD 0
  left : st.left = c.left - c.cost e
  del : st.del = g.length
  lasttime : ∀ y ∈ zs, st.hash.lru.lasttime y = s.lru.lasttime y

section First

variable {e : LsShmHElem} (h : LruOk s (x :: ys)) (he : s.table.elem x = some e) (hleft : 0 < c.left)
include h he hleft

omit he in
theorem first_go : ¬ (s.trimStart c.left).Over :=
  not_over (offElem_start h c.left) (h.list.list.ne_nil List.mem_cons_self) hleft

theorem first_iter
    : trimIter c.act c.cost (s.trimStart c.left) =
        match c.act (s.lru.lasttime x) e with
        | .stop => { s.trimStart c.left with hash := s.grownTid, offElem := 0 }
        | .skip =>
          { s.trimStart c.left with
            hash := s.grownTid
            offElem := ys.headD 0
            left := c.left - c.cost e }
        | .top =>
          { s.trimStart c.left with
            hash := s.grownTid.linkSetTop x
            offElem := ys.headD 0
            left := c.left - c.cost e }
        | .erase ret =>
          { hash := (s.grownTid.eraseIteratorHelper x).setLru fun l =>
              { l with ndataexp := l.ndataexp + ret, ndataset := l.ndataset - ret }
            offElem := ys.headD 0
            left := c.left - c.cost e
            del := 1 } := by
  have hoff : (s.trimStart c.left).offElem = x := offElem_start h c.left
  have hiter := @trimIter_eq c.act c.cost (s.trimStart c.left) _ e h.upOk
    (hoff ▸ List.mem_cons_self) hleft (hoff ▸ he)
  have hnext : (s.trimStart c.left).hash.lru.linkNext x = ys.headD 0 := h.list.list.up.2.2.head_eq
  rw [hoff, hnext] at hiter
  exact hiter

theorem first_erase (hact : c.act (s.lru.lasttime x) e = .erase (c.ret s x))
    : First c s e ys [x] ys (trimIter c.act c.cost (s.trimStart c.left)) := by
  have hx : x ∈ x :: ys := List.mem_cons_self
  obtain ⟨hok, hd⟩ := h.grownTid.erase_last
  have hnew := ((Evicted.start h).grownTid (c := c)).erase hx (by rw [List.erase_cons_head]; exact hok) hd
  rw [List.erase_cons_head] at hnew
  rw [first_iter h he hleft, hact]
  refine ⟨hnew, rfl, rfl, rfl, ?_⟩
  intro y _
  show (s.grownTid.eraseIteratorHelper x).lru.lasttime y = _
  rw [erase_lru h.grownTid.rep h.grownTid.flag hx, unlinkHElem_lasttime, grownTid_lru]

theorem first_top (hact : c.act (s.lru.lasttime x) e = .top)
    : First c s e ys [] (ys ++ [x]) (trimIter c.act c.cost (s.trimStart c.left)) ∧
      (trimIter c.act c.cost (s.trimStart c.left)).hash.lru.linkFirst = x := by
  obtain ⟨hok, hfirst, hd, htime⟩ := h.grownTid.top_last
  have hbase := (Evicted.start h).grownTid (c := c)
  have hnew := hbase.relinked (quiet_linkSetTop _ x) (List.perm_append_singleton x ys) hok hd
  rw [first_iter h he hleft, hact]
  refine ⟨⟨hnew, rfl, rfl, rfl, ?_⟩, hfirst⟩
  intro y hy
  have hyx : y ≠ x := fun heq => (List.nodup_cons.mp h.rep.nodup).1 (heq ▸ hy)
  show (s.grownTid.linkSetTop x).lru.lasttime y = _
  rw [htime y hyx, grownTid_lru]

end First

section Size

theorem oldest_eq_nil {len : Nat → Nat} {need : Int} (h : need ≤ 0) (xs : List Nat)
    : oldest len need xs = [] := by
  cases xs with
  | nil => rfl
  | cons x xs => rw [oldest, if_pos h]

theorem trimsize_settled {need : Int} {func : Option (LsShmHElem → Int)} (hc : c = trimsize need func)
    (h : LruOk s xs) (hfit : c.LinksFit s xs)
    : ∃ n, Walked c s [] (s.trimStart c.left) xs (c.gone s xs) (xs.filter (fun x => x ∉ c.gone s xs)) n := by
  have hleft : c.left = need := by rw [hc]; rfl
  have hgone : c.gone s xs = oldest (lenOf s.table) need xs := by rw [hc]; rfl
  have hfit : (c.gone s xs).length ≤ 1 := by rw [hc] at hfit ⊢; exact hfit
  have hoff := offElem_start h c.left
  rw [hgone] at hfit ⊢
  by_cases hneed : need ≤ 0
  . rw [oldest_eq_nil hneed]
    have hstart : Evicted c s (s.trimStart c.left).hash [] xs := .start h
    refine ⟨0, .zero (.inr (show c.left ≤ 0 by omega)) ?_ rfl⟩
    simpa using hstart
  cases xs with
  | nil => exact ⟨0, .zero (.inl hoff) (.start h) rfl⟩
  | cons x xs =>
    obtain ⟨e, he, _⟩ := h.rep.elems x List.mem_cons_self
    have hlen : lenOf s.table x = e.x_iLen := by
      unfold lenOf
      rw [he]
    have hact : c.act (s.lru.lasttime x) e = .erase (c.ret s x) := by
      rw [ret_eq he, hc]
      rfl
    have hcost : c.cost e = e.x_iLen := by rw [hc]; rfl
    have hgo := first_go h (show 0 < c.left by omega)
    have hfirst := first_erase h he (show 0 < c.left by omega) hact
    rw [oldest, if_neg hneed, hlen] at hfit ⊢
    have hnil : oldest (lenOf s.table) (need - e.x_iLen) xs = [] := by
      simpa using hfit
    rw [hnil]
    have hover : (trimIter c.act c.cost (s.trimStart c.left)).Over := by
      cases xs with
      | nil => exact .inl hfirst.offElem
      | cons y ys =>
        right
        rw [oldest] at hnil
        rw [hfirst.left, hleft, hcost]
        by_contra hlt
        rw [if_neg hlt] at hnil
        cases hnil
    rw [filter_cons_notMem (List.nodup_cons.mp h.rep.nodup).1]
    refine ⟨1, .succ hgo hoff (fun hin => nomatch hin) (.zero hover ?_ hfirst.del)⟩
    simpa using hfirst.evicted

end Size

theorem trimByCb_settled {maxCnt : Int} {func : Option (LsShmHElem → Int)} (hc : c = trimByCb maxCnt func)
    (h : LruOk s xs) (hfit : c.LinksFit s xs)
    : ∃ n, Walked c s [] (s.trimStart c.left) xs (c.gone s xs) (xs.filter (fun x => x ∉ c.gone s xs)) n := by
  have hleft : c.left = maxCnt := by rw [hc]; rfl
  have hgone : c.gone s xs = picked (c.ret s) c.left xs := by rw [hc]; rfl
  have hfit : xs.length ≤ 1 ∨
      (∃ x ∈ xs.take 2, x ∉ c.gone s xs) ∧ ∀ x ∈ xs.getLast?, x ∉ c.gone s xs := by
    rw [hc] at hfit ⊢
    exact hfit
  have hoff := offElem_start h c.left
  rw [hgone] at hfit ⊢
  by_cases hhead : ∀ x ∈ xs.head?, x ∉ picked (c.ret s) c.left xs
  . -- the oldest element stays
    have hlast : ∀ x ∈ xs.getLast?, x ∉ picked (c.ret s) c.left xs := by
      rcases hfit with hlen | hfit
      . intro x hx
        apply hhead
        rcases xs with _ | ⟨y, _ | ⟨z, zs⟩⟩
        . exact hx
        . exact hx
        . simp at hlen
      . exact hfit.2
    have hstart : Evicted c s (s.trimStart c.left).hash [] ([] ++ xs) := .start h
    exact byCb_walk hc hstart hoff rfl (fun _ => hhead) hlast
  . cases xs with
    | nil => simp at hhead
    | cons x xs =>
      have hin : x ∈ picked (c.ret s) c.left (x :: xs) := by simpa using hhead
      have hgo : 0 < c.left ∧ 0 ≤ c.ret s x := by
        by_contra hstop
        rw [picked_stop (by omega)] at hin
        cases hin
      have hxs := (List.nodup_cons.mp h.rep.nodup).1
      rw [picked_cons hgo.1 hgo.2] at hin hfit ⊢
      have hpos : c.ret s x ≠ 0 := by
        intro hz
        rw [if_pos hz] at hin
        exact hxs (picked_subset _ _ _ x hin)
      rw [if_neg hpos] at hfit ⊢
      obtain ⟨e, he, _⟩ := h.rep.elems x List.mem_cons_self
      have hact : c.act (s.lru.lasttime x) e = .erase (c.ret s x) := by
        rw [byCb_act hc he, if_neg (by omega), if_neg hpos]
      have hcost : c.cost e = 1 := by rw [hc]; rfl
      have hfirst := first_erase h he hgo.1 hact
      have hleft₁ : (trimIter c.act c.cost (s.trimStart c.left)).left = c.left - 1 := by
        rw [hfirst.left, hcost]
      have hrest := @byCb_walk c s _ _ maxCnt func [] xs hc hfirst.evicted hfirst.offElem hfirst.del
      rw [hleft₁] at hrest
      have hstay : ∀ y, y ∉ x :: picked (c.ret s) (c.left - 1) xs → y ∉ picked (c.ret s) (c.left - 1) xs :=
        fun y hy hin => hy (List.mem_cons_of_mem _ hin)
      obtain ⟨n, hn⟩ := hrest (by
          intro _ y hy
          rcases hfit with hlen | ⟨⟨z, hz, hzstay⟩, _⟩
          . rw [List.length_cons] at hlen
            have hnil : xs = [] := List.length_eq_zero_iff.mp (by omega)
            rw [hnil] at hy
            cases hy
          . obtain ⟨ys, rfl⟩ : ∃ ys, xs = y :: ys := List.head?_eq_some_iff.mp hy
            rcases List.mem_cons.mp hz with rfl | hz
            . exact absurd List.mem_cons_self hzstay
            . rw [List.mem_singleton.mp hz] at hzstay
              exact hstay y hzstay) (by
          intro y hy
          rcases hfit with hlen | ⟨_, hlast⟩
          . rw [List.length_cons] at hlen
            have hnil : xs = [] := List.length_eq_zero_iff.mp (by omega)
            rw [hnil] at hy
            cases hy
          . exact hstay y (hlast y (getLast?_cons_of hy)))
      refine ⟨n + 1, ?_⟩
      rw [filter_cons_notMem hxs]
      exact .succ (first_go h hgo.1) hoff (fun hin => nomatch hin) hn

section Cutoff

variable {tmCutoff : Nat} {func : Option (LsShmHElem → Int)}

def erased (c : TrimCall) (s : LsShmHash) (tmCutoff : Nat) (xs : List Nat) : List Nat :=
  (c.acted s tmCutoff xs).filter (fun x => c.ret s x = 1)

theorem trim_act {e : LsShmHElem} (hc : c = trim tmCutoff func) (he : s.table.elem x = some e) (t : Nat)
    : c.act t e =
        if t < tmCutoff ∧ 0 ≤ c.ret s x then
          if c.ret s x = 1 then .erase (c.ret s x) else .top
        else .stop := by
  have hfunc : c.func = func := by rw [hc]; rfl
  have hact : c.act = trimAct tmCutoff func := by rw [hc]; rfl
  rw [ret_eq he, hfunc, hact, trimAct]
  by_cases hgo : t < tmCutoff ∧ 0 ≤ trimRet func e
  . have ht : ¬ tmCutoff ≤ t := Nat.not_le.mpr hgo.1
    have hneg : ¬ trimRet func e < 0 := Int.not_lt.mpr hgo.2
    rw [if_neg ht, if_neg hneg, if_pos hgo]
    split
    . next hone => rw [hone]
    . rfl
  . rw [if_neg hgo]
    split
    . rfl
    . rw [if_pos (by omega)]

theorem acted_nil : c.acted s tmCutoff [] = [] := rfl

theorem acted_cons (hx : s.lru.lasttime x < tmCutoff ∧ 0 ≤ c.ret s x)
    : c.acted s tmCutoff (x :: xs) = x :: c.acted s tmCutoff xs :=
  List.takeWhile_cons_of_pos (by simpa using hx)

theorem acted_stop (hx : ¬ (s.lru.lasttime x < tmCutoff ∧ 0 ≤ c.ret s x))
    : c.acted s tmCutoff (x :: xs) = [] :=
  List.takeWhile_cons_of_neg (by simpa using hx)

theorem trim_stop {zs : List Nat} (hc : c = trim tmCutoff func) (h : Evicted c s st.hash g ys)
    (hoff : st.offElem = zs.headD 0) (hleft : 0 < st.left) (hdel : st.del = g.length)
    (hmem : ∀ z ∈ zs, z ∈ ys) (htime : ∀ z ∈ zs, st.hash.lru.lasttime z = s.lru.lasttime z)
    (hstop : c.acted s tmCutoff zs = []) (htop : ∀ z ∈ zs, z ∉ tops)
    : ∃ n, Walked c s tops st zs g ys n := by
  cases zs with
  | nil => exact ⟨0, .zero (.inl hoff) h hdel⟩
  | cons z zs =>
    have hz := hmem z List.mem_cons_self
    have hoff : st.offElem = z := hoff
    obtain ⟨e, he, _⟩ := h.ok.rep.elems z hz
    have hgo := not_over hoff (h.ok.list.list.ne_nil hz) hleft
    have hiter := @trimIter_eq c.act c.cost st _ e h.ok (hoff ▸ hz) hleft (hoff ▸ he)
    have hnot : ¬ (s.lru.lasttime z < tmCutoff ∧ 0 ≤ c.ret s z) := by
      intro hgo
      rw [acted_cons hgo] at hstop
      cases hstop
    rw [hoff, htime z List.mem_cons_self, trim_act hc ((h.elem z hz).symm.trans he), if_neg hnot] at hiter
    refine ⟨1, .succ hgo hoff (fun hin => absurd hin (htop z List.mem_cons_self)) (.zero ?_ ?_ ?_)⟩
    . rw [hiter]
      exact .inl rfl
    . rw [hiter]
      exact h.grownTid
    . rw [hiter]
      exact hdel

theorem trim_single {y : Nat} (hc : c = trim tmCutoff func) (h : Evicted c s st.hash g [y])
    (hoff : st.offElem = y) (hleft : 0 < st.left) (hdel : st.del = g.length)
    (htime : st.hash.lru.lasttime y = s.lru.lasttime y)
    (hy : s.lru.lasttime y < tmCutoff ∧ 0 ≤ c.ret s y) (hkeep : c.ret s y ≠ 1)
    : Walked c s [y] st [y] g [y] 1 := by
  have hmem : y ∈ [y] := List.mem_singleton_self y
  obtain ⟨e, he, _⟩ := h.ok.rep.elems y hmem
  have hgo := not_over hoff (h.ok.list.list.ne_nil hmem) hleft
  have hiter := @trimIter_eq c.act c.cost st _ e h.ok (hoff ▸ hmem) hleft (hoff ▸ he)
  have hnext : st.hash.lru.linkNext y = 0 := h.ok.up.2.2
  rw [hoff, htime, trim_act hc ((h.elem y hmem).symm.trans he), if_pos hy, if_neg hkeep, hnext] at hiter
  have hbase := h.grownTid
  obtain ⟨hok, hfirst, hd⟩ := hbase.ok.top_single
  refine .succ hgo hoff (fun _ => ?_) (.zero ?_ ?_ ?_)
  . rw [hiter]
    exact hfirst
  . rw [hiter]
    exact .inl rfl
  . rw [hiter]
    exact hbase.relinked (quiet_linkSetTop _ y) (List.Perm.refl _) hok hd
  . rw [hiter]
    exact hdel

theorem trim_settled (hc : c = trim tmCutoff func) (h : LruOk s xs)
    (hfit : (c.acted s tmCutoff xs).length ≤ 1 ∨ ∃ x y, xs = [x, y] ∧ c.ret s x = 1 ∧ c.ret s y ≠ 1)
    : ∃ n, Walked c s (c.top s xs) (s.trimStart c.left) xs (c.erased s tmCutoff xs)
        (xs.filter (fun x => x ∉ c.erased s tmCutoff xs ∧ x ∉ c.top s xs) ++ c.top s xs) n := by
  have hleft : 0 < c.left := by rw [hc]; exact Int.one_pos
  have hcost : ∀ e, c.cost e = 0 := by rw [hc]; exact fun _ => rfl
  have htop : c.top s xs = (c.acted s tmCutoff xs).filter (fun x => c.ret s x ≠ 1) := by rw [hc]; rfl
  rw [htop, erased]
  have hstart : Evicted c s (s.trimStart c.left).hash [] xs := .start h
  have hoff := offElem_start h c.left
  have hnone : c.acted s tmCutoff xs = [] → ∃ n, Walked c s [] (s.trimStart c.left) xs [] xs n :=
    fun hstop => trim_stop hc hstart hoff hleft rfl (fun _ hz => hz) (fun _ _ => rfl) hstop
      (fun _ _ hin => nomatch hin)
  cases xs with
  | nil => exact hnone rfl
  | cons x xs =>
    by_cases hx : s.lru.lasttime x < tmCutoff ∧ 0 ≤ c.ret s x
    . obtain ⟨e, he, _⟩ := h.rep.elems x List.mem_cons_self
      have hxs := (List.nodup_cons.mp h.rep.nodup).1
      have hgo := first_go h hleft
      have hact := trim_act hc he (s.lru.lasttime x)
      rw [if_pos hx] at hact
      rw [acted_cons hx] at hfit ⊢
      by_cases hone : c.ret s x = 1
      . rw [if_pos hone] at hact
        have hfirst := first_erase h he hleft hact
        have hleft₁ : 0 < (trimIter c.act c.cost (s.trimStart c.left)).left := by
          rw [hfirst.left, hcost]
          omega
        by_cases hstop : c.acted s tmCutoff xs = []
        . obtain ⟨n, hn⟩ := @trim_stop c s _ _ _ [] tmCutoff func xs hc hfirst.evicted hfirst.offElem hleft₁
            hfirst.del (fun _ hz => hz) hfirst.lasttime hstop (fun _ _ hin => nomatch hin)
          have hkeep : (x :: xs).filter (fun y => y ∉ [x] ∧ y ∉ []) = xs := by
            have hfilter := filter_cons_notMem hxs []
            simpa using hfilter
          rw [hstop, show [x].filter (fun y => c.ret s y = 1) = [x] by simp [hone],
            show [x].filter (fun y => c.ret s y ≠ 1) = [] by simp [hone], hkeep, List.append_nil]
          exact ⟨n + 1, .succ hgo hoff (fun hin => nomatch hin) hn⟩
        . -- the second one of two elements is stamped where it stands
          obtain ⟨y, rfl, hytwo⟩ : ∃ y, xs = [y] ∧ c.ret s y ≠ 1 := by
            rcases hfit with hlen | ⟨x', y, heq, _, hy⟩
            . exact absurd (by simpa using hlen) hstop
            . rw [List.cons.injEq] at heq
              exact ⟨y, heq.2, hy⟩
          have hy : s.lru.lasttime y < tmCutoff ∧ 0 ≤ c.ret s y := by
            by_contra hnot
            exact hstop (acted_stop hnot)
          have hyx : y ≠ x := fun heq => hxs (List.mem_singleton.mpr heq.symm)
          have hn := trim_single hc hfirst.evicted hfirst.offElem hleft₁ hfirst.del
            (hfirst.lasttime y (List.mem_singleton_self y)) hy hytwo
          rw [acted_cons hy, acted_nil, show [x, y].filter (fun y => c.ret s y = 1) = [x] by simp [hone, hytwo],
            show [x, y].filter (fun y => c.ret s y ≠ 1) = [y] by simp [hone, hytwo],
            show [x, y].filter (fun z => z ∉ [x] ∧ z ∉ [y]) = [] by simp, List.nil_append]
          exact ⟨2, .succ hgo hoff (fun hin => absurd (List.mem_singleton.mp hin).symm hyx) hn⟩
      . rw [if_neg hone] at hact
        obtain ⟨hfirst, hlinked⟩ := first_top h he hleft hact
        have hleft₁ : 0 < (trimIter c.act c.cost (s.trimStart c.left)).left := by
          rw [hfirst.left, hcost]
          omega
        have hstop : c.acted s tmCutoff xs = [] := by
          rcases hfit with hlen | ⟨x', _, heq, hone', _⟩
          . simpa using hlen
          . rw [List.cons.injEq] at heq
            exact absurd (heq.1 ▸ hone') hone
        obtain ⟨n, hn⟩ := @trim_stop c s _ _ _ [x] tmCutoff func xs hc hfirst.evicted hfirst.offElem hleft₁
          hfirst.del
          (fun z hz => List.mem_append_left _ hz) hfirst.lasttime hstop
          (fun z hz hin => hxs (List.mem_singleton.mp hin ▸ hz))
        have hkeep : (x :: xs).filter (fun y => y ∉ [] ∧ y ∉ [x]) = xs := by
          have hfilter := filter_cons_notMem hxs []
          simp only [List.not_mem_nil, not_false_eq_true, true_and] at hfilter ⊢
          simpa using hfilter
        rw [hstop, show [x].filter (fun y => c.ret s y = 1) = [] by simp [hone],
          show [x].filter (fun y => c.ret s y ≠ 1) = [x] by simp [hone], hkeep]
        refine ⟨n + 1, ?_⟩
        exact .succ hgo hoff (fun _ => hlinked) hn
    . rw [acted_stop hx]
      obtain ⟨n, hn⟩ := hnone (acted_stop hx)
      exact ⟨n, by simpa using hn⟩

end Cutoff

end Start

end TrimCall

end Lsmcd
