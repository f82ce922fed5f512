import Lsmcd.Lib.Slots
import Lsmcd.Repl.Progress
import Lsmcd.Shm.LruTime
import Mathlib.Data.List.Find
import Mathlib.Data.List.TakeWhile

/-!
Bulk replication: the elements of the registered time slots are read from the LRU list
(`lruhashreplbridge.cpp`).
-/

namespace Lsmcd

open Packed Linked

namespace LsShmHash

def lruFuel (s : LsShmHash) : Nat := s.lru.nvalset.toNat + 1

def nextTmLruIterOff (s : LsShmHash) (tmCutoff : Nat) : Nat :=
  if !s.flagLru then 0
  else if 0 < tmCutoff then
    seek s.getLruLinkNext 0
      (fun off => (s.offset2iterator off).isNone || decide (tmCutoff < s.getLruLasttime off))
      s.lruFuel s.lru.linkLast
  else s.lru.linkLast

def nextLruIterOff (s : LsShmHash) (iterOff : Nat) : Nat :=
  if !s.flagLru then 0
  else if iterOff = 0 then s.lru.linkLast
  else if (s.offset2iterator iterOff).isSome then s.getLruLinkNext iterOff
  else 0

end LsShmHash

namespace LruHashReplBridge

variable {σ : Type} (s : LsShmHash)

def eachInTmslot (fn : LsShmHElem → Nat → σ → σ) (nextTm : Nat) : Nat → Nat → σ → Option σ
  | 0, _, _ => none
  | fuel + 1, iterOff, pUData1 =>
    let iterOff := s.nextLruIterOff iterOff
    if iterOff = 0 then some pUData1
    else do
      let iter ← s.offset2iterator iterOff
      if nextTm ≠ s.getLruLasttime iterOff then some pUData1
      else eachInTmslot fn nextTm fuel iterOff (fn iter nextTm pUData1)

def for_each_tmslot (now tm endTm : Nat) (fn : LsShmHElem → Nat → σ → σ) (pUData1 : σ)
    : Option (Nat × σ) :=
  let iterOff := s.nextTmLruIterOff tm
  if iterOff = 0 then some (if endTm < now then now + 1 else endTm + 1, pUData1)
  else do
    let iter ← s.offset2iterator iterOff
    let nextTm := s.getLruLasttime iterOff
    if endTm < nextTm then some (nextTm, pUData1)
    else
      let pUData1 ← eachInTmslot s fn nextTm s.lruFuel iterOff (fn iter nextTm pUData1)
      some (nextTm, pUData1)

def readTillNextTmSlotFn (iter : LsShmHElem) (lruTm : Nat) (pAutoBuf : AutoBuf) : AutoBuf :=
  let uKeyLen := UInt32.ofNat iter.key.length
  let uValLen := UInt32.ofNat iter.valLen
  let b := ((pAutoBuf.append32 (UInt32.ofNat lruTm)).append32 uKeyLen).append32 uValLen
  (b.appended iter.key (toInt uKeyLen.toNat)).appended iter.getVal (toInt uValLen.toNat)

def readTillNextTmSlot (now tm endTm : Nat) (rAutoBuf : AutoBuf) : Option (Nat × AutoBuf) :=
  for_each_tmslot s now tm endTm readTillNextTmSlotFn rAutoBuf

/--
The loop of `readShmKeyVal`, `time` is what the clock shows in its rounds. None is a failed assertion,
an access through `NULL`, or a loop that is not over after so many rounds.
-/
def readLoop (contId availSize endTm : UInt32)
    : Nat → (Nat → Nat) → UInt32 → ReplProgressTrker → AutoBuf → Option (ReplProgressTrker × AutoBuf)
  | 0, _, _, _, _ => none
  | fuel + 1, time, currTm, t, rAutoBuf =>
    if !t.isReplDone contId ∧ UInt32.ofNat rAutoBuf.size < availSize then do
      let (nextTm, rAutoBuf) ← readTillNextTmSlot s (time 0) currTm.toNat (endTm + 1).toNat rAutoBuf
      -- A `time_t` that is put into 32 bits.
      let currTm := UInt32.ofNat nextTm
      let (_, t) ← t.advBReplTmSlot contId currTm
      readLoop contId availSize endTm fuel (fun k => time (k + 1)) currTm t rAutoBuf
    else some (t, rAutoBuf)

def readShmKeyVal (fuel : Nat) (time : Nat → Nat) (contId : UInt32) (t : ReplProgressTrker)
    (availSize : UInt32) (rAutoBuf : AutoBuf) : Option (ReplProgressTrker × AutoBuf) := do
  let (currTm, endTm) ← t.getBReplTmRange contId
  readLoop s contId availSize endTm fuel time currTm t rAutoBuf

structure Call where
  availSize : UInt32
  time : Nat → Nat

/--
Calls into an empty buffer until the container is done, each of them comes to its end. With each
buffer comes whether the container was done then.
-/
inductive Sends (contId : UInt32)
    : (Nat → Call) → ReplProgressTrker → List (Bool × AutoBuf) → Prop
  | done {calls : Nat → Call} {t : ReplProgressTrker} (hdone : t.isReplDone contId = true)
    : Sends contId calls t []
  | call {calls : Nat → Call} {t t' : ReplProgressTrker} {b : AutoBuf} {sent : List (Bool × AutoBuf)}
    (fuel : Nat) (hmore : t.isReplDone contId = false)
    (hcall : readShmKeyVal s fuel (calls 0).time contId t (calls 0).availSize AutoBuf.new
      = some (t', b))
    (hrest : Sends contId (fun k => calls (k + 1)) t' sent)
    : Sends contId calls t ((t'.isReplDone contId, b) :: sent)

structure Ready (s : LsShmHash) (xs : List Nat) : Prop where
  flagLru : s.flagLru = true
  well : s.LruWell xs
  rising : Rising s.lru.lasttime xs
  set : ∀ x ∈ xs, 1 ≤ s.lru.lasttime x

def pieces (off : Nat) : List (List UInt8) :=
  match s.offset2iterator off with
  | none => []
  | some e => [u32.encode (UInt32.ofNat (s.lru.lasttime off)),
      u32.encode (UInt32.ofNat e.key.length), u32.encode (UInt32.ofNat e.valLen), e.key, e.getVal]

def record (off : Nat) : List UInt8 := (pieces s off).flatten

variable {s} {xs : List Nat}

theorem toInt_mod (n : Nat) : toInt (UInt32.ofNat n).toNat = toInt n := by
  unfold toInt
  rw [UInt32.toNat_ofNat', Nat.mod_mod]

theorem readTillNextTmSlotFn_eq {e : LsShmHElem} {off : Nat} (he : s.offset2iterator off = some e)
    (b : AutoBuf) : readTillNextTmSlotFn e (s.lru.lasttime off) b = b.appendAll (pieces s off) := by
  have hval : e.getVal.length = e.valLen := by
    rw [LsShmHElem.getVal, List.length_map, List.length_range]
  unfold readTillNextTmSlotFn pieces
  rw [he]
  dsimp only
  rw [AutoBuf.append32_eq, AutoBuf.append32_eq, AutoBuf.append32_eq, toInt_mod, toInt_mod, ← hval]
  rfl

namespace Ready

variable (h : Ready s xs)
include h

theorem next_eq {x : Nat} (hx : x ∈ xs) : s.getLruLinkNext x = s.lru.linkNext x := by
  unfold LsShmHash.getLruLinkNext
  rw [if_pos (h.well.links x hx).ptr]

theorem lasttime_eq {x : Nat} (hx : x ∈ xs) : s.getLruLasttime x = s.lru.lasttime x := by
  unfold LsShmHash.getLruLasttime
  rw [if_pos (h.well.links x hx).ptr]

theorem length_lt_lruFuel : xs.length < s.lruFuel := by
  unfold LsShmHash.lruFuel
  rw [h.well.list.nvalset]
  omega

theorem chain : Chain s.getLruLinkNext 0 s.lru.linkLast xs :=
  h.well.list.list.up.congr fun _ hx => h.next_eq hx

theorem nextTmLruIterOff_eq (tm : Nat)
    : s.nextTmLruIterOff tm = (xs.find? fun x => tm < s.lru.lasttime x).getD 0 := by
  unfold LsShmHash.nextTmLruIterOff
  rw [h.flagLru, if_neg (by decide)]
  split
  . rw [h.chain.seek_eq _ h.length_lt_lruFuel]
    congr 1
    apply List.find?_congr
    intro x hx
    obtain ⟨e, he⟩ := (h.well.links x hx).iter
    rw [he, h.lasttime_eq hx]
    rfl
  . next hzero =>
    rw [h.chain.head_eq]
    cases xs with
    | nil => rfl
    | cons x xs =>
      have hx := h.set x List.mem_cons_self
      rw [List.find?_cons, decide_eq_true (by omega)]
      rfl

theorem nextLruIterOff_eq {x : Nat} (hx : x ∈ xs) : s.nextLruIterOff x = s.lru.linkNext x := by
  obtain ⟨e, he⟩ := (h.well.links x hx).iter
  unfold LsShmHash.nextLruIterOff
  rw [h.flagLru, if_neg (by decide), if_neg (h.well.list.list.ne_nil hx), he, Option.isSome_some,
    if_pos rfl, h.next_eq hx]

theorem eachInTmslot_eq {nextTm x : Nat} {post : List Nat} (hmem : ∀ y ∈ x :: post, y ∈ xs)
    (hchain : Chain s.lru.linkNext 0 (s.lru.linkNext x) post) {fuel : Nat}
    (hfuel : post.length < fuel) (b : AutoBuf)
    : eachInTmslot s readTillNextTmSlotFn nextTm fuel x b
      = some (b.appendAll ((post.takeWhile fun y => s.lru.lasttime y = nextTm).flatMap
          (pieces s))) := by
  induction post generalizing x fuel b with
  | nil =>
    cases fuel with
    | zero => contradiction
    | succ fuel =>
      rw [eachInTmslot, h.nextLruIterOff_eq (hmem x List.mem_cons_self), hchain, if_pos rfl]
      rfl
  | cons y post ih =>
    obtain ⟨hxy, hy0, hrest⟩ := hchain
    have hy := hmem y (List.mem_cons_of_mem _ List.mem_cons_self)
    obtain ⟨e, he⟩ := (h.well.links y hy).iter
    cases fuel with
    | zero => contradiction
    | succ fuel =>
      rw [eachInTmslot, h.nextLruIterOff_eq (hmem x List.mem_cons_self), hxy, if_neg hy0, he,
        h.lasttime_eq hy, List.takeWhile_cons]
      dsimp only [bind, Option.bind_some]
      by_cases heq : s.lru.lasttime y = nextTm
      . rw [if_neg (not_not.mpr heq.symm), if_pos (decide_eq_true heq), ← heq,
          readTillNextTmSlotFn_eq he, heq, List.flatMap_cons, AutoBuf.appendAll_append]
        exact ih (fun z hz => hmem z (List.mem_cons_of_mem _ hz)) hrest
          (Nat.lt_of_succ_lt_succ hfuel) _
      . rw [if_pos (Ne.symm heq), if_neg (by rw [decide_eq_true_eq]; exact heq)]
        rfl

theorem readTillNextTmSlot_eq (now tm endTm : Nat) (b : AutoBuf)
    : let nextTm := above s.lru.lasttime tm (max now endTm + 1) xs
      readTillNextTmSlot s now tm endTm b
        = some (nextTm, b.appendAll ((between s.lru.lasttime tm (min nextTm endTm) xs).flatMap
            (pieces s))) := by
  intro nextTm
  unfold readTillNextTmSlot for_each_tmslot
  rw [h.nextTmLruIterOff_eq]
  rcases split_above s.lru.lasttime tm xs with hall | ⟨pre, x, post, hxs, hpre, hx⟩
  . have hnext : nextTm = max now endTm + 1 := above_none hall
    have hnil : between s.lru.lasttime tm (min nextTm endTm) xs = [] :=
      between_eq_nil fun y hy hlt => absurd (hall y hy) (Nat.not_le_of_lt hlt)
    have hfind : xs.find? (fun x => decide (tm < s.lru.lasttime x)) = none :=
      List.find?_eq_none.mpr fun y hy => by
        rw [decide_eq_true_eq]
        exact Nat.not_lt_of_le (hall y hy)
    have htime : (if endTm < now then now + 1 else endTm + 1) = max now endTm + 1 := by
      split <;> omega
    rw [hnil, hfind, Option.getD_none, if_pos rfl, htime, hnext]
    rfl
  . have hmem : x ∈ xs := by
      rw [hxs]
      simp
    have hnext : nextTm = s.lru.lasttime x := by
      unfold nextTm
      rw [hxs, above_of_split hpre hx]
    obtain ⟨e, he⟩ := (h.well.links x hmem).iter
    have hfind : xs.find? (fun x => decide (tm < s.lru.lasttime x)) = some x := by
      rw [hxs, find?_of_split hpre hx]
    rw [hfind, Option.getD_some, if_neg (h.well.list.list.ne_nil hmem), he]
    dsimp only [bind, Option.bind_some]
    rw [h.lasttime_eq hmem, hnext]
    split
    . next hlt =>
      have hnil : between s.lru.lasttime tm (min (s.lru.lasttime x) endTm) xs = [] := by
        apply between_above (d := max now endTm + 1) h.rising
        rw [show above s.lru.lasttime tm (max now endTm + 1) xs = s.lru.lasttime x from hnext]
        omega
      rw [hnil]
      rfl
    . next hge =>
      have hchain := h.well.list.list.up
      have hrising := h.rising
      have hfuel := h.length_lt_lruFuel
      rw [hxs] at hchain hrising
      rw [hxs, List.length_append, List.length_cons] at hfuel
      have hslot := between_of_split hrising hpre hx
      have hpost : ∀ y ∈ x :: post, y ∈ xs := by
        intro y hy
        rw [hxs]
        exact List.mem_append_right _ hy
      rw [Nat.min_eq_left (Nat.le_of_not_lt hge), readTillNextTmSlotFn_eq he,
        h.eachInTmslot_eq hpost hchain.suffix.2.2 (by omega), ← AutoBuf.appendAll_append, hxs, hslot,
        List.takeWhile_cons, if_pos (decide_eq_true rfl), List.flatMap_cons]
      rfl

end Ready

section Loop

variable {contId availSize tn : UInt32} {t : ReplProgressTrker} {b : AutoBuf}

theorem readLoop_round (tn : UInt32) (h : Ready s xs) {e : UInt32} {es : List UInt32}
    (ht : t.Pending contId (e :: es)) (hsize : UInt32.ofNat b.size < availSize)
    (time : Nat → Nat) (c : UInt32)
    : let next := above s.lru.lasttime c.toNat (max (time 0) tn.toNat + 1) xs
      ∃ t', t'.Pending contId ((e :: es).dropWhile fun e => e.toNat < next % 2 ^ 32) ∧
        ∀ fuel, readLoop s contId availSize (tn - 1) (fuel + 1) time c t b
          = readLoop s contId availSize (tn - 1) fuel (fun k => time (k + 1)) (UInt32.ofNat next) t'
            (b.appendAll ((between s.lru.lasttime c.toNat (min next tn.toNat) xs).flatMap
              (pieces s))) := by
  intro next
  obtain ⟨done, t', hadv, ht'⟩ := ReplProgressTrker.advBReplTmSlot_eq ht (UInt32.ofNat next)
  have hnot : t.isReplDone contId = false := by
    rw [ReplProgressTrker.isReplDone_iff ht]
    rfl
  refine ⟨t', ?_, ?_⟩
  . rw [UInt32.toNat_ofNat'] at ht'
    exact ht'
  . intro fuel
    rw [readLoop, if_pos ⟨by rw [hnot]; rfl, hsize⟩, UInt32.sub_add_cancel,
      h.readTillNextTmSlot_eq]
    dsimp only [bind, Option.bind_some]
    rw [hadv]
    rfl

structure Within (s : LsShmHash) (xs : List Nat) (contId : UInt32) (es : List UInt32) (c₀ c : Nat)
    (t : ReplProgressTrker) (b : AutoBuf) : Prop where
  pending : t.Pending contId (es.dropWhile fun e => e.toNat < c)
  content : b.content = (between s.lru.lasttime c₀ c xs).flatMap (record s)
  paged : b.Paged

/--
There is an element at the last time, or what follows that time is not in front of it once it has been
put into 32 bits.
-/
def Stops (s : LsShmHash) (xs : List Nat) (clock : Nat → Prop) (tn : Nat) : Prop :=
  (∃ x ∈ xs, s.lru.lasttime x = tn) ∨
    ∀ now, clock now → tn ≤ above s.lru.lasttime tn (max now tn + 1) xs % 2 ^ 32

def Fits (s : LsShmHash) (xs : List Nat) (c tn : Nat) : Prop :=
  ((between s.lru.lasttime c tn xs).flatMap (record s)).length ≤ 2 ^ 31 - 512

theorem length_flatMap_le {α : Type} {f : α → List UInt8} {ys zs : List α} (h : ys.Sublist zs)
    : (ys.flatMap f).length ≤ (zs.flatMap f).length := by
  induction h with
  | slnil => exact Nat.le_refl _
  | cons a _ ih =>
    rw [List.flatMap_cons, List.length_append]
    omega
  | cons_cons a _ ih =>
    rw [List.flatMap_cons, List.flatMap_cons, List.length_append, List.length_append]
    omega

theorem Fits.mono (hrising : Rising s.lru.lasttime xs) {c c' tn : Nat} (h : Fits s xs c tn)
    (hc : c ≤ c') (htn : c' ≤ tn) : Fits s xs c' tn := by
  have hle := length_flatMap_le (f := record s)
    (List.sublist_append_right (between s.lru.lasttime c c' xs) (between s.lru.lasttime c' tn xs))
  rw [between_append hrising hc htn] at hle
  unfold Fits at h ⊢
  omega

theorem flatten_pieces (ys : List Nat) : (ys.flatMap (pieces s)).flatten = ys.flatMap (record s) := by
  induction ys with
  | nil => rfl
  | cons y ys ih =>
    rw [List.flatMap_cons, List.flatMap_cons, List.flatten_append, ih]
    rfl

theorem content_appendAll_pieces (hrising : Rising s.lru.lasttime xs) {c₀ c c' : Nat}
    (hc : c₀ ≤ c) (hc' : c ≤ c') (htn : c' ≤ tn.toNat) (hfit : Fits s xs c₀ tn.toNat)
    (hb : b.content = (between s.lru.lasttime c₀ c xs).flatMap (record s)) (hpaged : b.Paged)
    : (b.appendAll ((between s.lru.lasttime c c' xs).flatMap (pieces s))).content
      = (between s.lru.lasttime c₀ c' xs).flatMap (record s) := by
  have hall := between_append hrising (Nat.le_trans hc hc') htn
  have hsub : (between s.lru.lasttime c₀ c' xs).Sublist (between s.lru.lasttime c₀ tn.toNat xs) := by
    rw [← hall]
    exact List.sublist_append_left ..
  have hlen := length_flatMap_le (f := record s) hsub
  have happ := between_append hrising hc hc'
  rw [← happ, List.flatMap_append, List.length_append] at hlen
  have hroom : b.Room ((between s.lru.lasttime c c' xs).flatMap (pieces s)).flatten.length := by
    unfold Fits at hfit
    unfold AutoBuf.Room AutoBuf.size
    rw [flatten_pieces, hb]
    omega
  rw [AutoBuf.content_appendAll hpaged hroom, flatten_pieces, hb, ← List.flatMap_append, happ]

theorem readLoop_done (ht : t.Pending contId []) (endTm c : UInt32) (time : Nat → Nat) (b : AutoBuf)
    : readLoop s contId availSize endTm 1 time c t b = some (t, b) := by
  rw [readLoop, ReplProgressTrker.isReplDone_iff ht, if_neg]
  intro hdone
  exact absurd hdone.1 (by decide)

theorem readLoop_full (hsize : ¬ UInt32.ofNat b.size < availSize) (endTm c : UInt32)
    (time : Nat → Nat) : readLoop s contId availSize endTm 1 time c t b = some (t, b) := by
  rw [readLoop, if_neg fun hmore => hsize hmore.2]

theorem Stops.le_mod {clock : Nat → Prop} {c now : Nat} (hstops : Stops s xs clock tn.toNat)
    (hrising : Rising s.lru.lasttime xs) (hc : c < tn.toNat) (hnow : clock now)
    (hlt : tn.toNat < above s.lru.lasttime c (max now tn.toNat + 1) xs)
    : tn.toNat ≤ above s.lru.lasttime c (max now tn.toNat + 1) xs % 2 ^ 32 := by
  rcases hstops with ⟨x, hx, htx⟩ | hall
  . rw [← htx] at hc
    have hle := above_le (d := max now tn.toNat + 1) hrising hx hc
    omega
  . rw [above_eq (Nat.le_of_lt hc) hlt]
    exact hall now hnow

structure Times (tn : UInt32) (es : List UInt32) : Prop where
  last : es.getLast? = some (tn - 1)
  increasing : es.Pairwise (· < ·)
  pos : 0 < tn.toNat

namespace Times

variable {es : List UInt32}

theorem toNat_last (h : Times tn es) : (tn - 1).toNat + 1 = tn.toNat := by
  have hpos := h.pos
  have hle : 1 ≤ tn := UInt32.le_iff_toNat_le.mpr hpos
  rw [UInt32.toNat_sub_of_le _ _ hle]
  exact Nat.sub_add_cancel hpos

theorem lt (h : Times tn es) {e : UInt32} (he : e ∈ es) : e.toNat < tn.toNat := by
  have hlast := h.toNat_last
  obtain ⟨ys, hys⟩ := List.getLast?_eq_some_iff.mp h.last
  have hinc := h.increasing
  rw [hys] at hinc he
  rcases List.mem_append.mp he with hin | hin
  . have hlt := (List.pairwise_append.mp hinc).2.2 e hin (tn - 1) List.mem_cons_self
    rw [UInt32.lt_iff_toNat_lt] at hlt
    omega
  . rw [List.mem_singleton.mp hin]
    omega

theorem last_mem (h : Times tn es) {c : Nat} (hc : c < tn.toNat)
    : tn - 1 ∈ es.dropWhile fun e => e.toNat < c := by
  have hlast := h.toNat_last
  apply mem_dropWhile (List.mem_of_getLast? h.last)
  rw [decide_eq_true_eq]
  omega

theorem dropWhile_eq_nil (h : Times tn es) {c : Nat} (hc : tn.toNat ≤ c)
    : es.dropWhile (fun e => e.toNat < c) = [] := by
  apply List.dropWhile_eq_nil_iff.mpr
  intro e he
  exact decide_eq_true (Nat.lt_of_lt_of_le (h.lt he) hc)

theorem dropWhile (h : Times tn es) {c : Nat} (hc : c < tn.toNat)
    : Times tn (es.dropWhile fun e => e.toNat < c) := by
  have hne := List.ne_nil_of_mem (h.last_mem hc)
  obtain ⟨pre, hpre⟩ := List.dropWhile_suffix (l := es) fun e => decide (e.toNat < c)
  have hlast := h.last
  rw [← hpre, List.getLast?_append_of_ne_nil _ hne] at hlast
  exact ⟨hlast, h.increasing.sublist (List.dropWhile_sublist _), h.pos⟩

end Times

theorem le_of_mem_dropWhile {es : List UInt32} (hes : es.Pairwise (· < ·)) {c : Nat} {e : UInt32}
    (he : e ∈ es.dropWhile fun e => e.toNat < c) : c ≤ e.toNat := by
  induction es with
  | nil => contradiction
  | cons d es ih =>
    obtain ⟨hd, hes⟩ := List.pairwise_cons.mp hes
    rw [List.dropWhile_cons] at he
    split at he
    . exact ih hes he
    . next hdc =>
      rw [decide_eq_true_eq] at hdc
      rcases List.mem_cons.mp he with rfl | hin
      . exact Nat.le_of_not_lt hdc
      . have hlt := UInt32.lt_iff_toNat_lt.mp (hd e hin)
        omega

theorem dropWhile_lt {es : List UInt32} {c c' : Nat} (h : c ≤ c')
    : (es.dropWhile fun e => e.toNat < c).dropWhile (fun e => e.toNat < c')
      = es.dropWhile fun e => e.toNat < c' := by
  apply dropWhile_dropWhile
  intro e he
  rw [decide_eq_true_eq] at he ⊢
  omega

theorem readLoop_within (h : Ready s xs) {clock : Nat → Prop} (hstops : Stops s xs clock tn.toNat)
    {es : List UInt32} (hes : Times tn es) {c₀ : Nat} (hfit : Fits s xs c₀ tn.toNat) {c : UInt32}
    {t : ReplProgressTrker} {b : AutoBuf} (hc₀ : c₀ ≤ c.toNat) (hc : c.toNat < tn.toNat) {time : Nat → Nat}
    (htime : ∀ k, clock (time k)) (hw : Within s xs contId es c₀ c.toNat t b) (availSize : UInt32)
    : ∃ fuel c' t' b', readLoop s contId availSize (tn - 1) fuel time c t b = some (t', b') ∧
        c.toNat ≤ c' ∧ c' ≤ tn.toNat ∧ Within s xs contId es c₀ c' t' b' ∧
        (c' = tn.toNat ∨ availSize ≤ UInt32.ofNat b'.size) := by
  by_cases hsize : UInt32.ofNat b.size < availSize
  . obtain ⟨e, es', hcons⟩ := List.exists_cons_of_ne_nil (List.ne_nil_of_mem (hes.last_mem hc))
    have hpending := hw.pending
    rw [hcons] at hpending
    obtain ⟨t', hp', hround⟩ := readLoop_round tn h hpending hsize time c
    generalize hnext : above s.lru.lasttime c.toNat (max (time 0) tn.toNat + 1) xs = next
      at hp' hround
    have hlt : c.toNat < next := by
      rw [← hnext]
      apply lt_above
      omega
    have htn := tn.toNat_lt
    have hcontent := content_appendAll_pieces h.rising hc₀
      (show c.toNat ≤ min next tn.toNat by omega) (Nat.min_le_right ..) hfit hw.content hw.paged
    have hpaged := AutoBuf.paged_appendAll hw.paged
      ((between s.lru.lasttime c.toNat (min next tn.toNat) xs).flatMap (pieces s))
    generalize b.appendAll _ = b' at hround hcontent hpaged
    rw [← hcons] at hp'
    by_cases hmore : next < tn.toNat
    . -- The slot was not the last one: it goes on from there.
      have hmod : next % 2 ^ 32 = next := Nat.mod_eq_of_lt (by omega)
      have hto : (UInt32.ofNat next).toNat = next := by rw [UInt32.toNat_ofNat', hmod]
      rw [hmod, dropWhile_lt (Nat.le_of_lt hlt), ← hto] at hp'
      rw [Nat.min_eq_left (Nat.le_of_lt hmore), ← hto] at hcontent
      obtain ⟨fuel, c', t'', b'', hrun, hle, hle', hw', hend⟩ := readLoop_within h hstops hes hfit
        (by omega) (by omega) (fun k => htime (k + 1)) ⟨hp', hcontent, hpaged⟩ availSize
      refine ⟨fuel + 1, c', t'', b'', (hround fuel).trans hrun, by omega, hle', hw', hend⟩
    . have hmod : tn.toNat ≤ next % 2 ^ 32 := by
        by_cases hlast : next = tn.toNat
        . omega
        . rw [← hnext]
          apply hstops.le_mod h.rising hc (htime 0)
          omega
      rw [dropWhile_lt (by omega), hes.dropWhile_eq_nil hmod] at hp'
      rw [Nat.min_eq_right (Nat.le_of_not_lt hmore)] at hcontent
      refine ⟨2, tn.toNat, t', b', (hround 1).trans (readLoop_done hp' ..), Nat.le_of_lt hc,
        Nat.le_refl _, ⟨?_, hcontent, hpaged⟩, .inl rfl⟩
      rw [hes.dropWhile_eq_nil (Nat.le_refl _)]
      exact hp'
  . exact ⟨1, c.toNat, t, b, readLoop_full hsize .., Nat.le_refl _, Nat.le_of_lt hc, hw,
      .inr (UInt32.not_lt.mp hsize)⟩
termination_by tn.toNat - c.toNat

theorem readShmKeyVal_within (h : Ready s xs) {clock : Nat → Prop}
    (hstops : Stops s xs clock tn.toNat) {e : UInt32} {es : List UInt32} (hes : Times tn (e :: es))
    (hfit : Fits s xs e.toNat tn.toNat) (ht : t.Pending contId (e :: es)) (hsize : 0 < availSize)
    {time : Nat → Nat} (htime : ∀ k, clock (time k))
    : ∃ fuel c' t' b', readShmKeyVal s fuel time contId t availSize AutoBuf.new = some (t', b') ∧
        e.toNat ≤ c' ∧ c' ≤ tn.toNat ∧ Within s xs contId (e :: es) e.toNat c' t' b' ∧
        (c' = tn.toNat ∨ between s.lru.lasttime e.toNat c' xs ≠ []) := by
  have hkeep : (e :: es).dropWhile (fun d => d.toNat < e.toNat) = e :: es := by
    rw [List.dropWhile_cons_of_neg]
    simp
  have hstart : Within s xs contId (e :: es) e.toNat e.toNat t AutoBuf.new := by
    refine ⟨?_, ?_, AutoBuf.paged_new⟩
    . rw [hkeep]
      exact ht
    . rw [between_self]
      rfl
  obtain ⟨fuel, c', t', b', hrun, hle, hle', hw, hend⟩ := readLoop_within h hstops hes hfit
    (Nat.le_refl _) (hes.lt List.mem_cons_self) htime hstart availSize
  have hlast := hes.last
  rw [List.getLast?_eq_some_getLast (List.cons_ne_nil e es)] at hlast
  refine ⟨fuel, c', t', b', ?_, hle, hle', hw, ?_⟩
  . rw [readShmKeyVal, ReplProgressTrker.getBReplTmRange_eq ht, Option.some.inj hlast]
    exact hrun
  . refine hend.imp_right fun hfull hnil => ?_
    have hcontent := hw.content
    rw [hnil, List.flatMap_nil] at hcontent
    rw [AutoBuf.size, hcontent] at hfull
    exact absurd hsize (UInt32.not_lt.mpr hfull)

/--
What a call hands over: all elements of the slots `ys` it has read, at least one slot if the container
is not done then.
-/
structure IsCall (s : LsShmHash) (xs : List Nat) (r : Bool × AutoBuf) (ys : List Nat) : Prop where
  content : r.2.content = ys.flatMap (record s)
  whole : ∀ y ∈ ys, ∀ x ∈ xs, s.lru.lasttime x = s.lru.lasttime y → x ∈ ys
  progress : r.1 = true ∨ ys ≠ []

def Allowed (clock : Nat → Prop) (calls : Nat → Call) : Prop :=
  ∀ k, 0 < (calls k).availSize ∧ ∀ j, clock ((calls k).time j)

theorem Times.not_done {es : List UInt32} (hes : Times tn es) (ht : t.Pending contId es)
    : t.isReplDone contId = false := by
  rw [ReplProgressTrker.isReplDone_iff ht]
  exact decide_eq_false (List.ne_nil_of_mem (List.mem_of_getLast? hes.last))

theorem isCall_times (h : Ready s xs) {clock : Nat → Prop} (hstops : Stops s xs clock tn.toNat)
    {e : UInt32} {es : List UInt32} (hes : Times tn (e :: es)) (hfit : Fits s xs e.toNat tn.toNat)
    (ht : t.Pending contId (e :: es)) (hsize : 0 < availSize) {time : Nat → Nat}
    (htime : ∀ k, clock (time k))
    : ∃ fuel c' t' b', readShmKeyVal s fuel time contId t availSize AutoBuf.new = some (t', b') ∧
        e.toNat < c' ∧ c' ≤ tn.toNat ∧
        t'.Pending contId (es.dropWhile fun d => d.toNat < c') ∧
        (es.dropWhile (fun d => d.toNat < c') = [] ∨
          Times tn (es.dropWhile fun d => d.toNat < c')) ∧
        IsCall s xs (t'.isReplDone contId, b') (between s.lru.lasttime e.toNat c' xs) := by
  obtain ⟨fuel, c', t', b', hrun, hle, hle', hw, hend⟩ := readShmKeyVal_within h hstops hes hfit ht
    hsize htime
  have hgone : e.toNat < c' := by
    rcases hend with rfl | hne
    . exact hes.lt List.mem_cons_self
    . obtain ⟨x, hx⟩ := List.exists_mem_of_ne_nil _ hne
      have hmem := mem_between.mp hx
      omega
  have hleft : (e :: es).dropWhile (fun d => d.toNat < c') = es.dropWhile fun d => d.toNat < c' :=
    List.dropWhile_cons_of_pos (decide_eq_true hgone)
  have hpending := hw.pending
  refine ⟨fuel, c', t', b', hrun, hgone, hle', hleft ▸ hpending, ?_, hw.content, ?_, ?_⟩
  . rw [← hleft]
    rcases Nat.lt_or_ge c' tn.toNat with hlt | hge
    . exact .inr (hes.dropWhile hlt)
    . exact .inl (hes.dropWhile_eq_nil hge)
  . intro y hy x hx hxy
    rw [mem_between, hxy]
    exact ⟨hx, (mem_between.mp hy).2⟩
  . refine hend.imp_left ?_
    rintro rfl
    rw [hes.dropWhile_eq_nil (Nat.le_refl _)] at hpending
    rw [ReplProgressTrker.isReplDone_iff hpending]
    rfl

theorem sends_times (h : Ready s xs) {clock : Nat → Prop} (hstops : Stops s xs clock tn.toNat)
    {es : List UInt32} (hes : es = [] ∨ Times tn es) {c : Nat} (hc : ∀ e ∈ es, c ≤ e.toNat)
    (hctn : c ≤ tn.toNat) (hfit : Fits s xs c tn.toNat) {t : ReplProgressTrker}
    (ht : t.Pending contId es) {calls : Nat → Call} (hcalls : Allowed clock calls)
    : ∃ sent yss, Sends s contId calls t sent ∧ List.Forall₂ (IsCall s xs) sent yss ∧
        yss.flatten.Sublist (between s.lru.lasttime c tn.toNat xs) ∧
        ∀ x ∈ xs, ∀ e ∈ es, s.lru.lasttime x = e.toNat + 1 → x ∈ yss.flatten := by
  induction hn : es.length using Nat.strong_induction_on generalizing es c t calls with
  | _ n ih =>
    subst hn
    cases es with
    | nil =>
      refine ⟨[], [], .done ?_, .nil, List.nil_sublist _, fun _ _ _ he => nomatch he⟩
      rw [ReplProgressTrker.isReplDone_iff ht]
      rfl
    | cons e es =>
      have hes := hes.resolve_left (List.cons_ne_nil e es)
      have hce := hc e List.mem_cons_self
      have hetn := Nat.le_of_lt (hes.lt List.mem_cons_self)
      obtain ⟨hfirst, hrest⟩ := List.pairwise_cons.mp hes.increasing
      obtain ⟨fuel, c', t', b', hrun, hgone, hle', hpending, hleft, hcall⟩ := isCall_times h hstops
        hes (hfit.mono h.rising hce hetn) ht (hcalls 0).1 (hcalls 0).2
      have hlen := (List.dropWhile_sublist (l := es) fun d => decide (d.toNat < c')).length_le
      obtain ⟨sent, yss, hsends, hcalls', hsub, hall⟩ := ih _ (Nat.lt_succ_of_le hlen) hleft
        (fun d hd => le_of_mem_dropWhile hrest hd) hle'
        (hfit.mono h.rising (Nat.le_trans hce (Nat.le_of_lt hgone)) hle') hpending
        (fun k => hcalls (k + 1)) rfl
      refine ⟨_, between s.lru.lasttime e.toNat c' xs :: yss,
        .call fuel (hes.not_done ht) hrun hsends, .cons hcall hcalls', ?_, ?_⟩
      . have happ := hsub.append_left (between s.lru.lasttime e.toNat c' xs)
        rw [between_append h.rising (Nat.le_of_lt hgone) hle'] at happ
        rw [List.flatten_cons, ← between_append h.rising hce hetn]
        exact happ.trans (List.sublist_append_right ..)
      . intro x hx d hd htime
        rw [List.flatten_cons, List.mem_append]
        rcases List.mem_cons.mp hd with rfl | hin
        . refine .inl (mem_between.mpr ⟨hx, ?_⟩)
          omega
        . have hlt := UInt32.lt_iff_toNat_lt.mp (hfirst d hin)
          rcases Nat.lt_or_ge d.toNat c' with hdc | hdc
          . refine .inl (mem_between.mpr ⟨hx, ?_⟩)
            omega
          . refine .inr (hall x hx d (mem_dropWhile hin ?_) htime)
            rw [decide_eq_true_eq]
            omega

/--
Without an element at the last time, and with a clock that shows the same wrong time for ever, no round
takes the last time away.
-/
theorem readLoop_stuck (h : Ready s xs) {now : Nat} (hno : ∀ x ∈ xs, s.lru.lasttime x ≠ tn.toNat)
    (hmod : above s.lru.lasttime tn.toNat (max now tn.toNat + 1) xs % 2 ^ 32 < tn.toNat)
    {fuel : Nat} {c : UInt32} (hc : c.toNat < tn.toNat) {t t' : ReplProgressTrker} {b b' : AutoBuf}
    {es : List UInt32} (hes : Times tn es) (ht : t.Pending contId es)
    (hrun : readLoop s contId availSize (tn - 1) fuel (fun _ => now) c t b = some (t', b'))
    : ∃ es', Times tn es' ∧ t'.Pending contId es' := by
  induction fuel generalizing c t b es with
  | zero => contradiction
  | succ fuel ih =>
    by_cases hsize : UInt32.ofNat b.size < availSize
    . cases es with
      | nil => exact absurd hes.last (by simp)
      | cons e es =>
        obtain ⟨t₁, hp₁, hround⟩ := readLoop_round tn h ht hsize (fun _ => now) c
        have hnext : above s.lru.lasttime c.toNat (max now tn.toNat + 1) xs % 2 ^ 32 < tn.toNat := by
          have htn := tn.toNat_lt
          rcases Nat.lt_trichotomy (above s.lru.lasttime c.toNat (max now tn.toNat + 1) xs) tn.toNat
            with hlt | heq | hgt
          . omega
          . have hne : above s.lru.lasttime c.toNat (max now tn.toNat + 1) xs
                ≠ max now tn.toNat + 1 := by omega
            obtain ⟨x, hx, htx⟩ := above_mem hne
            exact absurd (htx.trans heq) (hno x hx)
          . rw [above_eq (Nat.le_of_lt hc) hgt]
            exact hmod
        rw [hround fuel] at hrun
        exact ih (by rw [UInt32.toNat_ofNat']; exact hnext) (hes.dropWhile hnext) hp₁ hrun
    . rw [readLoop, if_neg fun hmore => hsize hmore.2] at hrun
      rw [← (Prod.mk.inj (Option.some.inj hrun)).1]
      exact ⟨es, hes, ht⟩

theorem not_sends (h : Ready s xs) {now : Nat} (hno : ∀ x ∈ xs, s.lru.lasttime x ≠ tn.toNat)
    (hmod : above s.lru.lasttime tn.toNat (max now tn.toNat + 1) xs % 2 ^ 32 < tn.toNat)
    {calls : Nat → Call} (hcalls : ∀ k, (calls k).time = fun _ => now) {t : ReplProgressTrker}
    {es : List UInt32} (hes : Times tn es) (ht : t.Pending contId es) (sent : List (Bool × AutoBuf))
    : ¬ Sends s contId calls t sent := by
  intro hsends
  induction hsends generalizing es with
  | done hdone =>
    rw [hes.not_done ht] at hdone
    contradiction
  | call fuel hmore hcall hrest ih =>
    cases es with
    | nil => exact absurd hes.last (by simp)
    | cons e es =>
      have hlast := hes.last
      rw [List.getLast?_eq_some_getLast (List.cons_ne_nil e es)] at hlast
      rw [readShmKeyVal, ReplProgressTrker.getBReplTmRange_eq ht, Option.some.inj hlast,
        hcalls 0] at hcall
      obtain ⟨es', hes', ht'⟩ := readLoop_stuck h hno hmod (hes.lt List.mem_cons_self) hes ht hcall
      exact ih (fun k => hcalls (k + 1)) hes' ht'

end Loop

structure TmSlots where
  tms : List UInt32
  ne : tms ≠ []
  increasing : tms.Pairwise (· < ·)
  two_le : ∀ tm ∈ tms, 2 ≤ tm
  fits : tms.length * 4 ≤ 2 ^ 31 - 512

namespace TmSlots

variable (slots : TmSlots)

def first : UInt32 := slots.tms.head slots.ne

def last : UInt32 := slots.tms.getLast slots.ne

def noted : List UInt32 := slots.tms.map (· - 1)

variable {slots}

theorem toNat_pred {tm : UInt32} (h : tm ∈ slots.tms) : (tm - 1).toNat + 1 = tm.toNat := by
  have htwo := UInt32.le_iff_toNat_le.mp (slots.two_le tm h)
  change 2 ≤ tm.toNat at htwo
  have hle : 1 ≤ tm := UInt32.le_iff_toNat_le.mpr (Nat.le_of_succ_le htwo)
  rw [UInt32.toNat_sub_of_le _ _ hle]
  exact Nat.sub_add_cancel (Nat.le_of_succ_le htwo)

theorem first_le {tm : UInt32} (h : tm ∈ slots.tms) : slots.first.toNat ≤ tm.toNat := by
  have hinc := slots.increasing
  obtain ⟨d, ds, htms⟩ := List.exists_cons_of_ne_nil slots.ne
  unfold first
  simp only [htms, List.head_cons] at h hinc ⊢
  rcases List.mem_cons.mp h with rfl | hin
  . exact Nat.le_refl _
  . exact Nat.le_of_lt (UInt32.lt_iff_toNat_lt.mp ((List.pairwise_cons.mp hinc).1 tm hin))

theorem times (slots : TmSlots) : Times slots.last slots.noted := by
  have hlast := List.getLast_mem slots.ne
  refine ⟨?_, ?_, ?_⟩
  . rw [noted, List.getLast?_map, List.getLast?_eq_some_getLast slots.ne]
    rfl
  . rw [noted, List.pairwise_map]
    refine slots.increasing.imp_of_mem fun {a b} ha hb hab => ?_
    have ha' := toNat_pred ha
    have hb' := toNat_pred hb
    rw [UInt32.lt_iff_toNat_lt] at hab ⊢
    omega
  . have hpred := toNat_pred hlast
    unfold last
    omega

theorem first_le_noted {e : UInt32} (he : e ∈ slots.noted) : slots.first.toNat - 1 ≤ e.toNat := by
  obtain ⟨tm, htm, rfl⟩ := List.mem_map.mp he
  have hfirst := first_le htm
  have hpred := toNat_pred htm
  omega

theorem pending_noted {t₀ t : ReplProgressTrker} {contId : UInt32} {rest : List UInt8}
    (h : t₀.addBReplTmSlot contId (u32.encodes slots.tms ++ rest) slots.tms.length = some t)
    : t.Pending contId slots.noted := by
  have hget : t₀.get contId = none := by
    cases hget : t₀.get contId with
    | none => rfl
    | some b =>
      rw [ReplProgressTrker.addBReplTmSlot, hget] at h
      contradiction
  have hroom : AutoBuf.new.Room (slots.noted.length * 4) := by
    unfold AutoBuf.Room AutoBuf.size
    rw [AutoBuf.content_new, List.length_nil, noted, List.length_map, Nat.zero_add]
    exact slots.fits
  have hne : slots.noted ≠ [] := mt List.map_eq_nil_iff.mp slots.ne
  rw [t₀.addBReplTmSlot_encodes hget] at h
  unfold ReplProgressTrker.Pending
  rw [← Option.some.inj h, ReplProgressTrker.get_set_self, if_neg hne, Option.map_some,
    ReplProgressTrker.slotBuf, ← noted, AutoBuf.content_append32s AutoBuf.paged_new hroom,
    AutoBuf.content_new, List.nil_append]

end TmSlots

/--
The transfer comes to an end, with each call handing over a slot or ending it. What is handed over is
a part of the list, with all elements of the slots and none outside of them.
-/
def Sent (s : LsShmHash) (xs : List Nat) (contId : UInt32) (slots : TmSlots) (calls : Nat → Call)
    (t : ReplProgressTrker) : Prop :=
  ∃ sent yss, Sends s contId calls t sent ∧ List.Forall₂ (IsCall s xs) sent yss ∧
    yss.flatten.Sublist xs ∧
    (∀ x ∈ xs, ∀ tm ∈ slots.tms, s.lru.lasttime x = tm.toNat → x ∈ yss.flatten) ∧
    ∀ x ∈ yss.flatten,
      slots.first.toNat ≤ s.lru.lasttime x ∧ s.lru.lasttime x ≤ slots.last.toNat

/--
The transfer is right, whatever the limits are, when what follows the last slot is not lost in 32 bits
and the elements fit into a buffer. Where it is lost, the transfer need not come to an end.
-/
theorem sent_iff_stops (h : Ready s xs) (slots : TmSlots) {t₀ t : ReplProgressTrker}
    {contId : UInt32} {rest : List UInt8}
    (hadd : t₀.addBReplTmSlot contId (u32.encodes slots.tms ++ rest) slots.tms.length = some t)
    (clock : Nat → Prop)
    : ((∀ calls, Allowed clock calls → Sent s xs contId slots calls t) →
        Stops s xs clock slots.last.toNat) ∧
      (Stops s xs clock slots.last.toNat ∧
          Fits s xs (slots.first.toNat - 1) slots.last.toNat →
        ∀ calls, Allowed clock calls → Sent s xs contId slots calls t) := by
  have hpending := TmSlots.pending_noted hadd
  have hfirst := TmSlots.toNat_pred (List.head_mem slots.ne)
  have hle := TmSlots.first_le (List.getLast_mem slots.ne)
  constructor
  . intro hsent
    by_contra hstops
    obtain ⟨hno, hall⟩ := not_or.mp hstops
    obtain ⟨bad, hmod⟩ := not_forall.mp hall
    obtain ⟨hbad, hmod⟩ := Classical.not_imp.mp hmod
    have hcalls : Allowed clock fun _ => ⟨1, fun _ => bad⟩ := fun _ =>
      ⟨(by decide : (0 : UInt32) < 1), fun _ => hbad⟩
    obtain ⟨sent, _, hsends, _⟩ := hsent _ hcalls
    exact not_sends h (fun x hx heq => hno ⟨x, hx, heq⟩) (Nat.lt_of_not_le hmod) (fun _ => rfl)
      slots.times hpending sent hsends
  . intro ⟨hstops, hfit⟩ calls hcalls
    obtain ⟨sent, yss, hsends, hcall, hsub, hall⟩ := sends_times h hstops (.inr slots.times)
      (fun e he => TmSlots.first_le_noted he) (Nat.le_trans (Nat.sub_le ..) hle) hfit hpending hcalls
    refine ⟨sent, yss, hsends, hcall, hsub.trans between_sublist, ?_, ?_⟩
    . intro x hx tm htm htime
      apply hall x hx (tm - 1) (List.mem_map_of_mem htm)
      rw [TmSlots.toNat_pred htm]
      exact htime
    . intro x hx
      have hmem := mem_between.mp (hsub.subset hx)
      unfold TmSlots.first at hmem ⊢
      omega

def sample : LsShmHash :=
  LruTime.sample.setLru fun l => { l with lasttime := fun x => if x = 0x1000 then 5 else 7 }

theorem sample_ready : Ready sample [0x1000, 0x1100, 0x1200] where
  flagLru := by decide +kernel
  well := ⟨⟨LruTime.sample_well.list.list, LruTime.sample_well.list.nvalset⟩,
    fun y hy => (LruTime.sample_well.links y hy).setLru⟩
  rising := by
    unfold Rising
    decide +kernel
  set := by decide +kernel

def sampleSlots : TmSlots where
  tms := [5, 6, 7]
  ne := by decide
  increasing := by decide
  two_le := by
    intro tm htm
    simp only [List.mem_cons, List.not_mem_nil, or_false] at htm
    rw [UInt32.le_iff_toNat_le]
    rcases htm with rfl | rfl | rfl
    . show 2 ≤ 5
      omega
    . show 2 ≤ 6
      omega
    . show 2 ≤ 7
      omega
  fits := by
    show 12 ≤ 2 ^ 31 - 512
    omega

def lateSlots : TmSlots where
  tms := [0xffffffff]
  ne := by decide
  increasing := by decide
  two_le := by
    intro tm htm
    obtain rfl := List.mem_singleton.mp htm
    rw [UInt32.le_iff_toNat_le]
    show 2 ≤ 4294967295
    omega
  fits := by
    show 4 ≤ 2 ^ 31 - 512
    omega

def tracker (slots : TmSlots) : ReplProgressTrker :=
  ReplProgressTrker.new.set 1 (some (ReplProgressTrker.slotBuf slots.tms))

theorem addBReplTmSlot_tracker (slots : TmSlots)
    : ReplProgressTrker.new.addBReplTmSlot 1 (u32.encodes slots.tms ++ []) slots.tms.length
      = some (tracker slots) :=
  ReplProgressTrker.addBReplTmSlot_encodes _ rfl _ _

def sampleCalls : Nat → Call := fun _ => ⟨1, fun _ => 10⟩

theorem allowed_sampleCalls : Allowed (fun now => now = 10) sampleCalls :=
  fun _ => ⟨(by decide : (0 : UInt32) < 1), fun _ => rfl⟩

theorem sent_sample
    : Sent sample [0x1000, 0x1100, 0x1200] 1 sampleSlots sampleCalls (tracker sampleSlots) := by
  have h := (sent_iff_stops sample_ready sampleSlots (addBReplTmSlot_tracker _)
    (fun now => now = 10)).2
  refine h ⟨.inl ⟨0x1100, by decide, by decide +kernel⟩, ?_⟩ sampleCalls allowed_sampleCalls
  unfold Fits
  decide +kernel

/--
The time behind the last slot is 0 in 32 bits, and the container is never done.
-/
theorem not_sent_lateSlots
    : ¬ Sent sample [0x1000, 0x1100, 0x1200] 1 lateSlots sampleCalls (tracker lateSlots) := by
  intro ⟨sent, _, hsends, _⟩
  exact @not_sends _ _ 1 _ sample_ready 10 (by decide +kernel) (by decide +kernel) _ (fun _ => rfl) _ _
    lateSlots.times (TmSlots.pending_noted (addBReplTmSlot_tracker lateSlots)) sent hsends

end LruHashReplBridge

end Lsmcd
