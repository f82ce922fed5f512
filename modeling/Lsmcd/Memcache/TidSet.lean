import Lsmcd.Memcache.TidPkt
import Lsmcd.Shm.SameId
import Lsmcd.Shm.HashOps

/-!
The receiving side of the replication stream: what `tidSetItems` makes of a buffer of any bytes.

Beside the loop stands what it should do, by the packets alone: `wfPrefix` is the longest prefix of
packets that fit within themselves and have increasing ids, `applied` what they do one after the
other.
-/

namespace Lsmcd

namespace LsShmHash

open LsShmTidMgr (SameId)

variable {s : LsShmHash}

theorem sameId_tidDoSet (h : s.slave = true) (parms : StrPair)
    : SameId s.toLsShmTidMgr (s.tidDoSet parms).1.toLsShmTidMgr := by
  unfold tidDoSet
  dsimp only
  split
  . exact sameId_insertCopy2 s _ parms
  . split
    . exact SameId.refl _
    . split
      . exact LsShmTidMgr.sameId_unlinkTid h _
      . exact (sameId_eraseIteratorHelper h _).trans (sameId_insertCopy2 _ _ parms)

structure GotTo (t : LsShmHash) (tid : Nat) : Prop where
  tid : t.x_tid = tid
  slave : t.slave = true

theorem gotTo_linkTid (h : s.slave = true) (off : Nat) {pTid : Nat} (hnew : s.x_tid < pTid)
    : GotTo (s.linkTid off pTid) pTid := by
  obtain ⟨htid, hslave⟩ := LsShmTidMgr.setTidTblEnt_new (iterOff2tidVal off) hnew
  unfold linkTid
  dsimp only
  split
  . exact ⟨htid, hslave.trans h⟩
  . split
    . exact ⟨htid, hslave.trans h⟩
    . exact ⟨htid, hslave.trans h⟩

theorem gotTo_setTidTblDel (h : s.slave = true) (tid : Nat) {pTid : Nat} (hnew : s.x_tid < pTid)
    : GotTo (s.setTidTblDel tid pTid).1 pTid := by
  obtain ⟨htid, hslave⟩ := LsShmTidMgr.setTidTblEnt_new tid hnew
  exact ⟨htid, hslave.trans h⟩

theorem gotTo_setIter (h : s.slave = true) (parms : StrPair) {pTid : Nat} (hnew : s.x_tid < pTid)
    (hok : (s.setIter parms pTid).2 = true) : GotTo (s.setIter parms pTid).1 pTid := by
  have hset := sameId_tidDoSet h parms
  unfold setIter at hok ⊢
  dsimp only at hok ⊢
  split at hok
  . next hoff =>
    rw [if_pos hoff]
    exact gotTo_linkTid (hset.slave.trans h) _ (by rw [hset.tid]; exact hnew)
  . exact Bool.noConfusion hok

end LsShmHash

open LsShmHash (GotTo)

def handlePkt (s : LsShmHash) (mem : Mem) (p left : Nat) : LsShmHash × Bool :=
  if pktType mem p = LSSHM_PKTADD then setTidItem s mem p
  else delTidItem s mem p (left - pktSize mem p)

structure Taken (s : LsShmHash) (mem : Mem) (p left : Nat) : Prop where
  hdr : sizeofPktHdr < left
  size : pktSize mem p ≤ left
  new : s.x_tid < pktTid mem p

instance (s : LsShmHash) (mem : Mem) (p left : Nat) : Decidable (Taken s mem p left) :=
  decidable_of_iff (sizeofPktHdr < left ∧ pktSize mem p ≤ left ∧ s.x_tid < pktTid mem p)
    ⟨fun ⟨h₁, h₂, h₃⟩ => ⟨h₁, h₂, h₃⟩, fun ⟨h₁, h₂, h₃⟩ => ⟨h₁, h₂, h₃⟩⟩

theorem tidSetItemsLoop_succ (mem : Mem) (fuel : Nat) (s : LsShmHash) (p left : Nat)
    : tidSetItemsLoop mem (fuel + 1) s p left =
        if Taken s mem p left then
          if (handlePkt s mem p left).2 then
            tidSetItemsLoop mem fuel (handlePkt s mem p left).1 (p + pktSize mem p)
              (left - pktSize mem p)
          else ((handlePkt s mem p left).1, p)
        else (s, p) := by
  rw [tidSetItemsLoop]
  by_cases hgo : sizeofPktHdr < left ∧ pktSize mem p ≤ left
  . rw [if_pos hgo]
    by_cases hold : pktTid mem p ≤ s.x_tid
    . have hnot : ¬ Taken s mem p left := fun ht => Nat.not_lt.mpr hold ht.new
      rw [if_pos hold, if_neg hnot]
    . have ht : Taken s mem p left := ⟨hgo.1, hgo.2, Nat.not_le.mp hold⟩
      rw [if_neg hold, if_pos ht]
      rfl
  . have hnot : ¬ Taken s mem p left := fun ht => hgo ⟨ht.hdr, ht.size⟩
    rw [if_neg hgo, if_neg hnot]

def doomed (s : LsShmHash) (mem : Mem) (p : Nat) : Option LsShmHElem :=
  if delTid mem p = TIDDEL_FLUSHALL ∨ s.tid2iterOff (delTid mem p) = 0 then none
  else s.offset2iterator (s.tid2iterOff (delTid mem p))

theorem gotTo_handlePkt {s : LsShmHash} {mem : Mem} {p left : Nat} (h : s.slave = true)
    (hnew : s.x_tid < pktTid mem p) (hok : (handlePkt s mem p left).2 = true)
    : GotTo (handlePkt s mem p left).1 (pktTid mem p) := by
  unfold handlePkt at hok ⊢
  split at hok
  . next hadd =>
    rw [if_pos hadd]
    exact LsShmHash.gotTo_setIter h _ hnew hok
  . next hdel =>
    rw [if_neg hdel]
    unfold delTidItem at hok ⊢
    dsimp only at hok ⊢
    split at hok
    . next hflush =>
      have hclr := LsShmHash.sameId_clear h
      rw [if_pos hflush]
      exact LsShmHash.gotTo_setTidTblDel (hclr.slave.trans h) _ (by rw [hclr.tid]; exact hnew)
    . next hflush =>
      rw [if_neg hflush]
      split at hok
      . next hoff =>
        rw [if_pos hoff]
        exact LsShmHash.gotTo_setTidTblDel h _ hnew
      . next hoff =>
        rw [if_neg hoff]
        split at hok
        . exact Bool.noConfusion hok
        . next e he =>
          split
          . exact LsShmHash.gotTo_setTidTblDel h _ hnew
          . have hdel := LsShmHash.sameId_eraseIteratorHelper h (s.tid2iterOff (delTid mem p))
            exact LsShmHash.gotTo_setTidTblDel (hdel.slave.trans h) _ (by rw [hdel.tid]; exact hnew)

def tidSetTrace (mem : Mem) : Nat → LsShmHash → Nat → Nat → List (Nat × LsShmHash × Bool)
  | 0, _, _, _ => []
  | fuel + 1, s, p, left =>
    if Taken s mem p left then
      let r := handlePkt s mem p left
      (p, r) :: if r.2 then tidSetTrace mem fuel r.1 (p + pktSize mem p) (left - pktSize mem p) else []
    else []

/--
The bytes of an addition that are read, as pairs of a position and a length. The value is not read
when there is no memory for it.
-/
def addReads (s : LsShmHash) (mem : Mem) (p : Nat) : List (Nat × Nat) :=
  [(p + 6, 2), (p + sizeofPktHdr, 4), (addData p, pktKeySz mem p)] ++
    if (setTidItem s mem p).2 then [(addData p + pktKeySz mem p, addValSz mem p)] else []

def peekReads (mem : Mem) (q left : Nat) (e : LsShmHElem) : List (Nat × Nat) :=
  if sizeofPktHdr < left then
    (q, 4) :: if pktSize mem q ≤ left then
      (q + 5, 1) :: if pktType mem q = LSSHM_PKTADD then [(addData q, e.key.length)] else []
    else []
  else []

def delReads (s : LsShmHash) (mem : Mem) (p left : Nat) : List (Nat × Nat) :=
  (p + sizeofPktHdr, 8) :: match doomed s mem p with
    | none => []
    | some e => peekReads mem (p + pktSize mem p) (left - pktSize mem p) e

def tidSetReads (mem : Mem) : Nat → LsShmHash → Nat → Nat → List (Nat × Nat)
  | 0, _, _, _ => []
  | fuel + 1, s, p, left =>
    if sizeofPktHdr < left then
      (p, 4) :: if pktSize mem p ≤ left then
        (p + 8, 8) :: if s.x_tid < pktTid mem p then
          let r := handlePkt s mem p left
          (p + 5, 1) ::
            ((if pktType mem p = LSSHM_PKTADD then addReads s mem p else delReads s mem p left) ++
              if r.2 then tidSetReads mem fuel r.1 (p + pktSize mem p) (left - pktSize mem p) else [])
        else []
      else []
    else []

/--
The packet at `p`, with `left` bytes from it on, adds or deletes, and its header and what follows
it fit within the size that it states.
-/
def wfPkt (mem : Mem) (p left : Nat) : Bool :=
  pktSize mem p ≤ left &&
    if pktType mem p = LSSHM_PKTADD then
      sizeofPktHdr + sizeofTidAdd + pktKeySz mem p + addValSz mem p ≤ pktSize mem p
    else pktType mem p = LSSHM_PKTDEL && sizeofPktHdr + sizeofTidDel ≤ pktSize mem p

/--
The longest prefix of well-formed packets whose ids increase, the first one being above `last`.
-/
def wfPrefix (mem : Mem) : Nat → Nat → Nat → Nat → List Nat
  | 0, _, _, _ => []
  | fuel + 1, last, p, left =>
    if wfPkt mem p left ∧ last < pktTid mem p then
      p :: wfPrefix mem fuel (pktTid mem p) (p + pktSize mem p) (left - pktSize mem p)
    else []

def nextAdds (mem : Mem) (rest : List Nat) (key : List UInt8) : Bool :=
  match rest with
  | [] => false
  | q :: _ => pktType mem q = LSSHM_PKTADD && getMem mem (addData q) (pktKeySz mem q) = key

/--
What a packet asks for, `rest` being the packets that are applied behind it: a deletion takes its
element out, unless the packet behind it sets the same key.
-/
def applyPkt (s : LsShmHash) (mem : Mem) (p : Nat) (rest : List Nat) : LsShmHash :=
  if pktType mem p = LSSHM_PKTADD then (setTidItem s mem p).1
  else
    let tid := delTid mem p
    if tid = TIDDEL_FLUSHALL then (s.clear.setTidTblDel tid (pktTid mem p)).1
    else match doomed s mem p with
      | none => (s.setTidTblDel tid (pktTid mem p)).1
      | some e =>
        let s := if nextAdds mem rest e.key then s else s.delIter (s.tid2iterOff tid)
        (s.setTidTblDel tid (pktTid mem p)).1

def applied (mem : Mem) : LsShmHash → List Nat → List (Nat × LsShmHash × Bool)
  | _, [] => []
  | s, p :: rest =>
    let s := applyPkt s mem p rest
    (p, s, true) :: applied mem s rest

def applyAll (mem : Mem) : LsShmHash → List Nat → LsShmHash
  | s, [] => s
  | s, p :: rest => applyAll mem (applyPkt s mem p rest) rest

/--
`tidSetItems` ends, its value is a number of bytes of the buffer, it reads nothing else, and it
applies the longest prefix of well-formed packets with increasing ids: these packets are handled and
no others, each is answered with `LS_OK`, and the hash is as they leave it.
-/
structure Receives (s : LsShmHash) (mem : Mem) (n : Nat) : Prop where
  ends : ∀ k, tidSetItemsLoop mem (n + 2 + k) s 0 n = tidSetItems s mem n
  le : (tidSetItems s mem n).2 ≤ n
  reads : ∀ r ∈ tidSetReads mem (n + 2) s 0 n, r.1 + r.2 ≤ n
  handles : tidSetTrace mem (n + 2) s 0 n = applied mem s (wfPrefix mem (n + 2) s.x_tid 0 n)
  result : tidSetItems s mem n =
    (applyAll mem s (wfPrefix mem (n + 2) s.x_tid 0 n),
      ((wfPrefix mem (n + 2) s.x_tid 0 n).map (pktSize mem)).sum)

/--
The packet at `q` behind a deletion with the id `last`: if it can be looked at, the bytes compared
with the key of the element are there, and if they are equal, it is going to set that key.
-/
structure PeekFits (mem : Mem) (q left last : Nat) (key : List UInt8) : Prop where
  inside : addData 0 + key.length ≤ left
  same : getMem mem (addData q) key.length = key →
    wfPkt mem q left = true ∧ last < pktTid mem q ∧ pktKeySz mem q = key.length

/--
The packet at `p` is well-formed, the hash can take it, and so is what a deletion looks at behind it.
-/
structure PktFits (s : LsShmHash) (mem : Mem) (p left : Nat) : Prop where
  wf : wfPkt mem p left = true
  takes : (handlePkt s mem p left).2 = true
  peek : pktType mem p ≠ LSSHM_PKTADD → ∀ e ∈ doomed s mem p,
    sizeofPktHdr < left - pktSize mem p → pktSize mem (p + pktSize mem p) ≤ left - pktSize mem p →
    pktType mem (p + pktSize mem p) = LSSHM_PKTADD →
    PeekFits mem (p + pktSize mem p) (left - pktSize mem p) (pktTid mem p) e.key

def StreamFits (mem : Mem) : Nat → LsShmHash → Nat → Nat → Prop
  | 0, _, _, _ => True
  | fuel + 1, s, p, left =>
    Taken s mem p left → PktFits s mem p left ∧
      StreamFits mem fuel (handlePkt s mem p left).1 (p + pktSize mem p) (left - pktSize mem p)

instance (mem : Mem) (q left last : Nat) (key : List UInt8) : Decidable (PeekFits mem q left last key) :=
  decidable_of_iff (addData 0 + key.length ≤ left ∧ (getMem mem (addData q) key.length = key →
      wfPkt mem q left = true ∧ last < pktTid mem q ∧ pktKeySz mem q = key.length))
    ⟨fun ⟨h₁, h₂⟩ => ⟨h₁, h₂⟩, fun ⟨h₁, h₂⟩ => ⟨h₁, h₂⟩⟩

instance (s : LsShmHash) (mem : Mem) (p left : Nat) : Decidable (PktFits s mem p left) :=
  decidable_of_iff (wfPkt mem p left = true ∧ (handlePkt s mem p left).2 = true ∧
      (pktType mem p ≠ LSSHM_PKTADD → ∀ e ∈ doomed s mem p,
        sizeofPktHdr < left - pktSize mem p →
        pktSize mem (p + pktSize mem p) ≤ left - pktSize mem p →
        pktType mem (p + pktSize mem p) = LSSHM_PKTADD →
        PeekFits mem (p + pktSize mem p) (left - pktSize mem p) (pktTid mem p) e.key))
    ⟨fun ⟨h₁, h₂, h₃⟩ => ⟨h₁, h₂, h₃⟩, fun ⟨h₁, h₂, h₃⟩ => ⟨h₁, h₂, h₃⟩⟩

instance decidableStreamFits (mem : Mem)
    : ∀ fuel s p left, Decidable (StreamFits mem fuel s p left)
  | 0, _, _, _ => isTrue trivial
  | fuel + 1, s, p, left =>
    have := decidableStreamFits mem fuel (handlePkt s mem p left).1 (p + pktSize mem p)
      (left - pktSize mem p)
    inferInstanceAs (Decidable (Taken s mem p left → PktFits s mem p left ∧ _))

variable {s : LsShmHash} {mem : Mem} {p left n : Nat}

theorem tidSetItemsLoop_ends (h : s.slave = true) {fuel : Nat}
    (hfuel : left + (if s.x_tid < pktTid mem p then 1 else 0) < fuel) (k : Nat)
    : tidSetItemsLoop mem (fuel + k) s p left = tidSetItemsLoop mem fuel s p left := by
  induction fuel generalizing s p left with
  | zero => omega
  | succ fuel ih =>
    rw [show fuel + 1 + k = fuel + k + 1 by omega, tidSetItemsLoop_succ, tidSetItemsLoop_succ]
    split
    . next ht =>
      split
      . next hok =>
        have hgot := gotTo_handlePkt h ht.new hok
        rw [if_pos ht.new] at hfuel
        have hsize := ht.size
        apply ih hgot.slave
        rw [hgot.tid]
        by_cases hzero : pktSize mem p = 0
        . rw [hzero, Nat.add_zero, if_neg (Nat.lt_irrefl _)]
          omega
        . split <;> omega
      . rfl
    . rfl

theorem tidSetItemsLoop_le (mem : Mem) (fuel : Nat) (s : LsShmHash) (p left : Nat)
    : (tidSetItemsLoop mem fuel s p left).2 ≤ p + left := by
  induction fuel generalizing s p left with
  | zero => exact Nat.le_add_right p left
  | succ fuel ih =>
    rw [tidSetItemsLoop_succ]
    split
    . next ht =>
      have hsize := ht.size
      split
      . have hrec := ih (handlePkt s mem p left).1 (p + pktSize mem p) (left - pktSize mem p)
        omega
      . exact Nat.le_add_right p left
    . exact Nat.le_add_right p left

theorem wfPkt_bounds (h : wfPkt mem p left = true) : 24 ≤ pktSize mem p ∧ pktSize mem p ≤ left := by
  unfold wfPkt at h
  rw [Bool.and_eq_true, decide_eq_true_eq] at h
  refine ⟨?_, h.1⟩
  have hbody := h.2
  split at hbody
  . have hadd := of_decide_eq_true hbody
    simp only [sizeofPktHdr, sizeofTidAdd] at hadd
    omega
  . rw [Bool.and_eq_true, decide_eq_true_eq, decide_eq_true_eq] at hbody
    exact hbody.2

theorem taken_of_wfPkt (h : wfPkt mem p left = true) (hnew : s.x_tid < pktTid mem p)
    : Taken s mem p left := by
  have hb := wfPkt_bounds h
  exact ⟨by rw [sizeofPktHdr]; omega, hb.2, hnew⟩

theorem applied_eq_nil {l : List Nat} (h : [] = applied mem s l) : l = [] := by
  cases l with
  | nil => rfl
  | cons q rest => cases h

theorem tidSetItemsLoop_of_trace {fuel : Nat} {l : List Nat}
    (h : tidSetTrace mem fuel s p left = applied mem s l)
    : tidSetItemsLoop mem fuel s p left =
        (applyAll mem s l, p + (l.map (pktSize mem)).sum) := by
  induction fuel generalizing s p left l with
  | zero =>
    rw [applied_eq_nil h]
    rfl
  | succ fuel ih =>
    rw [tidSetItemsLoop_succ]
    rw [tidSetTrace] at h
    split at h
    . next ht =>
      cases l with
      | nil => cases h
      | cons q rest =>
        dsimp only [applied] at h
        obtain ⟨hhead, htail⟩ := List.cons_eq_cons.mp h
        obtain ⟨rfl, hr⟩ := Prod.mk.inj hhead
        rw [hr] at htail ⊢
        rw [if_pos rfl] at htail
        rw [if_pos ht, if_pos rfl, ih htail, applyAll, List.map_cons, List.sum_cons, Nat.add_assoc]
    . next ht =>
      rw [if_neg ht, applied_eq_nil h]
      rfl

theorem keepsElem_iff {e : LsShmHElem} {q : Nat}
    : keepsElem mem q left e = true ↔ sizeofPktHdr < left ∧ pktSize mem q ≤ left ∧
        pktType mem q = LSSHM_PKTADD ∧ getMem mem (addData q) e.key.length = e.key := by
  simp [keepsElem, and_assoc]

theorem length_getMem (mem : Mem) (p n : Nat) : (getMem mem p n).length = n := by
  simp [getMem]

theorem wfPrefix_succ (mem : Mem) (fuel last p left : Nat)
    : wfPrefix mem (fuel + 1) last p left =
        if wfPkt mem p left ∧ last < pktTid mem p then
          p :: wfPrefix mem fuel (pktTid mem p) (p + pktSize mem p) (left - pktSize mem p)
        else [] := rfl

theorem nextAdds_wfPrefix {q last fuel : Nat} {key : List UInt8}
    : nextAdds mem (wfPrefix mem (fuel + 1) last q left) key = true ↔
        (wfPkt mem q left = true ∧ last < pktTid mem q) ∧ pktType mem q = LSSHM_PKTADD ∧
          getMem mem (addData q) (pktKeySz mem q) = key := by
  rw [wfPrefix_succ]
  split
  . next hwf => simp [nextAdds, hwf]
  . next hwf => simp [nextAdds, hwf]

theorem keepsElem_eq_nextAdds {e : LsShmHElem} {q last fuel : Nat}
    (h : sizeofPktHdr < left → pktSize mem q ≤ left → pktType mem q = LSSHM_PKTADD →
      PeekFits mem q left last e.key)
    : keepsElem mem q left e = nextAdds mem (wfPrefix mem (fuel + 1) last q left) e.key := by
  rw [Bool.eq_iff_iff, keepsElem_iff, nextAdds_wfPrefix]
  constructor
  . intro ⟨hhdr, hsize, hadd, hkey⟩
    obtain ⟨hwf, hnew, hkeySz⟩ := (h hhdr hsize hadd).same hkey
    rw [hkeySz]
    exact ⟨⟨hwf, hnew⟩, hadd, hkey⟩
  . intro ⟨⟨hwf, hnew⟩, hadd, hkey⟩
    have hb := wfPkt_bounds hwf
    have hkeySz : pktKeySz mem q = e.key.length := by rw [← hkey, length_getMem]
    rw [← hkeySz]
    exact ⟨by rw [sizeofPktHdr]; omega, hb.2, hadd, hkey⟩

theorem delTidItem_cases (s : LsShmHash) (mem : Mem) (p left : Nat)
    : (delTid mem p = TIDDEL_FLUSHALL ∧ doomed s mem p = none ∧
        delTidItem s mem p left = s.clear.setTidTblDel (delTid mem p) (pktTid mem p)) ∨
      (delTid mem p ≠ TIDDEL_FLUSHALL ∧ doomed s mem p = none ∧
        (delTidItem s mem p left = s.setTidTblDel (delTid mem p) (pktTid mem p) ∨
          delTidItem s mem p left = (s, false))) ∨
      (delTid mem p ≠ TIDDEL_FLUSHALL ∧ ∃ e, doomed s mem p = some e ∧
        s.offset2iterator (s.tid2iterOff (delTid mem p)) = some e ∧
        delTidItem s mem p left =
          (if keepsElem mem (p + pktSize mem p) left e then s
            else s.delIter (s.tid2iterOff (delTid mem p))).setTidTblDel (delTid mem p)
              (pktTid mem p)) := by
  unfold delTidItem doomed
  dsimp only
  by_cases hflush : delTid mem p = TIDDEL_FLUSHALL
  . exact .inl ⟨hflush, if_pos (.inl hflush), by rw [if_pos hflush]⟩
  . rw [if_neg hflush]
    by_cases hoff : s.tid2iterOff (delTid mem p) = 0
    . exact .inr (.inl ⟨hflush, if_pos (.inr hoff), .inl (by rw [if_pos hoff])⟩)
    . rw [if_neg hoff, if_neg (not_or.mpr ⟨hflush, hoff⟩)]
      cases he : s.offset2iterator (s.tid2iterOff (delTid mem p)) with
      | none => exact .inr (.inl ⟨hflush, rfl, .inr rfl⟩)
      | some e => exact .inr (.inr ⟨hflush, e, rfl, rfl, rfl⟩)

theorem applyPkt_add (rest : List Nat) (hadd : pktType mem p = LSSHM_PKTADD)
    : applyPkt s mem p rest = (setTidItem s mem p).1 := by
  rw [applyPkt, if_pos hadd]

theorem applyPkt_flush (rest : List Nat) (hdel : pktType mem p ≠ LSSHM_PKTADD)
    (hflush : delTid mem p = TIDDEL_FLUSHALL)
    : applyPkt s mem p rest = (s.clear.setTidTblDel (delTid mem p) (pktTid mem p)).1 := by
  rw [applyPkt, if_neg hdel, if_pos hflush]

theorem applyPkt_none (rest : List Nat) (hdel : pktType mem p ≠ LSSHM_PKTADD)
    (hflush : delTid mem p ≠ TIDDEL_FLUSHALL) (hnone : doomed s mem p = none)
    : applyPkt s mem p rest = (s.setTidTblDel (delTid mem p) (pktTid mem p)).1 := by
  rw [applyPkt, if_neg hdel, if_neg hflush, hnone]

theorem applyPkt_some (rest : List Nat) {e : LsShmHElem} (hdel : pktType mem p ≠ LSSHM_PKTADD)
    (hflush : delTid mem p ≠ TIDDEL_FLUSHALL) (he : doomed s mem p = some e)
    : applyPkt s mem p rest =
        ((if nextAdds mem rest e.key then s else s.delIter (s.tid2iterOff (delTid mem p))).setTidTblDel
          (delTid mem p) (pktTid mem p)).1 := by
  rw [applyPkt, if_neg hdel, if_neg hflush, he]

theorem handlePkt_eq_applyPkt (rest : List Nat) (hok : (handlePkt s mem p left).2 = true)
    (h : pktType mem p ≠ LSSHM_PKTADD → ∀ e ∈ doomed s mem p,
      keepsElem mem (p + pktSize mem p) (left - pktSize mem p) e = nextAdds mem rest e.key)
    : handlePkt s mem p left = (applyPkt s mem p rest, true) := by
  refine Prod.ext ?_ hok
  unfold handlePkt at hok ⊢
  by_cases hadd : pktType mem p = LSSHM_PKTADD
  . rw [if_pos hadd, applyPkt_add rest hadd]
  . rw [if_neg hadd] at hok ⊢
    rcases delTidItem_cases s mem p (left - pktSize mem p) with
      ⟨hflush, -, heq⟩ | ⟨hflush, hnone, heq | heq⟩ | ⟨hflush, e, he, -, heq⟩
    . rw [heq, applyPkt_flush rest hadd hflush]
    . rw [heq, applyPkt_none rest hadd hflush hnone]
    . rw [heq] at hok
      exact Bool.noConfusion hok
    . rw [heq, applyPkt_some rest hadd hflush he, h hadd e he]

theorem keepsElem_of_applyPkt {rest : List Nat} {e : LsShmHElem} (hdel : pktType mem p ≠ LSSHM_PKTADD)
    (he : doomed s mem p = some e) (h : (handlePkt s mem p left).1 = applyPkt s mem p rest)
    : keepsElem mem (p + pktSize mem p) (left - pktSize mem p) e = nextAdds mem rest e.key := by
  unfold handlePkt at h
  rw [if_neg hdel] at h
  rcases delTidItem_cases s mem p (left - pktSize mem p) with
    ⟨-, hnone, -⟩ | ⟨-, hnone, -⟩ | ⟨hflush, e', he', hiter, heq⟩
  . rw [hnone] at he
    cases he
  . rw [hnone] at he
    cases he
  . obtain rfl : e' = e := Option.some.inj (he'.symm.trans he)
    rw [heq, applyPkt_some rest hdel hflush he] at h
    have htable := congrArg (fun t => t.table.elem (s.tid2iterOff (delTid mem p))) h
    have hthere := LsShmHash.elem_of_offset2iterator hiter
    have hgone : (s.delIter (s.tid2iterOff (delTid mem p))).table.elem
        (s.tid2iterOff (delTid mem p)) = none := by
      have hoff : s.tid2iterOff (delTid mem p) ≠ 0 := by
        intro hz
        unfold doomed at he
        rw [if_pos (.inr hz)] at he
        cases he
      unfold LsShmHash.delIter LsShmHash.eraseIteratorHelper
      rw [if_neg hoff, hiter]
      exact Function.update_self _ _ _
    cases hk : keepsElem mem (p + pktSize mem p) (left - pktSize mem p) e' <;>
      cases hn : nextAdds mem rest e'.key
    . rfl
    . rw [hk, hn] at htable
      cases hgone.symm.trans (htable.trans hthere)
    . rw [hk, hn] at htable
      cases hgone.symm.trans (htable.symm.trans hthere)
    . rfl

theorem handles_of_fits {fuel : Nat} (h : s.slave = true) (hfuel : left < fuel)
    (hfits : StreamFits mem fuel s p left)
    : tidSetTrace mem fuel s p left = applied mem s (wfPrefix mem fuel s.x_tid p left) := by
  induction fuel generalizing s p left with
  | zero => omega
  | succ fuel ih =>
    rw [tidSetTrace, wfPrefix_succ]
    by_cases ht : Taken s mem p left
    . obtain ⟨hpkt, hrest⟩ := hfits ht
      have hb := wfPkt_bounds hpkt.wf
      have hgot := gotTo_handlePkt h ht.new hpkt.takes
      have htail := ih hgot.slave (by omega) hrest
      rw [hgot.tid] at htail
      obtain ⟨m, rfl⟩ : ∃ m, fuel = m + 1 := ⟨fuel - 1, by omega⟩
      have heq := handlePkt_eq_applyPkt
        (wfPrefix mem (m + 1) (pktTid mem p) (p + pktSize mem p) (left - pktSize mem p)) hpkt.takes
        (fun hdel e he => keepsElem_eq_nextAdds (hpkt.peek hdel e he))
      rw [if_pos ht, if_pos ⟨hpkt.wf, ht.new⟩, applied]
      dsimp only
      rw [hpkt.takes, if_pos rfl, htail, heq]
    . have hnot : ¬ (wfPkt mem p left = true ∧ s.x_tid < pktTid mem p) :=
        fun hwf => ht (taken_of_wfPkt hwf.1 hwf.2)
      rw [if_neg ht, if_neg hnot]
      rfl

theorem peekReads_within {q : Nat} {e : LsShmHElem}
    : (∀ r ∈ peekReads mem q left e, r.1 + r.2 ≤ q + left) ↔
        (sizeofPktHdr < left → pktSize mem q ≤ left → pktType mem q = LSSHM_PKTADD →
          addData 0 + e.key.length ≤ left) := by
  unfold peekReads
  by_cases hhdr : sizeofPktHdr < left
  . by_cases hsize : pktSize mem q ≤ left
    . by_cases hadd : pktType mem q = LSSHM_PKTADD
      . simp only [if_pos hhdr, if_pos hsize, if_pos hadd, List.forall_mem_cons, addData]
        rw [sizeofPktHdr] at hhdr
        simp only [sizeofPktHdr, sizeofTidAdd]
        constructor
        . rintro ⟨-, -, hkey, -⟩ - - -
          omega
        . intro hkey
          have := hkey hhdr hsize hadd
          exact ⟨by omega, by omega, by omega, fun r hr => by cases hr⟩
      . simp only [if_pos hhdr, if_pos hsize, if_neg hadd, List.forall_mem_cons]
        rw [sizeofPktHdr] at hhdr
        exact ⟨fun _ _ _ h => absurd h hadd, fun _ => ⟨by omega, by omega, fun r hr => by cases hr⟩⟩
    . simp only [if_pos hhdr, if_neg hsize, List.forall_mem_cons]
      rw [sizeofPktHdr] at hhdr
      exact ⟨fun _ _ h => absurd h hsize, fun _ => ⟨by omega, fun r hr => by cases hr⟩⟩
  . rw [if_neg hhdr]
    exact ⟨fun _ h => absurd h hhdr, fun _ r hr => by cases hr⟩

theorem addReads_within (hadd : pktType mem p = LSSHM_PKTADD) (hwf : wfPkt mem p left = true)
    : ∀ r ∈ addReads s mem p, r.1 + r.2 ≤ p + left := by
  have hbody : addData p + pktKeySz mem p + addValSz mem p ≤ p + left := by
    unfold wfPkt at hwf
    rw [if_pos hadd, Bool.and_eq_true, decide_eq_true_eq, decide_eq_true_eq] at hwf
    have hfit := hwf.2
    simp only [addData, sizeofPktHdr, sizeofTidAdd] at hfit ⊢
    omega
  have hdata : addData p = p + 28 := by rw [addData, sizeofPktHdr, sizeofTidAdd]
  intro r hr
  rcases List.mem_append.mp hr with hr | hr
  . simp only [List.mem_cons, List.not_mem_nil, or_false] at hr
    rcases hr with rfl | rfl | rfl
    . show p + 6 + 2 ≤ p + left
      omega
    . show p + sizeofPktHdr + 4 ≤ p + left
      rw [sizeofPktHdr]
      omega
    . show addData p + pktKeySz mem p ≤ p + left
      omega
  . split at hr
    . rw [List.mem_singleton.mp hr]
      exact hbody
    . cases hr

theorem delReads_within (hb : 24 ≤ pktSize mem p ∧ pktSize mem p ≤ left)
    : (∀ r ∈ delReads s mem p left, r.1 + r.2 ≤ p + left) ↔ ∀ e ∈ doomed s mem p,
        ∀ r ∈ peekReads mem (p + pktSize mem p) (left - pktSize mem p) e,
          r.1 + r.2 ≤ p + pktSize mem p + (left - pktSize mem p) := by
  have hend : p + pktSize mem p + (left - pktSize mem p) = p + left := by omega
  have hfirst : p + sizeofPktHdr + 8 ≤ p + left := by
    rw [sizeofPktHdr]
    omega
  rw [hend]
  unfold delReads
  rw [List.forall_mem_cons]
  cases doomed s mem p with
  | none => exact ⟨fun _ e he => (nomatch he), fun _ => ⟨hfirst, fun r hr => nomatch hr⟩⟩
  | some e =>
    constructor
    . rintro ⟨-, h⟩ e' he'
      obtain rfl : e = e' := Option.some.inj he'
      exact h
    . exact fun h => ⟨hfirst, h e rfl⟩

theorem within_of_fits {fuel : Nat} (h : s.slave = true) (hfuel : left < fuel)
    (hfits : StreamFits mem fuel s p left)
    : ∀ r ∈ tidSetReads mem fuel s p left, r.1 + r.2 ≤ p + left := by
  induction fuel generalizing s p left with
  | zero => omega
  | succ fuel ih =>
    rw [tidSetReads]
    split
    . next hhdr =>
      rw [sizeofPktHdr] at hhdr
      refine List.forall_mem_cons.mpr ⟨by omega, ?_⟩
      split
      . next hsize =>
        refine List.forall_mem_cons.mpr ⟨by omega, ?_⟩
        split
        . next hnew =>
          obtain ⟨hpkt, hrest⟩ := hfits ⟨hhdr, hsize, hnew⟩
          have hb := wfPkt_bounds hpkt.wf
          have hgot := gotTo_handlePkt h hnew hpkt.takes
          have htail := ih hgot.slave (by omega) hrest
          dsimp only
          rw [hpkt.takes, if_pos rfl]
          refine List.forall_mem_cons.mpr ⟨by omega, ?_⟩
          intro r hr
          rcases List.mem_append.mp hr with hr | hr
          . split at hr
            . next hadd => exact addReads_within hadd hpkt.wf r hr
            . next hdel =>
              refine (delReads_within hb).mpr ?_ r hr
              exact fun e he => peekReads_within.mpr
                (fun h₁ h₂ h₃ => (hpkt.peek hdel e he h₁ h₂ h₃).inside)
          . have hin := htail r hr
            omega
        . exact fun r hr => by cases hr
      . exact fun r hr => by cases hr
    . exact fun r hr => by cases hr

theorem reads_of_taken {fuel m : Nat} (ht : Taken s mem p left)
    (htakes : (handlePkt s mem p left).2 = true)
    (h : ∀ r ∈ tidSetReads mem (fuel + 1) s p left, r.1 + r.2 ≤ m)
    : (∀ r ∈ (if pktType mem p = LSSHM_PKTADD then addReads s mem p else delReads s mem p left),
        r.1 + r.2 ≤ m) ∧
      ∀ r ∈ tidSetReads mem fuel (handlePkt s mem p left).1 (p + pktSize mem p) (left - pktSize mem p),
        r.1 + r.2 ≤ m := by
  rw [tidSetReads, if_pos ht.hdr, if_pos ht.size, if_pos ht.new] at h
  dsimp only at h
  rw [htakes, if_pos rfl] at h
  constructor
  . exact fun r hr => h r (by simp [hr])
  . exact fun r hr => h r (by simp [hr])

theorem fits_of_handles {fuel : Nat} (h : s.slave = true) (hfuel : left < fuel)
    (hhandles : tidSetTrace mem fuel s p left = applied mem s (wfPrefix mem fuel s.x_tid p left))
    (hreads : ∀ r ∈ tidSetReads mem fuel s p left, r.1 + r.2 ≤ p + left)
    : StreamFits mem fuel s p left := by
  induction fuel generalizing s p left with
  | zero => omega
  | succ fuel ih =>
    intro ht
    rw [tidSetTrace, wfPrefix_succ, if_pos ht] at hhandles
    by_cases hwf : wfPkt mem p left = true ∧ s.x_tid < pktTid mem p
    . rw [if_pos hwf, applied] at hhandles
      dsimp only at hhandles
      obtain ⟨hhead, htail⟩ := List.cons_eq_cons.mp hhandles
      have hr := (Prod.mk.inj hhead).2
      have htakes : (handlePkt s mem p left).2 = true := congrArg Prod.snd hr
      have hgot := gotTo_handlePkt h ht.new htakes
      have hb := wfPkt_bounds hwf.1
      obtain ⟨hafter, -⟩ := Prod.ext_iff.mp hr
      dsimp only at hafter
      rw [htakes, if_pos rfl, ← hafter, ← hgot.tid] at htail
      obtain ⟨hin, hrest⟩ := reads_of_taken ht htakes hreads
      obtain ⟨m, rfl⟩ : ∃ m, fuel = m + 1 := ⟨fuel - 1, by omega⟩
      have hend : p + pktSize mem p + (left - pktSize mem p) = p + left := by omega
      refine ⟨⟨hwf.1, htakes, ?_⟩, ih hgot.slave (by omega) htail (by rw [hend]; exact hrest)⟩
      intro hdel e he hhdr hsize hadd
      rw [if_neg hdel] at hin
      have hkeeps := keepsElem_of_applyPkt hdel he hafter
      refine ⟨peekReads_within.mp ((delReads_within hb).mp hin e he) hhdr hsize hadd, ?_⟩
      intro hkey
      have hadds := hkeeps.symm.trans (keepsElem_iff.mpr ⟨hhdr, hsize, hadd, hkey⟩)
      obtain ⟨⟨hwf', hnew⟩, -, hkey'⟩ := nextAdds_wfPrefix.mp hadds
      exact ⟨hwf', hnew, by rw [← hkey', length_getMem]⟩
    . rw [if_neg hwf] at hhandles
      cases hhandles

/--
`tidSetItems` receives a buffer as it should exactly when every packet that it reaches is
well-formed, can be taken, and what a deletion looks at behind it fits.
-/
theorem tidSetItems_receives_iff (s : LsShmHash) (mem : Mem) (n : Nat) (h : s.slave = true)
    : Receives s mem n ↔ StreamFits mem (n + 2) s 0 n := by
  constructor
  . intro hr
    refine fits_of_handles h (by omega) hr.handles ?_
    rw [Nat.zero_add]
    exact hr.reads
  . intro hfits
    have hhandles := handles_of_fits h (by omega) hfits
    exact {
      ends := fun k => tidSetItemsLoop_ends h (by split <;> omega) k
      le := by
        have hle := tidSetItemsLoop_le mem (n + 2) s 0 n
        rw [Nat.zero_add] at hle
        exact hle
      reads := by
        have hin := within_of_fits h (by omega) hfits
        rw [Nat.zero_add] at hin
        exact hin
      handles := hhandles
      result := by
        have hend := tidSetItemsLoop_of_trace hhandles
        rw [Nat.zero_add] at hend
        exact hend }

def sampleTidSlave : Option LsShmHash :=
  LsShmHash.allocHTable (Shm.empty [Answer.clean 0x400 320, Answer.clean 0x800 64,
    Answer.clean 0x1000 48, Answer.clean 0x8000 9216, Answer.clean 0xc000 1024])
    { HashParm.clean false true with slave := true } 7

theorem sampleTidSlave_isSome : sampleTidSlave.isSome = true := by decide

def sampleTidBuf : Mem := fun i =>
  [32, 0, 0, 0, 0, 0, 1, 0, 1, 0, 0, 0, 0, 0, 0, 0, 1, 0, 0, 0, 0, 0, 0, 0, 0, 0, 0, 0, 97, 98, 0, 0,
    24, 0, 0, 0, 0, 1, 0, 0, 2, 0, 0, 0, 0, 0, 0, 0, 1, 0, 0, 0, 0, 0, 0, 0].getD i 0

set_option maxRecDepth 8000 in
theorem tidSetItems_receives_sample
    : Receives (sampleTidSlave.get sampleTidSlave_isSome) sampleTidBuf 56 :=
  (tidSetItems_receives_iff _ sampleTidBuf 56 (by decide)).mpr (by decide +kernel)

def sampleTidShort : Mem := fun i =>
  [28, 0, 0, 0, 0, 0, 4, 0, 1, 0, 0, 0, 0, 0, 0, 0].getD i 0

/--
The size of the key is compared with nothing: the packet is handled although it is not well-formed.
-/
theorem not_receives_short
    : ¬ Receives (sampleTidSlave.get sampleTidSlave_isSome) sampleTidShort 28 := by
  intro h
  have hhandles := h.handles
  have hwf : wfPkt sampleTidShort 0 28 = false := by decide
  rw [wfPrefix_succ, if_neg (by rw [hwf]; simp), tidSetTrace, if_pos (by decide)] at hhandles
  cases hhandles

end Lsmcd
