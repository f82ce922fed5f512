import Lsmcd.Lib.Merge
import Lsmcd.Repl.Progress

/-!
How a node finds the time slots in which a peer has not the same elements (`replsyncauditor.cpp`), and
how it notes them for sending (`bulkreplctx.cpp`).
-/

namespace Lsmcd

open Packed Merge

def strncmp : List UInt8 → List UInt8 → Nat → Option Bool
  | _, _, 0 => some false
  | a :: as, b :: bs, n + 1 =>
    if a ≠ b then some true
    else if a = 0 then some false
    else strncmp as bs n
  | _, _, _ + 1 => none

def sizeofSlot : Nat := 4 + 32

def cmpTimeHashLoop : Nat → Nat → List UInt8 → List UInt8 → AutoBuf → Option AutoBuf
  | localCount + 1, peerCount + 1, pBuf1, pBuf2, localOnly => do
    let (tm1, pHash1) ← u32.read pBuf1
    let (tm2, pHash2) ← u32.read pBuf2
    if tm1 < tm2 then
      cmpTimeHashLoop localCount (peerCount + 1) (pBuf1.drop sizeofSlot) pBuf2
        (localOnly.append32 tm1)
    else if tm2 < tm1 then
      cmpTimeHashLoop (localCount + 1) peerCount pBuf1 (pBuf2.drop sizeofSlot) localOnly
    else
      let differ ← strncmp pHash1 pHash2 32
      cmpTimeHashLoop localCount peerCount (pBuf1.drop sizeofSlot) (pBuf2.drop sizeofSlot)
        (if differ then localOnly.append32 tm1 else localOnly)
  | localCount + 1, 0, pBuf1, pBuf2, localOnly => do
    let (tm1, _) ← u32.read pBuf1
    cmpTimeHashLoop localCount 0 (pBuf1.drop sizeofSlot) pBuf2 (localOnly.append32 tm1)
  | 0, _, _, _, localOnly => some localOnly
termination_by localCount peerCount => localCount + peerCount

def cmpTimeHashList (localCount : Int) (pBuf1 : List UInt8) (peerCount : Int) (pBuf2 : List UInt8)
    (localOnly : AutoBuf) : Option (UInt32 × AutoBuf) :=
  (cmpTimeHashLoop localCount.toNat peerCount.toNat pBuf1 pBuf2 localOnly).map fun out =>
    (UInt32.ofNat ((out.size - localOnly.size) / 4), out)

def skipSlots (pBuf : List UInt8) (cnt : Int) : Option (List UInt8) :=
  if 0 ≤ cnt then some (pBuf.drop (cnt.toNat * sizeofSlot)) else none

/--
The loop of `cmpRTReplHash` and the assertion behind it. With the number of differences and the
buffer come the two pointers as they are at the end.
-/
def cmpContainers : Nat → Nat → List UInt8 → List UInt8 → Int → AutoBuf
    → Option (Int × AutoBuf × List UInt8 × List UInt8)
  | localContCnt + 1, peerContCnt + 1, pBuf1, pBuf2, diffNum, diffBuf => do
    let (localTmCnt, pBuf1) ← u32.read pBuf1
    let (localContId, pBuf1) ← u32.read pBuf1
    let (peerTmCnt, pBuf2) ← u32.read pBuf2
    let (peerContId, pBuf2) ← u32.read pBuf2
    if localContId ≠ peerContId then none
    else
      let curSize := diffBuf.size
      let diffBuf := (diffBuf.append32 0).append32 localContId
      let (moreTmCnt, diffBuf) ← cmpTimeHashList (toInt localTmCnt.toNat) pBuf1
        (toInt peerTmCnt.toNat) pBuf2 diffBuf
      let diffBuf ← diffBuf.store curSize (u32.encode moreTmCnt)
      let pBuf1 ← skipSlots pBuf1 (toInt localTmCnt.toNat)
      let pBuf2 ← skipSlots pBuf2 (toInt peerTmCnt.toNat)
      cmpContainers localContCnt peerContCnt pBuf1 pBuf2 (diffNum + toInt moreTmCnt.toNat) diffBuf
  | 0, 0, pBuf1, pBuf2, diffNum, diffBuf => some (diffNum, diffBuf, pBuf1, pBuf2)
  | _, _, _, _, _, _ => none

/--
The lengths of the two lists are only counted down, nothing looks at them.
-/
def cmpRTReplHash (pBuf1 pBuf2 : List UInt8) (diffBuf : AutoBuf)
    : Option (Int × AutoBuf × List UInt8 × List UInt8) := do
  let (localContCnt, pBuf1) ← u32.read pBuf1
  let (peerContCnt, pBuf2) ← u32.read pBuf2
  -- A negative count is left as it is by the loop, and is not 0 behind it.
  if toInt localContCnt.toNat < 0 ∨ toInt peerContCnt.toNat < 0 then none
  else
    cmpContainers (toInt localContCnt.toNat).toNat (toInt peerContCnt.toNat).toNat pBuf1 pBuf2 0
      diffBuf

namespace BulkReplCtx

def start (t : ReplProgressTrker) (pTmBuf : List UInt8) (len : Int) : Option ReplProgressTrker :=
  if 0 < len then do
    let (tmCnt, pTmBuf) ← u32.read pTmBuf
    let (contId, pTmBuf) ← u32.read pTmBuf
    if 0 < toInt tmCnt.toNat then
      let t ← t.addBReplTmSlot contId pTmBuf (toInt tmCnt.toNat)
      start t (pTmBuf.drop ((toInt tmCnt.toNat).toNat * 4)) (len - 4 - 4 - toInt tmCnt.toNat * 4)
    else start t pTmBuf (len - 4 - 4)
  else some t
termination_by len.toNat

end BulkReplCtx

def IsHexDigit (c : UInt8) : Prop :=
  (48 ≤ c ∧ c ≤ 57) ∨ (65 ≤ c ∧ c ≤ 70) ∨ (97 ≤ c ∧ c ≤ 102)

instance (c : UInt8) : Decidable (IsHexDigit c) := inferInstanceAs (Decidable (_ ∨ _))

structure Slot where
  tm : UInt32
  hash : List UInt8
  length_hash : hash.length = 32
  hex : ∀ c ∈ hash, IsHexDigit c

namespace Slot

def bytes (s : Slot) : List UInt8 := u32.encode s.tm ++ s.hash

theorem length_bytes (s : Slot) : s.bytes.length = sizeofSlot := by
  rw [bytes, List.length_append, length_encode, width_u32, s.length_hash]
  rfl

def key (s : Slot) : Nat := s.tm.toNat

def same (s t : Slot) : Bool := s.hash = t.hash

theorem drop_bytes (s : Slot) (rest : List UInt8) : (s.bytes ++ rest).drop sizeofSlot = rest :=
  List.drop_left' s.length_bytes

theorem read_bytes (s : Slot) (rest : List UInt8)
    : u32.read (s.bytes ++ rest) = some (s.tm, s.hash ++ rest) := by
  rw [bytes, List.append_assoc, read_encode]

end Slot

theorem strncmp_eq {n : Nat} {as bs : List UInt8} (ha : as.length = n) (hb : bs.length = n)
    (hex : ∀ c ∈ as, IsHexDigit c) (s t : List UInt8)
    : strncmp (as ++ s) (bs ++ t) n = some (!decide (as = bs)) := by
  induction as generalizing bs n with
  | nil =>
    rw [← ha] at hb ⊢
    rw [List.length_eq_zero_iff.mp hb, List.length_nil, strncmp]
    rfl
  | cons a as ih =>
    rw [← ha] at hb ⊢
    cases bs with
    | nil => contradiction
    | cons b bs =>
      have hnz : a ≠ 0 := by
        rintro rfl
        exact absurd (hex 0 List.mem_cons_self) (by decide)
      have hlen : bs.length = as.length := Nat.succ.inj hb
      have hrest := ih rfl hlen fun c hc => hex c (List.mem_cons_of_mem a hc)
      rw [List.cons_append, List.cons_append, List.length_cons, strncmp, if_neg hnz, hrest]
      by_cases hab : a = b <;> simp [hab]

namespace Slot

theorem cmpTimeHashLoop_step (a b : Slot) (l p : Nat) (s t : List UInt8) (localOnly : AutoBuf)
    : cmpTimeHashLoop (l + 1) (p + 1) (a.bytes ++ s) (b.bytes ++ t) localOnly =
        if a.key < b.key then
          cmpTimeHashLoop l (p + 1) s (b.bytes ++ t) (localOnly.append32 a.tm)
        else if b.key < a.key then cmpTimeHashLoop (l + 1) p (a.bytes ++ s) t localOnly
        else if a.same b then cmpTimeHashLoop l p s t localOnly
        else cmpTimeHashLoop l p s t (localOnly.append32 a.tm) := by
  have hhash := strncmp_eq a.length_hash b.length_hash a.hex s t
  rw [cmpTimeHashLoop, read_bytes, read_bytes, drop_bytes, drop_bytes]
  simp only [bind, Option.bind_some, UInt32.lt_iff_toNat_lt, hhash]
  unfold key same
  split
  . rfl
  . split
    . rfl
    . by_cases h : a.hash = b.hash <;> simp [h]

theorem cmpTimeHashLoop_eq (ls ps : List Slot) (s t : List UInt8) (localOnly : AutoBuf)
    : cmpTimeHashLoop ls.length ps.length (ls.flatMap bytes ++ s) (ps.flatMap bytes ++ t) localOnly
      = some (localOnly.append32s ((diff key same ls ps).map tm)) := by
  induction ls, ps using diff.induct key same generalizing localOnly with
  | case1 ps =>
    rw [List.length_nil, cmpTimeHashLoop, diff]
    rfl
  | case2 a ls ih =>
    have hrest := ih (localOnly.append32 a.tm)
    rw [List.length_nil] at hrest
    rw [List.length_cons, List.length_nil, cmpTimeHashLoop, diff, List.flatMap_cons,
      List.append_assoc, read_bytes, drop_bytes, List.map_cons, AutoBuf.append32s_cons]
    exact hrest
  | case3 a ls b ps hlt ih =>
    rw [diff, if_pos hlt, List.map_cons, AutoBuf.append32s_cons, ← ih]
    simp only [List.length_cons, List.flatMap_cons, List.append_assoc]
    rw [cmpTimeHashLoop_step, if_pos hlt]
  | case4 a ls b ps hlt hgt ih =>
    rw [diff, if_neg hlt, if_pos hgt, ← ih]
    simp only [List.length_cons, List.flatMap_cons, List.append_assoc]
    rw [cmpTimeHashLoop_step, if_neg hlt, if_pos hgt]
  | case5 a ls b ps hlt hgt hsame ih =>
    rw [diff, if_neg hlt, if_neg hgt, if_pos hsame, ← ih]
    simp only [List.length_cons, List.flatMap_cons, List.append_assoc]
    rw [cmpTimeHashLoop_step, if_neg hlt, if_neg hgt, if_pos hsame]
  | case6 a ls b ps hlt hgt hsame ih =>
    rw [diff, if_neg hlt, if_neg hgt, if_neg hsame, List.map_cons, AutoBuf.append32s_cons, ← ih]
    simp only [List.length_cons, List.flatMap_cons, List.append_assoc]
    rw [cmpTimeHashLoop_step, if_neg hlt, if_neg hgt, if_neg hsame]

end Slot

structure SlotPair where
  id : UInt32
  localSlots : List Slot
  peerSlots : List Slot
  localOrder : Increasing Slot.key localSlots
  peerOrder : Increasing Slot.key peerSlots

namespace SlotPair

/--
The local times that are missing at the peer or have another digest there.
-/
def more (c : SlotPair) : List UInt32 :=
  (c.localSlots.filter fun s => Lacks Slot.key Slot.same c.peerSlots s).map Slot.tm

def report (c : SlotPair) : List UInt8 :=
  u32.encode (UInt32.ofNat c.more.length) ++ u32.encode c.id ++ u32.encodes c.more

variable (side : SlotPair → List Slot)

def record (c : SlotPair) : List UInt8 :=
  u32.encode (UInt32.ofNat (side c).length) ++ u32.encode c.id ++ (side c).flatMap Slot.bytes

def pack (cs : List SlotPair) : List UInt8 :=
  u32.encode (UInt32.ofNat cs.length) ++ cs.flatMap (record side)

theorem more_eq (c : SlotPair)
    : c.more = (diff Slot.key Slot.same c.localSlots c.peerSlots).map Slot.tm := by
  rw [diff_eq_filter c.localOrder c.peerOrder]
  rfl

theorem length_more_le (c : SlotPair) : c.more.length ≤ c.localSlots.length := by
  rw [more, List.length_map]
  exact List.length_filter_le ..

theorem length_flatMap_bytes (ss : List Slot)
    : (ss.flatMap Slot.bytes).length = ss.length * sizeofSlot := by
  rw [List.length_flatMap]
  induction ss with
  | nil => rfl
  | cons s ss ih =>
    rw [List.map_cons, List.sum_cons, ih, s.length_bytes, List.length_cons, Nat.succ_mul]
    omega

theorem length_report (c : SlotPair) : c.report.length = 8 + c.more.length * 4 := by
  rw [report, List.length_append, List.length_append, length_encode, length_encode, length_encodes]
  rfl

theorem length_record (c : SlotPair)
    : (record side c).length = 8 + (side c).length * sizeofSlot := by
  rw [record, List.length_append, List.length_append, length_encode, length_encode,
    length_flatMap_bytes]
  rfl

theorem length_report_le (c : SlotPair) : c.report.length ≤ (record localSlots c).length := by
  have hmore := c.length_more_le
  rw [length_report, length_record]
  unfold sizeofSlot
  omega

section

variable {side}

theorem read_record (c : SlotPair) (s : List UInt8)
    : u32.read (record side c ++ s) = some (UInt32.ofNat (side c).length,
        u32.encode c.id ++ ((side c).flatMap Slot.bytes ++ s)) := by
  rw [record, List.append_assoc, List.append_assoc, read_encode]

end

theorem toNat_ofNat_count {n : Nat} (h : n < 2 ^ 31) : toInt (UInt32.ofNat n).toNat = n := by
  rw [UInt32.toNat_ofNat_of_lt' (Nat.lt_trans h (by decide)), toInt_of_lt h]

theorem skipSlots_bytes (ss : List Slot) (s : List UInt8)
    : skipSlots (ss.flatMap Slot.bytes ++ s) ss.length = some s := by
  rw [skipSlots, if_pos (Int.natCast_nonneg _), Int.toNat_natCast,
    List.drop_left' (length_flatMap_bytes ss)]

theorem cmpTimeHashList_eq (c : SlotPair) {mid : AutoBuf} (hpaged : mid.Paged)
    (hroom : mid.Room (c.more.length * 4)) (s t : List UInt8)
    : cmpTimeHashList c.localSlots.length (c.localSlots.flatMap Slot.bytes ++ s) c.peerSlots.length
        (c.peerSlots.flatMap Slot.bytes ++ t) mid
      = some (UInt32.ofNat c.more.length, mid.append32s c.more) := by
  have hcontent := AutoBuf.content_append32s hpaged hroom
  have hsize : ((mid.append32s c.more).size - mid.size) / 4 = c.more.length := by
    unfold AutoBuf.size
    rw [hcontent, List.length_append, length_encodes, width_u32]
    omega
  rw [cmpTimeHashList, Int.toNat_natCast, Int.toNat_natCast, Slot.cmpTimeHashLoop_eq, ← more_eq,
    Option.map_some, hsize]

theorem cmpContainers_step (c : SlotPair) {diffBuf : AutoBuf} (hpaged : diffBuf.Paged)
    (hroom : diffBuf.Room c.report.length) (hlocal : c.localSlots.length < 2 ^ 31)
    (hpeer : c.peerSlots.length < 2 ^ 31) (l p : Nat) (s t : List UInt8) (n : Int)
    : ∃ out, cmpContainers (l + 1) (p + 1) (record localSlots c ++ s) (record peerSlots c ++ t) n
        diffBuf = cmpContainers l p s t (n + c.more.length) out ∧
      out.content = diffBuf.content ++ c.report ∧ out.Paged := by
  have hmore : c.more.length < 2 ^ 31 := Nat.lt_of_le_of_lt c.length_more_le hlocal
  have hreport := c.length_report
  have hhead : diffBuf.Room ([0, c.id].length * 4) := by
    unfold AutoBuf.Room at hroom ⊢
    rw [List.length_cons, List.length_singleton]
    omega
  have hmid := AutoBuf.content_append32s hpaged hhead
  have hmidPaged := AutoBuf.paged_append32s hpaged [0, c.id]
  have hmidRoom : (diffBuf.append32s [0, c.id]).Room (c.more.length * 4) := by
    unfold AutoBuf.Room AutoBuf.size at hroom ⊢
    rw [hmid, List.length_append, length_encodes, List.length_cons, List.length_singleton, width_u32]
    omega
  have hlist := c.cmpTimeHashList_eq hmidPaged hmidRoom s t
  have hall : ((diffBuf.append32s [0, c.id]).append32s c.more).content =
      diffBuf.content ++ u32.encode 0 ++ (u32.encode c.id ++ u32.encodes c.more) := by
    rw [AutoBuf.content_append32s hmidPaged hmidRoom, hmid]
    simp only [encodes_cons, encodes_nil, List.append_nil, List.append_assoc]
  have hcount : (u32.encode (UInt32.ofNat c.more.length)).length = (u32.encode 0).length := by
    rw [length_encode, length_encode]
  obtain ⟨out, hstore, hout, hcap⟩ := AutoBuf.store_eq hall hcount
  refine ⟨out, ?_, ?_, ?_⟩
  . rw [AutoBuf.append32s_cons, AutoBuf.append32s_cons, AutoBuf.append32s_nil] at hlist hstore
    rw [cmpContainers, read_record, read_record]
    simp only [bind, Option.bind_some, read_encode, toNat_ofNat_count hlocal,
      toNat_ofNat_count hpeer, ne_eq, not_true, if_false, hlist, hstore, AutoBuf.size,
      skipSlots_bytes, toNat_ofNat_count hmore]
  . rw [hout, report, List.append_assoc, List.append_assoc]
  . have hpaged := AutoBuf.paged_append32s hmidPaged c.more
    unfold AutoBuf.Paged at hpaged ⊢
    rw [hcap]
    exact hpaged

def total (cs : List SlotPair) : Nat := (cs.map fun c => c.more.length).sum

theorem total_cons (c : SlotPair) (cs : List SlotPair) : total (c :: cs) = c.more.length + total cs := by
  rw [total, List.map_cons, List.sum_cons]
  rfl

theorem cmpContainers_eq {cs : List SlotPair} {diffBuf : AutoBuf} (hpaged : diffBuf.Paged)
    (hroom : diffBuf.Room (cs.flatMap report).length)
    (hlocal : ∀ c ∈ cs, c.localSlots.length < 2 ^ 31)
    (hpeer : ∀ c ∈ cs, c.peerSlots.length < 2 ^ 31) (s t : List UInt8) (n : Int)
    : ∃ out, cmpContainers cs.length cs.length (cs.flatMap (record localSlots) ++ s)
        (cs.flatMap (record peerSlots) ++ t) n diffBuf = some (n + total cs, out, s, t) ∧
      out.content = diffBuf.content ++ cs.flatMap report := by
  induction cs generalizing diffBuf n with
  | nil =>
    refine ⟨diffBuf, ?_, (List.append_nil _).symm⟩
    rw [List.length_nil, cmpContainers]
    simp [total]
  | cons c cs ih =>
    simp only [List.flatMap_cons, List.length_append] at hroom
    have hfront : diffBuf.Room c.report.length := by
      unfold AutoBuf.Room at hroom ⊢
      omega
    obtain ⟨mid, hstep, hmid, hmidPaged⟩ := c.cmpContainers_step hpaged hfront
      (hlocal c List.mem_cons_self) (hpeer c List.mem_cons_self) cs.length cs.length
      (cs.flatMap (record localSlots) ++ s) (cs.flatMap (record peerSlots) ++ t) n
    have hrest : mid.Room (cs.flatMap report).length := by
      unfold AutoBuf.Room AutoBuf.size at hroom ⊢
      rw [hmid, List.length_append]
      omega
    obtain ⟨out, hrun, hout⟩ := ih hmidPaged hrest
      (fun c hc => hlocal c (List.mem_cons_of_mem _ hc))
      (fun c hc => hpeer c (List.mem_cons_of_mem _ hc)) (n + c.more.length)
    refine ⟨out, ?_, ?_⟩
    . rw [List.length_cons, List.flatMap_cons, List.flatMap_cons, List.append_assoc,
        List.append_assoc, hstep, hrun, total_cons, Int.natCast_add, Int.add_assoc]
    . rw [hout, hmid, List.flatMap_cons, List.append_assoc]

def note (t : ReplProgressTrker) (c : SlotPair) : ReplProgressTrker :=
  if c.more = [] then t else t.set c.id (some (ReplProgressTrker.slotBuf c.more))

theorem get_note_self (t : ReplProgressTrker) (c : SlotPair) (h : t.get c.id = none)
    : (note t c).get c.id
      = if c.more = [] then none else some (ReplProgressTrker.slotBuf c.more) := by
  unfold note
  split
  . exact h
  . exact t.get_set_self ..

theorem get_note_of_ne (t : ReplProgressTrker) {c : SlotPair} {id : UInt32} (h : id ≠ c.id)
    : (note t c).get id = t.get id := by
  unfold note
  split
  . rfl
  . exact t.get_set_of_ne h _

theorem get_foldl_note {cs : List SlotPair} {id : UInt32} (h : ∀ c ∈ cs, c.id ≠ id)
    (t : ReplProgressTrker) : (cs.foldl note t).get id = t.get id := by
  induction cs generalizing t with
  | nil => rfl
  | cons c cs ih =>
    rw [List.foldl_cons, ih fun c hc => h c (List.mem_cons_of_mem _ hc),
      get_note_of_ne t (h c List.mem_cons_self).symm]

theorem get_foldl_note_mem {cs : List SlotPair} (hids : (cs.map SlotPair.id).Nodup)
    {t : ReplProgressTrker} (ht : ∀ c ∈ cs, t.get c.id = none) {c : SlotPair} (hc : c ∈ cs)
    : (cs.foldl note t).get c.id
      = if c.more = [] then none else some (ReplProgressTrker.slotBuf c.more) := by
  induction cs generalizing t with
  | nil => contradiction
  | cons d cs ih =>
    rw [List.map_cons, List.nodup_cons] at hids
    have hne : ∀ e ∈ cs, e.id ≠ d.id := fun e he heq =>
      hids.1 (heq ▸ List.mem_map_of_mem he)
    rw [List.foldl_cons]
    rcases List.mem_cons.mp hc with rfl | hc
    . rw [get_foldl_note hne, get_note_self t c (ht c List.mem_cons_self)]
    . apply ih hids.2 _ hc
      intro e he
      rw [get_note_of_ne t (hne e he)]
      exact ht e (List.mem_cons_of_mem _ he)

theorem start_step (c : SlotPair) {t : ReplProgressTrker} (ht : t.get c.id = none)
    (hmore : c.more.length < 2 ^ 31) (rest : List UInt8) (len : Nat)
    : BulkReplCtx.start t (c.report ++ rest) ((c.report.length + len : Nat) : Int)
      = BulkReplCtx.start (note t c) rest len := by
  have hlen := c.length_report
  have hpos : (0 : Int) < (c.report.length + len : Nat) := by omega
  have hread : u32.read (c.report ++ rest) = some (UInt32.ofNat c.more.length,
      u32.encode c.id ++ (u32.encodes c.more ++ rest)) := by
    rw [report, List.append_assoc, List.append_assoc, read_encode]
  rw [BulkReplCtx.start, if_pos hpos, hread]
  simp only [bind, Option.bind_some, read_encode, toNat_ofNat_count hmore]
  unfold note
  by_cases hnil : c.more = []
  . have hleft : ((c.report.length + len : Nat) : Int) - 4 - 4 = len := by
      rw [hlen, hnil, List.length_nil]
      omega
    have hcnt : ¬ (0 : Int) < ((0 : Nat) : Int) := by omega
    rw [if_pos hnil, hleft, hnil, List.length_nil, if_neg hcnt, encodes_nil, List.nil_append]
  . have hcnt : (0 : Int) < c.more.length := by
      have h := List.length_pos_iff.mpr hnil
      omega
    have hleft : ((c.report.length + len : Nat) : Int) - 4 - 4 - c.more.length * 4 = len := by
      omega
    have hskip : (u32.encodes c.more).length = c.more.length * 4 := u32.length_encodes _
    rw [if_neg hnil, if_pos hcnt, t.addBReplTmSlot_encodes ht, Option.bind_some, hleft,
      Int.toNat_natCast, List.drop_left' hskip]

theorem start_report {cs : List SlotPair} (hids : (cs.map SlotPair.id).Nodup)
    (hmore : ∀ c ∈ cs, c.more.length < 2 ^ 31) {t : ReplProgressTrker}
    (ht : ∀ c ∈ cs, t.get c.id = none)
    : BulkReplCtx.start t (cs.flatMap report) (cs.flatMap report).length
      = some (cs.foldl note t) := by
  induction cs generalizing t with
  | nil =>
    rw [BulkReplCtx.start]
    rfl
  | cons c cs ih =>
    rw [List.map_cons, List.nodup_cons] at hids
    have hne : ∀ e ∈ cs, e.id ≠ c.id := fun e he heq =>
      hids.1 (heq ▸ List.mem_map_of_mem he)
    rw [List.flatMap_cons, List.length_append, List.foldl_cons,
      c.start_step (ht c List.mem_cons_self) (hmore c List.mem_cons_self)]
    apply ih hids.2 fun d hd => hmore d (List.mem_cons_of_mem _ hd)
    intro e he
    rw [get_note_of_ne t (hne e he)]
    exact ht e (List.mem_cons_of_mem _ he)

theorem length_pack (cs : List SlotPair)
    : (pack side cs).length = 4 + (cs.flatMap (record side)).length := by
  rw [pack, List.length_append, length_encode, width_u32]

theorem length_slots_le {cs : List SlotPair} {c : SlotPair} (hc : c ∈ cs)
    : (side c).length ≤ (pack side cs).length := by
  have hle := (List.sublist_flatten_of_mem (List.mem_map_of_mem (f := record side) hc)).length_le
  rw [← List.flatMap_def, length_record] at hle
  rw [length_pack]
  unfold sizeofSlot at hle
  omega

theorem length_more_le_pack {cs : List SlotPair} {c : SlotPair} (hc : c ∈ cs)
    : c.more.length * 4 ≤ (pack localSlots cs).length := by
  have hle := (List.sublist_flatten_of_mem
    (List.mem_map_of_mem (f := record localSlots) hc)).length_le
  have hreport := c.length_report_le
  rw [← List.flatMap_def] at hle
  rw [length_report] at hreport
  rw [length_pack]
  omega

theorem content_slotBuf (c : SlotPair) (h : AutoBuf.new.Room (c.more.length * 4))
    : (ReplProgressTrker.slotBuf c.more).content = u32.encodes (c.more.map (· - 1)) := by
  rw [ReplProgressTrker.slotBuf, AutoBuf.content_append32s AutoBuf.paged_new, AutoBuf.content_new,
    List.nil_append]
  rw [List.length_map]
  exact h

theorem length_le_pack (cs : List SlotPair) : cs.length ≤ (pack side cs).length := by
  rw [length_pack]
  induction cs with
  | nil => exact Nat.zero_le _
  | cons c cs ih =>
    rw [List.flatMap_cons, List.length_append, List.length_cons, length_record]
    omega

theorem length_report_flatMap_le (cs : List SlotPair)
    : (cs.flatMap report).length ≤ (cs.flatMap (record localSlots)).length := by
  induction cs with
  | nil => exact Nat.le_refl _
  | cons c cs ih =>
    have hc := c.length_report_le
    rw [List.flatMap_cons, List.flatMap_cons, List.length_append, List.length_append]
    omega

theorem more_increasing (c : SlotPair) : c.more.Pairwise (· < ·) := by
  have hlocal := c.localOrder.sublist (List.filter_sublist (p := fun s =>
    decide (Lacks Slot.key Slot.same c.peerSlots s)))
  rw [more, List.pairwise_map]
  exact hlocal.imp fun h => UInt32.lt_iff_toNat_lt.mpr h

end SlotPair

open SlotPair in
/--
A container is once in the registry, so its id is once in a list. The list of a node has been packed
into a buffer behind two times, and the list of differences is put behind two times as well: it has
room for all that is in the node's list.
-/
theorem slotDiff_exact (cs : List SlotPair) (hids : (cs.map SlotPair.id).Nodup) (diffBuf : AutoBuf)
    (hpaged : diffBuf.Paged) (hroom : diffBuf.Room (pack localSlots cs).length)
    (hpeer : (pack peerSlots cs).length < 2 ^ 31)
    : (∃ out, cmpRTReplHash (pack localSlots cs) (pack peerSlots cs) diffBuf
          = some ((total cs : Int), out, [], []) ∧
        out.content = diffBuf.content ++ cs.flatMap report) ∧
      (∀ c ∈ cs, c.more.Pairwise (· < ·)) ∧
      ∃ t, BulkReplCtx.start ReplProgressTrker.new (cs.flatMap report) (cs.flatMap report).length
          = some t ∧
        (∀ c ∈ cs, (t.get c.id).map AutoBuf.content
          = if c.more = [] then none else some (u32.encodes (c.more.map (· - 1)))) ∧
        ∀ id, (∀ c ∈ cs, c.id ≠ id) → t.get id = none := by
  have hlenLocal := length_pack localSlots cs
  have hlenPeer := length_pack peerSlots cs
  have hsum := length_report_flatMap_le cs
  have hroomLocal : (pack localSlots cs).length < 2 ^ 31 := by
    unfold AutoBuf.Room at hroom
    omega
  have hlocal : ∀ c ∈ cs, c.localSlots.length < 2 ^ 31 :=
    fun c hc => Nat.lt_of_le_of_lt (length_slots_le localSlots hc) hroomLocal
  have hcount : cs.length < 2 ^ 31 := Nat.lt_of_le_of_lt (length_le_pack localSlots cs) hroomLocal
  have hreport : diffBuf.Room (cs.flatMap report).length := by
    unfold AutoBuf.Room at hroom ⊢
    omega
  have hmore : ∀ c ∈ cs, AutoBuf.new.Room (c.more.length * 4) := by
    intro c hc
    have hle := length_more_le_pack hc
    unfold AutoBuf.Room AutoBuf.size at hroom ⊢
    rw [AutoBuf.content_new, List.length_nil]
    omega
  refine ⟨?_, fun c _ => c.more_increasing, ?_⟩
  . obtain ⟨out, hrun, hout⟩ := cmpContainers_eq hpaged hreport hlocal
      (fun c hc => Nat.lt_of_le_of_lt (length_slots_le peerSlots hc) hpeer) [] [] 0
    refine ⟨out, ?_, hout⟩
    have hnonneg : ¬ ((cs.length : Int) < 0 ∨ (cs.length : Int) < 0) := by omega
    rw [List.append_nil, List.append_nil, Int.zero_add] at hrun
    rw [cmpRTReplHash, pack, pack, read_encode, read_encode]
    simp only [bind, Option.bind_some, toNat_ofNat_count hcount]
    rw [if_neg hnonneg, Int.toNat_natCast, hrun]
  . refine ⟨_, start_report hids ?_ fun _ _ => rfl, ?_, ?_⟩
    . intro c hc
      exact Nat.lt_of_le_of_lt c.length_more_le (hlocal c hc)
    . intro c hc
      rw [get_foldl_note_mem hids (fun _ _ => rfl) hc]
      split
      . rfl
      . rw [Option.map_some, c.content_slotBuf (hmore c hc)]
    . intro id hid
      exact get_foldl_note hid _

def sampleSlot (tm : UInt32) (c : UInt8) (hc : IsHexDigit c) : Slot where
  tm := tm
  hash := List.replicate 32 c
  length_hash := List.length_replicate
  hex d hd := by rw [(List.mem_replicate.mp hd).2]; exact hc

def samplePair : SlotPair where
  id := 1
  localSlots := [sampleSlot 5 48 (by decide), sampleSlot 7 49 (by decide), sampleSlot 9 48 (by decide)]
  peerSlots := [sampleSlot 5 48 (by decide), sampleSlot 9 50 (by decide)]
  localOrder := by decide
  peerOrder := by decide

theorem slotDiff_sample
    : samplePair.more = [7, 9] ∧
      ∃ out, cmpRTReplHash (SlotPair.pack SlotPair.localSlots [samplePair])
          (SlotPair.pack SlotPair.peerSlots [samplePair]) AutoBuf.new = some (2, out, [], []) ∧
        out.content = samplePair.report := by
  have h := (slotDiff_exact [samplePair] (by decide) AutoBuf.new AutoBuf.paged_new
    (by unfold AutoBuf.Room; decide +kernel) (by decide +kernel)).1
  have hmore : samplePair.more = [7, 9] := by decide
  obtain ⟨out, hrun, hout⟩ := h
  refine ⟨hmore, out, hrun.trans ?_, hout.trans ?_⟩
  . rw [SlotPair.total, List.map_singleton, hmore]
    rfl
  . rw [List.flatMap_singleton]
    rfl

end Lsmcd
