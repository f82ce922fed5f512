import Mathlib.Tactic.Simps.Basic
import Lsmcd.Shm.Alloc

/-!
The transaction table (`lsshmtidmgr.cpp`): a list of blocks of 1024 entries each, doubly linked and
numbered by an index, in which the entry of a transaction id is found by arithmetic on the id.
-/

namespace Lsmcd

def TIDTBLBLK_MAXSZ : Nat := 1024
def TIDDEL_MAGIC_NUMBER : Nat := 0x8000000000000000
def TIDDEL_FLUSHALL : Nat := 0x7fffffffffffffff
def LSSHMTID_BLKIDX_INCR : Nat := 0x100
def LSSHMTID_BLKIDX_SIZE (x : Nat) : Nat := x * 4
def sizeofTidTblBlk : Nat := 8216

structure LsShmTidTblBlk where
  x_tidBase : Nat
  x_iIterCnt : Int
  x_iDelCnt : Int
  x_iNext : Nat
  x_iPrev : Nat
  x_iTidVals : Nat → Nat

/--
The fields of `LsShmTidInfo` and the memory that they refer to: `blkIdx` is the content of the
block indices by their offset, `blk` that of the table blocks.
-/
structure LsShmTidMgr where
  shm : Shm
  slave : Bool
  x_tid : Nat
  x_lastTidPreClear : Nat
  x_iTidTblStrtOff : Nat
  x_iTidTblCurOff : Nat
  x_iBlkIdxOff : Nat
  x_iBlkCnt : Nat
  blkIdx : Nat → Nat → Nat
  blk : Nat → LsShmTidTblBlk

def isTidValIterOff (tidVal : Nat) : Bool :=
  tidVal &&& TIDDEL_MAGIC_NUMBER ≠ 0

def iterOff2tidVal (off : Nat) : Nat :=
  off ||| TIDDEL_MAGIC_NUMBER

/--
The offset is 32 bit wide, which cuts the flag off.
-/
def tidVal2iterOff (tidVal : Nat) : Nat :=
  tidVal % 2 ^ 32

theorem isTidValIterOff_iterOff2tidVal (off : Nat) : isTidValIterOff (iterOff2tidVal off) = true := by
  have hbit : ((off ||| TIDDEL_MAGIC_NUMBER) &&& TIDDEL_MAGIC_NUMBER).testBit 63 = true := by
    rw [Nat.testBit_and, Nat.testBit_or, show TIDDEL_MAGIC_NUMBER = 2 ^ 63 from rfl,
      Nat.testBit_two_pow_self]
    simp
  unfold isTidValIterOff iterOff2tidVal
  rw [decide_eq_true_eq]
  intro hz
  rw [hz, Nat.zero_testBit] at hbit
  exact absurd hbit (by simp)

theorem isTidValIterOff_of_lt {tid : Nat} (h : tid < TIDDEL_MAGIC_NUMBER)
    : isTidValIterOff tid = false := by
  have hand : tid &&& TIDDEL_MAGIC_NUMBER = 0 := by
    apply Nat.eq_of_testBit_eq
    intro i
    rw [Nat.testBit_and, show TIDDEL_MAGIC_NUMBER = 2 ^ 63 from rfl, Nat.testBit_two_pow]
    by_cases hi : 63 = i
    . subst hi
      rw [Nat.testBit_lt_two_pow (show tid < 2 ^ 63 from h), Bool.false_and, Nat.zero_testBit]
    . simp [hi]
  simp [isTidValIterOff, hand]

theorem tidVal2iterOff_iterOff2tidVal {off : Nat} (h : off < 2 ^ 32)
    : tidVal2iterOff (iterOff2tidVal off) = off := by
  unfold tidVal2iterOff iterOff2tidVal TIDDEL_MAGIC_NUMBER
  rw [Nat.or_mod_two_pow, Nat.mod_eq_of_lt h]
  exact Nat.or_zero off

namespace LsShmTidMgr

def init (shm : Shm) (slave : Bool) (blkIdx : Nat → Nat → Nat) (blk : Nat → LsShmTidTblBlk)
    : LsShmTidMgr where
  shm := shm
  slave := slave
  x_tid := 0
  x_lastTidPreClear := 0
  x_iTidTblStrtOff := 0
  x_iTidTblCurOff := 0
  x_iBlkIdxOff := 0
  x_iBlkCnt := 0
  blkIdx := blkIdx
  blk := blk

def isTidMaster (t : LsShmTidMgr) : Bool := !t.slave

@[simps]
def setBlk (t : LsShmTidMgr) (off : Nat) (b : LsShmTidTblBlk) : LsShmTidMgr :=
  { t with blk := Function.update t.blk off b }

@[simps]
def setBlkIdx (t : LsShmTidMgr) (off : Nat) (idx : Nat → Nat) : LsShmTidMgr :=
  { t with blkIdx := Function.update t.blkIdx off idx }

@[simps]
def release2 (t : LsShmTidMgr) (off size : Nat) : LsShmTidMgr :=
  { t with shm := t.shm.release2 off size }

def allocBlkIdx (t : LsShmTidMgr) (oldIdx oldCnt : Nat) : LsShmTidMgr × Nat :=
  let r := t.shm.alloc2 (LSSHMTID_BLKIDX_SIZE (oldCnt + LSSHMTID_BLKIDX_INCR))
  let t := { t with shm := r.1 }
  let off := r.2
  if off = 0 then (t, 0)
  else if oldIdx = 0 then (t, off)
  else if !t.shm.offset2ptr oldIdx then (t, 0)
  else if !t.shm.offset2ptr off then (t, 0)
  else
    let pOld := t.blkIdx oldIdx
    let pNew := t.blkIdx off
    let t := t.setBlkIdx off (fun i => if i < oldCnt then pOld i else pNew i)
    (t.release2 oldIdx (LSSHMTID_BLKIDX_SIZE oldCnt), off)

def appendBlk (t : LsShmTidMgr) (base blkOff : Nat) : LsShmTidMgr × Nat :=
  let curOff := t.x_iTidTblCurOff
  let t :=
    if curOff ≠ 0 ∧ t.shm.offset2ptr curOff then
      t.setBlk curOff { t.blk curOff with x_iNext := blkOff }
    else
      { t with x_iTidTblStrtOff := blkOff }
  if !t.shm.offset2ptr t.x_iBlkIdxOff then (t, 0)
  else
    let t := t.setBlkIdx t.x_iBlkIdxOff
      (Function.update (t.blkIdx t.x_iBlkIdxOff) t.x_iBlkCnt blkOff)
    let t := { t with x_iBlkCnt := t.x_iBlkCnt + 1 }
    if !t.shm.offset2ptr blkOff then (t, 0)
    else
      let t := t.setBlk blkOff
        { x_tidBase := base, x_iIterCnt := 0, x_iDelCnt := 0, x_iNext := 0, x_iPrev := curOff,
          x_iTidVals := fun _ => 0 }
      ({ t with x_iTidTblCurOff := blkOff }, blkOff)

def growTidTbl (t : LsShmTidMgr) (base : Nat) : LsShmTidMgr × Nat :=
  let r := t.shm.alloc2 sizeofTidTblBlk
  let t := { t with shm := r.1 }
  let blkOff := r.2
  if blkOff = 0 then (t, 0)
  else if t.x_iBlkCnt % LSSHMTID_BLKIDX_INCR = 0 then
    let q := t.allocBlkIdx t.x_iBlkIdxOff t.x_iBlkCnt
    if q.2 = 0 then (q.1.release2 blkOff sizeofTidTblBlk, 0)
    else { q.1 with x_iBlkIdxOff := q.2 }.appendBlk base blkOff
  else t.appendBlk base blkOff

def blkEnd (b : LsShmTidTblBlk) : Nat :=
  (b.x_tidBase + TIDTBLBLK_MAXSZ) % 2 ^ 64

def needsBlk (t : LsShmTidMgr) (tid : Nat) : Bool :=
  !t.shm.offset2ptr t.x_iTidTblCurOff ||
    blkEnd (t.blk t.x_iTidTblCurOff) ≤ tid

def checkTidTbl (t : LsShmTidMgr) : LsShmTidMgr :=
  let tid := (t.x_tid + 1) % 2 ^ 64
  if t.needsBlk tid then (t.growTidTbl (tid - tid % TIDTBLBLK_MAXSZ)).1 else t

def putTidVal (t : LsShmTidMgr) (blkOff indx tidVal : Nat) : LsShmTidMgr :=
  let b := t.blk blkOff
  let b := if isTidValIterOff tidVal then { b with x_iIterCnt := b.x_iIterCnt + 1 }
    else { b with x_iDelCnt := b.x_iDelCnt + 1 }
  t.setBlk blkOff { b with x_iTidVals := Function.update b.x_iTidVals indx tidVal }

def storeTidTblEnt (t : LsShmTidMgr) (tidVal tid : Nat) : LsShmTidMgr × Bool :=
  let indx := tid % TIDTBLBLK_MAXSZ
  if t.needsBlk tid then
    let r := t.growTidTbl (tid - indx)
    if r.2 = 0 then (r.1, false)
    else if !r.1.shm.offset2ptr r.2 then (r.1, false)
    else (r.1.putTidVal r.2 indx tidVal, true)
  else (t.putTidVal t.x_iTidTblCurOff indx tidVal, true)

/--
The id that `setTidTblEnt` assigns, `none` for one that is not new.
-/
def newTid (t : LsShmTidMgr) (pTid : Nat) : Option Nat :=
  if pTid = 0 then some ((t.x_tid + 1) % 2 ^ 64)
  else if t.x_tid < pTid then some pTid
  else none

/--
The second component is `*pTid`, the third is whether 0 is returned.
-/
def setTidTblEnt (t : LsShmTidMgr) (tidVal pTid : Nat) : LsShmTidMgr × Nat × Bool :=
  match t.newTid pTid with
  | none => (t, pTid, false)
  | some tid =>
    let r := { t with x_tid := tid }.storeTidTblEnt tidVal tid
    (r.1, tid, r.2)

def tid2tblBlk (t : LsShmTidMgr) (tid : Nat) : Option Nat :=
  let tid := if tid < t.x_lastTidPreClear then t.x_lastTidPreClear else tid
  let iBlkIdx := (tid >>> 10) - (t.x_lastTidPreClear >>> 10)
  if t.x_iBlkIdxOff = 0 ∨ t.x_iBlkCnt ≤ iBlkIdx then none
  else if !t.shm.offset2ptr t.x_iBlkIdxOff then none
  else
    let off := t.blkIdx t.x_iBlkIdxOff iBlkIdx
    if t.shm.offset2ptr off then some off else none

def clrTidTblEnt (t : LsShmTidMgr) (tid : Nat) : LsShmTidMgr :=
  match t.tid2tblBlk tid with
  | none => t
  | some off =>
    let b := t.blk off
    t.setBlk off
      { b with
        x_iTidVals := Function.update b.x_iTidVals (tid % TIDTBLBLK_MAXSZ) 0
        x_iIterCnt := b.x_iIterCnt - 1 }

def tid2iterOff (t : LsShmTidMgr) (tid : Nat) : Nat :=
  match t.tid2tblBlk tid with
  | none => 0
  | some off =>
    let tidVal := (t.blk off).x_iTidVals (tid % TIDTBLBLK_MAXSZ)
    if isTidValIterOff tidVal then tidVal2iterOff tidVal else 0

def nxtValInBlk (b : LsShmTidTblBlk) (indx : Nat) : Option Nat :=
  go (TIDTBLBLK_MAXSZ - indx) indx
where
  go : Nat → Nat → Option Nat
  | 0, _ => none
  | n + 1, indx => if b.x_iTidVals indx ≠ 0 then some indx else go n (indx + 1)

@[irreducible]
def nxtInBlk (b : LsShmTidTblBlk) (tid : Nat) : Option Nat :=
  if tid < blkEnd b then
    nxtValInBlk b (if b.x_tidBase ≤ tid then tid % TIDTBLBLK_MAXSZ + 1 else 0)
  else none

/--
The loop of `nxtTidTblVal` from the block `off` on: the id of the value found and its block.
-/
def nxtTidTblValLoop (t : LsShmTidMgr) (tid : Nat) : Nat → Nat → Option (Nat × Nat)
  | 0, _ => none
  | fuel + 1, off =>
    let b := t.blk off
    match nxtInBlk b tid with
    | some indx => some (b.x_tidBase + indx, off)
    | none =>
      if b.x_iNext = 0 then none
      else if !t.shm.offset2ptr b.x_iNext then none
      else t.nxtTidTblValLoop tid fuel b.x_iNext

/--
`pBlk` is the offset of `*ppBlk`, 0 for `NULL`.
-/
def nxtTidTblVal (t : LsShmTidMgr) (tid pBlk : Nat) : Option (Nat × Nat) :=
  if pBlk ≠ 0 then t.nxtTidTblValLoop tid (t.shm.live.length + 1) pBlk
  else
    match t.tid2tblBlk tid with
    | none => none
    | some off => t.nxtTidTblValLoop tid (t.shm.live.length + 1) off

/--
The loop of `clrTidTbl`, from the last block back. `false` is the early return.
-/
def clrTidTblLoop : Nat → LsShmTidMgr → Nat → LsShmTidMgr × Bool
  | 0, t, _ => (t, false)
  | fuel + 1, t, off =>
    if off = 0 then (t, true)
    else if !t.shm.offset2ptr off then (t, false)
    else clrTidTblLoop fuel (t.release2 off sizeofTidTblBlk) (t.blk off).x_iPrev

/--
The number of entries that the block index was allocated with.
-/
def blkIdxRoundSize (t : LsShmTidMgr) : Nat :=
  let roundSize := t.x_iBlkCnt / LSSHMTID_BLKIDX_INCR * LSSHMTID_BLKIDX_INCR
  if roundSize < t.x_iBlkCnt then roundSize + LSSHMTID_BLKIDX_INCR else roundSize

def releaseTidTbl (t : LsShmTidMgr) : LsShmTidMgr × Bool :=
  let off := t.x_iTidTblCurOff
  let t :=
    if off ≠ 0 then t.release2 t.x_iBlkIdxOff (LSSHMTID_BLKIDX_SIZE t.blkIdxRoundSize) else t
  clrTidTblLoop (t.shm.live.length + 1) t off

def resetTidTbl (t : LsShmTidMgr) : LsShmTidMgr :=
  { t with
    x_iTidTblStrtOff := 0
    x_iTidTblCurOff := 0
    x_iBlkIdxOff := 0
    x_iBlkCnt := 0
    x_lastTidPreClear := t.x_tid }

def clrTidTbl (t : LsShmTidMgr) : LsShmTidMgr :=
  let r := t.releaseTidTbl
  if r.2 then
    let t := r.1.resetTidTbl
    if t.isTidMaster then (t.setTidTblEnt TIDDEL_FLUSHALL 0).1 else t
  else r.1

def unlinkTid (t : LsShmTidMgr) (tid : Nat) : LsShmTidMgr :=
  let t := t.clrTidTblEnt tid
  if t.isTidMaster then (t.setTidTblEnt tid 0).1 else t

end LsShmTidMgr

end Lsmcd
