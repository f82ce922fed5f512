import Lsmcd.Shm.Trim
import Lsmcd.Shm.HashOps

/-!
The operations on a hash as the steps of a run.
-/

namespace Lsmcd

/--
An offset is given as the key that `find2` is asked for. `time` sets what `time()` returns from then
on.
-/
inductive LsShmHashOp
  | time (now : Nat)
  | doInsert (key : List UInt8) (val : ValParm)
  | doSet (key : List UInt8) (val : ValParm)
  | doUpdate (key : List UInt8) (val : ValParm)
  | iterGrowValue (key : List UInt8) (n : Nat) (front : Bool)
  | eraseIterator (key : List UInt8)
  | touchLru (key : List UInt8)
  | tidReplaceTid (key : List UInt8) (pTid : Nat)
  | rehash
  | trim (tmCutoff : Nat) (func : Option (LsShmHElem → Int)) (fuel : Nat)
  | trimsize (need : Int) (func : Option (LsShmHElem → Int)) (fuel : Nat)
  | trimByCb (maxCnt : Int) (func : Option (LsShmHElem → Int)) (fuel : Nat)
  | clear

/--
`tidReplaceTid` is called with an element only.
-/
def LsShmHash.step (s : LsShmHash) : LsShmHashOp → LsShmHash
  | .time now => { s with now := now }
  | .doInsert key val => (s.doInsert (s.findKey key) (s.m_hf key) ⟨key, val⟩).1
  | .doSet key val => (s.doSet (s.findKey key) (s.m_hf key) ⟨key, val⟩).1
  | .doUpdate key val => (s.doUpdate (s.findKey key) (s.m_hf key) ⟨key, val⟩).1
  | .iterGrowValue key n front => (s.iterGrowValue (s.findKey key) n front).1
  | .eraseIterator key => s.eraseIteratorHelper (s.findKey key)
  | .touchLru key => s.touchLru (s.findKey key)
  | .tidReplaceTid key pTid =>
    if s.flagTid ∧ s.findKey key ≠ 0 then s.tidReplaceTid (s.findKey key) pTid else s
  | .rehash => s.rehash.1
  | .trim tmCutoff func fuel => (s.trim tmCutoff func fuel).1
  | .trimsize need func fuel => (s.trimsize need func fuel).1
  | .trimByCb maxCnt func fuel => (s.trimByCb maxCnt func fuel).1
  | .clear => s.clear

namespace LsShmHash

def InTable (s : LsShmHash) (off : Nat) : Prop :=
  s.findKey (s.table.keyOf off) = off

instance (s : LsShmHash) (off : Nat) : Decidable (s.InTable off) :=
  inferInstanceAs (Decidable (_ = _))

theorem Rep.mem_of_inTable {s : LsShmHash} {E : List Nat} {x : Nat} (h : Rep s E) (hin : s.InTable x)
    (hx : x ≠ 0) : x ∈ E := by
  rcases h.lookup.find2_cases (s.table.keyOf x) with ⟨hz, _⟩ | ⟨hmem, _⟩
  . exact absurd (hin.symm.trans hz) hx
  . rw [← hin]
    exact hmem

end LsShmHash

end Lsmcd
