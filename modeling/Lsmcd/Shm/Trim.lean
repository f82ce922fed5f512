import Lsmcd.Lib.Run
import Lsmcd.Shm.Hash

/-!
Eviction from the cold end of the LRU list: `trim`, `trimsize` and `trimByCb`.

The three loops differ in what they do with an element and in what they count. Each is run for a
number of iterations, the loop being over when `offElem` is 0 or nothing is left to do: `trim` may
come back to an element that it has moved to the top, for ever if the callback keeps it and the
cutoff lies in the future.
-/

namespace Lsmcd

inductive TrimAct
  | stop
  | skip
  | top
  | erase (ret : Int)

structure TrimState where
  hash : LsShmHash
  offElem : Nat
  left : Int
  del : Int

namespace LsShmHash

def getLruLinkNext (s : LsShmHash) (off : Nat) : Nat :=
  if s.getLruLinkPtr off then s.lru.linkNext off else 0

def getLruLasttime (s : LsShmHash) (off : Nat) : Nat :=
  if s.getLruLinkPtr off then s.lru.lasttime off else 0

/--
One iteration. The transaction table is grown before an element is erased, so that the deletion can
be recorded.
-/
def trimIter (act : Nat → LsShmHElem → TrimAct) (cost : LsShmHElem → Int) (st : TrimState)
    : TrimState :=
  if st.offElem = 0 ∨ st.left ≤ 0 then st
  else
    let s := if st.hash.flagTid then st.hash.onTid (·.checkTidTbl) else st.hash
    match s.offset2iterator st.offElem with
    | none => { st with hash := s.rebuild, offElem := 0 }
    | some e =>
      let next := s.getLruLinkNext st.offElem
      match act (s.getLruLasttime st.offElem) e with
      | .stop => { st with hash := s, offElem := 0 }
      | .skip => { st with hash := s, offElem := next, left := st.left - cost e }
      | .top =>
        { st with hash := s.linkSetTop st.offElem, offElem := next, left := st.left - cost e }
      | .erase ret =>
        { hash := (s.eraseIteratorHelper st.offElem).setLru fun l =>
            { l with ndataexp := l.ndataexp + ret, ndataset := l.ndataset - ret }
          offElem := next
          left := st.left - cost e
          del := st.del + 1 }

def trimStart (s : LsShmHash) (left : Int) : TrimState where
  hash := s
  offElem := s.lru.linkLast
  left := left
  del := 0

/--
`fuel` iterations and the statements after the loop.
-/
def trimLoop (s : LsShmHash) (act : Nat → LsShmHElem → TrimAct) (cost : LsShmHElem → Int)
    (left : Int) (fuel : Nat) : LsShmHash × Int :=
  if !s.flagLru then (s, -1)
  else
    let st := Run.exec (fun st (_ : Unit) => trimIter act cost st) (s.trimStart left)
      (List.replicate fuel ())
    (st.hash.setLru fun l => { l with nvalexp := l.nvalexp + st.del }, st.del)

def trimRet (func : Option (LsShmHElem → Int)) (e : LsShmHElem) : Int :=
  match func with
  | none => 1
  | some f => f e

def trimAct (tmCutoff : Nat) (func : Option (LsShmHElem → Int)) (lasttime : Nat) (e : LsShmHElem)
    : TrimAct :=
  if tmCutoff ≤ lasttime then .stop
  else if trimRet func e < 0 then .stop
  else if trimRet func e = 1 then .erase 1
  else .top

def trim (s : LsShmHash) (tmCutoff : Nat) (func : Option (LsShmHElem → Int)) (fuel : Nat)
    : LsShmHash × Int :=
  s.trimLoop (trimAct tmCutoff func) (fun _ => 0) 1 fuel

def trimsize (s : LsShmHash) (need : Int) (func : Option (LsShmHElem → Int)) (fuel : Nat)
    : LsShmHash × Int :=
  s.trimLoop (fun _ e => .erase (trimRet func e)) (fun e => e.x_iLen) need fuel

def trimByCbAct (func : Option (LsShmHElem → Int)) (_ : Nat) (e : LsShmHElem) : TrimAct :=
  if trimRet func e < 0 then .stop
  else if trimRet func e = 0 then .skip
  else .erase (trimRet func e)

def trimByCb (s : LsShmHash) (maxCnt : Int) (func : Option (LsShmHElem → Int)) (fuel : Nat)
    : LsShmHash × Int :=
  s.trimLoop (trimByCbAct func) (fun _ => 1) maxCnt fuel

end LsShmHash

end Lsmcd
