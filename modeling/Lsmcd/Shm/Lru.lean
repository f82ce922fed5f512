import Lsmcd.Shm.HElem

/-!
The list of elements in the order of their last use (`linkHElem` and its relatives).
-/

namespace Lsmcd

namespace LsHashLruInfo

def setNext (l : LsHashLruInfo) (off next : Nat) : LsHashLruInfo :=
  { l with linkNext := Function.update l.linkNext off next }

def setPrev (l : LsHashLruInfo) (off prev : Nat) : LsHashLruInfo :=
  { l with linkPrev := Function.update l.linkPrev off prev }

def setTime (l : LsHashLruInfo) (off now : Nat) : LsHashLruInfo :=
  { l with lasttime := Function.update l.lasttime off now }

end LsHashLruInfo

namespace LsShmHash

def setLru (s : LsShmHash) (f : LsHashLruInfo → LsHashLruInfo) : LsShmHash :=
  { s with lru := f s.lru }

/--
The store made by `set_linkNext` and `set_linkPrev`: none when the new value is 0. The second
component is whether they fail.
-/
def setLink (s : LsShmHash) (offThis value : Nat) (f : LsHashLruInfo → LsHashLruInfo)
    : LsShmHash × Bool :=
  if value ≠ 0 then
    match s.offset2iterator offThis with
    | none => (s.rebuild, true)
    | some _ => if s.getLruLinkPtr offThis then (s.setLru f, false) else (s, true)
  else (s, false)

def set_linkNext (s : LsShmHash) (offThis offNext : Nat) : LsShmHash × Bool :=
  s.setLink offThis offNext (·.setNext offThis offNext)

def set_linkPrev (s : LsShmHash) (offThis offPrev : Nat) : LsShmHash × Bool :=
  s.setLink offThis offPrev (·.setPrev offThis offPrev)

def linkFirstElem (s : LsShmHash) (offElem : Nat) : LsShmHash :=
  s.setLru fun l =>
    { (l.setNext offElem 0).setTime offElem s.now with
      linkFirst := offElem
      nvalset := l.nvalset + 1 }

def linkHElem (s : LsShmHash) (offElem : Nat) : LsShmHash :=
  if !s.getLruLinkPtr offElem then s
  else if s.lru.linkFirst ≠ 0 then
    let r := s.set_linkNext s.lru.linkFirst offElem
    if r.2 then r.1
    else (r.1.setLru (·.setPrev offElem s.lru.linkFirst)).linkFirstElem offElem
  else
    (s.setLru fun l => { l.setPrev offElem 0 with linkLast := offElem }).linkFirstElem offElem

def unlinkHElem (s : LsShmHash) (offElem : Nat) : LsShmHash :=
  if !s.getLruLinkPtr offElem then s
  else
    let next := s.lru.linkNext offElem
    let r :=
      if next ≠ 0 then s.set_linkPrev next (s.lru.linkPrev offElem)
      else (s.setLru fun l => { l with linkFirst := l.linkPrev offElem }, false)
    if r.2 then r.1
    else
      let prev := r.1.lru.linkPrev offElem
      let q :=
        if prev ≠ 0 then r.1.set_linkNext prev (r.1.lru.linkNext offElem)
        else (r.1.setLru fun l => { l with linkLast := l.linkNext offElem }, false)
      if q.2 then q.1
      else q.1.setLru fun l => { l with nvalset := l.nvalset - 1 }

def linkSetTop (s : LsShmHash) (offElem : Nat) : LsShmHash :=
  if !s.getLruLinkPtr offElem then s
  else
    let next := s.lru.linkNext offElem
    if next ≠ 0 then
      let prev := s.lru.linkPrev offElem
      let r :=
        if prev = 0 then (s.setLru fun l => { l with linkLast := next }, false)
        else s.set_linkNext prev next
      if r.2 then r.1
      else
        let q := r.1.set_linkPrev next prev
        if q.2 then q.1
        else
          let s := q.1.setLru fun l => (l.setNext offElem 0).setPrev offElem l.linkFirst
          let p := s.set_linkNext s.lru.linkFirst offElem
          if p.2 then p.1
          else p.1.setLru fun l => { l.setTime offElem s.now with linkFirst := offElem }
    else s.setLru (·.setTime offElem s.now)

end LsShmHash

end Lsmcd
