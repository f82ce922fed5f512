import Mathlib.Logic.Function.Basic
import Mathlib.Data.List.Basic
import Mathlib.Data.Fintype.Fin
import Lsmcd.Lib.Run

/-!
The election of a master per slice (`lcreplgroup.cpp` and the packets of it in `lcreplreceiver.cpp`
and `lcreplsender.cpp`).

Every node has a connection of its own to every other one. `fwd i j` is what node `i` has written to
its connection to `j` and `j` has not read yet, `bwd i j` what `j` has answered on that connection.

The packets are the four of the election. The heartbeats `RT_REPL_PING` and `RT_REPL_ECHO` carry roles
too, `LcNodeInfo::copyAll` takes them over; they are left out, and so is what they change.
-/

namespace Lsmcd

inductive Role where
  | unknown
  | master
  | slave
  | flipingMaster
  | flipingSlave
  deriving DecidableEq

structure NodeStatus (n : Nat) where
  m_pCurrTid : Fin n → Nat
  m_pPriority : Fin n → Nat
  m_pRole : Fin n → Role

/--
`Ip2NodeInfoMap_t`: the addresses in the order of iteration, and what is known of each.
-/
structure Ip2NodeInfoMap (A : Type) (n : Nat) where
  order : List A
  info : A → NodeStatus n

variable {A : Type} [DecidableEq A] {n : Nat}

def NodeStatus.setRole (x : NodeStatus n) (idx : Fin n) (role : Role) : NodeStatus n :=
  { x with m_pRole := Function.update x.m_pRole idx role }

namespace Ip2NodeInfoMap

def setRole (M : Ip2NodeInfoMap A n) (a : A) (idx : Fin n) (role : Role) : Ip2NodeInfoMap A n :=
  { M with info := Function.update M.info a ((M.info a).setRole idx role) }

def isAllClientSync (M : Ip2NodeInfoMap A n) (idx : Fin n) (myTid : Nat) : Bool :=
  M.order.all fun a => (M.info a).m_pCurrTid idx = myTid

def roleExistInGroup (M : Ip2NodeInfoMap A n) (idx : Fin n) (role : Role) : Bool :=
  M.order.any fun a => (M.info a).m_pRole idx = role

def highest (M : Ip2NodeInfoMap A n) (idx : Fin n) : Option A → List A → Option A
  | high, [] => high
  | none, a :: l => M.highest idx (some a) l
  | some h, a :: l =>
    if (M.info h).m_pPriority idx < (M.info a).m_pPriority idx then M.highest idx (some a) l
    else M.highest idx (some h) l

def hasHighPriorityClient (M : Ip2NodeInfoMap A n) (myPriority : Nat) (idx : Fin n) : Option A :=
  match M.highest idx none M.order with
  | none => none
  | some a => if myPriority < (M.info a).m_pPriority idx then some a else none

def setNewMstrClearOthers (M : Ip2NodeInfoMap A n) (Ip : A) (idx : Fin n) : Ip2NodeInfoMap A n :=
  { M with
    info := fun a =>
      if a ∈ M.order then (M.info a).setRole idx (if a = Ip then .master else .slave)
      else M.info a }

/--
The second component is `outlist`.
-/
def getClientsMaxTid (M : Ip2NodeInfoMap A n) (idx : Fin n) (myTid : Nat)
    : List A → List A → Nat × List A
  | [], outlist => (myTid, outlist)
  | a :: inlist, outlist =>
    let currTid := (M.info a).m_pCurrTid idx
    if myTid < currTid then (currTid, outlist)
    else if currTid = myTid then M.getClientsMaxTid idx myTid inlist (outlist ++ [a])
    else M.getClientsMaxTid idx myTid inlist outlist

/--
The comparison of the addresses is commented out.
-/
def isSelfMinAddr (_clntlist : List A) : Bool := true

def isLegalClientBeMstr (M : Ip2NodeInfoMap A n) (idx : Fin n) (myTid myPriority : Nat) : Bool :=
  if M.order.any fun a => myPriority < (M.info a).m_pPriority idx then false
  else
    let slist := M.order.filter fun a => (M.info a).m_pPriority idx = myPriority
    if slist = [] then true
    else
      let r := M.getClientsMaxTid idx myTid slist []
      if myTid < r.1 then false
      else if r.2 = [] then true
      else isSelfMinAddr r.2

end Ip2NodeInfoMap

inductive RoleMsg where
  | newMaster
  | mstrFliping
  | flipingAck
  | flipDone
  deriving DecidableEq

/--
The nodes of a group, with the counts of accepted and of own connections that are up.
-/
structure ReplGroup (A : Type) (n : Nat) where
  infoMap : A → Ip2NodeInfoMap A n
  inNum : A → Nat
  outNum : A → Nat
  fwd : A → A → List (RoleMsg × Fin n)
  bwd : A → A → List (RoleMsg × Fin n)

namespace ReplGroup

def setMap (g : ReplGroup A n) (i : A) (M : Ip2NodeInfoMap A n) : ReplGroup A n :=
  { g with infoMap := Function.update g.infoMap i M }

def push (q : A → A → List (RoleMsg × Fin n)) (i j : A) (m : RoleMsg × Fin n)
    : A → A → List (RoleMsg × Fin n) :=
  Function.update q i (Function.update (q i) j (q i j ++ [m]))

def pop (q : A → A → List (RoleMsg × Fin n)) (i j : A) : A → A → List (RoleMsg × Fin n) :=
  Function.update q i (Function.update (q i) j (q i j).tail)

def bcastNewMstrElectDone (g : ReplGroup A n) (me : A) (idx : Fin n) : ReplGroup A n :=
  { g with
    fwd := Function.update g.fwd me fun k =>
      if k = me then g.fwd me k else g.fwd me k ++ [(.newMaster, idx)] }

def clientsElectMstr (g : ReplGroup A n) (me : A) (idx : Fin n) : ReplGroup A n :=
  let M := g.infoMap me
  let local_ := M.info me
  if M.isLegalClientBeMstr idx (local_.m_pCurrTid idx) (local_.m_pPriority idx) then
    (g.setMap me (M.setRole me idx .master)).bcastNewMstrElectDone me idx
  else g

def monitorRole (me : A) (g : ReplGroup A n) (idx : Fin n) : ReplGroup A n :=
  let M := g.infoMap me
  let local_ := M.info me
  if local_.m_pRole idx = .master then
    if M.isAllClientSync idx (local_.m_pCurrTid idx) then
      match M.hasHighPriorityClient (local_.m_pPriority idx) idx with
      | none => g
      | some addr =>
        { g with fwd := push g.fwd me addr (.mstrFliping, idx) }.setMap me
          (M.setRole me idx .flipingMaster)
    else g
  else if M.roleExistInGroup idx .master then g
  else g.clientsElectMstr me idx

def flipRole (me : A) (g : ReplGroup A n) (idx : Fin n) : ReplGroup A n :=
  let M := g.infoMap me
  if (M.info me).m_pRole idx = .master then g
  else g.setMap me ((M.setRole me idx .master).setNewMstrClearOthers me idx)

def monitorRoles (g : ReplGroup A n) (me : A) : ReplGroup A n :=
  let inNum := g.inNum me
  let outNum := g.outNum me
  if inNum = 0 ∧ outNum = 0 then (List.finRange n).foldl (flipRole me) g
  else if inNum = outNum ∧ inNum + 1 = (g.infoMap me).order.length ∧ 0 < inNum then
    (List.finRange n).foldl (monitorRole me) g
  else g

/--
`processPacket` at `me` for a packet from `peer`. An answer goes back on the same connection.
-/
def processPacket (g : ReplGroup A n) (me peer : A)
    (reply : ReplGroup A n → RoleMsg × Fin n → ReplGroup A n) (m : RoleMsg × Fin n)
    : ReplGroup A n :=
  let idx := m.2
  match m.1 with
  | .mstrFliping => reply g (.flipingAck, idx)
  | .flipingAck =>
    let g := reply g (.flipDone, idx)
    g.setMap me ((g.infoMap me).setRole me idx .slave)
  | .flipDone =>
    let M := (g.infoMap me).setRole me idx .master
    (g.setMap me (M.setNewMstrClearOthers me idx)).bcastNewMstrElectDone me idx
  | .newMaster => g.setMap me ((g.infoMap me).setNewMstrClearOthers peer idx)

def answerFwd (i j : A) (g : ReplGroup A n) (m : RoleMsg × Fin n) : ReplGroup A n :=
  { g with fwd := push g.fwd i j m }

def answerBwd (i j : A) (g : ReplGroup A n) (m : RoleMsg × Fin n) : ReplGroup A n :=
  { g with bwd := push g.bwd i j m }

inductive Event (A : Type) where
  | timer (me : A)
  | readFwd (i j : A)
  | readBwd (i j : A)

def step (g : ReplGroup A n) : Event A → ReplGroup A n
  | .timer me => g.monitorRoles me
  | .readFwd i j =>
    match g.fwd i j with
    | [] => g
    | m :: _ => { g with fwd := pop g.fwd i j }.processPacket j i (answerBwd i j) m
  | .readBwd i j =>
    match g.bwd i j with
    | [] => g
    | m :: _ => { g with bwd := pop g.bwd i j }.processPacket i j (answerFwd i j) m

end ReplGroup

@[ext]
structure Election (A : Type) where
  role : A → A → Role
  fwd : A → A → List RoleMsg
  bwd : A → A → List RoleMsg

namespace Election

variable {v w : Election A} {prio tid : A → Nat}

def setRole (v : Election A) (i a : A) (r : Role) : Election A :=
  { v with role := Function.update v.role i (Function.update (v.role i) a r) }

def follow (v : Election A) (i m : A) : Election A :=
  { v with role := Function.update v.role i fun a => if a = m then .master else .slave }

def sendFwd (v : Election A) (i j : A) (m : RoleMsg) : Election A :=
  { v with fwd := Function.update v.fwd i (Function.update (v.fwd i) j (v.fwd i j ++ [m])) }

def sendBwd (v : Election A) (i j : A) (m : RoleMsg) : Election A :=
  { v with bwd := Function.update v.bwd i (Function.update (v.bwd i) j (v.bwd i j ++ [m])) }

def bcast (v : Election A) (me : A) : Election A :=
  { v with
    fwd := Function.update v.fwd me fun k =>
      if k = me then v.fwd me k else v.fwd me k ++ [.newMaster] }

def dropFwd (v : Election A) (i j : A) : Election A :=
  { v with fwd := Function.update v.fwd i (Function.update (v.fwd i) j (v.fwd i j).tail) }

def dropBwd (v : Election A) (i j : A) : Election A :=
  { v with bwd := Function.update v.bwd i (Function.update (v.bwd i) j (v.bwd i j).tail) }

def handle (v : Election A) (me peer : A) (reply : Election A → RoleMsg → Election A)
    : RoleMsg → Election A
  | .mstrFliping => reply v .flipingAck
  | .flipingAck => (reply v .flipDone).setRole me me .slave
  | .flipDone => (v.follow me me).bcast me
  | .newMaster => v.follow me peer

/--
What `isLegalClientBeMstr` decides when the tables hold everyone's priority and id.
-/
def Legal (prio tid : A → Nat) (i : A) : Prop :=
  ∀ a, prio a ≤ prio i ∧ (prio a = prio i → tid a ≤ tid i)

inductive Step (prio tid : A → Nat) : Election A → Election A → Prop
  | flip (v : Election A) (i t : A) (hmaster : v.role i i = .master) (hprio : prio i < prio t)
      (hmax : ∀ a, prio a ≤ prio t)
      : Step prio tid v ((v.sendFwd i t .mstrFliping).setRole i i .flipingMaster)
  | elect (v : Election A) (i : A) (hnone : ∀ a, v.role i a ≠ .master) (hlegal : Legal prio tid i)
      : Step prio tid v ((v.setRole i i .master).bcast i)
  | readFwd (v : Election A) (i j : A) (m : RoleMsg) (l : List RoleMsg) (h : v.fwd i j = m :: l)
      : Step prio tid v ((v.dropFwd i j).handle j i (fun v m => v.sendBwd i j m) m)
  | readBwd (v : Election A) (i j : A) (m : RoleMsg) (l : List RoleMsg) (h : v.bwd i j = m :: l)
      : Step prio tid v ((v.dropBwd i j).handle i j (fun v m => v.sendFwd i j m) m)

def Names (v : Election A) (i m : A) : Prop :=
  ∀ a, v.role i a = .master ↔ a = m

def Quiet (v : Election A) : Prop :=
  ∀ i j, v.fwd i j = [] ∧ v.bwd i j = []

def Agrees (v : Election A) (m : A) : Prop :=
  ∀ i, v.Names i m

def Token (v : Election A) (m t : A) : Prop :=
  (v.fwd m t = [.mstrFliping] ∧ v.bwd m t = []) ∨ (v.fwd m t = [] ∧ v.bwd m t = [.flipingAck]) ∨
    (v.fwd m t = [.flipDone] ∧ v.bwd m t = [])

/--
`m` hands its role over to `t`: `m` itself knows no master, the others still know `m`.
-/
structure Fliping (prio : A → Nat) (v : Election A) (m t : A) : Prop where
  lower : prio m < prio t
  max : ∀ a, prio a ≤ prio t
  old : ∀ a, v.role m a ≠ .master
  others : ∀ i, i ≠ m → v.Names i m
  token : v.Token m t
  rest : ∀ i j, ¬ (i = m ∧ j = t) → v.fwd i j = [] ∧ v.bwd i j = []

def Waits (prio tid : A → Nat) (v : Election A) (k : A) : Prop :=
  v.role k k ≠ .master ∧ ((∃ a, v.role k a = .master) ∨ ¬ Legal prio tid k)

/--
`m` has the highest priority and has told everyone that it is the master.
-/
structure Announced (prio tid : A → Nat) (v : Election A) (m : A) : Prop where
  max : ∀ a, prio a ≤ prio m
  self : v.Names m m
  told : ∀ k, k ≠ m →
    (v.fwd m k = [] ∧ v.Names k m) ∨ (v.fwd m k = [.newMaster] ∧ Waits prio tid v k)
  selfFwd : v.fwd m m = []
  rest : ∀ i j, i ≠ m → v.fwd i j = []
  bwd : ∀ i j, v.bwd i j = []

/--
The phases of a slice that has had a master.
-/
inductive Led (prio tid : A → Nat) (v : Election A) : Prop
  | stable (m : A) (hagrees : v.Agrees m) (hquiet : v.Quiet)
  | fliping (m t : A) (h : Fliping prio v m t)
  | announced (m : A) (h : Announced prio tid v m)

/--
All phases. As long as there has been no master, there must be only one node that may elect itself.
-/
inductive Phase (prio tid : A → Nat) (v : Election A) : Prop
  | noMaster (hnone : ∀ i a, v.role i a ≠ .master) (hquiet : v.Quiet)
      (hone : ∀ i j, Legal prio tid i → Legal prio tid j → i = j)
  | led (h : Led prio tid v)

theorem update_update {β : Type} (f : A → A → β) (i j : A) (b : β) (i' j' : A)
    : Function.update f i (Function.update (f i) j b) i' j' =
        if i' = i ∧ j' = j then b else f i' j' := by
  by_cases hi : i' = i
  . subst hi
    rw [Function.update_self]
    by_cases hj : j' = j
    . subst hj
      rw [Function.update_self, if_pos ⟨rfl, rfl⟩]
    . rw [Function.update_of_ne hj, if_neg fun h => hj h.2]
  . rw [Function.update_of_ne hi, if_neg fun h => hi h.1]

@[simp]
theorem setRole_role (v : Election A) (i a : A) (r : Role) (i' a' : A)
    : (v.setRole i a r).role i' a' = if i' = i ∧ a' = a then r else v.role i' a' :=
  update_update v.role i a r i' a'

@[simp]
theorem follow_role (v : Election A) (i m i' a : A)
    : (v.follow i m).role i' a =
        if i' = i then (if a = m then .master else .slave) else v.role i' a := by
  unfold follow
  by_cases hi : i' = i
  . subst hi
    simp
  . simp [hi]

@[simp]
theorem sendFwd_fwd (v : Election A) (i j : A) (m : RoleMsg) (i' j' : A)
    : (v.sendFwd i j m).fwd i' j' =
        if i' = i ∧ j' = j then v.fwd i j ++ [m] else v.fwd i' j' :=
  update_update v.fwd i j _ i' j'

@[simp]
theorem sendBwd_bwd (v : Election A) (i j : A) (m : RoleMsg) (i' j' : A)
    : (v.sendBwd i j m).bwd i' j' =
        if i' = i ∧ j' = j then v.bwd i j ++ [m] else v.bwd i' j' :=
  update_update v.bwd i j _ i' j'

@[simp]
theorem dropFwd_fwd (v : Election A) (i j i' j' : A)
    : (v.dropFwd i j).fwd i' j' = if i' = i ∧ j' = j then (v.fwd i j).tail else v.fwd i' j' :=
  update_update v.fwd i j _ i' j'

@[simp]
theorem dropBwd_bwd (v : Election A) (i j i' j' : A)
    : (v.dropBwd i j).bwd i' j' = if i' = i ∧ j' = j then (v.bwd i j).tail else v.bwd i' j' :=
  update_update v.bwd i j _ i' j'

@[simp]
theorem bcast_fwd (v : Election A) (me i' j' : A)
    : (v.bcast me).fwd i' j' =
        if i' = me ∧ j' ≠ me then v.fwd me j' ++ [.newMaster] else v.fwd i' j' := by
  unfold bcast
  by_cases hi : i' = me
  . subst hi
    by_cases hj : j' = i' <;> simp [hj]
  . simp [hi]

@[simp] theorem setRole_fwd (v : Election A) (i a : A) (r : Role) : (v.setRole i a r).fwd = v.fwd := rfl
@[simp] theorem setRole_bwd (v : Election A) (i a : A) (r : Role) : (v.setRole i a r).bwd = v.bwd := rfl
@[simp] theorem follow_fwd (v : Election A) (i m : A) : (v.follow i m).fwd = v.fwd := rfl
@[simp] theorem follow_bwd (v : Election A) (i m : A) : (v.follow i m).bwd = v.bwd := rfl
@[simp] theorem sendFwd_role (v : Election A) (i j : A) (m : RoleMsg) : (v.sendFwd i j m).role = v.role := rfl
@[simp] theorem sendFwd_bwd (v : Election A) (i j : A) (m : RoleMsg) : (v.sendFwd i j m).bwd = v.bwd := rfl
@[simp] theorem sendBwd_role (v : Election A) (i j : A) (m : RoleMsg) : (v.sendBwd i j m).role = v.role := rfl
@[simp] theorem sendBwd_fwd (v : Election A) (i j : A) (m : RoleMsg) : (v.sendBwd i j m).fwd = v.fwd := rfl
@[simp] theorem dropFwd_role (v : Election A) (i j : A) : (v.dropFwd i j).role = v.role := rfl
@[simp] theorem dropFwd_bwd (v : Election A) (i j : A) : (v.dropFwd i j).bwd = v.bwd := rfl
@[simp] theorem dropBwd_role (v : Election A) (i j : A) : (v.dropBwd i j).role = v.role := rfl
@[simp] theorem dropBwd_fwd (v : Election A) (i j : A) : (v.dropBwd i j).fwd = v.fwd := rfl
@[simp] theorem bcast_role (v : Election A) (me : A) : (v.bcast me).role = v.role := rfl
@[simp] theorem bcast_bwd (v : Election A) (me : A) : (v.bcast me).bwd = v.bwd := rfl

theorem names_follow (v : Election A) (i m : A) : (v.follow i m).Names i m := by
  intro a
  rw [follow_role, if_pos rfl]
  by_cases ha : a = m <;> simp [ha]

omit [DecidableEq A] in
theorem Names.of_role (h : v.Names i m) (hrole : w.role i = v.role i) : w.Names i m := by
  intro a
  rw [hrole]
  exact h a

theorem announced_elect (hnone : ∀ i a, v.role i a ≠ .master) (hquiet : v.Quiet)
    (hone : ∀ i j, Legal prio tid i → Legal prio tid j → i = j) {i : A}
    (hlegal : Legal prio tid i) : Announced prio tid ((v.setRole i i .master).bcast i) i where
  max := fun a => (hlegal a).1
  self := by
    intro a
    by_cases ha : a = i
    . simp [ha]
    . simp [ha, hnone i a]
  told := by
    intro k hk
    refine .inr ⟨by simp [hk, (hquiet i k).1], ?_, .inr fun hl => hk (hone k i hl hlegal)⟩
    simp [hk, hnone k k]
  selfFwd := by simp [(hquiet i i).1]
  rest := by
    intro k j hk
    simp [hk, (hquiet k j).1]
  bwd := fun k j => (hquiet k j).2

/--
A master hands its role over to a node of the highest priority.
-/
theorem fliping_flip {m t : A} (hagrees : v.Agrees m) (hquiet : v.Quiet) (hprio : prio m < prio t)
    (hmax : ∀ a, prio a ≤ prio t)
    : Fliping prio ((v.sendFwd m t .mstrFliping).setRole m m .flipingMaster) m t where
  lower := hprio
  max := hmax
  old := by
    intro a
    by_cases ha : a = m
    . simp [ha]
    . have hrole := (hagrees m a).not.mpr ha
      simp [ha, hrole]
  others := by
    intro i hi
    refine (hagrees i).of_role ?_
    funext a
    simp [hi]
  token := .inl ⟨by simp [(hquiet m t).1], (hquiet m t).2⟩
  rest := by
    intro i j hij
    simp [hij, hquiet i j]

theorem Fliping.mstrFliping {m t : A} (h : Fliping prio v m t) (hfwd : v.fwd m t = [.mstrFliping])
    (hbwd : v.bwd m t = []) : Fliping prio ((v.dropFwd m t).sendBwd m t .flipingAck) m t where
  lower := h.lower
  max := h.max
  old := h.old
  others := h.others
  token := .inr (.inl ⟨by simp [hfwd], by simp [hbwd]⟩)
  rest := by
    intro i j hij
    simp [hij, h.rest i j hij]

theorem Fliping.flipingAck {m t : A} (h : Fliping prio v m t) (hfwd : v.fwd m t = [])
    (hbwd : v.bwd m t = [.flipingAck])
    : Fliping prio (((v.dropBwd m t).sendFwd m t .flipDone).setRole m m .slave) m t where
  lower := h.lower
  max := h.max
  old := by
    intro a
    by_cases ha : a = m
    . simp [ha]
    . simp [ha, h.old a]
  others := by
    intro i hi
    refine (h.others i hi).of_role ?_
    funext a
    simp [hi]
  token := .inr (.inr ⟨by simp [hfwd], by simp [hbwd]⟩)
  rest := by
    intro i j hij
    simp [hij, h.rest i j hij]

theorem Fliping.flipDone {m t : A} (h : Fliping prio v m t) (hfwd : v.fwd m t = [.flipDone])
    (hbwd : v.bwd m t = []) : Announced prio tid (((v.dropFwd m t).follow t t).bcast t) t where
  max := h.max
  self := names_follow _ t t
  told := by
    intro k hk
    have hempty := (h.rest t k fun ⟨ht, _⟩ => by
      have hlower := h.lower
      rw [ht] at hlower
      exact Nat.lt_irrefl _ hlower).1
    refine .inr ⟨?_, ?_⟩
    . simp [hk, hempty]
    . by_cases hkm : k = m
      . subst hkm
        refine ⟨by simp [hk, h.old k], .inr ?_⟩
        intro hl
        exact Nat.not_le.mpr h.lower (hl t).1
      . have hnames := h.others k hkm
        refine ⟨by simp [hk, (hnames k).not.mpr hkm], .inl ⟨m, ?_⟩⟩
        simp [hk, (hnames m).mpr rfl]
  selfFwd := by
    have htm : t ≠ m := by
      intro ht
      have hlower := h.lower
      rw [ht] at hlower
      exact Nat.lt_irrefl _ hlower
    simp [htm, (h.rest t t fun ⟨ht, _⟩ => htm ht).1]
  rest := by
    intro i j hi
    by_cases hij : i = m ∧ j = t
    . simp [hij, hfwd]
    . simp [hi, hij, (h.rest i j hij).1]
  bwd := by
    intro i j
    by_cases hij : i = m ∧ j = t
    . simp [hij, hbwd]
    . simp [(h.rest i j hij).2]

theorem Announced.newMaster {m k : A} (h : Announced prio tid v m) (hk : k ≠ m)
    (hfwd : v.fwd m k = [.newMaster]) : Announced prio tid ((v.dropFwd m k).follow k m) m where
  max := h.max
  self := by
    refine h.self.of_role ?_
    funext a
    simp [Ne.symm hk]
  told := by
    intro j hj
    by_cases hjk : j = k
    . subst hjk
      exact .inl ⟨by simp [hfwd], names_follow _ j m⟩
    . have hrole : ((v.dropFwd m k).follow k m).role j = v.role j := by
        funext a
        simp [hjk]
      rcases h.told j hj with ⟨hempty, hnames⟩ | ⟨hmsg, hself, hwait⟩
      . exact .inl ⟨by simp [hjk, hempty], hnames.of_role hrole⟩
      . refine .inr ⟨by simp [hjk, hmsg], ?_, ?_⟩
        . rw [hrole]
          exact hself
        . rw [hrole]
          exact hwait
  selfFwd := by simp [Ne.symm hk, h.selfFwd]
  rest := by
    intro i j hi
    simp [hi, h.rest i j hi]
  bwd := h.bwd

theorem Fliping.step {m t : A} (h : Fliping prio v m t) (hstep : Step prio tid v w)
    : Led prio tid w := by
  cases hstep with
  | flip i t' hmaster hprio hmax =>
    by_cases hi : i = m
    . subst hi
      exact absurd hmaster (h.old i)
    . exact absurd ((h.others i hi i).mp hmaster) hi
  | elect i hnone hlegal =>
    by_cases hi : i = m
    . subst hi
      exact absurd (hlegal t).1 (Nat.not_le.mpr h.lower)
    . exact absurd ((h.others i hi m).mpr rfl) (hnone m)
  | readFwd i j msg l hmsg =>
    by_cases hij : i = m ∧ j = t
    . obtain ⟨rfl, rfl⟩ := hij
      rcases h.token with ⟨hfwd, hbwd⟩ | ⟨hfwd, hbwd⟩ | ⟨hfwd, hbwd⟩
      . rw [hfwd] at hmsg
        obtain ⟨rfl, -⟩ := List.cons_eq_cons.mp hmsg
        exact .fliping i j (h.mstrFliping hfwd hbwd)
      . rw [hfwd] at hmsg
        cases hmsg
      . rw [hfwd] at hmsg
        obtain ⟨rfl, -⟩ := List.cons_eq_cons.mp hmsg
        exact .announced j (h.flipDone hfwd hbwd)
    . rw [(h.rest i j hij).1] at hmsg
      cases hmsg
  | readBwd i j msg l hmsg =>
    by_cases hij : i = m ∧ j = t
    . obtain ⟨rfl, rfl⟩ := hij
      rcases h.token with ⟨hfwd, hbwd⟩ | ⟨hfwd, hbwd⟩ | ⟨hfwd, hbwd⟩
      . rw [hbwd] at hmsg
        cases hmsg
      . rw [hbwd] at hmsg
        obtain ⟨rfl, -⟩ := List.cons_eq_cons.mp hmsg
        exact .fliping i j (h.flipingAck hfwd hbwd)
      . rw [hbwd] at hmsg
        cases hmsg
    . rw [(h.rest i j hij).2] at hmsg
      cases hmsg

theorem Announced.step {m : A} (h : Announced prio tid v m) (hstep : Step prio tid v w)
    : Led prio tid w := by
  cases hstep with
  | flip i t hmaster hprio hmax =>
    by_cases hi : i = m
    . subst hi
      exact absurd (h.max t) (Nat.not_le.mpr hprio)
    . rcases h.told i hi with ⟨-, hnames⟩ | ⟨-, hself, -⟩
      . exact absurd ((hnames i).mp hmaster) hi
      . exact absurd hmaster hself
  | elect i hnone hlegal =>
    by_cases hi : i = m
    . subst hi
      exact absurd ((h.self i).mpr rfl) (hnone i)
    . rcases h.told i hi with ⟨-, hnames⟩ | ⟨-, -, ⟨a, ha⟩ | hnot⟩
      . exact absurd ((hnames m).mpr rfl) (hnone m)
      . exact absurd ha (hnone a)
      . exact absurd hlegal hnot
  | readFwd i j msg l hmsg =>
    by_cases hi : i = m
    . subst hi
      have hj : j ≠ i := by
        rintro rfl
        rw [h.selfFwd] at hmsg
        cases hmsg
      rcases h.told j hj with ⟨hempty, -⟩ | ⟨hfwd, -⟩
      . rw [hempty] at hmsg
        cases hmsg
      . rw [hfwd] at hmsg
        obtain ⟨rfl, -⟩ := List.cons_eq_cons.mp hmsg
        exact .announced i (h.newMaster hj hfwd)
    . rw [h.rest i j hi] at hmsg
      cases hmsg
  | readBwd i j msg l hmsg =>
    rw [h.bwd i j] at hmsg
    cases hmsg

theorem Led.step (h : Led prio tid v) (hstep : Step prio tid v w) : Led prio tid w := by
  cases h with
  | stable m hagrees hquiet =>
    cases hstep with
    | flip i t hmaster hprio hmax =>
      obtain rfl := (hagrees i i).mp hmaster
      exact .fliping i t (fliping_flip hagrees hquiet hprio hmax)
    | elect i hnone => exact absurd ((hagrees i m).mpr rfl) (hnone m)
    | readFwd i j msg l hmsg =>
      rw [(hquiet i j).1] at hmsg
      cases hmsg
    | readBwd i j msg l hmsg =>
      rw [(hquiet i j).2] at hmsg
      cases hmsg
  | fliping m t h => exact h.step hstep
  | announced m h => exact h.step hstep

/--
Whatever happens in a slice, it stays in one of the phases.
-/
theorem Phase.step (h : Phase prio tid v) (hstep : Step prio tid v w) : Phase prio tid w := by
  cases h with
  | noMaster hnone hquiet hone =>
    cases hstep with
    | flip i t hmaster => exact absurd hmaster (hnone i i)
    | elect i _ hlegal => exact .led (.announced i (announced_elect hnone hquiet hone hlegal))
    | readFwd i j msg l hmsg =>
      rw [(hquiet i j).1] at hmsg
      cases hmsg
    | readBwd i j msg l hmsg =>
      rw [(hquiet i j).2] at hmsg
      cases hmsg
  | led h => exact .led (h.step hstep)

omit [DecidableEq A] in
theorem Phase.led_of_master (h : Phase prio tid v) {i a : A} (hi : v.role i a = .master)
    : Led prio tid v := by
  cases h with
  | noMaster hnone => exact absurd hi (hnone i a)
  | led h => exact h

omit [DecidableEq A] in
theorem Led.only (h : Led prio tid v) : ∃ m, ∀ k, k ≠ m → v.role k k ≠ .master := by
  cases h with
  | stable m hagrees => exact ⟨m, fun k hk => (hagrees k k).not.mpr hk⟩
  | fliping m t h => exact ⟨m, fun k hk => (h.others k hk k).not.mpr hk⟩
  | announced m h =>
    refine ⟨m, fun k hk => ?_⟩
    rcases h.told k hk with ⟨-, hnames⟩ | ⟨-, hself, -⟩
    . exact (hnames k).not.mpr hk
    . exact hself

theorem Phase.one (h : Phase prio tid v) {i j : A} (hi : v.role i i = .master)
    (hj : v.role j j = .master) : i = j := by
  obtain ⟨m, honly⟩ := (h.led_of_master hi).only
  have him : i = m := by
    by_contra hne
    exact honly i hne hi
  have hjm : j = m := by
    by_contra hne
    exact honly j hne hj
  exact him.trans hjm.symm

theorem Led.agrees (h : Led prio tid v) (hquiet : v.Quiet) : ∃ m, v.Agrees m := by
  cases h with
  | stable m hagrees => exact ⟨m, hagrees⟩
  | fliping m t h =>
    have hempty := hquiet m t
    rcases h.token with ⟨hfwd, -⟩ | ⟨-, hbwd⟩ | ⟨hfwd, -⟩
    . rw [hempty.1] at hfwd
      cases hfwd
    . rw [hempty.2] at hbwd
      cases hbwd
    . rw [hempty.1] at hfwd
      cases hfwd
  | announced m h =>
    refine ⟨m, fun k => ?_⟩
    by_cases hk : k = m
    . subst hk
      exact h.self
    . rcases h.told k hk with ⟨-, hnames⟩ | ⟨hfwd, -⟩
      . exact hnames
      . rw [(hquiet m k).1] at hfwd
        cases hfwd

end Election

namespace ReplGroup

variable {g : ReplGroup A n} {idx : Fin n} {prio tid : A → Nat}

def typeOf (idx : Fin n) (m : RoleMsg × Fin n) : Option RoleMsg :=
  if m.2 = idx then some m.1 else none

def slice (g : ReplGroup A n) (idx : Fin n) : Election A where
  role := fun i a => ((g.infoMap i).info a).m_pRole idx
  fwd := fun i j => (g.fwd i j).filterMap (typeOf idx)
  bwd := fun i j => (g.bwd i j).filterMap (typeOf idx)

structure Known (prio tid : A → Nat) (idx : Fin n) (g : ReplGroup A n) : Prop where
  everyone : ∀ i a, a ∈ (g.infoMap i).order
  prio : ∀ i a, ((g.infoMap i).info a).m_pPriority idx = prio a
  tid : ∀ i a, ((g.infoMap i).info a).m_pCurrTid idx = tid a
  up : ∀ i, 0 < g.inNum i

structure SameInfo (g g' : ReplGroup A n) : Prop where
  order : ∀ i, (g'.infoMap i).order = (g.infoMap i).order
  prio : ∀ i a, ((g'.infoMap i).info a).m_pPriority = ((g.infoMap i).info a).m_pPriority
  tid : ∀ i a, ((g'.infoMap i).info a).m_pCurrTid = ((g.infoMap i).info a).m_pCurrTid
  up : g'.inNum = g.inNum

omit [DecidableEq A] in
theorem SameInfo.refl (g : ReplGroup A n) : SameInfo g g :=
  ⟨fun _ => rfl, fun _ _ => rfl, fun _ _ => rfl, rfl⟩

omit [DecidableEq A] in
theorem SameInfo.trans {g₁ g₂ g₃ : ReplGroup A n} (h₁ : SameInfo g₁ g₂) (h₂ : SameInfo g₂ g₃)
    : SameInfo g₁ g₃ where
  order := fun i => (h₂.order i).trans (h₁.order i)
  prio := fun i a => (h₂.prio i a).trans (h₁.prio i a)
  tid := fun i a => (h₂.tid i a).trans (h₁.tid i a)
  up := h₂.up.trans h₁.up

omit [DecidableEq A] in
theorem Known.same {g' : ReplGroup A n} (h : Known prio tid idx g) (hs : SameInfo g g')
    : Known prio tid idx g' where
  everyone := by
    intro i a
    rw [hs.order]
    exact h.everyone i a
  prio := by
    intro i a
    rw [hs.prio]
    exact h.prio i a
  tid := by
    intro i a
    rw [hs.tid]
    exact h.tid i a
  up := by
    rw [hs.up]
    exact h.up

structure SameMap (M M' : Ip2NodeInfoMap A n) : Prop where
  order : M'.order = M.order
  prio : ∀ a, (M'.info a).m_pPriority = (M.info a).m_pPriority
  tid : ∀ a, (M'.info a).m_pCurrTid = (M.info a).m_pCurrTid

theorem sameMap_setRole (M : Ip2NodeInfoMap A n) (a : A) (idx : Fin n) (r : Role)
    : SameMap M (M.setRole a idx r) where
  order := rfl
  prio := by
    intro b
    by_cases hb : b = a
    . subst hb
      simp [Ip2NodeInfoMap.setRole, NodeStatus.setRole]
    . simp [Ip2NodeInfoMap.setRole, hb]
  tid := by
    intro b
    by_cases hb : b = a
    . subst hb
      simp [Ip2NodeInfoMap.setRole, NodeStatus.setRole]
    . simp [Ip2NodeInfoMap.setRole, hb]

theorem sameMap_setNewMstr (M : Ip2NodeInfoMap A n) (a : A) (idx : Fin n)
    : SameMap M (M.setNewMstrClearOthers a idx) where
  order := rfl
  prio := by
    intro b
    unfold Ip2NodeInfoMap.setNewMstrClearOthers
    dsimp only
    split <;> rfl
  tid := by
    intro b
    unfold Ip2NodeInfoMap.setNewMstrClearOthers
    dsimp only
    split <;> rfl

omit [DecidableEq A] in
theorem SameMap.trans {M₁ M₂ M₃ : Ip2NodeInfoMap A n} (h₁ : SameMap M₁ M₂) (h₂ : SameMap M₂ M₃)
    : SameMap M₁ M₃ :=
  ⟨h₂.order.trans h₁.order, fun a => (h₂.prio a).trans (h₁.prio a),
    fun a => (h₂.tid a).trans (h₁.tid a)⟩

theorem sameInfo_setMap (g : ReplGroup A n) (i : A) {M : Ip2NodeInfoMap A n}
    (h : SameMap (g.infoMap i) M) : SameInfo g (g.setMap i M) := by
  refine ⟨?_, ?_, ?_, rfl⟩
  all_goals
    intro j
    by_cases hj : j = i
    . subst hj
      simp [setMap, h.order, h.prio, h.tid]
    . simp [setMap, hj]

theorem slice_setMap (g : ReplGroup A n) (i : A) (M : Ip2NodeInfoMap A n) (idx : Fin n)
    : (g.setMap i M).slice idx =
        { g.slice idx with
          role := Function.update (g.slice idx).role i fun a => (M.info a).m_pRole idx } := by
  ext1
  . funext j a
    by_cases hj : j = i
    . subst hj
      simp [slice, setMap]
    . simp [slice, setMap, hj]
  . rfl
  . rfl

theorem role_setRole (M : Ip2NodeInfoMap A n) (a : A) (idx idx' : Fin n) (r : Role) (b : A)
    : ((M.setRole a idx' r).info b).m_pRole idx =
        if idx' = idx ∧ b = a then r else (M.info b).m_pRole idx := by
  by_cases hb : b = a
  . subst hb
    by_cases hidx : idx' = idx
    . subst hidx
      simp [Ip2NodeInfoMap.setRole, NodeStatus.setRole]
    . simp [Ip2NodeInfoMap.setRole, NodeStatus.setRole, hidx, Ne.symm hidx]
  . simp [Ip2NodeInfoMap.setRole, hb]

theorem role_setNewMstr {M : Ip2NodeInfoMap A n} (hall : ∀ a, a ∈ M.order) (m : A)
    (idx idx' : Fin n) (b : A)
    : ((M.setNewMstrClearOthers m idx').info b).m_pRole idx =
        if idx' = idx then (if b = m then .master else .slave) else (M.info b).m_pRole idx := by
  by_cases hidx : idx' = idx
  . subst hidx
    simp [Ip2NodeInfoMap.setNewMstrClearOthers, NodeStatus.setRole, hall b]
  . simp [Ip2NodeInfoMap.setNewMstrClearOthers, NodeStatus.setRole, hall b, hidx, Ne.symm hidx]

theorem slice_setRole (g : ReplGroup A n) (i a : A) (idx idx' : Fin n) (r : Role)
    : (g.setMap i ((g.infoMap i).setRole a idx' r)).slice idx =
        if idx' = idx then (g.slice idx).setRole i a r else g.slice idx := by
  rw [slice_setMap]
  by_cases hidx : idx' = idx
  . rw [if_pos hidx]
    ext1
    . funext j b
      rw [Election.setRole_role]
      by_cases hj : j = i
      . subst hj
        simp [role_setRole, hidx, slice]
      . simp [hj]
    . rfl
    . rfl
  . rw [if_neg hidx]
    ext1
    . funext j b
      by_cases hj : j = i
      . subst hj
        simp [role_setRole, hidx, slice]
      . simp [hj]
    . rfl
    . rfl

theorem slice_setNewMstr {M : Ip2NodeInfoMap A n} (hall : ∀ a, a ∈ M.order) (g : ReplGroup A n)
    (i m : A) (idx idx' : Fin n) (hother : idx' ≠ idx → ∀ a,
      (M.info a).m_pRole idx = ((g.infoMap i).info a).m_pRole idx)
    : (g.setMap i (M.setNewMstrClearOthers m idx')).slice idx =
        if idx' = idx then (g.slice idx).follow i m else g.slice idx := by
  rw [slice_setMap]
  by_cases hidx : idx' = idx
  . rw [if_pos hidx]
    ext1
    . funext j b
      rw [Election.follow_role]
      by_cases hj : j = i
      . subst hj
        simp [role_setNewMstr hall, hidx]
      . simp [hj]
    . rfl
    . rfl
  . rw [if_neg hidx]
    ext1
    . funext j b
      by_cases hj : j = i
      . subst hj
        simp [role_setNewMstr hall, hidx, slice, hother hidx b]
      . simp [hj]
    . rfl
    . rfl

theorem push_apply (q : A → A → List (RoleMsg × Fin n)) (i j : A) (m : RoleMsg × Fin n) (i' j' : A)
    : push q i j m i' j' = if i' = i ∧ j' = j then q i j ++ [m] else q i' j' :=
  Election.update_update q i j _ i' j'

theorem pop_apply (q : A → A → List (RoleMsg × Fin n)) (i j i' j' : A)
    : pop q i j i' j' = if i' = i ∧ j' = j then (q i j).tail else q i' j' :=
  Election.update_update q i j _ i' j'

theorem filterMap_push (q : A → A → List (RoleMsg × Fin n)) (i j : A) (m : RoleMsg × Fin n)
    (i' j' : A) (idx : Fin n)
    : (push q i j m i' j').filterMap (typeOf idx) =
        if i' = i ∧ j' = j ∧ m.2 = idx then (q i j).filterMap (typeOf idx) ++ [m.1]
        else (q i' j').filterMap (typeOf idx) := by
  rw [push_apply]
  by_cases hij : i' = i ∧ j' = j
  . obtain ⟨rfl, rfl⟩ := hij
    by_cases hidx : m.2 = idx <;> simp [typeOf, hidx]
  . rw [if_neg hij, if_neg fun h => hij ⟨h.1, h.2.1⟩]

theorem slice_answerFwd (g : ReplGroup A n) (i j : A) (m : RoleMsg × Fin n) (idx : Fin n)
    : (answerFwd i j g m).slice idx =
        if m.2 = idx then (g.slice idx).sendFwd i j m.1 else g.slice idx := by
  by_cases hidx : m.2 = idx
  . rw [if_pos hidx]
    ext1
    . rfl
    . funext i' j'
      rw [Election.sendFwd_fwd]
      show (push g.fwd i j m i' j').filterMap (typeOf idx) = _
      rw [filterMap_push]
      simp only [hidx, and_true]
      rfl
    . rfl
  . rw [if_neg hidx]
    ext1
    . rfl
    . funext i' j'
      show (push g.fwd i j m i' j').filterMap (typeOf idx) = _
      rw [filterMap_push, if_neg fun h => hidx h.2.2]
      rfl
    . rfl

theorem slice_answerBwd (g : ReplGroup A n) (i j : A) (m : RoleMsg × Fin n) (idx : Fin n)
    : (answerBwd i j g m).slice idx =
        if m.2 = idx then (g.slice idx).sendBwd i j m.1 else g.slice idx := by
  by_cases hidx : m.2 = idx
  . rw [if_pos hidx]
    ext1
    . rfl
    . rfl
    . funext i' j'
      rw [Election.sendBwd_bwd]
      show (push g.bwd i j m i' j').filterMap (typeOf idx) = _
      rw [filterMap_push]
      simp only [hidx, and_true]
      rfl
  . rw [if_neg hidx]
    ext1
    . rfl
    . rfl
    . funext i' j'
      show (push g.bwd i j m i' j').filterMap (typeOf idx) = _
      rw [filterMap_push, if_neg fun h => hidx h.2.2]
      rfl

theorem slice_bcast (g : ReplGroup A n) (me : A) (idx idx' : Fin n)
    : (g.bcastNewMstrElectDone me idx').slice idx =
        if idx' = idx then (g.slice idx).bcast me else g.slice idx := by
  have hfwd : ∀ i' j', ((g.bcastNewMstrElectDone me idx').slice idx).fwd i' j' =
      if i' = me ∧ j' ≠ me ∧ idx' = idx then (g.slice idx).fwd me j' ++ [.newMaster]
      else (g.slice idx).fwd i' j' := by
    intro i' j'
    show (Function.update g.fwd me _ i' j').filterMap (typeOf idx) = _
    by_cases hi : i' = me
    . subst hi
      by_cases hj : j' = i'
      . simp [hj, slice]
      . by_cases hidx : idx' = idx <;> simp [hj, hidx, slice, typeOf]
    . simp [hi, slice]
  by_cases hidx : idx' = idx
  . rw [if_pos hidx]
    ext1
    . rfl
    . funext i' j'
      rw [hfwd, Election.bcast_fwd]
      simp only [hidx, and_true]
    . rfl
  . rw [if_neg hidx]
    ext1
    . rfl
    . funext i' j'
      rw [hfwd, if_neg fun h => hidx h.2.2]
    . rfl

theorem filterMap_pop {q : A → A → List (RoleMsg × Fin n)} {i j : A} {m : RoleMsg × Fin n}
    {l : List (RoleMsg × Fin n)} (h : q i j = m :: l) (i' j' : A) (idx : Fin n)
    : (pop q i j i' j').filterMap (typeOf idx) =
        if i' = i ∧ j' = j ∧ m.2 = idx then ((q i j).filterMap (typeOf idx)).tail
        else (q i' j').filterMap (typeOf idx) := by
  rw [pop_apply]
  by_cases hij : i' = i ∧ j' = j
  . obtain ⟨rfl, rfl⟩ := hij
    by_cases hidx : m.2 = idx <;> simp [h, typeOf, hidx]
  . rw [if_neg hij, if_neg fun h => hij ⟨h.1, h.2.1⟩]

theorem slice_popFwd {g : ReplGroup A n} {i j : A} {m : RoleMsg × Fin n}
    {l : List (RoleMsg × Fin n)} (h : g.fwd i j = m :: l) (idx : Fin n)
    : ({ g with fwd := pop g.fwd i j } : ReplGroup A n).slice idx =
        if m.2 = idx then (g.slice idx).dropFwd i j else g.slice idx := by
  by_cases hidx : m.2 = idx
  . rw [if_pos hidx]
    ext1
    . rfl
    . funext i' j'
      rw [Election.dropFwd_fwd]
      show (pop g.fwd i j i' j').filterMap (typeOf idx) = _
      rw [filterMap_pop h]
      simp only [hidx, and_true]
      rfl
    . rfl
  . rw [if_neg hidx]
    ext1
    . rfl
    . funext i' j'
      show (pop g.fwd i j i' j').filterMap (typeOf idx) = _
      rw [filterMap_pop h, if_neg fun h => hidx h.2.2]
      rfl
    . rfl

theorem slice_popBwd {g : ReplGroup A n} {i j : A} {m : RoleMsg × Fin n}
    {l : List (RoleMsg × Fin n)} (h : g.bwd i j = m :: l) (idx : Fin n)
    : ({ g with bwd := pop g.bwd i j } : ReplGroup A n).slice idx =
        if m.2 = idx then (g.slice idx).dropBwd i j else g.slice idx := by
  by_cases hidx : m.2 = idx
  . rw [if_pos hidx]
    ext1
    . rfl
    . rfl
    . funext i' j'
      rw [Election.dropBwd_bwd]
      show (pop g.bwd i j i' j').filterMap (typeOf idx) = _
      rw [filterMap_pop h]
      simp only [hidx, and_true]
      rfl
  . rw [if_neg hidx]
    ext1
    . rfl
    . rfl
    . funext i' j'
      show (pop g.bwd i j i' j').filterMap (typeOf idx) = _
      rw [filterMap_pop h, if_neg fun h => hidx h.2.2]
      rfl

omit [DecidableEq A] in
theorem roleExistInGroup_iff {M : Ip2NodeInfoMap A n} (hall : ∀ a, a ∈ M.order) (r : Role)
    : M.roleExistInGroup idx r = true ↔ ∃ a, (M.info a).m_pRole idx = r := by
  simp [Ip2NodeInfoMap.roleExistInGroup, hall]

omit [DecidableEq A] in
theorem highest_spec (M : Ip2NodeInfoMap A n) (idx : Fin n) (l : List A) (high : Option A)
    : (M.highest idx high l = none ↔ high = none ∧ l = []) ∧
      ∀ a ∈ M.highest idx high l, (∀ b ∈ high, (M.info b).m_pPriority idx ≤ (M.info a).m_pPriority idx) ∧
        ∀ b ∈ l, (M.info b).m_pPriority idx ≤ (M.info a).m_pPriority idx := by
  induction l generalizing high with
  | nil =>
    cases high with
    | none => simp [Ip2NodeInfoMap.highest]
    | some h => simp [Ip2NodeInfoMap.highest]
  | cons c l ih =>
    cases high with
    | none =>
      unfold Ip2NodeInfoMap.highest
      obtain ⟨hnone, hmax⟩ := ih (some c)
      refine ⟨by simp [hnone], fun a ha => ⟨by simp, ?_⟩⟩
      obtain ⟨hc, hl⟩ := hmax a ha
      exact List.forall_mem_cons.mpr ⟨hc c rfl, hl⟩
    | some h =>
      unfold Ip2NodeInfoMap.highest
      split
      . next hlt =>
        obtain ⟨hnone, hmax⟩ := ih (some c)
        refine ⟨by simp [hnone], fun a ha => ?_⟩
        obtain ⟨hc, hl⟩ := hmax a ha
        have hca := hc c rfl
        refine ⟨?_, List.forall_mem_cons.mpr ⟨hca, hl⟩⟩
        intro b hb
        obtain rfl : h = b := Option.some.inj hb
        exact Nat.le_trans (Nat.le_of_lt hlt) hca
      . next hle =>
        obtain ⟨hnone, hmax⟩ := ih (some h)
        refine ⟨by simp [hnone], fun a ha => ?_⟩
        obtain ⟨hc, hl⟩ := hmax a ha
        refine ⟨hc, List.forall_mem_cons.mpr ⟨?_, hl⟩⟩
        exact Nat.le_trans (Nat.not_lt.mp hle) (hc h rfl)

omit [DecidableEq A] in
theorem hasHighPriorityClient_some {M : Ip2NodeInfoMap A n} (hall : ∀ a, a ∈ M.order) {my : Nat}
    {t : A} (h : M.hasHighPriorityClient my idx = some t)
    : my < (M.info t).m_pPriority idx ∧
        ∀ a, (M.info a).m_pPriority idx ≤ (M.info t).m_pPriority idx := by
  obtain ⟨-, hmax⟩ := highest_spec M idx M.order none
  unfold Ip2NodeInfoMap.hasHighPriorityClient at h
  split at h
  . cases h
  . next a ha =>
    split at h
    . next hlt =>
      obtain rfl : a = t := Option.some.inj h
      exact ⟨hlt, fun b => (hmax a ha).2 b (hall b)⟩
    . cases h

omit [DecidableEq A] in
theorem getClientsMaxTid_le {M : Ip2NodeInfoMap A n} {myTid : Nat} {l out : List A}
    (h : ¬ myTid < (M.getClientsMaxTid idx myTid l out).1)
    : ∀ a ∈ l, (M.info a).m_pCurrTid idx ≤ myTid := by
  induction l generalizing out with
  | nil => exact fun a ha => nomatch ha
  | cons c l ih =>
    unfold Ip2NodeInfoMap.getClientsMaxTid at h
    dsimp only at h
    split at h
    . next hlt => exact absurd hlt h
    . next hle =>
      refine List.forall_mem_cons.mpr ⟨Nat.not_lt.mp hle, ?_⟩
      split at h
      . exact ih h
      . exact ih h

omit [DecidableEq A] in
theorem legal_of_isLegal {M : Ip2NodeInfoMap A n} (hall : ∀ a, a ∈ M.order) {myTid my : Nat}
    (h : M.isLegalClientBeMstr idx myTid my = true) (a : A)
    : (M.info a).m_pPriority idx ≤ my ∧
        ((M.info a).m_pPriority idx = my → (M.info a).m_pCurrTid idx ≤ myTid) := by
  unfold Ip2NodeInfoMap.isLegalClientBeMstr at h
  split at h
  . cases h
  . next hnone =>
    have hle : (M.info a).m_pPriority idx ≤ my := by
      by_contra hlt
      exact hnone (List.any_eq_true.mpr ⟨a, hall a, by simpa using hlt⟩)
    refine ⟨hle, fun heq => ?_⟩
    have hmem : a ∈ M.order.filter fun a => (M.info a).m_pPriority idx = my := by
      simp [hall a, heq]
    dsimp only at h
    split at h
    . next hnil =>
      rw [hnil] at hmem
      cases hmem
    . split at h
      . cases h
      . next htid => exact getClientsMaxTid_le htid a hmem

structure Moves (prio tid : A → Nat) (idx : Fin n) (g g' : ReplGroup A n) : Prop where
  slice : g'.slice idx = g.slice idx ∨ Election.Step prio tid (g.slice idx) (g'.slice idx)
  same : SameInfo g g'

theorem moves_refl (g : ReplGroup A n) : Moves prio tid idx g g :=
  ⟨.inl rfl, SameInfo.refl g⟩

theorem moves_elect (h : Known prio tid idx g) (me : A) (idx' : Fin n)
    (hnone : (g.infoMap me).roleExistInGroup idx' .master = false)
    : Moves prio tid idx g (g.clientsElectMstr me idx') := by
  unfold clientsElectMstr
  dsimp only
  split
  . next hlegal =>
    have hsame := sameInfo_setMap g me (sameMap_setRole (g.infoMap me) me idx' .master)
    refine ⟨?_, ⟨hsame.order, hsame.prio, hsame.tid, hsame.up⟩⟩
    rw [slice_bcast, slice_setRole]
    by_cases hidx : idx' = idx
    . subst hidx
      rw [if_pos rfl, if_pos rfl]
      refine .inr (.elect _ me ?_ ?_)
      . intro a ha
        have hex := (roleExistInGroup_iff (h.everyone me) .master).mpr ⟨a, ha⟩
        rw [hnone] at hex
        cases hex
      . intro a
        have hleg := legal_of_isLegal (h.everyone me) hlegal a
        rw [h.prio, h.prio, h.tid, h.tid] at hleg
        exact hleg
    . exact .inl (by rw [if_neg hidx, if_neg hidx])
  . exact moves_refl g

theorem moves_monitorRole (h : Known prio tid idx g) (me : A) (idx' : Fin n)
    : Moves prio tid idx g (monitorRole me g idx') := by
  unfold monitorRole
  dsimp only
  split
  . next hmaster =>
    split
    . split
      . exact moves_refl g
      . next addr haddr =>
        obtain ⟨hlower, hmax⟩ := hasHighPriorityClient_some (h.everyone me) haddr
        have hsame := sameInfo_setMap g me (sameMap_setRole (g.infoMap me) me idx' .flipingMaster)
        refine ⟨?_, ⟨hsame.order, hsame.prio, hsame.tid, hsame.up⟩⟩
        have hslice := slice_setRole (answerFwd me addr g (.mstrFliping, idx')) me me idx idx'
          .flipingMaster
        rw [slice_answerFwd] at hslice
        by_cases hidx : idx' = idx
        . subst hidx
          rw [if_pos rfl, if_pos rfl] at hslice
          rw [h.prio, h.prio] at hlower
          have hmax' : ∀ a, prio a ≤ prio addr := by
            intro a
            have ha := hmax a
            rw [h.prio, h.prio] at ha
            exact ha
          have hflip : Election.Step prio tid (g.slice idx') _ :=
            .flip (g.slice idx') me addr hmaster hlower hmax'
          rw [← hslice] at hflip
          exact .inr hflip
        . rw [if_neg hidx, if_neg hidx] at hslice
          exact .inl hslice
    . exact moves_refl g
  . split
    . exact moves_refl g
    . next hnone => exact moves_elect h me idx' (Bool.eq_false_iff.mpr hnone)

theorem slice_processPacket (h : Known prio tid idx g) (me peer : A)
    (reply : ReplGroup A n → RoleMsg × Fin n → ReplGroup A n)
    (send : Election A → RoleMsg → Election A)
    (hreply : ∀ (g : ReplGroup A n) m, (reply g m).slice idx =
      if m.2 = idx then send (g.slice idx) m.1 else g.slice idx)
    (hmap : ∀ (g : ReplGroup A n) m, (reply g m).infoMap = g.infoMap ∧ (reply g m).inNum = g.inNum)
    (m : RoleMsg × Fin n)
    : (g.processPacket me peer reply m).slice idx =
        (if m.2 = idx then (g.slice idx).handle me peer send m.1 else g.slice idx) ∧
      SameInfo g (g.processPacket me peer reply m) := by
  have hsend : ∀ m, SameInfo g (reply g m) := by
    intro m
    obtain ⟨hinfo, hin⟩ := hmap g m
    exact ⟨fun i => by rw [hinfo], fun i a => by rw [hinfo], fun i a => by rw [hinfo], hin⟩
  obtain ⟨type, idx'⟩ := m
  cases type with
  | newMaster =>
    refine ⟨?_, sameInfo_setMap g me (sameMap_setNewMstr _ _ _)⟩
    exact slice_setNewMstr (h.everyone me) g me peer idx idx' fun _ _ => rfl
  | mstrFliping => exact ⟨hreply g (.flipingAck, idx'), hsend _⟩
  | flipingAck =>
    have hinfo := (hmap g (.flipDone, idx')).1
    have hslice := slice_setRole (reply g (.flipDone, idx')) me me idx idx' .slave
    rw [hreply] at hslice
    refine ⟨?_, (hsend (.flipDone, idx')).trans (sameInfo_setMap _ me (sameMap_setRole _ _ _ _))⟩
    refine hslice.trans ?_
    by_cases hidx : idx' = idx
    . rw [if_pos hidx, if_pos hidx, if_pos hidx]
      rfl
    . rw [if_neg hidx, if_neg hidx, if_neg hidx]
  | flipDone =>
    have hmaps := (sameMap_setRole (g.infoMap me) me idx' .master).trans
      (sameMap_setNewMstr _ me idx')
    have hsame := sameInfo_setMap g me hmaps
    refine ⟨?_, ⟨hsame.order, hsame.prio, hsame.tid, hsame.up⟩⟩
    have hslice := slice_setNewMstr (M := (g.infoMap me).setRole me idx' .master) (h.everyone me) g
      me me idx idx' (fun hne a => by rw [role_setRole, if_neg fun hx => hne hx.1])
    refine (slice_bcast _ me idx idx').trans ?_
    rw [hslice]
    by_cases hidx : idx' = idx
    . rw [if_pos hidx, if_pos hidx, if_pos hidx]
      rfl
    . rw [if_neg hidx, if_neg hidx, if_neg hidx]

theorem filterMap_head {q : List (RoleMsg × Fin n)} {m : RoleMsg × Fin n}
    {l : List (RoleMsg × Fin n)} (h : q = m :: l) (hidx : m.2 = idx)
    : q.filterMap (typeOf idx) = m.1 :: l.filterMap (typeOf idx) := by
  rw [h]
  simp [typeOf, hidx]

theorem moves_readFwd (h : Known prio tid idx g) (i j : A)
    : Moves prio tid idx g (g.step (.readFwd i j)) := by
  unfold step
  dsimp only
  split
  . exact moves_refl g
  . next m l hq =>
    have hpop : SameInfo g { g with fwd := pop g.fwd i j } :=
      ⟨fun _ => rfl, fun _ _ => rfl, fun _ _ => rfl, rfl⟩
    obtain ⟨hslice, hsame⟩ := slice_processPacket (h.same hpop) j i (answerBwd i j)
      (fun v m => v.sendBwd i j m) (fun g m => slice_answerBwd g i j m idx) (fun g m => ⟨rfl, rfl⟩) m
    refine ⟨?_, hpop.trans hsame⟩
    rw [hslice, slice_popFwd hq]
    by_cases hidx : m.2 = idx
    . rw [if_pos hidx, if_pos hidx]
      exact .inr (.readFwd _ i j m.1 _ (filterMap_head hq hidx))
    . exact .inl (by rw [if_neg hidx, if_neg hidx])

theorem moves_readBwd (h : Known prio tid idx g) (i j : A)
    : Moves prio tid idx g (g.step (.readBwd i j)) := by
  unfold step
  dsimp only
  split
  . exact moves_refl g
  . next m l hq =>
    have hpop : SameInfo g { g with bwd := pop g.bwd i j } :=
      ⟨fun _ => rfl, fun _ _ => rfl, fun _ _ => rfl, rfl⟩
    obtain ⟨hslice, hsame⟩ := slice_processPacket (h.same hpop) i j (answerFwd i j)
      (fun v m => v.sendFwd i j m) (fun g m => slice_answerFwd g i j m idx) (fun g m => ⟨rfl, rfl⟩) m
    refine ⟨?_, hpop.trans hsame⟩
    rw [hslice, slice_popBwd hq]
    by_cases hidx : m.2 = idx
    . rw [if_pos hidx, if_pos hidx]
      exact .inr (.readBwd _ i j m.1 _ (filterMap_head hq hidx))
    . exact .inl (by rw [if_neg hidx, if_neg hidx])

/--
What every step of a slice keeps, every event of the group keeps: `monitorRoles` goes through the
slices one by one.
-/
theorem step_keeps {P : Election A → Prop}
    (hkeeps : ∀ v w, P v → Election.Step prio tid v w → P w) (e : Event A)
    (h : Known prio tid idx g ∧ P (g.slice idx))
    : Known prio tid idx (g.step e) ∧ P ((g.step e).slice idx) := by
  have hmoves : ∀ g g' : ReplGroup A n, Known prio tid idx g ∧ P (g.slice idx) →
      Moves prio tid idx g g' → Known prio tid idx g' ∧ P (g'.slice idx) := by
    rintro g g' ⟨hk, hp⟩ ⟨hslice, hsame⟩
    refine ⟨hk.same hsame, ?_⟩
    rcases hslice with heq | hstep
    . rw [heq]
      exact hp
    . exact hkeeps _ _ hp hstep
  cases e with
  | timer me =>
    show Known prio tid idx (g.monitorRoles me) ∧ P ((g.monitorRoles me).slice idx)
    unfold monitorRoles
    dsimp only
    split
    . next hzero => exact absurd hzero.1 (Nat.pos_iff_ne_zero.mp (h.1.up me))
    . split
      . exact List.foldlRecOn (motive := fun g => Known prio tid idx g ∧ P (g.slice idx)) _ _ h
          fun g' hg idx' _ => hmoves g' _ hg (moves_monitorRole hg.1 me idx')
      . exact h
  | readFwd i j => exact hmoves g _ h (moves_readFwd h.1 i j)
  | readBwd i j => exact hmoves g _ h (moves_readBwd h.1 i j)

/--
A group whose nodes agree on a master for the slice, or know none and have only one node that may
elect itself.
-/
structure Starts (prio tid : A → Nat) (idx : Fin n) (g : ReplGroup A n) : Prop where
  known : Known prio tid idx g
  quiet : (g.slice idx).Quiet
  start : (∃ m, (g.slice idx).Agrees m) ∨ (∀ i a, (g.slice idx).role i a ≠ .master) ∧
    ∀ i j, Election.Legal prio tid i → Election.Legal prio tid j → i = j

omit [DecidableEq A] in
theorem Starts.phase (h : Starts prio tid idx g) : Election.Phase prio tid (g.slice idx) := by
  rcases h.start with ⟨m, hagrees⟩ | ⟨hnone, hone⟩
  . exact .led (.stable m hagrees h.quiet)
  . exact .noMaster hnone h.quiet hone

/--
In every order of timers and deliveries no two nodes take themselves for the master of a slice, and
once there has been a master, all nodes agree on one whenever nothing is under way.
-/
theorem election_safe (h : Starts prio tid idx g) (es : List (Event A))
    : (∀ i j, ((Run.exec step g es).slice idx).role i i = .master →
        ((Run.exec step g es).slice idx).role j j = .master → i = j) ∧
      ∀ es', (∃ i a, ((Run.exec step g es).slice idx).role i a = .master) →
        ((Run.exec step g (es ++ es')).slice idx).Quiet →
        ∃ m, ((Run.exec step g (es ++ es')).slice idx).Agrees m := by
  obtain ⟨hknown, hphase⟩ := Run.exec_invariant
    (fun g => Known prio tid idx g ∧ Election.Phase prio tid (g.slice idx))
    (fun g e hg _ => step_keeps (fun _ _ => Election.Phase.step) e hg) ⟨h.known, h.phase⟩
    (Run.Meets.true g es)
  refine ⟨fun i j => hphase.one, ?_⟩
  rintro es' ⟨i, a, hrole⟩ hquiet
  obtain ⟨-, hled⟩ := Run.exec_invariant
    (fun g => Known prio tid idx g ∧ Election.Led prio tid (g.slice idx))
    (fun g e hg _ => step_keeps (fun _ _ => Election.Led.step) e hg)
    ⟨hknown, hphase.led_of_master hrole⟩ (Run.Meets.true _ es')
  rw [← Run.exec_append] at hled
  exact hled.agrees hquiet

def sampleGroup : ReplGroup (Fin 3) 1 where
  infoMap := fun _ =>
    { order := [0, 1, 2]
      info := fun a =>
        { m_pCurrTid := fun _ => 7
          m_pPriority := fun _ => [1, 3, 2].getD a.val 0
          m_pRole := fun _ => if a = 0 then .master else .slave } }
  inNum := fun _ => 2
  outNum := fun _ => 2
  fwd := fun _ _ => []
  bwd := fun _ _ => []

def sampleFlip : List (Event (Fin 3)) :=
  [.timer 0, .readFwd 0 1, .readBwd 0 1, .readFwd 0 1, .readFwd 1 0, .readFwd 1 2]

theorem election_safe_sample
    : ∃ m, ((Run.exec step sampleGroup ([] ++ sampleFlip)).slice 0).Agrees m :=
  have hstarts : Starts (fun a => [1, 3, 2].getD a.val 0) (fun _ => 7) 0 sampleGroup :=
    { known :=
        { everyone := by decide
          prio := fun _ _ => rfl
          tid := fun _ _ => rfl
          up := by decide }
      quiet := fun _ _ => ⟨rfl, rfl⟩
      start := .inl ⟨0, by unfold Election.Agrees Election.Names; decide⟩ }
  (election_safe hstarts []).2 sampleFlip ⟨0, 0, by decide⟩
    (by unfold Election.Quiet; decide)

def sampleTie : ReplGroup (Fin 2) 1 where
  infoMap := fun _ =>
    { order := [0, 1]
      info := fun _ =>
        { m_pCurrTid := fun _ => 7, m_pPriority := fun _ => 1, m_pRole := fun _ => .slave } }
  inNum := fun _ => 1
  outNum := fun _ => 1
  fwd := fun _ _ => []
  bwd := fun _ _ => []

-- without the comparison of addresses both elect themselves
example : ∀ i, ((Run.exec step sampleTie [.timer 0, .timer 1]).slice 0).role i i = .master := by
  decide

end ReplGroup

end Lsmcd
