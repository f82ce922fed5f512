import Mathlib.Logic.Function.Basic
import Lsmcd.Lib.Run

/-!
The role table of the replication daemon (`usockdata.cpp`, `usockconn.cpp`, `usocklistener.cpp`,
`usockmcd.cpp`): which address every slice is served from, as it is handed to the cached processes.

The table is a static member of `UsockConn`. The constructor of every connection makes a new one, the
destructor of every connection deletes it.
-/

namespace Lsmcd

def UX_NONE : UInt8 := 0
def UXDW_REPLD_ROLE_UPD : UInt8 := 3

structure RoleAddr where
  x_ip : UInt32
  x_port : UInt16
  deriving DecidableEq

/--
The bytes `0xFF` that a new table is filled with.
-/
def RoleAddr.dirty : RoleAddr := ⟨0xFFFFFFFF, 0xFFFF⟩

def RoleAddr.self : RoleAddr := ⟨0, 0⟩

/--
The first byte of the raw data and the entries behind it.
-/
structure RoleTracker (sliceCnt : Nat) where
  proto : UInt8
  role : Fin sliceCnt → RoleAddr

/--
Per slice the argument of the last call of `setRoleAddr`: `some none` stands for `NULL`.
-/
abbrev GivenAddr (sliceCnt : Nat) : Type := Fin sliceCnt → Option (Option RoleAddr)

namespace RoleTracker

variable {n : Nat}

def new (n : Nat) : RoleTracker n where
  proto := UX_NONE
  role := fun _ => .dirty

def setRoleAddr (t : RoleTracker n) (idx : Fin n) (pAddr : Option RoleAddr) : RoleTracker n :=
  { t with role := Function.update t.role idx (pAddr.getD .self) }

/--
`none` stands for the empty string.
-/
def getRoleAddr (t : RoleTracker n) (idx : Fin n) : Option RoleAddr :=
  let pRole := t.role idx
  if pRole.x_ip ≠ 0 ∧ pRole.x_port ≠ 0 then some pRole else none

end RoleTracker

structure UsockClnt (sliceCnt : Nat) where
  m_pRoleData : RoleTracker sliceCnt
  sliceDst : GivenAddr sliceCnt

namespace UsockClnt

variable {n : Nat}

def new (n : Nat) : UsockClnt n where
  m_pRoleData := .new n
  sliceDst := fun _ => none

def recvRole (c : UsockClnt n) (newRole : RoleTracker n) (idx : Fin n)
    : RoleAddr × Option (Option RoleAddr) :=
  let pNewAddr := newRole.getRoleAddr idx
  if c.m_pRoleData.getRoleAddr idx ≠ pNewAddr then (pNewAddr.getD .self, some pNewAddr)
  else (c.m_pRoleData.role idx, c.sliceDst idx)

/--
No slice of the loop looks at another one.
-/
def recvRoleChange (c : UsockClnt n) (newRole : RoleTracker n) : UsockClnt n where
  m_pRoleData := { c.m_pRoleData with role := fun idx => (c.recvRole newRole idx).1 }
  sliceDst := fun idx => (c.recvRole newRole idx).2

end UsockClnt

/--
A connection to a cached process: whether the object has been deleted, whether the multiplexer has
it, and the role messages written to it, each with the addresses given when it was sent.
-/
structure UsockSvr (sliceCnt : Nat) where
  freed : Bool
  registered : Bool
  sent : List (RoleTracker sliceCnt × GivenAddr sliceCnt)

/--
The daemon. Connections are known by their address in `svr`, addresses are not used again.
`crashed` says that a null pointer or a deleted connection has been used. The last three fields
record the past: the addresses given, the slices for which one was given since the last process has
connected, and whether a process has connected and none was disconnected since the last one did.
-/
structure Repld (sliceCnt : Nat) where
  cachedProcCnt : Nat
  m_pRoleData : Option (RoleTracker sliceCnt)
  svr : Nat → Option (UsockSvr sliceCnt)
  next : Nat
  m_svrMap : List (Nat × Nat)
  crashed : Bool
  given : GivenAddr sliceCnt
  since : Fin sliceCnt → Bool
  steady : Bool

inductive RepldEvent (sliceCnt : Nat) where
  /--
  A cached process connects; `svrInitConn` returns 0 if `initOk`.
  -/
  | accept (procId : Nat) (initOk : Bool)
  /--
  A connection is found closed by its peer.
  -/
  | close (pSvr : Nat)
  | setRoleAddr (idx : Fin sliceCnt) (pAddr : Option RoleAddr)
  | repldNotifyRole

namespace Repld

variable {n : Nat}

def start (cachedProcCnt : Nat) : Repld n where
  cachedProcCnt := cachedProcCnt
  m_pRoleData := none
  svr := fun _ => none
  next := 0
  m_svrMap := []
  crashed := false
  given := fun _ => none
  since := fun _ => false
  steady := false

def crash (s : Repld n) : Repld n :=
  { s with crashed := true }

def deleteSvr (s : Repld n) (pSvr : Nat) : Repld n :=
  match s.svr pSvr with
  | none => s
  | some o =>
    if o.freed then s.crash
    else
      { s with
        svr := Function.update s.svr pSvr (some { o with freed := true })
        m_pRoleData := none
        steady := false }

/--
`new UsockSvr()` with the constructor of `UsockConn`. The table that was there is not deleted.
-/
def newSvr (s : Repld n) : Repld n × Nat :=
  ({ s with
      svr := Function.update s.svr s.next (some ⟨false, false, []⟩)
      next := s.next + 1
      m_pRoleData := some (.new n)
      since := fun _ => false
      steady := true }, s.next)

/--
`m_svrMap.insert` leaves a map that has the key as it is.
-/
def insertSvr (s : Repld n) (procId pSvr : Nat) : Repld n :=
  if (s.m_svrMap.lookup procId).isSome then s
  else { s with m_svrMap := (procId, pSvr) :: s.m_svrMap }

def eraseSvr (s : Repld n) (pSvr : Nat) : Repld n :=
  { s with m_svrMap := s.m_svrMap.filter fun e => e.2 ≠ pSvr }

def register (s : Repld n) (pSvr : Nat) : Repld n :=
  match s.svr pSvr with
  | none => s
  | some o => { s with svr := Function.update s.svr pSvr (some { o with registered := true }) }

def accept (s : Repld n) (procId : Nat) (initOk : Bool) : Repld n :=
  if procId < 1 ∨ s.cachedProcCnt < procId then s
  else
    let s := match s.m_svrMap.lookup procId with
      | some pOld => s.deleteSvr pOld
      | none => s
    let r := s.newSvr
    let s := r.1.insertSvr procId r.2
    if initOk then s.register r.2
    else (s.eraseSvr r.2).deleteSvr r.2

/--
`UsockConn::handleEvents` in the state `US_CLOSING`: the multiplexer calls it with the pointer that
was added, `closeConnection` takes it out and `recycle` deletes the connection.
-/
def close (s : Repld n) (pSvr : Nat) : Repld n :=
  match s.svr pSvr with
  | none => s
  | some o =>
    if !o.registered then s
    else if o.freed then s.crash
    else
      { s with
        svr := Function.update s.svr pSvr (some { o with registered := false }) }.deleteSvr pSvr

def setRoleAddr (s : Repld n) (idx : Fin n) (pAddr : Option RoleAddr) : Repld n :=
  match s.m_pRoleData with
  | none => s.crash
  | some t =>
    { s with
      m_pRoleData := some (t.setRoleAddr idx pAddr)
      given := Function.update s.given idx (some pAddr)
      since := Function.update s.since idx true }

def sendRole (t : RoleTracker n) (s : Repld n) (e : Nat × Nat) : Repld n :=
  match s.svr e.2 with
  | none => s
  | some o =>
    if o.freed then s.crash
    else
      { s with
        svr := Function.update s.svr e.2 (some { o with sent := o.sent ++ [(t, s.given)] }) }

def repldNotifyRole (s : Repld n) : Repld n :=
  match s.m_pRoleData with
  | none => s.crash
  | some t =>
    let t := { t with proto := UXDW_REPLD_ROLE_UPD }
    s.m_svrMap.foldl (sendRole t) { s with m_pRoleData := some t }

def step (s : Repld n) : RepldEvent n → Repld n
  | .accept procId initOk => s.accept procId initOk
  | .close pSvr => s.close pSvr
  | .setRoleAddr idx pAddr => s.setRoleAddr idx pAddr
  | .repldNotifyRole => s.repldNotifyRole

end Repld

def RoleAddr.Proper (a : RoleAddr) : Prop :=
  a.x_ip ≠ 0 ∧ a.x_port ≠ 0 ∧ a ≠ .dirty

instance (a : RoleAddr) : Decidable a.Proper := inferInstanceAs (Decidable (_ ∧ _ ∧ _))

namespace GivenAddr

variable {n : Nat} {g h : GivenAddr n} {idx : Fin n}

def Proper (g : GivenAddr n) : Prop :=
  ∀ idx a, g idx = some (some a) → a.Proper

def entry (g : GivenAddr n) (idx : Fin n) : RoleAddr :=
  match g idx with
  | none => .dirty
  | some a => a.getD .self

def read (g : GivenAddr n) (idx : Fin n) : Option RoleAddr :=
  match g idx with
  | none => some .dirty
  | some a => a

theorem proper_none : GivenAddr.Proper (fun _ : Fin n => none) := by
  intro idx a h
  cases h

theorem getRoleAddr_eq_read (hg : g.Proper) {t : RoleTracker n} (ht : t.role idx = g.entry idx)
    : t.getRoleAddr idx = g.read idx := by
  unfold RoleTracker.getRoleAddr
  rw [ht]
  unfold entry read
  cases hidx : g idx with
  | none => decide
  | some a =>
    cases a with
    | none => decide
    | some a =>
      have ha := hg idx a hidx
      exact if_pos ⟨ha.1, ha.2.1⟩

theorem eq_of_read_eq (hh : h.Proper) (hgiven : h idx = none → g idx = none)
    (heq : g.read idx = h.read idx) : g idx = h idx := by
  have dirty_ne : h idx ≠ some (some .dirty) := fun hd => (hh idx _ hd).2.2 rfl
  unfold read at heq
  cases hgi : g idx with
  | none =>
    cases hhi : h idx with
    | none => rfl
    | some b =>
      rw [hgi, hhi] at heq
      exact absurd (hhi.trans (congrArg some heq.symm)) dirty_ne
  | some a =>
    cases hhi : h idx with
    | none =>
      have hnone := hgiven hhi
      rw [hgi] at hnone
      cases hnone
    | some b =>
      rw [hgi, hhi] at heq
      exact congrArg some heq

end GivenAddr

namespace UsockClnt

variable {n : Nat} {c : UsockClnt n} {g h : GivenAddr n}

structure Synced (c : UsockClnt n) (g : GivenAddr n) : Prop where
  role : ∀ idx, c.m_pRoleData.getRoleAddr idx = g.read idx
  dst : c.sliceDst = g

theorem synced_new : (new n).Synced (fun _ => none) where
  role := fun _ => GivenAddr.getRoleAddr_eq_read GivenAddr.proper_none rfl
  dst := rfl

theorem getRoleAddr_getD {t : RoleTracker n} {idx : Fin n} {a : Option RoleAddr}
    (ha : ∀ r, a = some r → r.x_ip ≠ 0 ∧ r.x_port ≠ 0) (ht : t.role idx = a.getD .self)
    : t.getRoleAddr idx = a := by
  unfold RoleTracker.getRoleAddr
  rw [ht]
  cases a with
  | none => decide
  | some r => exact if_pos (ha r rfl)

theorem synced_recvRoleChange (hc : c.Synced g) (hh : h.Proper)
    (hgiven : ∀ idx, h idx = none → g idx = none) {t : RoleTracker n}
    (ht : ∀ idx, t.role idx = h.entry idx) : (c.recvRoleChange t).Synced h := by
  have hread : ∀ idx, t.getRoleAddr idx = h.read idx :=
    fun idx => GivenAddr.getRoleAddr_eq_read hh (ht idx)
  have hvalid : ∀ idx r, t.getRoleAddr idx = some r → r.x_ip ≠ 0 ∧ r.x_port ≠ 0 := by
    intro idx r hr
    unfold RoleTracker.getRoleAddr at hr
    dsimp only at hr
    split at hr
    . rename_i hne
      cases hr
      exact hne
    . cases hr
  constructor
  case role =>
    intro idx
    rw [← hread idx]
    by_cases hne : c.m_pRoleData.getRoleAddr idx = t.getRoleAddr idx
    . have hrole : (c.recvRoleChange t).m_pRoleData.role idx = c.m_pRoleData.role idx := by
        simp [recvRoleChange, recvRole, hne]
      rw [← hne]
      unfold RoleTracker.getRoleAddr
      rw [hrole]
    . apply getRoleAddr_getD (hvalid idx)
      simp [recvRoleChange, recvRole, hne]
  case dst =>
    funext idx
    by_cases hne : c.m_pRoleData.getRoleAddr idx = t.getRoleAddr idx
    . -- the entry says the same as before, `setSliceDst` is not called
      have hdst : (c.recvRoleChange t).sliceDst idx = c.sliceDst idx := by
        simp [recvRoleChange, recvRole, hne]
      rw [hdst, hc.dst]
      rw [hc.role, hread] at hne
      exact GivenAddr.eq_of_read_eq hh (hgiven idx) hne
    . have hdst : (c.recvRoleChange t).sliceDst idx = some (t.getRoleAddr idx) := by
        simp [recvRoleChange, recvRole, hne]
      rw [hdst, hread]
      rw [hc.role, hread] at hne
      unfold GivenAddr.read at hne ⊢
      cases hhi : h idx with
      | none =>
        rw [hgiven idx hhi, hhi] at hne
        exact absurd rfl hne
      | some a => rfl

def recvAll (sent : List (RoleTracker n × GivenAddr n)) : UsockClnt n :=
  sent.foldl (fun c m => c.recvRoleChange m.1) (new n)

end UsockClnt

/--
Every message carries the addresses given when it was sent, and a process that has applied the
messages up to one of them has its slices pointed there.
-/
structure Delivers {n : Nat} (sent : List (RoleTracker n × GivenAddr n)) : Prop where
  carries : ∀ m ∈ sent, ∀ idx a, m.2 idx = some a → m.1.role idx = a.getD .self
  points : ∀ ms m ms', sent = ms ++ m :: ms' → (UsockClnt.recvAll (ms ++ [m])).sliceDst = m.2

structure Sent {n : Nat} (sent : List (RoleTracker n × GivenAddr n)) (g : GivenAddr n) : Prop where
  delivers : Delivers sent
  synced : ∃ h : GivenAddr n, (∀ idx, g idx = none → h idx = none) ∧
    (UsockClnt.recvAll sent).Synced h

section Sent

variable {n : Nat} {sent : List (RoleTracker n × GivenAddr n)} {g : GivenAddr n}

theorem sent_nil (g : GivenAddr n) : Sent [] g where
  delivers := ⟨by simp, by simp⟩
  synced := ⟨fun _ => none, fun _ _ => rfl, UsockClnt.synced_new⟩

theorem Sent.mono (h : Sent sent g) {g' : GivenAddr n} (hle : ∀ idx, g' idx = none → g idx = none)
    : Sent sent g' := by
  obtain ⟨k, hkg, hsync⟩ := h.synced
  exact ⟨h.delivers, k, fun idx hidx => hkg idx (hle idx hidx), hsync⟩

theorem Sent.concat (h : Sent sent g) (hg : g.Proper) {t : RoleTracker n}
    (ht : ∀ idx, t.role idx = g.entry idx) : Sent (sent ++ [(t, g)]) g := by
  obtain ⟨k, hkg, hsync⟩ := h.synced
  have hnew : (UsockClnt.recvAll (sent ++ [(t, g)])).Synced g := by
    unfold UsockClnt.recvAll at hsync ⊢
    rw [List.foldl_append]
    exact UsockClnt.synced_recvRoleChange hsync hg hkg ht
  refine ⟨⟨?_, ?_⟩, g, fun _ h => h, hnew⟩
  . intro m hm idx a ha
    rcases List.mem_append.mp hm with hm | hm
    . exact h.delivers.carries m hm idx a ha
    . cases List.mem_singleton.mp hm
      rw [ht idx]
      unfold GivenAddr.entry
      rw [show g idx = some a from ha]
  . intro ms m ms' heq
    rcases List.eq_nil_or_concat ms' with rfl | ⟨ms'', l, rfl⟩
    . obtain ⟨rfl, hm⟩ := List.append_inj' heq rfl
      cases hm
      exact hnew.dst
    . rw [List.concat_eq_append, ← List.cons_append, ← List.append_assoc] at heq
      exact h.delivers.points ms m ms'' (List.append_inj' heq rfl).1

end Sent

namespace Repld

variable {n : Nat} {s : Repld n} {c : Nat}

/--
What the role messages are for: nothing that is gone is used, and every process that applies the
messages written to it has its slices pointed where they were last given to be.
-/
structure RolesOk (s : Repld n) : Prop where
  found : s.crashed = false
  delivers : ∀ c o, s.svr c = some o → Delivers o.sent

def Alive (s : Repld n) (c : Nat) : Prop :=
  ∀ o, s.svr c = some o → o.freed = false

instance (s : Repld n) (c : Nat) : Decidable (s.Alive c) :=
  match h : s.svr c with
  | none => .isTrue fun o ho => by rw [h] at ho; cases ho
  | some o => decidable_of_iff (o.freed = false)
      ⟨fun hf o' ho => by rw [h] at ho; cases ho; exact hf, fun ha => ha o h⟩

/--
The condition on one event. A process that connects is new or still connected, and a connection that
closes was not replaced. Roles change and are sent while no process was disconnected since the last
one has connected; they are sent while every process that ever connected is still there, and after
every slice that had an address before the last process connected was given one again.
-/
def Ok (s : Repld n) : RepldEvent n → Prop
  | .accept procId _ => ∀ e ∈ s.m_svrMap, e.1 = procId → s.Alive e.2
  | .close pSvr => s.Alive pSvr
  | .setRoleAddr _ pAddr => s.steady = true ∧ ∀ a ∈ pAddr, a.Proper
  | .repldNotifyRole => s.steady = true ∧ (∀ e ∈ s.m_svrMap, s.Alive e.2) ∧
      ∀ idx, s.given idx ≠ none → s.since idx = true

instance (s : Repld n) (e : RepldEvent n) : Decidable (Ok s e) :=
  match e with
  | .accept _ _ => inferInstanceAs (Decidable (∀ e ∈ s.m_svrMap, _))
  | .close _ => inferInstanceAs (Decidable (s.Alive _))
  | .setRoleAddr _ _ => inferInstanceAs (Decidable (_ ∧ _))
  | .repldNotifyRole => inferInstanceAs (Decidable (_ ∧ _ ∧ _))

structure Inv (s : Repld n) : Prop where
  crashed : s.crashed = false
  proper : s.given.Proper
  table : s.steady = true → ∃ t, s.m_pRoleData = some t ∧
    ∀ idx, t.role idx = if s.since idx then s.given.entry idx else .dirty
  sent : ∀ c o, s.svr c = some o → Sent o.sent s.given

theorem Inv.rolesOk (h : Inv s) : RolesOk s where
  found := h.crashed
  delivers := fun c o ho => (h.sent c o ho).delivers

theorem Inv.start (cnt : Nat) : Inv (start (n := n) cnt) where
  crashed := rfl
  proper := GivenAddr.proper_none
  table := fun hs => absurd hs Bool.false_ne_true
  sent := fun _ _ ho => nomatch ho

theorem Inv.updateSvr (h : Inv s) {o t : UsockSvr n} (ho : s.svr c = some o)
    (hsent : t.sent = o.sent) : Inv { s with svr := Function.update s.svr c (some t) } where
  crashed := h.crashed
  proper := h.proper
  table := h.table
  sent := by
    intro x p hp
    by_cases hx : x = c
    . subst hx
      cases (Function.update_self ..).symm.trans hp
      rw [hsent]
      exact h.sent x o ho
    . exact h.sent x p ((Function.update_of_ne hx ..).symm.trans hp)

theorem Inv.deleteSvr (h : Inv s) (ha : s.Alive c) : Inv (s.deleteSvr c) := by
  unfold Repld.deleteSvr
  split
  . exact h
  . rename_i o ho
    rw [if_neg (by rw [ha o ho]; decide)]
    have hu := h.updateSvr (t := { o with freed := true }) ho rfl
    exact ⟨hu.crashed, hu.proper, fun hs => absurd hs Bool.false_ne_true, hu.sent⟩

theorem Inv.newSvr (h : Inv s) : Inv s.newSvr.1 where
  crashed := h.crashed
  proper := h.proper
  table := fun _ => ⟨.new n, rfl, fun _ => rfl⟩
  sent := by
    intro x p hp
    change Function.update s.svr s.next _ x = some p at hp
    by_cases hx : x = s.next
    . subst hx
      rw [Function.update_self] at hp
      cases hp
      exact sent_nil _
    . rw [Function.update_of_ne hx] at hp
      exact h.sent x p hp

theorem Inv.insertSvr (h : Inv s) (procId : Nat) : Inv (s.insertSvr procId c) := by
  unfold Repld.insertSvr
  split
  . exact h
  . exact ⟨h.crashed, h.proper, h.table, h.sent⟩

theorem Inv.eraseSvr (h : Inv s) : Inv (s.eraseSvr c) :=
  ⟨h.crashed, h.proper, h.table, h.sent⟩

theorem Inv.register (h : Inv s) : Inv (s.register c) := by
  unfold Repld.register
  split
  . exact h
  . rename_i o ho
    exact h.updateSvr ho rfl

theorem svr_insertSvr (s : Repld n) (procId c : Nat) : (s.insertSvr procId c).svr = s.svr := by
  unfold insertSvr
  split <;> rfl

theorem Inv.accept (h : Inv s) {procId : Nat} {initOk : Bool} (hok : Ok s (.accept procId initOk))
    : Inv (s.accept procId initOk) := by
  unfold Repld.accept
  split
  . exact h
  . dsimp only
    have hold : Inv (match s.m_svrMap.lookup procId with
        | some pOld => s.deleteSvr pOld
        | none => s) := by
      split
      . rename_i pOld hlook
        obtain ⟨l, r, hmap, _⟩ := List.lookup_eq_some_iff.mp hlook
        exact h.deleteSvr (hok (procId, pOld) (by rw [hmap]; simp) rfl)
      . exact h
    generalize (match s.m_svrMap.lookup procId with
      | some pOld => s.deleteSvr pOld
      | none => s) = s₁ at hold ⊢
    have hins : Inv (s₁.newSvr.1.insertSvr procId s₁.newSvr.2) := hold.newSvr.insertSvr procId
    split
    . exact hins.register
    . -- the connection that is deleted again is the one just made
      apply hins.eraseSvr.deleteSvr
      intro o ho
      have hsvr : s₁.newSvr.1.svr s₁.newSvr.2 = some o := by
        rw [← svr_insertSvr s₁.newSvr.1 procId s₁.newSvr.2]
        exact ho
      change Function.update s₁.svr s₁.next _ s₁.next = some o at hsvr
      rw [Function.update_self] at hsvr
      cases hsvr
      rfl

theorem Inv.close (h : Inv s) (hok : Ok s (.close c)) : Inv (s.close c) := by
  unfold Repld.close
  split
  . exact h
  . rename_i o ho
    split
    . exact h
    . rw [if_neg (by rw [hok o ho]; decide)]
      apply (h.updateSvr (t := { o with registered := false }) ho rfl).deleteSvr
      intro p hp
      cases (Function.update_self ..).symm.trans hp
      exact hok o ho

theorem Inv.setRoleAddr (h : Inv s) {idx : Fin n} {pAddr : Option RoleAddr}
    (hok : Ok s (.setRoleAddr idx pAddr)) : Inv (s.setRoleAddr idx pAddr) := by
  obtain ⟨hsteady, hproper⟩ := hok
  obtain ⟨t, ht, hrole⟩ := h.table hsteady
  unfold Repld.setRoleAddr
  rw [ht]
  dsimp only
  have hother : ∀ {x}, x ≠ idx →
      Function.update s.given idx (some pAddr) x = s.given x := fun hx => Function.update_of_ne hx ..
  refine ⟨h.crashed, ?_, fun _ => ⟨_, rfl, ?_⟩, fun c o ho => (h.sent c o ho).mono ?_⟩
  . intro x a hx
    by_cases heq : x = idx
    . subst heq
      cases (Function.update_self ..).symm.trans hx
      exact hproper a rfl
    . exact h.proper x a ((hother heq).symm.trans hx)
  . intro x
    by_cases heq : x = idx
    . subst heq
      simp [RoleTracker.setRoleAddr, GivenAddr.entry]
    . have hentry : GivenAddr.entry (Function.update s.given idx (some pAddr)) x = s.given.entry x := by
        unfold GivenAddr.entry
        rw [hother heq]
      have hsince : Function.update s.since idx true x = s.since x := Function.update_of_ne heq ..
      change (t.setRoleAddr idx pAddr).role x = if Function.update s.since idx true x = true then
        GivenAddr.entry (Function.update s.given idx (some pAddr)) x else .dirty
      rw [hentry, hsince]
      exact (Function.update_of_ne heq ..).trans (hrole x)
  . intro x hx
    by_cases heq : x = idx
    . subst heq
      cases (Function.update_self ..).symm.trans hx
    . exact (hother heq).symm.trans hx

theorem Inv.sendRole (h : Inv s) {t : RoleTracker n} (ht : ∀ idx, t.role idx = s.given.entry idx)
    {e : Nat × Nat} (ha : s.Alive e.2) : Inv (sendRole t s e) := by
  unfold Repld.sendRole
  split
  . exact h
  . rename_i o ho
    rw [if_neg (by rw [ha o ho]; decide)]
    refine ⟨h.crashed, h.proper, h.table, ?_⟩
    intro x p hp
    by_cases hx : x = e.2
    . subst hx
      cases (Function.update_self ..).symm.trans hp
      exact (h.sent _ o ho).concat h.proper ht
    . exact h.sent x p ((Function.update_of_ne hx ..).symm.trans hp)

theorem given_sendRole (t : RoleTracker n) (s : Repld n) (e : Nat × Nat)
    : (sendRole t s e).given = s.given := by
  unfold sendRole
  split
  . rfl
  . split <;> rfl

theorem alive_sendRole (t : RoleTracker n) {e : Nat × Nat} {x : Nat} (hx : s.Alive x)
    : (sendRole t s e).Alive x := by
  unfold sendRole
  split
  . exact hx
  . rename_i o ho
    split
    . exact hx
    . intro p hp
      by_cases heq : x = e.2
      . subst heq
        cases (Function.update_self ..).symm.trans hp
        exact hx o ho
      . exact hx p ((Function.update_of_ne heq ..).symm.trans hp)

theorem Inv.sendRoles {t : RoleTracker n} (es : List (Nat × Nat)) (h : Inv s)
    (ht : ∀ idx, t.role idx = s.given.entry idx) (ha : ∀ e ∈ es, s.Alive e.2)
    : Inv (es.foldl (Repld.sendRole t) s) := by
  induction es generalizing s with
  | nil => exact h
  | cons e es ih =>
    apply ih (h.sendRole ht (ha e (List.mem_cons_self ..)))
    . rw [given_sendRole]
      exact ht
    . intro x hx
      exact alive_sendRole t (ha x (List.mem_cons_of_mem _ hx))

theorem Inv.repldNotifyRole (h : Inv s) (hok : Ok s .repldNotifyRole) : Inv s.repldNotifyRole := by
  obtain ⟨hsteady, ha, hsince⟩ := hok
  obtain ⟨t, ht, hrole⟩ := h.table hsteady
  have hentry : ∀ idx, t.role idx = s.given.entry idx := by
    intro idx
    rw [hrole idx]
    split
    . rfl
    . rename_i hnot
      have hnone : s.given idx = none := not_not.mp fun hne => hnot (hsince idx hne)
      unfold GivenAddr.entry
      rw [hnone]
  unfold Repld.repldNotifyRole
  rw [ht]
  dsimp only
  exact Inv.sendRoles s.m_svrMap ⟨h.crashed, h.proper, fun _ => ⟨_, rfl, hrole⟩, h.sent⟩ hentry ha

theorem Inv.step (e : RepldEvent n) (h : Inv s) (hok : Ok s e) : Inv (s.step e) := by
  cases e with
  | accept procId initOk => exact h.accept hok
  | close pSvr => exact h.close hok
  | setRoleAddr idx pAddr => exact h.setRoleAddr hok
  | repldNotifyRole => exact h.repldNotifyRole hok

/--
In every run that meets the condition at each event the roles are delivered in every state.
-/
theorem rolesOk_exec (cnt : Nat) (es : List (RepldEvent n))
    (hok : Run.Meets step Ok (start cnt) es) : RolesOk (Run.exec step (start cnt) es) :=
  (Run.exec_invariant Inv (fun _ e h hok => h.step e hok) (Inv.start cnt) hok).rolesOk

def sampleAddr : RoleAddr := ⟨0x0100000A, 0x2B2B⟩

theorem rolesOk_exec_sample
    : RolesOk (Run.exec step (start (n := 2) 4) [.accept 1 true, .accept 2 true,
        .setRoleAddr 0 (some sampleAddr), .setRoleAddr 1 none, .repldNotifyRole,
        .setRoleAddr 0 none, .repldNotifyRole]) :=
  rolesOk_exec 4 _ (by decide +kernel)

/--
The second process connects after the role of the slice is known: its constructor replaces the table,
the message to both processes has the bytes `0xFF`.
-/
theorem not_rolesOk_accept
    : ¬ RolesOk (Run.exec step (start (n := 1) 4) [.accept 1 true, .setRoleAddr 0 (some sampleAddr),
        .accept 2 true, .repldNotifyRole]) := by
  intro h
  have hcarries := (h.delivers 0 _ rfl).carries _ (List.mem_singleton.mpr rfl) 0 _ rfl
  exact absurd hcarries (by decide)

end Repld

end Lsmcd
