import Lsmcd.Lib.Queue
import Lsmcd.Memcache.Link

/-!
The references between connections: the queue of the clients that wait, and the client that a
connection to a master answers to.
-/

open LinkedQueue

namespace Lsmcd

def LsMcRemote.Framed (r : LsMcRemote) : Prop :=
  r.internal = false ∧ (r.connected = true → r.m_protocol = .MC_INTERNAL)

namespace McWorld

structure Numbered (w : McWorld) : Prop where
  ids : ∀ id, (w.conn id).id = id
  bounded : ∀ id, (w.conn id).connected = true → id < w.cnt

/--
The queue holds `q`. `rest` is what `processWaitQ` has taken off it and not processed yet.
-/
structure Queued (w : McWorld) (rest q : List Nat) : Prop where
  queue : IsQueue w.mc.link w.mc.m_pWaitQ w.mc.m_pWaitTail q
  detached : Path w.mc.link rest.head? rest
  nodup : (rest ++ q).Nodup
  waiting : ∀ id, (w.conn id).cmdWait = true ↔ id ∈ rest ++ q
  opened : ∀ id ∈ rest ++ q, (w.conn id).connected = true

/--
A connection to a master that is busy answers to an open client, which waits for the answer.
-/
def Awaited (w : McWorld) : Prop :=
  ∀ i, (w.slice i).remote.remBusy = true → ∃ id, (w.slice i).remote.link = some id ∧
    (w.conn id).connected = true ∧ (w.conn id).respWait = true

def InternalLinks (w : McWorld) : Prop :=
  ∀ i, (w.slice i).remote.Framed

structure Linked (w : McWorld) (rest q : List Nat) : Prop where
  numbered : w.Numbered
  queued : w.Queued rest q
  awaited : w.Awaited
  internal : w.InternalLinks

section Call

variable {w : McWorld} {id : Nat} {rest q : List Nat} {s t : McCall}

@[simp]
theorem put_conn_self (w : McWorld) (id : Nat) (s : McCall) : (w.put id s).conn id = s.conn := by
  simp [put]

theorem put_conn_of_ne (w : McWorld) (s : McCall) {id id' : Nat} (h : id' ≠ id)
    : (w.put id s).conn id' = w.conn id' := by
  simp [put, h]

theorem put_field {α : Type} (f : MemcacheConn → α) (h : f t.conn = f s.conn) (id' : Nat)
    : f ((w.put id t).conn id') = f ((w.put id s).conn id') := by
  by_cases hid : id' = id
  . subst hid
    rw [put_conn_self, put_conn_self, h]
  . rw [put_conn_of_ne _ _ hid, put_conn_of_ne _ _ hid]

theorem Numbered.put (h : (w.put id s).Numbered) (hid : t.conn.id = s.conn.id)
    (hconn : t.conn.connected = true → s.conn.connected = true) : (w.put id t).Numbered where
  ids id' := by
    rw [put_field MemcacheConn.id hid]
    exact h.ids id'
  bounded id' hopen := by
    apply h.bounded id'
    by_cases heq : id' = id
    . subst heq
      rw [put_conn_self] at hopen ⊢
      exact hconn hopen
    . rw [put_conn_of_ne _ _ heq] at hopen ⊢
      exact hopen

theorem Queued.put (h : (w.put id s).Queued rest q) (hlink : t.mc.link = s.mc.link)
    (hq : t.mc.m_pWaitQ = s.mc.m_pWaitQ) (htail : t.mc.m_pWaitTail = s.mc.m_pWaitTail)
    (hcmd : t.conn.cmdWait = s.conn.cmdWait)
    (hopen : s.conn.cmdWait = true → t.conn.connected = s.conn.connected)
    : (w.put id t).Queued rest q where
  queue := by
    show IsQueue t.mc.link t.mc.m_pWaitQ t.mc.m_pWaitTail q
    rw [hlink, hq, htail]
    exact h.queue
  detached := by
    show Path t.mc.link rest.head? rest
    rw [hlink]
    exact h.detached
  nodup := h.nodup
  waiting id' := by
    rw [put_field MemcacheConn.cmdWait hcmd, h.waiting]
  opened id' hmem := by
    by_cases heq : id' = id
    . subst heq
      have hwait := (h.waiting id').mpr hmem
      have hold := h.opened id' hmem
      rw [put_conn_self] at hwait hold ⊢
      rw [hopen hwait, hold]
    . have hold := h.opened id' hmem
      rw [put_conn_of_ne _ _ heq] at hold ⊢
      exact hold

theorem Awaited.put (h : (w.put id s).Awaited)
    (hremote : ∀ i, (t.sliceAt i).remote = (s.sliceAt i).remote)
    (hopen : s.conn.respWait = true → t.conn.connected = s.conn.connected)
    (hresp : t.conn.respWait = s.conn.respWait) : (w.put id t).Awaited := by
  intro i hbusy
  have hrem : ((w.put id t).slice i).remote = ((w.put id s).slice i).remote := hremote i
  rw [hrem] at hbusy ⊢
  obtain ⟨id', hlink, hconn, hwait⟩ := h i hbusy
  refine ⟨id', hlink, ?_, ?_⟩
  . by_cases heq : id' = id
    . subst heq
      rw [put_conn_self] at hconn hwait ⊢
      rw [hopen hwait, hconn]
    . rw [put_conn_of_ne _ _ heq] at hconn ⊢
      exact hconn
  . rw [put_field MemcacheConn.respWait hresp, hwait]

theorem InternalLinks.put (h : (w.put id s).InternalLinks)
    (hremote : ∀ i, (t.sliceAt i).remote = (s.sliceAt i).remote) : (w.put id t).InternalLinks := by
  intro i
  have hrem : ((w.put id t).slice i).remote = ((w.put id s).slice i).remote := hremote i
  rw [hrem]
  exact h i

theorem Linked.put_view (h : (w.put id s).Linked rest q) (hview : t.view = s.view)
    : (w.put id t).Linked rest q := by
  have hconn : t.conn.connected = s.conn.connected := congrArg ConnView.connected hview
  have hremote : ∀ i, (t.sliceAt i).remote = (s.sliceAt i).remote :=
    congrFun (congrArg ConnView.remote hview)
  constructor
  . exact h.numbered.put (congrArg ConnView.id hview) (hconn ▸ ·)
  . exact h.queued.put (congrArg ConnView.link hview) (congrArg ConnView.m_pWaitQ hview)
      (congrArg ConnView.m_pWaitTail hview) (congrArg ConnView.cmdWait hview) (fun _ => hconn)
  . exact h.awaited.put hremote (fun _ => hconn) (congrArg ConnView.respWait hview)
  . exact h.internal.put hremote

theorem Linked.put_conn (h : (w.put id s).Linked rest q) (hmc : t.mc = s.mc)
    (hid : t.conn.id = s.conn.id) (hopen : t.conn.connected = s.conn.connected)
    (hcmd : t.conn.cmdWait = s.conn.cmdWait) (hresp : t.conn.respWait = s.conn.respWait)
    : (w.put id t).Linked rest q := by
  have hremote : ∀ i, (t.sliceAt i).remote = (s.sliceAt i).remote := by
    intro i
    unfold McCall.sliceAt
    rw [hmc]
  constructor
  . exact h.numbered.put hid (hopen ▸ ·)
  . exact h.queued.put (by rw [hmc]) (by rw [hmc]) (by rw [hmc]) hcmd (fun _ => hopen)
  . exact h.awaited.put hremote (fun _ => hopen) hresp
  . exact h.internal.put hremote

theorem isQueue_putWaitQ (hcmd : s.conn.cmdWait = false) (hid : s.conn.id ∉ q)
    (h : IsQueue s.mc.link s.mc.m_pWaitQ s.mc.m_pWaitTail q)
    : IsQueue s.putWaitQ.mc.link s.putWaitQ.mc.m_pWaitQ s.putWaitQ.mc.m_pWaitTail (q ++ [s.conn.id]) ∧
      ∀ x ∉ q ++ [s.conn.id], s.putWaitQ.mc.link x = s.mc.link x := by
  unfold McCall.putWaitQ
  simp only [hcmd, Bool.false_eq_true, if_false]
  generalize hq : s.mc.m_pWaitQ = head at h
  cases head with
  | none =>
    obtain ⟨hqueue, rfl⟩ := h.enqueue_nil s.conn.id
    refine ⟨hqueue, ?_⟩
    intro x hx
    simp only [List.nil_append, List.mem_singleton] at hx
    exact Function.update_of_ne hx _ _
  | some y =>
    obtain ⟨last, hlast, htail, hqueue⟩ := h.enqueue_cons hid
    rw [htail]
    refine ⟨hqueue, ?_⟩
    intro x hx
    simp only [List.mem_append, List.mem_singleton, not_or] at hx
    have hxl : x ≠ last := by
      rintro rfl
      exact hx.1 hlast
    dsimp only
    rw [Function.update_of_ne hxl, Function.update_of_ne hx.2]

theorem Queued.put_putWaitQ (h : (w.put id s).Queued rest q) (hid : s.conn.id = id)
    (hcmd : s.conn.cmdWait = false) (hopen : s.conn.connected = true)
    : (w.put id s.putWaitQ).Queued rest (q ++ [id]) := by
  have hnot : id ∉ rest ++ q := by
    rw [← h.waiting id, put_conn_self, hcmd]
    simp
  have hq : s.conn.id ∉ q := by
    rw [hid]
    exact fun hin => hnot (List.mem_append_right _ hin)
  obtain ⟨hqueue, hkeep⟩ := isQueue_putWaitQ hcmd hq h.queue
  rw [hid] at hqueue hkeep
  have hconn : s.putWaitQ.conn = { s.conn with cmdWait := true } := by
    unfold McCall.putWaitQ
    simp [hcmd]
  have hmem : ∀ id', id' ∈ rest ++ (q ++ [id]) ↔ id' ∈ rest ++ q ∨ id' = id := by
    intro id'
    simp only [List.mem_append, List.mem_singleton, or_assoc]
  constructor
  . exact hqueue
  . apply h.detached.congr
    intro x hx
    apply hkeep
    intro hin
    have hxid : x ≠ id := by
      rintro rfl
      exact hnot (List.mem_append_left _ hx)
    simp only [List.mem_append, List.mem_singleton, hxid, or_false] at hin
    exact (List.nodup_append.mp h.nodup).2.2 x hx x hin rfl
  . rw [← List.append_assoc, List.nodup_append]
    refine ⟨h.nodup, by simp, ?_⟩
    rintro a ha b hb rfl
    rw [List.mem_singleton] at hb
    subst hb
    exact hnot ha
  . intro id'
    rw [hmem]
    by_cases heq : id' = id
    . subst heq
      simp [hconn]
    . rw [put_conn_of_ne _ _ heq, ← h.waiting id', put_conn_of_ne _ _ heq]
      simp [heq]
  . intro id' hin
    by_cases heq : id' = id
    . subst heq
      rw [put_conn_self, hconn]
      exact hopen
    . rw [hmem] at hin
      have hold := h.opened id' (hin.resolve_right heq)
      rw [put_conn_of_ne _ _ heq] at hold ⊢
      exact hold

theorem Linked.put_putWaitQ (h : (w.put id s).Linked rest q) (hopen : s.conn.connected = true)
    : ∃ q', (w.put id s.putWaitQ).Linked rest q' := by
  have hid : s.conn.id = id := by
    have := h.numbered.ids id
    rwa [put_conn_self] at this
  cases hcmd : s.conn.cmdWait with
  | true =>
    refine ⟨q, ?_⟩
    unfold McCall.putWaitQ
    rw [if_pos hcmd]
    exact h
  | false =>
    have hconn : s.putWaitQ.conn = { s.conn with cmdWait := true } := by
      unfold McCall.putWaitQ
      simp [hcmd]
    have hremote : ∀ i, (s.putWaitQ.sliceAt i).remote = (s.sliceAt i).remote := by
      intro i
      unfold McCall.putWaitQ
      simp only [hcmd, Bool.false_eq_true, if_false]
      split <;> rfl
    refine ⟨q ++ [id], ?_⟩
    constructor
    . apply h.numbered.put
      . rw [hconn]
      . rw [hconn]
        exact fun hc => hc
    . exact h.queued.put_putWaitQ hid hcmd hopen
    . apply h.awaited.put hremote
      . rw [hconn]
        exact fun _ => rfl
      . rw [hconn]
    . exact h.internal.put hremote

theorem remote_setSliceAt (s : McCall) (i j : Nat) (slice : LsMcHashSlice)
    : ((s.setSliceAt i slice).sliceAt j).remote =
      if j = i then slice.remote else (s.sliceAt j).remote := by
  unfold McCall.setSliceAt McCall.setMulti
  simp only [McCall.sliceAt]
  split
  . rename_i heq
    subst heq
    rw [Function.update_self]
  . rename_i hne
    rw [Function.update_of_ne hne]

theorem Linked.put_remote {r : LsMcRemote} {i : Nat} (h : (w.put id s).Linked rest q)
    (hmc : t.mc.link = s.mc.link ∧ t.mc.m_pWaitQ = s.mc.m_pWaitQ ∧ t.mc.m_pWaitTail = s.mc.m_pWaitTail)
    (hconn : t.conn.id = s.conn.id ∧ t.conn.connected = s.conn.connected ∧
      t.conn.cmdWait = s.conn.cmdWait)
    (hresp : s.conn.respWait = true → t.conn.respWait = true)
    (hremote : ∀ j, (t.sliceAt j).remote = if j = i then r else (s.sliceAt j).remote)
    (hbusy : r.remBusy = true → ∃ id', r.link = some id' ∧ ((w.put id t).conn id').connected = true ∧
      ((w.put id t).conn id').respWait = true)
    (hmode : r.Framed)
    : (w.put id t).Linked rest q := by
  obtain ⟨hlink, hq, htail⟩ := hmc
  obtain ⟨hid, hopen, hcmd⟩ := hconn
  constructor
  . exact h.numbered.put hid (hopen ▸ ·)
  . exact h.queued.put hlink hq htail hcmd (fun _ => hopen)
  . intro j
    have hrem : ((w.put id t).slice j).remote = _ := hremote j
    rw [hrem]
    split
    . exact hbusy
    . intro hj
      obtain ⟨id', hl, hc, hw⟩ := h.awaited j hj
      refine ⟨id', hl, ?_, ?_⟩
      . rw [put_field MemcacheConn.connected hopen, hc]
      . by_cases heq : id' = id
        . subst heq
          rw [put_conn_self] at hw ⊢
          exact hresp hw
        . rw [put_conn_of_ne _ _ heq] at hw ⊢
          exact hw
  . intro j
    have hrem : ((w.put id t).slice j).remote = _ := hremote j
    rw [hrem]
    split
    . exact hmode
    . exact h.internal j

theorem Linked.put_fwdCommand (h : (w.put id s).Linked rest q) (hopen : s.conn.connected = true)
    (i : Nat) (buf : List UInt8) : (w.put id (s.fwdCommand i buf)).Linked rest q := by
  have hid : s.conn.id = id := by
    have := h.numbered.ids id
    rwa [put_conn_self] at this
  unfold McCall.fwdCommand
  split
  . refine h.put_remote ⟨rfl, rfl, rfl⟩ ⟨rfl, rfl, rfl⟩ (fun _ => rfl)
      (fun j => remote_setSliceAt s i j _) ?_ ?_
    . intro _
      refine ⟨id, by rw [← hid], ?_, ?_⟩
      . rw [put_conn_self]
        exact hopen
      . rw [put_conn_self]
    . exact h.internal i
  . exact h

theorem RemoteChange.busy {r r' : LsMcRemote} (h : McCall.RemoteChange r r') (hbusy : r'.remBusy = true)
    : r.remBusy = true ∧ r'.link = r.link := by
  cases h with
  | sent bs => exact ⟨hbusy, rfl⟩
  | close =>
    unfold McCall.closeRemote at hbusy ⊢
    split at hbusy
    . cases hbusy
    . rename_i hc
      rw [if_neg hc]
      exact ⟨hbusy, rfl⟩
  | connect bs => exact ⟨hbusy, rfl⟩

theorem RemoteChange.framed {r r' : LsMcRemote} (h : McCall.RemoteChange r r') (hmode : r.Framed)
    : r'.Framed := by
  cases h with
  | sent bs => exact hmode
  | close =>
    unfold McCall.closeRemote
    split
    . exact ⟨rfl, fun hc => by cases hc⟩
    . exact hmode
  | connect bs => exact ⟨hmode.1, fun _ => rfl⟩

theorem Linked.put_remoteChange {i : Nat} {slice : LsMcHashSlice} (h : (w.put id s).Linked rest q)
    (hr : McCall.RemoteChange (s.sliceAt i).remote slice.remote)
    : (w.put id (s.setSliceAt i slice)).Linked rest q := by
  refine h.put_remote ⟨rfl, rfl, rfl⟩ ⟨rfl, rfl, rfl⟩ (fun hw => hw)
    (fun j => remote_setSliceAt s i j slice) ?_ (RemoteChange.framed hr (h.internal i))
  intro hb
  obtain ⟨hold, hlink⟩ := RemoteChange.busy hr hb
  obtain ⟨id', hl, hc, hw⟩ := h.awaited i hold
  refine ⟨id', hlink.trans hl, ?_, ?_⟩
  . rw [← hc]
    exact put_field MemcacheConn.connected rfl id'
  . rw [← hw]
    exact put_field MemcacheConn.respWait rfl id'

theorem Linked.put_effs {Q F : Prop} (he : McCall.Effs Q F s t) (h : (w.put id s).Linked rest q)
    (hopen : s.conn.connected = true)
    : (∃ q', (w.put id t).Linked rest q') ∧ t.conn.connected = true := by
  induction he generalizing q with
  | quiet hview => exact ⟨⟨q, h.put_view hview⟩, (congrArg ConnView.connected hview).trans hopen⟩
  | putWaitQ _ s =>
    refine ⟨h.put_putWaitQ hopen, ?_⟩
    unfold McCall.putWaitQ
    split
    . exact hopen
    . exact hopen
  | fwdCommand _ s i buf =>
    refine ⟨⟨q, h.put_fwdCommand hopen i buf⟩, ?_⟩
    unfold McCall.fwdCommand
    split
    . exact hopen
    . exact hopen
  | remote s i slice hr => exact ⟨⟨q, h.put_remoteChange hr⟩, hopen⟩
  | trans _ _ ih₁ ih₂ =>
    obtain ⟨⟨q₁, h₁⟩, hopen₁⟩ := ih₁ h hopen
    exact ih₂ h₁ hopen₁

theorem Linked.put_close (h : (w.put id s).Linked rest q) (hcmd : s.conn.cmdWait = false)
    (hfree : ∀ i, (s.sliceAt i).remote.remBusy = true → (s.sliceAt i).remote.link ≠ some id)
    : (w.put id { s with conn := s.conn.close }).Linked rest q := by
  have hclose : s.conn.close.id = s.conn.id ∧ (s.conn.close.connected = true → s.conn.connected = true) ∧
      s.conn.close.cmdWait = s.conn.cmdWait := by
    unfold MemcacheConn.close
    split
    . exact ⟨rfl, fun hc => (by cases hc), hcmd.symm⟩
    . exact ⟨rfl, fun hc => hc, rfl⟩
  obtain ⟨hid, hc, hcmd'⟩ := hclose
  constructor
  . exact h.numbered.put hid hc
  . refine h.queued.put rfl rfl rfl hcmd' ?_
    intro hw
    rw [hcmd] at hw
    cases hw
  . intro i hbusy
    obtain ⟨id', hlink, hold⟩ := h.awaited i hbusy
    have hne : id' ≠ id := by
      rintro rfl
      exact hfree i hbusy hlink
    refine ⟨id', hlink, ?_⟩
    rw [put_conn_of_ne _ _ hne] at hold ⊢
    exact hold
  . exact h.internal.put fun _ => rfl

theorem Linked.not_awaited (h : (w.put id s).Linked rest q) (hresp : s.conn.respWait = false) (i : Nat)
    (hbusy : (s.sliceAt i).remote.remBusy = true) : (s.sliceAt i).remote.link ≠ some id := by
  intro hlink
  obtain ⟨id', hid', _, hwait⟩ := h.awaited i hbusy
  have heq : id' = id := Option.some.inj (hid'.symm.trans hlink)
  rw [heq, put_conn_self, hresp] at hwait
  cases hwait

end Call

end McWorld

namespace McCall

/--
A command that closes its connection does so while the client is not in the queue, and it is not a
request of 2 ^ 32 bytes, which may be forwarded.
-/
def ClosesFree (s : McCall) : Prop :=
  s.dispatch.2 = 0 → s.conn.cmdWait = false ∧ ¬ (s.conn.m_protocol = .MC_BINARY ∧ s.wrapsBody)

instance : DecidablePred ClosesFree := fun s =>
  inferInstanceAs (Decidable (s.dispatch.2 = 0 → s.conn.cmdWait = false ∧
    ¬ (s.conn.m_protocol = .MC_BINARY ∧
      toInt32 (sizeofBinHdr + (McBinCmdHdr.ofBuf s.conn.m_bufIncoming).totbody) = 0)))

theorem Effs.cmdWait {F : Prop} {s t : McCall} (h : Effs False F s t)
    : t.conn.cmdWait = s.conn.cmdWait := by
  induction h with
  | quiet h => exact congrArg ConnView.cmdWait h
  | putWaitQ h s => exact h.elim
  | fwdCommand _ s i buf =>
    unfold McCall.fwdCommand
    split <;> rfl
  | remote s i slice h => rfl
  | trans _ _ ih₁ ih₂ => exact ih₂.trans ih₁

theorem Effs.calm {s t : McCall} (h : Effs False False s t)
    : (t.mc.link = s.mc.link ∧ t.mc.m_pWaitQ = s.mc.m_pWaitQ ∧ t.mc.m_pWaitTail = s.mc.m_pWaitTail) ∧
      ∀ i, ((t.sliceAt i).remote.remBusy = true →
        (s.sliceAt i).remote.remBusy = true ∧ (t.sliceAt i).remote.link = (s.sliceAt i).remote.link) ∧
      ((s.sliceAt i).remote.Framed → (t.sliceAt i).remote.Framed) := by
  induction h with
  | quiet h =>
    refine ⟨⟨congrArg ConnView.link h, congrArg ConnView.m_pWaitQ h, congrArg ConnView.m_pWaitTail h⟩, ?_⟩
    intro i
    have hremote := congrFun (congrArg ConnView.remote h) i
    dsimp only [McCall.view] at hremote
    rw [hremote]
    exact ⟨fun hb => ⟨hb, rfl⟩, fun hf => hf⟩
  | putWaitQ h s => exact h.elim
  | fwdCommand h s i buf => exact h.elim
  | remote s i slice h =>
    refine ⟨⟨rfl, rfl, rfl⟩, ?_⟩
    intro j
    rw [McWorld.remote_setSliceAt]
    split
    . rename_i heq
      subst heq
      exact ⟨McWorld.RemoteChange.busy h, McWorld.RemoteChange.framed h⟩
    . exact ⟨fun hb => ⟨hb, rfl⟩, fun hf => hf⟩
  | trans _ _ ih₁ ih₂ =>
    obtain ⟨⟨hl₁, hq₁, ht₁⟩, hr₁⟩ := ih₁
    obtain ⟨⟨hl₂, hq₂, ht₂⟩, hr₂⟩ := ih₂
    refine ⟨⟨hl₂.trans hl₁, hq₂.trans hq₁, ht₂.trans ht₁⟩, ?_⟩
    intro i
    refine ⟨?_, fun hf => (hr₂ i).2 ((hr₁ i).2 hf)⟩
    intro hb
    obtain ⟨hb₂, hlink₂⟩ := (hr₂ i).1 hb
    obtain ⟨hb₁, hlink₁⟩ := (hr₁ i).1 hb₂
    exact ⟨hb₁, hlink₂.trans hlink₁⟩

theorem Effs.respWait {Q : Prop} {s t : McCall} (h : Effs Q False s t)
    : t.conn.respWait = s.conn.respWait := by
  induction h with
  | quiet h => exact congrArg ConnView.respWait h
  | putWaitQ _ s =>
    unfold McCall.putWaitQ
    split <;> rfl
  | fwdCommand h s i buf => exact h.elim
  | remote s i slice h => rfl
  | trans _ _ ih₁ ih₂ => exact ih₂.trans ih₁

end McCall

namespace McWorld

section Loop

variable {w : McWorld} {id : Nat} {rest q : List Nat} {s : McCall}

theorem linked_incomingLoop (fuel : Nat) (h : (w.put id s).Linked rest q)
    (hopen : s.conn.connected = true) (hok : McCall.LoopMeets McCall.ClosesFree fuel s)
    : ∃ q', (w.put id (McCall.incomingLoop fuel s)).Linked rest q' := by
  induction fuel generalizing s q with
  | zero => exact ⟨q, h⟩
  | succ fuel ih =>
    rw [McCall.incomingLoop_succ]
    split
    . exact h.put_putWaitQ hopen
    . rename_i hresp
      have hresp : s.conn.respWait = false := by simpa using hresp
      have hok' := hok hresp
      have hdisp : (w.put id s.toDispatch).Linked rest q := h.put_conn rfl rfl rfl rfl rfl
      have hopen' : s.toDispatch.conn.connected = true := hopen
      have hresp' : s.toDispatch.conn.respWait = false := hresp
      generalize s.toDispatch = s at hdisp hok' hopen' hresp' ⊢
      have heff := McCall.effs_dispatch s
      obtain ⟨⟨q₁, h₁⟩, hopen₁⟩ := hdisp.put_effs heff hopen'
      split
      . exact ⟨q, hdisp.put_view (McCall.view_setHash _ _)⟩
      . rename_i hmis
        obtain ⟨hcmd, hnext⟩ := hok' (by simpa using hmis)
        split
        . rename_i hpos
          have h₂ : (w.put id (McCall.consume s.dispatch)).Linked rest q₁ :=
            h₁.put_view (McCall.view_setBuf _ _)
          split
          . exact ⟨q₁, h₂⟩
          . rename_i hbuf
            exact ih h₂ hopen₁ (hnext hpos hbuf)
        . split
          . rename_i hzero
            obtain ⟨hwait, hwrap⟩ := hcmd hzero
            have hcalm : McCall.Effs False False s s.dispatch.1 := by
              apply heff.mono
              . intro hq
                rw [hzero] at hq
                cases hq
              . intro hf
                tauto
            refine ⟨q₁, h₁.put_close ?_ ?_⟩
            . rw [hcalm.cmdWait, hwait]
            . exact h₁.not_awaited (by rw [hcalm.respWait, hresp'])
          . exact ⟨q₁, h₁⟩

theorem put_call (w : McWorld) (id : Nat) : w.put id (w.call id) = w := by
  simp [put, call]

theorem linked_processIncoming (h : w.Linked rest q) (hopen : (w.conn id).connected = true)
    (hok : McCall.IncomingMeets McCall.ClosesFree (w.call id))
    : ∃ q', (w.processIncoming id).Linked rest q' := by
  rw [← put_call w id] at h
  unfold processIncoming McCall.processIncoming
  unfold McCall.IncomingMeets at hok
  split
  . exact ⟨q, h.put_conn rfl rfl rfl rfl rfl⟩
  . rename_i p internal buf heq
    simp only [heq] at hok
    exact linked_incomingLoop _ (h.put_conn rfl rfl rfl rfl rfl) hopen hok

end Loop

section Queue

variable {w : McWorld} {id : Nat} {rest q : List Nat}

theorem linked_dequeue (h : w.Linked (id :: rest) q) : (w.dequeue id).Linked rest q := by
  have hnot : id ∉ rest ++ q := by
    have hnodup := h.queued.nodup
    rw [List.cons_append, List.nodup_cons] at hnodup
    exact hnodup.1
  rw [List.mem_append, not_or] at hnot
  have hconn : ∀ id', id' ≠ id → (w.dequeue id).conn id' = w.conn id' := by
    intro id' hne
    simp [dequeue, setConn, hne]
  have hself : (w.dequeue id).conn id = { w.conn id with cmdWait := false } := by
    simp [dequeue, setConn]
  have hfield : ∀ {α : Type} (f : MemcacheConn → α) (_ : ∀ c b, f { c with cmdWait := b } = f c)
      (id' : Nat), f ((w.dequeue id).conn id') = f (w.conn id') := by
    intro α f hf id'
    by_cases heq : id' = id
    . rw [heq, hself, hf]
    . rw [hconn id' heq]
  constructor
  . constructor
    . intro id'
      rw [hfield MemcacheConn.id fun _ _ => rfl]
      exact h.numbered.ids id'
    . intro id' hopen
      rw [hfield MemcacheConn.connected fun _ _ => rfl] at hopen
      exact h.numbered.bounded id' hopen
  . constructor
    . exact ⟨h.queued.queue.path.update_of_notMem hnot.2 none, h.queued.queue.last⟩
    . have hdet := h.queued.detached.2
      rw [← hdet.eq_head?]
      exact hdet.update_of_notMem hnot.1 none
    . exact (List.nodup_cons.mp h.queued.nodup).2
    . intro id'
      by_cases heq : id' = id
      . subst heq
        rw [hself]
        simp [hnot]
      . rw [hconn id' heq, h.queued.waiting id']
        simp [heq]
    . intro id' hin
      rw [hfield MemcacheConn.connected fun _ _ => rfl]
      exact h.queued.opened id' (List.mem_cons_of_mem _ hin)
  . intro i hbusy
    obtain ⟨id', hlink, hopen, hwait⟩ := h.awaited i hbusy
    refine ⟨id', hlink, ?_, ?_⟩
    . rw [hfield MemcacheConn.connected fun _ _ => rfl, hopen]
    . rw [hfield MemcacheConn.respWait fun _ _ => rfl, hwait]
  . exact h.internal

theorem linked_waitQLoop (fuel : Nat) (h : w.Linked rest q) (hlen : rest.length < fuel)
    (hok : QueueMeets McCall.ClosesFree fuel w rest.head?)
    : ∃ q', (waitQLoop fuel w rest.head?).Linked [] q' := by
  induction fuel generalizing w rest q with
  | zero => omega
  | succ fuel ih =>
    cases rest with
    | nil => exact ⟨q, h⟩
    | cons id rest =>
      rw [List.head?_cons] at hok ⊢
      rw [waitQLoop_succ]
      have hopen : ((w.dequeue id).conn id).connected = true := by
        have := h.queued.opened id (by simp)
        simpa [dequeue, setConn] using this
      have hnext : w.mc.link id = rest.head? := h.queued.detached.2.eq_head?
      obtain ⟨q₁, h₁⟩ := linked_processIncoming (linked_dequeue h) hopen hok.1
      rw [hnext]
      apply ih h₁
      . simp only [List.length_cons] at hlen
        omega
      . rw [← hnext]
        exact hok.2

theorem linked_processWaitQ (h : w.Linked [] q) (hok : WaitQMeets McCall.ClosesFree w)
    : ∃ q', w.processWaitQ.Linked [] q' := by
  have hhead : w.mc.m_pWaitQ = q.head? := h.queued.queue.path.eq_head?
  have hdet : w.detachQ.Linked q [] := by
    constructor
    . exact ⟨h.numbered.ids, h.numbered.bounded⟩
    . constructor
      . exact ⟨rfl, rfl⟩
      . rw [← hhead]
        exact h.queued.queue.path
      . simpa using h.queued.nodup
      . simpa [detachQ] using h.queued.waiting
      . simpa [detachQ] using h.queued.opened
    . exact h.awaited
    . exact h.internal
  have hlen : q.length < w.cnt + 1 := by
    have hsub : q ⊆ List.range w.cnt := by
      intro id hin
      rw [List.mem_range]
      exact h.numbered.bounded id (h.queued.opened id (by simpa using hin))
    have hnodup : q.Nodup := by simpa using h.queued.nodup
    have hle := (List.subperm_of_subset hnodup hsub).length_le
    rw [List.length_range] at hle
    omega
  unfold processWaitQ
  unfold WaitQMeets at hok
  rw [hhead] at hok ⊢
  exact linked_waitQLoop _ hdet hlen hok

end Queue

section Frames

variable {w : McWorld} {i : Nat} {rest q : List Nat}

/--
No other connection to a master that is busy answers to the client that a frame is for.
-/
def AnswersAlone (i : Nat) (w : McWorld) : Prop :=
  ∀ j, j ≠ i → (w.slice j).remote.remBusy = true → (w.slice j).remote.link ≠ (w.slice i).remote.link

theorem remote_setRemote_eq (w : McWorld) (i j : Nat) (r : LsMcRemote)
    : ((w.setRemote i r).slice j).remote = if j = i then r else (w.slice j).remote := by
  simp only [setRemote, slice]
  split
  . rename_i heq
    rw [heq, Function.update_self]
  . rename_i hne
    rw [Function.update_of_ne hne]

theorem Linked.setRemote {w' : McWorld} {r : LsMcRemote} (h : w.Linked rest q)
    (hmc : w'.mc.link = w.mc.link ∧ w'.mc.m_pWaitQ = w.mc.m_pWaitQ ∧
      w'.mc.m_pWaitTail = w.mc.m_pWaitTail ∧ w'.cnt = w.cnt)
    (hconn : ∀ id, (w'.conn id).id = (w.conn id).id ∧
      (w'.conn id).connected = (w.conn id).connected ∧ (w'.conn id).cmdWait = (w.conn id).cmdWait)
    (hresp : ∀ id, some id ≠ (w.slice i).remote.link → (w'.conn id).respWait = (w.conn id).respWait)
    (halone : w.AnswersAlone i)
    (hremote : ∀ j, (w'.slice j).remote = if j = i then r else (w.slice j).remote)
    (hbusy : r.remBusy = false)
    (hmode : r.Framed)
    : w'.Linked rest q := by
  obtain ⟨hlink, hq, htail, hcnt⟩ := hmc
  constructor
  . constructor
    . intro id
      rw [(hconn id).1]
      exact h.numbered.ids id
    . intro id hopen
      rw [(hconn id).2.1] at hopen
      rw [hcnt]
      exact h.numbered.bounded id hopen
  . constructor
    . rw [hlink, hq, htail]
      exact h.queued.queue
    . rw [hlink]
      exact h.queued.detached
    . exact h.queued.nodup
    . intro id
      rw [(hconn id).2.2]
      exact h.queued.waiting id
    . intro id hin
      rw [(hconn id).2.1]
      exact h.queued.opened id hin
  . intro j hj
    rw [hremote] at hj ⊢
    split at hj
    . rw [hbusy] at hj
      cases hj
    . rename_i hne
      rw [if_neg hne]
      obtain ⟨id, hid, hopen, hwait⟩ := h.awaited j hj
      refine ⟨id, hid, ?_, ?_⟩
      . rw [(hconn id).2.1, hopen]
      . rw [hresp id, hwait]
        rw [← hid]
        exact halone j hne hj
  . intro j
    rw [hremote]
    split
    . exact hmode
    . exact h.internal j

theorem linked_processFrame (data : List UInt8) (h : w.Linked rest q) (halone : w.AnswersAlone i)
    : (w.processFrame i data).Linked rest q ∧ (w.processFrame i data).AnswersAlone i := by
  have hremote : ∀ j, ((w.processFrame i data).slice j).remote =
      if j = i then { (w.slice i).remote with remBusy := false } else (w.slice j).remote := by
    intro j
    unfold processFrame
    dsimp only
    split
    . exact remote_setRemote_eq w i j _
    . exact remote_setRemote_eq (w.setConn _ _) i j _
  constructor
  . refine h.setRemote (i := i) ?_ ?_ ?_ halone hremote rfl (h.internal i)
    . unfold processFrame
      dsimp only
      split <;> exact ⟨rfl, rfl, rfl, rfl⟩
    . intro id
      unfold processFrame
      dsimp only
      split
      . exact ⟨rfl, rfl, rfl⟩
      . rename_i id' _
        by_cases heq : id = id'
        . subst heq
          simp [McWorld.setRemote, setConn]
        . simp [McWorld.setRemote, setConn, heq]
    . intro id hne
      unfold processFrame
      dsimp only
      split
      . rfl
      . rename_i id' hlink
        have heq : id ≠ id' := by
          rintro rfl
          exact hne hlink.symm
        simp [McWorld.setRemote, setConn, heq]
  . intro j hne hbusy
    rw [hremote, if_neg hne] at hbusy ⊢
    rw [hremote, if_pos rfl]
    exact halone j hne hbusy

theorem Linked.remotes {w' : McWorld} (h : w.Linked rest q)
    (hmc : w'.mc.link = w.mc.link ∧ w'.mc.m_pWaitQ = w.mc.m_pWaitQ ∧
      w'.mc.m_pWaitTail = w.mc.m_pWaitTail)
    (hcnt : w'.cnt = w.cnt) (hconn : w'.conn = w.conn)
    (hbusy : ∀ j, (w'.slice j).remote.remBusy = true →
      (w.slice j).remote.remBusy = true ∧ (w'.slice j).remote.link = (w.slice j).remote.link)
    (hmode : w'.InternalLinks) : w'.Linked rest q := by
  obtain ⟨hlink, hq, htail⟩ := hmc
  constructor
  . constructor
    . rw [hconn]
      exact h.numbered.ids
    . rw [hconn, hcnt]
      exact h.numbered.bounded
  . constructor
    . rw [hlink, hq, htail]
      exact h.queued.queue
    . rw [hlink]
      exact h.queued.detached
    . exact h.queued.nodup
    . rw [hconn]
      exact h.queued.waiting
    . rw [hconn]
      exact h.queued.opened
  . intro j hj
    obtain ⟨hold, hsame⟩ := hbusy j hj
    rw [hsame, hconn]
    exact h.awaited j hold
  . exact hmode

theorem Linked.setRemote_same {r : LsMcRemote} (h : w.Linked rest q)
    (hbusy : r.remBusy = true → (w.slice i).remote.remBusy = true ∧ r.link = (w.slice i).remote.link)
    (hmode : r.Framed)
    : (w.setRemote i r).Linked rest q := by
  refine h.remotes ⟨rfl, rfl, rfl⟩ rfl rfl ?_ ?_
  . intro j
    rw [remote_setRemote_eq]
    split
    . rename_i heq
      subst heq
      exact hbusy
    . exact fun hj => ⟨hj, rfl⟩
  . intro j
    rw [remote_setRemote_eq]
    split
    . exact hmode
    . exact h.internal j

theorem AnswersAlone.setRemote_same {r : LsMcRemote} (h : w.AnswersAlone i)
    (hlink : r.link = (w.slice i).remote.link) : (w.setRemote i r).AnswersAlone i := by
  intro j hne hbusy
  rw [remote_setRemote_eq, if_neg hne] at hbusy ⊢
  rw [remote_setRemote, hlink]
  exact h j hne hbusy

theorem linked_linkLoop (fuel : Nat) (h : w.Linked rest q) (halone : w.AnswersAlone i)
    : (linkLoop i fuel w).Linked rest q := by
  induction fuel generalizing w with
  | zero => exact h
  | succ fuel ih =>
    unfold linkLoop
    dsimp only
    have hint : (w.processInternal i).1.Linked rest q ∧ (w.processInternal i).1.AnswersAlone i := by
      unfold processInternal
      dsimp only
      split
      . exact ⟨h, halone⟩
      . exact linked_processFrame _ h halone
    generalize w.processInternal i = r at hint ⊢
    obtain ⟨h₁, halone₁⟩ := hint
    split
    . have h₂ := h₁.setRemote_same (i := i)
        (r := { (r.1.slice i).remote with
          m_bufIncoming := (r.1.slice i).remote.m_bufIncoming.drop r.2.toNat })
        (fun hb => ⟨hb, rfl⟩) (h₁.internal i)
      split
      . exact h₂
      . exact ih h₂ (halone₁.setRemote_same rfl)
    . split
      . exact h₁.setRemote_same (RemoteChange.busy .close) (RemoteChange.framed .close (h₁.internal i))
      . exact h₁

theorem linked_rebuildAt (j : Nat) (h : w.Linked rest q) : (w.rebuildAt j).Linked rest q := by
  refine h.remotes ⟨rfl, rfl, rfl⟩ rfl rfl ?_ ?_
  . intro k hk
    rw [remote_rebuildAt] at hk ⊢
    exact ⟨hk, rfl⟩
  . intro k
    rw [remote_rebuildAt]
    exact h.internal k

theorem linked_linkRead (bs : List UInt8) (h : w.Linked [] q) (hopen : (w.slice i).remote.connected = true)
    (hb : redetects .MC_INTERNAL (byteAt ((w.slice i).remote.m_bufIncoming ++ bs) 0) = false)
    (halone : w.AnswersAlone i)
    (hok : (w.linkRecv i bs).linkMismatch i = false → WaitQMeets McCall.ClosesFree (w.linkFrames i bs))
    : ∃ q', (w.linkRead i bs).1.Linked [] q' := by
  have hmode : w.LinkMode i := ⟨(h.internal i).2 hopen, (h.internal i).1⟩
  have hrecv : (w.linkRecv i bs).Linked [] q :=
    h.setRemote_same (fun hbusy => ⟨hbusy, rfl⟩) (h.internal i)
  rw [linkRead_internal bs hmode hb]
  split
  . exact ⟨q, linked_rebuildAt i hrecv⟩
  . rename_i hmis
    apply linked_processWaitQ (linked_linkLoop _ hrecv (halone.setRemote_same rfl))
    exact hok (by simpa using hmis)

end Frames

/--
The condition on an event: a client is closed only while it is not in the queue and no busy connection
to a master answers to it, a frame is not taken for a command and not for a client that waits for
another master, and there was no undefined behaviour before.
-/
def RefsKept (w : McWorld) (e : McEvent) : Prop :=
  w.mc.undef = false ∧ EventMeets McCall.ClosesFree w e ∧
    match e with
    | .hup id => (w.conn id).cmdWait = false ∧
      ∀ i, (w.slice i).remote.remBusy = true → (w.slice i).remote.link ≠ some id
    | .linkRead i _ => FrameKept i w e ∧ w.AnswersAlone i
    | _ => True

section Step

variable {w : McWorld} {q : List Nat}

theorem linked_accept (h : w.Linked [] q) : (w.step .accept).Linked [] q := by
  have hcnt : (w.conn w.cnt).connected = false := by
    by_contra hc
    exact Nat.lt_irrefl _ (h.numbered.bounded w.cnt (by simpa using hc))
  have hnot : w.cnt ∉ q := by
    intro hin
    have := h.queued.opened w.cnt (by simpa using hin)
    rw [hcnt] at this
    cases this
  have hne : ∀ id, (w.conn id).connected = true → id ≠ w.cnt := by
    rintro id hopen rfl
    rw [hcnt] at hopen
    cases hopen
  simp only [step]
  constructor
  . constructor
    . intro id
      by_cases heq : id = w.cnt
      . subst heq
        simp [MemcacheConn.init]
      . simp [heq, h.numbered.ids id]
    . intro id hopen
      dsimp only at hopen ⊢
      by_cases heq : id = w.cnt
      . omega
      . rw [Function.update_of_ne heq] at hopen
        have := h.numbered.bounded id hopen
        omega
  . constructor
    . exact ⟨h.queued.queue.path.update_of_notMem hnot none, h.queued.queue.last⟩
    . rfl
    . exact h.queued.nodup
    . intro id
      by_cases heq : id = w.cnt
      . subst heq
        simp [MemcacheConn.init, hnot]
      . dsimp only
        rw [Function.update_of_ne heq]
        exact h.queued.waiting id
    . intro id hin
      have hopen := h.queued.opened id hin
      dsimp only
      rw [Function.update_of_ne (hne id hopen)]
      exact hopen
  . intro i hbusy
    obtain ⟨id, hlink, hopen, hwait⟩ := h.awaited i hbusy
    refine ⟨id, hlink, ?_⟩
    dsimp only
    rw [Function.update_of_ne (hne id hopen)]
    exact ⟨hopen, hwait⟩
  . exact h.internal

theorem linked_deleteLink (i : Nat) (h : w.Linked [] q) : (w.deleteLink i).Linked [] q := by
  unfold deleteLink
  split
  . exact h
  . exact ⟨⟨h.numbered.ids, h.numbered.bounded⟩, ⟨h.queued.queue, h.queued.detached, h.queued.nodup,
      h.queued.waiting, h.queued.opened⟩, h.awaited, h.internal⟩

theorem linked_step (e : McEvent) (h : w.Linked [] q) (hok : RefsKept w e)
    : ∃ q', (w.step e).Linked [] q' := by
  obtain ⟨-, hcmds, hcond⟩ := hok
  cases e with
  | accept => exact ⟨q, linked_accept h⟩
  | read id bs =>
    simp only [step]
    split
    . rename_i hread
      have hput : w.setConn id { w.conn id with m_bufIncoming := (w.conn id).m_bufIncoming ++ bs } =
          w.put id ⟨w.mc, { w.conn id with m_bufIncoming := (w.conn id).m_bufIncoming ++ bs }⟩ := rfl
      have h' := h
      rw [← put_call w id] at h'
      have hrecv := h'.put_conn
        (t := ⟨w.mc, { w.conn id with m_bufIncoming := (w.conn id).m_bufIncoming ++ bs }⟩)
        rfl rfl rfl rfl rfl
      rw [← hput] at hrecv
      apply linked_processIncoming hrecv
      . simpa [setConn] using hread.2.1
      . exact hcmds hread.2.1 hread.2.2
    . exact ⟨q, h⟩
  | hup id =>
    simp only [step]
    split
    . refine ⟨q, ?_⟩
      rw [← put_call w id] at h
      exact h.put_close hcond.1 hcond.2
    . exact ⟨q, h⟩
  | linkRead i bs =>
    simp only [step]
    split
    . rename_i hread
      have hb := hcond.1 rfl hread.1 hread.2
      rw [← redetects_internal] at hb
      obtain ⟨q', h'⟩ := linked_linkRead bs h hread.1 hb hcond.2 (hcmds hread.1 hread.2)
      exact ⟨q', linked_deleteLink i h'⟩
    . exact ⟨q, h⟩
  | linkHup i =>
    refine ⟨q, ?_⟩
    simp only [step]
    split
    . exact linked_deleteLink i (h.setRemote_same (RemoteChange.busy .close)
        (RemoteChange.framed .close (h.internal i)))
    . exact h
  | setSliceDst i pAddr =>
    obtain ⟨hmc, hremote⟩ := (McCall.effs_setSliceDst ⟨w.mc, w.remoteConn i⟩ i pAddr).calm
    refine ⟨q, h.remotes hmc rfl rfl (fun j => (hremote j).1) ?_⟩
    intro j
    exact (hremote j).2 (h.internal j)

/--
No reference to a closed connection: the queue is a list without duplicates that ends at
`m_pWaitTail` and holds open connections, and a connection to a master that is busy answers to an open
one.
-/
def RefsOpen (w : McWorld) : Prop :=
  (∃ q : List Nat, IsQueue w.mc.link w.mc.m_pWaitQ w.mc.m_pWaitTail q ∧ q.Nodup ∧
    ∀ id ∈ q, (w.conn id).connected = true) ∧
  ∀ i, (w.slice i).remote.remBusy = true →
    ∃ id, (w.slice i).remote.link = some id ∧ (w.conn id).connected = true

theorem Linked.refsOpen (h : w.Linked [] q) : w.RefsOpen := by
  constructor
  . exact ⟨q, h.queued.queue, by simpa using h.queued.nodup, by simpa using h.queued.opened⟩
  . intro i hbusy
    obtain ⟨id, hlink, hopen, _⟩ := h.awaited i hbusy
    exact ⟨id, hlink, hopen⟩

theorem linked_start (multi : LsMcHashMulti) (parms : LsMcParms) (multiUser replication : Bool)
    (env : McEnv) : (start multi parms multiUser replication env).Linked [] [] := by
  constructor
  . constructor
    . intro id
      rfl
    . intro id hopen
      cases hopen
  . constructor
    . exact ⟨rfl, rfl⟩
    . rfl
    . exact List.nodup_nil
    . intro id
      simp [start, MemcacheConn.init]
    . intro id hin
      cases hin
  . intro i hbusy
    cases hbusy
  . intro i
    exact ⟨rfl, fun hc => by cases hc⟩

/--
After every run of a process in which no client is closed while it is referred to, all references are
to open connections.
-/
theorem refsOpen_exec (multi : LsMcHashMulti) (parms : LsMcParms) (multiUser replication : Bool)
    (env : McEnv) (es : List McEvent)
    (hok : Run.Meets step RefsKept (start multi parms multiUser replication env) es)
    : RefsOpen (Run.exec step (start multi parms multiUser replication env) es) := by
  obtain ⟨q, h⟩ := Run.exec_invariant (fun w : McWorld => ∃ q, w.Linked [] q)
    (fun w e ⟨q, h⟩ he => linked_step e h he) ⟨[], linked_start multi parms multiUser replication env⟩ hok
  exact h.refsOpen

def sampleDeletes : List McEvent :=
  [.setSliceDst 0 (some (bytes "10.0.0.1:11211")), .accept, .accept, .read 0 (bytes "delete k\r\n"),
    .read 1 (bytes "delete k\r\n")]

def sampleStart : McWorld :=
  start (sampleMulti (sampleSliceHash.get sampleSliceHash_isSome) sampleParms) sampleParms false true sampleEnv

theorem refsOpen_exec_sample
    : RefsOpen (Run.exec step sampleStart sampleDeletes) ∧
      (Run.exec step sampleStart sampleDeletes).mc.m_pWaitQ = some 1 ∧
      ((Run.exec step sampleStart sampleDeletes).slice 0).remote.link = some 0 :=
  ⟨refsOpen_exec _ _ _ _ _ sampleDeletes ⟨⟨by decide, trivial, trivial⟩, ⟨by decide, trivial, trivial⟩,
      ⟨by decide, trivial, trivial⟩, ⟨by decide +kernel, by decide +kernel, trivial⟩,
      ⟨by decide +kernel, by decide +kernel, trivial⟩, trivial⟩,
    by decide +kernel, by decide +kernel⟩

/--
The second client hangs up while it waits: it is closed and deleted, and still the first one in the
queue.
-/
theorem not_refsOpen_hup : ¬ RefsOpen (Run.exec step sampleStart (sampleDeletes ++ [.hup 1])) := by
  intro ⟨⟨q, hqueue, _, hopen⟩, _⟩
  have hhead : (Run.exec step sampleStart (sampleDeletes ++ [.hup 1])).mc.m_pWaitQ = some 1 := by
    decide +kernel
  have hmem : 1 ∈ q := by
    rw [hqueue.path.eq_head?] at hhead
    exact List.mem_of_mem_head? hhead
  exact absurd (hopen 1 hmem) (by decide +kernel)

end Step

end McWorld

end Lsmcd
