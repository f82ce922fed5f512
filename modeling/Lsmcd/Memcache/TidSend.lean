import Lsmcd.Memcache.TidEntry

/-!
The sending side of the replication stream: what `tidGetNxtItems` packs is a stretch of the journal.
-/

namespace Lsmcd

open LsShmTidMgr LsShmHash
open Journal (Later Stretch)

def tableJournal (s : LsShmHash) : HashJournal := fun tid =>
  if tid ≤ s.x_lastTidPreClear then none
  else (TidHashRun.tidTblEnt s.toLsShmTidMgr tid).bind (tidEntry s.table.elem)

def HasPkts (mem : Mem) : Nat → List (Nat × HashEntry) → Prop
  | _, [] => True
  | p, (tid, e) :: es => HasPkt mem p tid e ∧ HasPkts mem (p + entrySize e) es

def entriesSize (es : List (Nat × HashEntry)) : Nat :=
  (es.map fun e => entrySize e.2).sum

/--
A buffer of `size` bytes carries the entries and nothing else.
-/
structure Filled (mem : Mem) (size : Nat) (es : List (Nat × HashEntry)) : Prop where
  pkts : HasPkts mem 0 es
  size : size = entriesSize es

structure NextEntry (J : HashJournal) (tid u : Nat) (e : HashEntry) : Prop where
  lt : tid < u
  gap : ∀ w, tid < w → w < u → J w = none
  entry : J u = some e

def ItemUnlinks : Nat → TidGet → Nat → Prop
  | 0, _, _ => True
  | fuel + 1, g, tid =>
    match g.hash.nxtTidTblVal tid g.pBlk with
    | none => True
    | some (tid, blk) =>
      let val := (g.hash.blk blk).x_iTidVals (tid % TIDTBLBLK_MAXSZ)
      if isTidValIterOff val then
        match g.hash.offset2iterator (tidVal2iterOff val) with
        | none => True
        | some e =>
          if isExpired g.hash e then
            g.hash.Unlinks (g.hash.tidLink (tidVal2iterOff val)) ∧
              ItemUnlinks fuel
                { g with hash := g.hash.eraseIteratorHelper (tidVal2iterOff val), pBlk := 0 } tid
          else True
      else True

instance decidableItemUnlinks : ∀ fuel g tid, Decidable (ItemUnlinks fuel g tid)
  | 0, _, _ => isTrue trivial
  | fuel + 1, _, _ => by
    unfold ItemUnlinks
    have := decidableItemUnlinks fuel
    split
    . exact isTrue trivial
    . dsimp only
      split
      . split
        . exact isTrue trivial
        . split
          . exact inferInstance
          . exact isTrue trivial
      . exact isTrue trivial

def ItemsUnlink : Nat → TidGet → Nat → Prop
  | 0, _, _ => True
  | fuel + 1, g, iBufSz =>
    ItemUnlinks (tidFuel g.hash) g g.tidLast ∧
      let r := getNxtTidItem g iBufSz
      0 < r.2 → ItemsUnlink fuel { r.1 with pos := r.1.pos + r.2.toNat } (iBufSz - r.2.toNat)

instance decidableItemsUnlink : ∀ fuel g iBufSz, Decidable (ItemsUnlink fuel g iBufSz)
  | 0, _, _ => isTrue trivial
  | fuel + 1, _, _ =>
    have := decidableItemsUnlink fuel
    inferInstanceAs (Decidable (_ ∧ (_ → ItemsUnlink fuel _ _)))

variable {s : LsShmHash} {E : List Nat} {log : TidLog} {mem mem' : Mem} {g : TidGet} {n p tid : Nat}

theorem journal_none {elem : Nat → Option LsShmHElem} (hz : (log tid).getD 0 = 0)
    : journalOf elem log tid = none := by
  cases hv : log tid with
  | none => exact journalOf_of_none hv
  | some v =>
    rw [hv] at hz
    obtain rfl : v = 0 := hz
    exact journalOf_of_some hv

theorem tableJournal_eq (h : TidOk s E log) : tableJournal s = s.journal log := by
  funext tid
  unfold tableJournal journal
  cases hv : log tid with
  | some v =>
    have hl := (h.linked.indexed.log_lt tid v hv).1
    rw [if_neg (by omega), HashJournalRun.tidTblEnt_eq h hv, Option.bind_some, journalOf_of_some hv]
  | none =>
    rw [journalOf_of_none hv]
    split
    . rfl
    . next hpre =>
      unfold TidHashRun.tidTblEnt
      by_cases hlt : tid / TIDTBLBLK_MAXSZ < s.firstBlk + s.x_iBlkCnt
      . have hfirst : s.firstBlk ≤ tid / TIDTBLBLK_MAXSZ := Nat.div_le_div_right (by omega)
        rw [h.linked.indexed.tid2tblBlk_eq (by omega) hlt, Option.map_some, Option.bind_some,
          h.linked.indexed.entries _ (by omega) _ (Nat.mod_lt _ (by decide)),
          Nat.add_sub_cancel' hfirst, Nat.div_add_mod', hv, Option.getD_none, tidEntry_zero]
      . rw [tid2tblBlk_none (by omega) (Nat.le_of_not_lt hlt)]
        rfl

section Item

def AtBlk (g : TidGet) (tid : Nat) : Prop :=
  g.pBlk = 0 ∨ g.hash.tid2tblBlk tid = some g.pBlk

theorem AtBlk.nxtTidTblVal_eq (h : AtBlk g tid)
    : g.hash.nxtTidTblVal tid g.pBlk = g.hash.nxtTidTblVal tid 0 := by
  rcases h with hz | hblk
  . rw [hz]
  . unfold LsShmTidMgr.nxtTidTblVal
    by_cases hz : g.pBlk = 0
    . rw [hz]
    . rw [if_pos hz, if_neg (not_not.mpr rfl), hblk]

theorem nxtTidTblVal_cases (h : TidOk g.hash E log) (hat : AtBlk g tid)
    : g.hash.nxtTidTblVal tid g.pBlk = none ∧ (∀ w, tid < w → g.hash.journal log w = none) ∨
      ∃ u blk v, g.hash.nxtTidTblVal tid g.pBlk = some (u, blk) ∧ tid < u ∧
        (∀ w, tid < w → w < u → g.hash.journal log w = none) ∧ log u = some v ∧ v ≠ 0 ∧
        g.hash.tid2tblBlk u = some blk ∧
        (g.hash.blk blk).x_iTidVals (u % TIDTBLBLK_MAXSZ) = v := by
  have hnext := h.linked.indexed.nxtTidTblVal_any tid
  rw [hat.nxtTidTblVal_eq]
  cases hr : g.hash.nxtTidTblVal tid 0 with
  | none => exact .inl ⟨rfl, fun w hw => journal_none (hnext.absent hr w hw (Nat.zero_le w))⟩
  | some r =>
    obtain ⟨u, blk⟩ := r
    obtain ⟨hlt, hne, hblk, hmin⟩ := hnext.found u blk hr
    cases hv : log u with
    | none =>
      rw [hv] at hne
      exact absurd rfl hne
    | some v =>
      rw [hv] at hne
      obtain ⟨off, hoff, _, _, hval⟩ :=
        (TidRun.lookupExact_of_indexed h.linked.indexed).tblBlk u v hv
      cases hblk.symm.trans hoff
      exact .inr ⟨u, blk, v, rfl, hlt,
        fun w hw hwu => journal_none (hmin w hw (Nat.zero_le w) hwu), hv, hne, hblk, hval⟩

theorem LogOk.val_lt (hok : LogOk log) (h : TidOk s E log) {v : Nat} (hv : log tid = some v)
    (hne : v ≠ 0) (hiter : isTidValIterOff v = false) : v < 2 ^ 64 := by
  by_cases hflush : v = TIDDEL_FLUSHALL
  . rw [hflush]
    decide
  . have hle := (h.linked.indexed.log_lt v 0 (hok.dead tid v hv hne hiter hflush)).2.1
    have hlt := h.linked.indexed.tid_lt
    omega

inductive ItemIter (iBufSz fuel : Nat) (log : TidLog) (E : List Nat) (g : TidGet) (tid : Nat) : Prop
  | none (hgap : ∀ w, tid < w → g.hash.journal log w = none)
    (heq : getNxtTidItemLoop iBufSz (fuel + 1) g tid = (g, 0))
  | expired (u x : Nat) (hx : x ∈ E) (hlink : g.hash.tidLink x = u) (hlt : tid < u)
    (hgap : ∀ w, tid < w → w < u → g.hash.journal log w = none)
    (heq : getNxtTidItemLoop iBufSz (fuel + 1) g tid =
      getNxtTidItemLoop iBufSz fuel { g with hash := g.hash.eraseIteratorHelper x, pBlk := 0 } u)
    (hunlinks : ItemUnlinks (fuel + 1) g tid → g.hash.Unlinks u ∧
      ItemUnlinks fuel { g with hash := g.hash.eraseIteratorHelper x, pBlk := 0 } u)
  | full (u blk : Nat) (e : HashEntry) (hnext : NextEntry (g.hash.journal log) tid u e)
    (hsize : iBufSz < entrySize e)
    (heq : getNxtTidItemLoop iBufSz (fuel + 1) g tid = ({ g with pBlk := blk }, -(entrySize e : Int)))
  | packed (u blk : Nat) (e : HashEntry) (mem : Mem)
    (hnext : NextEntry (g.hash.journal log) tid u e)
    (hsize : entrySize e ≤ iBufSz) (hblk : g.hash.tid2tblBlk u = some blk)
    (hpkt : HasPkt mem g.pos u e) (hout : SameOutside g.mem mem g.pos (entrySize e))
    (heq : getNxtTidItemLoop iBufSz (fuel + 1) g tid =
      ({ g with pBlk := blk, mem := mem, tidLast := u }, (entrySize e : Int)))

theorem itemIter (h : Journaled g.hash E log) (hat : AtBlk g tid) (hn : n < 2 ^ 32) (fuel : Nat)
    : ItemIter n fuel log E g tid := by
  rcases nxtTidTblVal_cases h.toTidOk hat with ⟨hnone, hgap⟩ | ⟨u, blk, v, hsome, hlt, hgap, hv, hne,
    hblk, hval⟩
  . refine .none hgap ?_
    rw [getNxtTidItemLoop, hnone]
  have htid : u < 2 ^ 64 := by
    have hle := (h.linked.indexed.log_lt u v hv).2.1
    have hmax := h.linked.indexed.tid_lt
    omega
  have hJ : g.hash.journal log u = tidEntry g.hash.table.elem v := journalOf_of_some hv
  by_cases hiter : isTidValIterOff v = true
  . obtain ⟨hx, hlink⟩ := h.linked.names u v hv hiter
    obtain ⟨e, he, hoff, _⟩ := h.rep.lookup.elem_some hx
    have hentry : g.hash.journal log u = some (.add e.key e.getVal) := by
      rw [hJ]
      unfold tidEntry
      rw [if_neg hne, if_pos hiter, he]
      rfl
    by_cases hexp : isExpired g.hash e = true
    . refine .expired u _ hx hlink hlt hgap ?_ ?_
      . rw [getNxtTidItemLoop, hsome]
        dsimp only
        rw [hval, if_pos hiter, hoff]
        dsimp only
        rw [if_pos hexp]
      . intro hu
        rw [ItemUnlinks, hsome] at hu
        dsimp only at hu
        rw [hval, if_pos hiter, hoff] at hu
        dsimp only at hu
        rw [if_pos hexp, hlink] at hu
        exact hu
    . have hloop : getNxtTidItemLoop n (fuel + 1) g tid =
          if n < tidAddPktSize e then ({ g with pBlk := blk }, -(tidAddPktSize e : Int))
          else
            ({ g with
                pBlk := blk
                mem := iter2tidPack g.mem g.pos e u (tidAddPktSize e)
                tidLast := u }, (tidAddPktSize e : Int)) := by
        rw [getNxtTidItemLoop, hsome]
        dsimp only
        rw [hval, if_pos hiter, hoff]
        dsimp only
        rw [if_neg hexp]
      rw [← entrySize_add] at hloop
      by_cases hsize : n < entrySize (.add e.key e.getVal)
      . rw [if_pos hsize] at hloop
        exact .full u blk _ ⟨hlt, hgap, hentry⟩ hsize hloop
      . rw [if_neg hsize] at hloop
        have hkey := h.short _ hx
        simp only [LsShmHTable.keyOf, he] at hkey
        obtain ⟨hpkt, hout⟩ := hasPkt_iter2tidPack g.mem g.pos hkey
          (show tidAddPktSize e < 2 ^ 32 by rw [← entrySize_add]; omega) htid
        rw [← entrySize_add] at hpkt hout
        exact .packed u blk _ _ ⟨hlt, hgap, hentry⟩ (by omega) hblk hpkt hout hloop
  . have hiter' : isTidValIterOff v = false := by simpa using hiter
    have hv64 := h.logOk.val_lt h.toTidOk hv hne hiter'
    obtain ⟨hpkt, hout⟩ := hasPkt_del2tidPack g.mem g.pos hv64 htid rfl
    have hentry : g.hash.journal log u =
        some (if v = TIDDEL_FLUSHALL then .flush else .del v) := by
      rw [hJ]
      unfold tidEntry
      rw [if_neg hne, hiter', if_neg (by decide)]
      split <;> rfl
    generalize hd : (if v = TIDDEL_FLUSHALL then .flush else .del v : HashEntry) = d at hpkt hentry
    have hsz : entrySize d = tidDelPktSize := by
      rw [← hd]
      split <;> rfl
    have hloop : getNxtTidItemLoop n (fuel + 1) g tid =
        if n < tidDelPktSize then ({ g with pBlk := blk }, -(tidDelPktSize : Int))
        else
          ({ g with
              pBlk := blk
              mem := del2tidPack g.mem g.pos v u tidDelPktSize
              tidLast := u }, (tidDelPktSize : Int)) := by
      rw [getNxtTidItemLoop, hsome]
      dsimp only
      rw [hval, if_neg hiter]
    rw [← hsz] at hloop hpkt hout
    split at hloop
    . next hsize => exact .full u blk _ ⟨hlt, hgap, hentry⟩ hsize hloop
    . next hsize => exact .packed u blk _ _ ⟨hlt, hgap, hentry⟩ (by omega) hblk hpkt hout hloop

structure Passed (s : LsShmHash) (log : TidLog) (last : Nat) (s' : LsShmHash) (E' : List Nat)
    (log' : TidLog) : Prop where
  journaled : Journaled s' E' log'
  later : Later (s.journal log) s.x_tid (s'.journal log') s'.x_tid
  same : ∀ w ≤ last, s'.journal log' w = s.journal log w

variable {s' s'' : LsShmHash} {E' E'' : List Nat} {log' log'' : TidLog} {last u x : Nat}

theorem Passed.refl (h : Journaled s E log) (last : Nat) : Passed s log last s E log :=
  ⟨h, Later.refl _ (h.linked.journal_le _), fun _ _ => rfl⟩

theorem Passed.trans (h : Passed s log last s' E' log') {last' : Nat}
    (h' : Passed s' log' last' s'' E'' log'') (hle : last ≤ last') : Passed s log last s'' E'' log'' where
  journaled := h'.journaled
  later := h.later.trans h'.later
  same := fun w hw => (h'.same w (by omega)).trans (h.same w hw)

theorem passed_erase (h : Journaled s E log) (hx : x ∈ E) (hlink : s.tidLink x = u)
    (hu : s.Unlinks u) (hlt : last < u)
    : Passed s log last (s.eraseIteratorHelper x) (E.erase x) (unlinked log u s.x_tid) ∧
        (s.eraseIteratorHelper x).x_tid = s.x_tid + 1 ∧
        (∀ w ≤ u, s.journal log w = none ∨ w = u →
          (s.eraseIteratorHelper x).journal (unlinked log u s.x_tid) w = none) := by
  subst hlink
  obtain ⟨hj, htid, hlater⟩ := h.erase hx hu
  obtain ⟨_, hothers, _⟩ := erase_others h.rep hx rfl
  have hc := h.linked.carries x hx
  have hle := (h.linked.indexed.log_lt _ _ hc).2.1
  have hsame : ∀ w ≤ s.x_tid, w ≠ s.tidLink x →
      (s.eraseIteratorHelper x).journal (unlinked log (s.tidLink x) s.x_tid) w = s.journal log w :=
    fun w hw hwx => h.linked.journal_unlinked_ne (fun y _ hyx => hothers y hyx) hwx (by omega)
  refine ⟨⟨hj, by rw [htid]; exact hlater, fun w hw => hsame w (by omega) (by omega)⟩, htid, ?_⟩
  intro w hw hwu
  by_cases hwx : w = s.tidLink x
  . subst hwx
    apply journal_none
    have hne : s.tidLink x ≠ s.x_tid + 1 := by omega
    unfold unlinked clrLog
    rw [Function.update_of_ne hne, Function.update_self, hc]
    rfl
  . rw [hsame w (by omega) hwx]
    exact hwu.resolve_right hwx

inductive ItemDone (iBufSz : Nat) (J : HashJournal) (g : TidGet) (r : TidGet × Int) : Prop
  | none (hgap : ∀ w, g.tidLast < w → J w = none) (hret : r.2 = 0) (hlast : r.1.tidLast = g.tidLast)
    (hmem : r.1.mem = g.mem) (hpos : r.1.pos = g.pos)
  | full (u : Nat) (e : HashEntry) (hnext : NextEntry J g.tidLast u e) (hsize : iBufSz < entrySize e)
    (hret : r.2 = -(entrySize e : Int)) (hlast : r.1.tidLast = g.tidLast) (hmem : r.1.mem = g.mem)
    (hpos : r.1.pos = g.pos)
  | packed (e : HashEntry) (hnext : NextEntry J g.tidLast r.1.tidLast e) (hsize : entrySize e ≤ iBufSz)
    (hret : r.2 = (entrySize e : Int)) (hpkt : HasPkt r.1.mem g.pos r.1.tidLast e)
    (hout : SameOutside g.mem r.1.mem g.pos (entrySize e)) (hpos : r.1.pos = g.pos)
    (hat : AtBlk r.1 r.1.tidLast)

theorem getNxtTidItemLoop_spec {fuel : Nat} (h : Journaled g.hash E log) (hat : AtBlk g tid)
    (hn : n < 2 ^ 32) (hle : g.tidLast ≤ tid)
    (hgap : ∀ w, g.tidLast < w → w ≤ tid → g.hash.journal log w = none)
    (hfuel : g.hash.x_tid - tid + E.length < fuel) (hu : ItemUnlinks fuel g tid)
    : ∃ E' log', Passed g.hash log g.tidLast (getNxtTidItemLoop n fuel g tid).1.hash E' log' ∧
        ItemDone n ((getNxtTidItemLoop n fuel g tid).1.hash.journal log') g
          (getNxtTidItemLoop n fuel g tid) := by
  induction fuel generalizing g tid E log with
  | zero => omega
  | succ fuel ih =>
    have hnext : ∀ {u : Nat} {e : HashEntry}, NextEntry (g.hash.journal log) tid u e →
        NextEntry (g.hash.journal log) g.tidLast u e := by
      intro u e hnx
      refine ⟨Nat.lt_of_le_of_lt hle hnx.lt, ?_, hnx.entry⟩
      intro w hw hwu
      by_cases hwt : w ≤ tid
      . exact hgap w hw hwt
      . exact hnx.gap w (by omega) hwu
    cases itemIter h hat hn fuel with
    | none hrest heq =>
      rw [heq]
      refine ⟨E, log, Passed.refl h _, .none ?_ rfl rfl rfl rfl⟩
      intro w hw
      by_cases hwt : w ≤ tid
      . exact hgap w hw hwt
      . exact hrest w (by omega)
    | full u blk e hnx hsize heq =>
      rw [heq]
      exact ⟨E, log, Passed.refl h _, .full u e (hnext hnx) hsize rfl rfl rfl rfl⟩
    | packed u blk e mem hnx hsize hblk hpkt hout heq =>
      rw [heq]
      exact ⟨E, log, Passed.refl h _, .packed e (hnext hnx) hsize rfl hpkt hout rfl (.inr hblk)⟩
    | expired u x hx hlink hlt hrest heq hunlinks =>
      obtain ⟨hux, hu⟩ := hunlinks hu
      obtain ⟨hpassed, htid, hnone⟩ := passed_erase h hx hlink hux (Nat.lt_of_le_of_lt hle hlt)
      have hux_le : u ≤ g.hash.x_tid := by
        rw [← hlink]
        exact (h.linked.indexed.log_lt _ _ (h.linked.carries x hx)).2.1
      rw [heq]
      have hat' : AtBlk { g with hash := g.hash.eraseIteratorHelper x, pBlk := 0 } u := .inl rfl
      have hrec := ih hpassed.journaled hat' (hle.trans (Nat.le_of_lt hlt))
        (fun w hw hwu => hnone w hwu ?_) ?_ hu
      . obtain ⟨E'', log'', hpassed', hdone⟩ := hrec
        refine ⟨E'', log'', hpassed.trans hpassed' (Nat.le_refl _), ?_⟩
        cases hdone with
        | none hg hret hlast hmem hpos => exact .none hg hret hlast hmem hpos
        | full u' e hnx hsize hret hlast hmem hpos => exact .full u' e hnx hsize hret hlast hmem hpos
        | packed e hnx hsize hret hpkt hout hpos hat => exact .packed e hnx hsize hret hpkt hout hpos hat
      . by_cases hwt : w ≤ tid
        . exact .inl (hgap w hw hwt)
        . by_cases hwu' : w = u
          . exact .inr hwu'
          . exact .inl (hrest w (by omega) (by omega))
      . have hlen := List.length_erase_of_mem hx
        have hpos := List.length_pos_of_mem hx
        show (g.hash.eraseIteratorHelper x).x_tid - u + (E.erase x).length < fuel
        omega

theorem length_lt_tidFuel (h : TidOk s E log) (tid : Nat) : s.x_tid - tid + E.length < tidFuel s := by
  have hlive := h.rep.length_lt_fuel h.rep.nodup (fun _ hx => hx)
  unfold LsShmHash.fuel at hlive
  unfold tidFuel
  omega

end Item

section Items

variable {es : List (Nat × HashEntry)}

theorem entrySize_ge (e : HashEntry) : 24 ≤ entrySize e := by
  cases e with
  | add key val =>
    have hge := le_round4 (sizeofPktHdr + sizeofTidAdd + key.length + val.length)
    simp only [sizeofPktHdr, sizeofTidAdd] at hge
    simp only [entrySize, sizeofPktHdr, sizeofTidAdd]
    omega
  | del id => exact Nat.le_refl 24
  | flush => exact Nat.le_refl 24

/--
What a call leaves: the entries of the journal from `*pTidLast` on as far as they fit.
-/
structure TidPacked (J : HashJournal) (g : TidGet) (n : Nat) (es : List (Nat × HashEntry))
    (r : TidGet × Int) : Prop where
  entries : Stretch J g.tidLast r.1.tidLast es
  pkts : HasPkts r.1.mem g.pos es
  pos : r.1.pos = g.pos + entriesSize es
  size : entriesSize es ≤ n
  out : SameOutside g.mem r.1.mem g.pos (entriesSize es)
  last_le : g.tidLast ≤ g.hash.x_tid → r.1.tidLast ≤ r.1.hash.x_tid
  ended : r.2 = 0 ∧ (∀ w, r.1.tidLast < w → J w = none) ∨
    ∃ u e, NextEntry J r.1.tidLast u e ∧ n - entriesSize es < entrySize e ∧
      r.2 = -(entrySize e : Int)

theorem tidGetNxtItemsLoop_spec {fuel : Nat} (h : Journaled g.hash E log) (hat : AtBlk g g.tidLast)
    (hn : n < 2 ^ 32) (hfuel : n < fuel) (hu : ItemsUnlink fuel g n)
    : ∃ E' log' es,
        Passed g.hash log g.tidLast (tidGetNxtItemsLoop fuel g n).1.hash E' log' ∧
        TidPacked ((tidGetNxtItemsLoop fuel g n).1.hash.journal log') g n es
          (tidGetNxtItemsLoop fuel g n) := by
  induction fuel generalizing g n E log with
  | zero => omega
  | succ fuel ih =>
    obtain ⟨hitem, hrest⟩ := hu
    obtain ⟨E', log', hpassed, hdone⟩ := getNxtTidItemLoop_spec h hat hn (Nat.le_refl _)
      (fun w hw hwt => by omega) (length_lt_tidFuel h.toTidOk g.tidLast) hitem
    change Passed g.hash log g.tidLast (getNxtTidItem g n).1.hash E' log' at hpassed
    change ItemDone n ((getNxtTidItem g n).1.hash.journal log') g (getNxtTidItem g n) at hdone
    rw [tidGetNxtItemsLoop]
    dsimp only at hrest ⊢
    generalize getNxtTidItem g n = r at hpassed hdone hrest ⊢
    cases hdone with
    | none hgap hret hlast hmem hpos =>
      rw [if_pos (by omega)]
      refine ⟨E', log', [], hpassed, ?_⟩
      rw [← hlast] at hgap
      refine ⟨.nil (Nat.le_of_eq hlast.symm) (fun w hw hwl => by omega), trivial, hpos, Nat.zero_le n,
        fun i _ => by rw [hmem], fun hle => by rw [hlast]; exact Nat.le_trans hle hpassed.later.le,
        .inl ⟨hret, hgap⟩⟩
    | full u e hnext hsize hret hlast hmem hpos =>
      rw [if_pos (by omega)]
      refine ⟨E', log', [], hpassed, ?_⟩
      rw [← hlast] at hnext
      refine ⟨.nil (Nat.le_of_eq hlast.symm) (fun w hw hwl => by omega), trivial, hpos, Nat.zero_le n,
        fun i _ => by rw [hmem], fun hle => by rw [hlast]; exact Nat.le_trans hle hpassed.later.le,
        .inr ⟨u, e, hnext, ?_, hret⟩⟩
      show n - 0 < entrySize e
      omega
    | packed e hnext hsize hret hpkt hout hpos hat' =>
      have hge := entrySize_ge e
      have hnat : r.2.toNat = entrySize e := by omega
      rw [if_neg (by omega)]
      rw [hnat] at hrest ⊢
      have hrec := ih (g := { r.1 with pos := r.1.pos + entrySize e }) (n := n - entrySize e)
        hpassed.journaled hat' (by omega) (by omega) (hrest (by omega))
      dsimp only at hrec
      obtain ⟨E'', log'', es, hpassed', hpacked⟩ := hrec
      have hlt := hnext.lt
      generalize tidGetNxtItemsLoop fuel _ _ = q at hpassed' hpacked ⊢
      obtain ⟨hentries, hpkts, hq, hfits, hframe, hlast_le, hended⟩ := hpacked
      dsimp only at hentries hpkts hq hframe hlast_le
      have hsum : entriesSize ((r.1.tidLast, e) :: es) = entrySize e + entriesSize es := List.sum_cons
      rw [hpos] at hpkts hq hframe
      refine ⟨E'', log'', (r.1.tidLast, e) :: es, hpassed.trans hpassed' (by omega), ?_⟩
      constructor
      case entries =>
        refine .cons hlt ?_ ((hpassed'.same _ (Nat.le_refl _)).trans hnext.entry) hentries
        intro w hw hwu
        exact (hpassed'.same w (by omega)).trans (hnext.gap w hw hwu)
      case pkts => exact ⟨hpkt.congr fun i _ hi => hframe i (.inl hi), hpkts⟩
      case pos => omega
      case size => omega
      case out =>
        intro i hi
        rw [hframe i (by omega), hout i (by omega)]
      case last_le =>
        intro _
        apply hlast_le
        apply hpassed.journaled.linked.journal_le r.1.hash.table.elem
        show r.1.hash.journal log' r.1.tidLast ≠ none
        rw [hnext.entry]
        exact Option.some_ne_none e
      case ended =>
        rw [hsum]
        rcases hended with ⟨hz, hnone⟩ | ⟨u, d, hnx, hbig, hd⟩
        . exact .inl ⟨hz, hnone⟩
        . exact .inr ⟨u, d, hnx, by omega, hd⟩

theorem wfPrefix_of_hasPkts {fuel : Nat} (h : HasPkts mem p es) (hs : Journal.Ascends last es)
    (hfuel : entriesSize es < fuel)
    : (wfPrefix mem fuel last p (entriesSize es)).map (fun p => (pktTid mem p, pktEntry mem p)) =
        es := by
  induction es generalizing p fuel last with
  | nil =>
    cases fuel with
    | zero => omega
    | succ fuel =>
      have hno : ¬ (wfPkt mem p (entriesSize []) = true ∧ last < pktTid mem p) := by
        intro ⟨hwf, _⟩
        have hb := wfPkt_bounds hwf
        rw [show entriesSize [] = 0 from rfl] at hb
        omega
      rw [wfPrefix, if_neg hno]
      rfl
  | cons hd es ih =>
    obtain ⟨t, e⟩ := hd
    obtain ⟨hpkt, hrest⟩ := h
    obtain ⟨hlt, hs⟩ := hs
    have hsum : entriesSize ((t, e) :: es) = entrySize e + entriesSize es := List.sum_cons
    have hge := entrySize_ge e
    rw [hsum] at hfuel ⊢
    cases fuel with
    | zero => omega
    | succ fuel =>
      have hgo : wfPkt mem p (entrySize e + entriesSize es) = true ∧ last < pktTid mem p :=
        ⟨wfPkt_mono hpkt.wf (Nat.le_add_right _ _), by rw [hpkt.tid]; exact hlt⟩
      rw [wfPrefix, if_pos hgo, List.map_cons, hpkt.size, hpkt.tid, hpkt.entry,
        Nat.add_sub_cancel_left, ih hrest hs (by omega)]

theorem Filled.stream_eq {size : Nat} (h : Filled mem size es) (hs : Journal.Ascends last es)
    : stream mem last size = es := by
  rw [h.size]
  exact wfPrefix_of_hasPkts h.pkts hs (by omega)

end Items

section Call

variable {pBuf : Mem}

/--
What the call relies on: the size of the buffer is an `int`, and what has expired can be taken out.
-/
structure NextOk (s : LsShmHash) (tidLast : Nat) (pBuf : Mem) (iBufSz : Nat) : Prop where
  size : iBufSz < 2 ^ 31
  unlinks : ItemsUnlink (iBufSz + 1) ⟨s, tidLast, 0, pBuf, 0⟩ iBufSz
  le : tidLast ≤ s.x_tid

instance (s : LsShmHash) (tidLast : Nat) (pBuf : Mem) (iBufSz : Nat)
    : Decidable (NextOk s tidLast pBuf iBufSz) :=
  decidable_of_iff (iBufSz < 2 ^ 31 ∧ ItemsUnlink (iBufSz + 1) ⟨s, tidLast, 0, pBuf, 0⟩ iBufSz ∧
      tidLast ≤ s.x_tid)
    ⟨fun ⟨h₁, h₂, h₃⟩ => ⟨h₁, h₂, h₃⟩, fun ⟨h₁, h₂, h₃⟩ => ⟨h₁, h₂, h₃⟩⟩

/--
The buffer holds the entries of the journal from `*pTidLast` on up to the new `*pTidLast`, in their
order, and nothing else is written. That is all there is, or the next entry does not fit any more.
-/
structure Sends (J : HashJournal) (tidLast : Nat) (pBuf : Mem) (iBufSz : Nat) (r : TidGet × Int)
    : Prop where
  entries : Stretch J tidLast r.1.tidLast (stream r.1.mem tidLast r.1.pos)
  size : r.1.pos ≤ iBufSz
  rest : ∀ i, r.1.pos ≤ i → r.1.mem i = pBuf i
  ended : r.1.tidLast = r.1.hash.x_tid ∧ r.2 = r.1.pos ∨
    ∃ u e, NextEntry J r.1.tidLast u e ∧ iBufSz < r.1.pos + entrySize e ∧
      r.2 = if 0 < r.1.pos then (r.1.pos : Int) else -(entrySize e : Int)

theorem tidGetNxtItems_spec (h : Journaled s E log) {tidLast iBufSz : Nat}
    (hok : NextOk s tidLast pBuf iBufSz)
    : ∃ E' log', Passed s log tidLast (tidGetNxtItems s tidLast pBuf iBufSz).1.hash E' log' ∧
        Filled (tidGetNxtItems s tidLast pBuf iBufSz).1.mem (tidGetNxtItems s tidLast pBuf iBufSz).1.pos
          (stream (tidGetNxtItems s tidLast pBuf iBufSz).1.mem tidLast
            (tidGetNxtItems s tidLast pBuf iBufSz).1.pos) ∧
        Sends ((tidGetNxtItems s tidLast pBuf iBufSz).1.hash.journal log') tidLast pBuf iBufSz
          (tidGetNxtItems s tidLast pBuf iBufSz) := by
  obtain ⟨hsize, hunlinks, hle⟩ := hok
  obtain ⟨E', log', es, hpassed, hpacked⟩ :=
    tidGetNxtItemsLoop_spec (g := ⟨s, tidLast, 0, pBuf, 0⟩) h (.inl rfl) (by omega)
      (Nat.lt_succ_self iBufSz) hunlinks
  refine ⟨E', log', ?_⟩
  unfold tidGetNxtItems
  dsimp only at hpassed hpacked ⊢
  generalize tidGetNxtItemsLoop _ _ _ = r at hpassed hpacked ⊢
  obtain ⟨hentries, hpkts, hpos, hfits, hout, hlast_le, hended⟩ := hpacked
  dsimp only at hentries hpkts hpos hout hlast_le
  rw [Nat.zero_add] at hpos
  have hfilled : Filled r.1.mem r.1.pos es := ⟨hpkts, hpos⟩
  have hstream := hfilled.stream_eq hentries.ascends
  have hrest : ∀ i, r.1.pos ≤ i → r.1.mem i = pBuf i := fun i hi => hout i (by omega)
  have hle_size : r.1.pos ≤ iBufSz := by omega
  by_cases hz : 0 ≤ r.2
  . simp only [if_pos hz]
    rcases hended with ⟨hret, hnone⟩ | ⟨u, e, _, _, hret⟩
    . have htail : Stretch (r.1.hash.journal log') r.1.tidLast r.1.hash.x_tid [] :=
        .nil (hlast_le hle) (fun w hw _ => hnone w hw)
      refine ⟨hpassed, ?_, ?_, hle_size, hrest, .inl ⟨rfl, ?_⟩⟩
      . rw [hstream]
        exact hfilled
      . dsimp only
        rw [hstream, ← List.append_nil es]
        exact hentries.append htail
      . dsimp only
        split <;> omega
    . have hge := entrySize_ge e
      omega
  . simp only [if_neg hz]
    rcases hended with ⟨hret, _⟩ | ⟨u, e, hnext, hbig, hret⟩
    . omega
    . have hfull : iBufSz < r.1.pos + entrySize e := by omega
      refine ⟨hpassed, ?_, ?_, hle_size, hrest, .inr ⟨u, e, hnext, hfull, ?_⟩⟩
      . rw [hstream]
        exact hfilled
      . rw [hstream]
        exact hentries
      . rw [hret]

end Call

namespace TidSendRun

/--
What happens to a master: the operations on its hash, and the calls of `tidGetNxtItems`.
-/
inductive MasterOp where
  | op (o : LsShmHashOp)
  | next (tidLast : Nat) (pBuf : Mem) (iBufSz : Nat)

def step (s : LsShmHash) : MasterOp → LsShmHash
  | .op o => s.step o
  | .next tidLast pBuf iBufSz => (tidGetNxtItems s tidLast pBuf iBufSz).1.hash

def Ok (s : LsShmHash) : MasterOp → Prop
  | .op o => HashJournalRun.Ok s o
  | .next tidLast pBuf iBufSz => NextOk s tidLast pBuf iBufSz

instance (s : LsShmHash) (op : MasterOp) : Decidable (Ok s op) :=
  match op with
  | .op _ => inferInstanceAs (Decidable (HashJournalRun.Ok _ _))
  | .next _ _ _ => inferInstanceAs (Decidable (NextOk _ _ _ _))

theorem step_advanced (h : Journaled s E log) (op : MasterOp) (hok : Ok s op)
    : Advanced s log (step s op) := by
  cases op with
  | op o => exact HashJournalRun.step_advanced h o hok
  | next tidLast pBuf iBufSz =>
    obtain ⟨E', log', hpassed, _⟩ := tidGetNxtItems_spec h hok
    exact ⟨E', log', hpassed.journaled, hpassed.later⟩

theorem exec_advanced (h : Journaled s E log) {ops : List MasterOp} (hok : Run.Meets step Ok s ops)
    : Advanced s log (Run.exec step s ops) :=
  Run.exec_invariant (fun s' => Advanced s log s')
    (fun _ op ⟨_, _, hj, hl⟩ hop => (step_advanced hj op hop).after hl) h.refl hok

/--
At any point of a run of a master, a buffer is filled with exactly the entries of the transaction
table from the given id on, in their order, up to the id that is handed back. The elements that are
dropped in passing because they have expired are themselves told of in the table.
-/
theorem sends_exec (m : Shm) (parm : HashParm) (init_size : Nat) (s : LsShmHash)
    (h : allocHTable m parm init_size = some s) (hn : init_size ≤ MAX_INIT_SIZE)
    (hflag : parm.flagTid = true) (hmaster : parm.slave = false) (ops : List MasterOp)
    (tidLast : Nat) (pBuf : Mem) (iBufSz : Nat)
    (hok : Run.Meets step Ok s (ops ++ [.next tidLast pBuf iBufSz]))
    : Sends (tableJournal (tidGetNxtItems (Run.exec step s ops) tidLast pBuf iBufSz).1.hash)
          tidLast pBuf iBufSz (tidGetNxtItems (Run.exec step s ops) tidLast pBuf iBufSz) ∧
        HashJournalRun.Tells (Run.exec step s ops)
          (tidGetNxtItems (Run.exec step s ops) tidLast pBuf iBufSz).1.hash := by
  obtain ⟨E, log, hj, _⟩ :=
    exec_advanced (HashJournalRun.allocHTable_journaled h hn hflag hmaster) hok.append_left
  obtain ⟨E', log', hpassed, _, hsends⟩ := tidGetNxtItems_spec hj hok.append_right.1
  rw [tableJournal_eq hpassed.journaled.toTidOk]
  exact ⟨hsends, HashJournalRun.tells_of_later hj hpassed.journaled hpassed.later⟩

theorem sends_exec_sample
    : Sends (tableJournal (tidGetNxtItems (Run.exec step
          (TidHashRun.sample.get TidHashRun.sample_isSome)
          [.op (.doInsert [1] (ValParm.ofBytes [10])), .op (.doSet [2] (ValParm.ofBytes [20]))])
            0 (fun _ => 0) 40).1.hash)
        0 (fun _ => 0) 40 (tidGetNxtItems (Run.exec step
          (TidHashRun.sample.get TidHashRun.sample_isSome)
          [.op (.doInsert [1] (ValParm.ofBytes [10])), .op (.doSet [2] (ValParm.ofBytes [20]))])
            0 (fun _ => 0) 40) :=
  (sends_exec _ _ 7 _ (Option.some_get TidHashRun.sample_isSome).symm (by decide) rfl rfl _ 0
    (fun _ => 0) 40 (by decide +kernel)).1

end TidSendRun

end Lsmcd
