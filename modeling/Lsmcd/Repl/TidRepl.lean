import Lsmcd.Memcache.TidApply

/-!
Replication from a master to a slave: `bcastNewTidData` hands the changes of the hash to the
connections, each packet with the last id in front, and `addAndUpdateData` applies them.
-/

namespace Lsmcd

open LsShmTidMgr LsShmHash
open Journal (Later Stretch Chain Synced)

structure TidData where
  iLocalTid : Nat
  mem : Mem
  size : Nat

/--
The variables of the loop of `bcastNewTidData`, and the buffers that were handed out.
-/
structure Bcast where
  hash : LsShmHash
  iNewTid : Nat
  extra : Nat
  sent : List TidData

def Bcast.room (b : Bcast) : Nat := 64000 + b.extra - 8

/--
`loop` iterations are left. `pBufs` is what the memory of the buffers holds.
-/
def bcastLoop (iLocalTid : Nat) (pBufs : Nat → Mem) : Nat → Bcast → Bcast
  | 0, b => b
  | loop + 1, b =>
    let r := tidGetNxtItems b.hash b.iNewTid (pBufs loop) b.room
    let b := { b with hash := r.1.hash, iNewTid := r.1.tidLast }
    if r.2 = 0 then b
    else if r.2 < 0 then bcastLoop iLocalTid pBufs loop { b with extra := (-r.2).toNat }
    else
      bcastLoop iLocalTid pBufs loop
        { b with sent := b.sent ++ [⟨iLocalTid, r.1.mem, r.2.toNat⟩] }

def bcastNewTidData (s : LsShmHash) (iLstTid : Nat) (pBufs : Nat → Mem) : Bcast :=
  bcastLoop s.x_tid pBufs 10 ⟨s, iLstTid, 0, []⟩

def BcastOk (iLocalTid : Nat) (pBufs : Nat → Mem) : Nat → Bcast → Prop
  | 0, _ => True
  | loop + 1, b =>
    NextOk b.hash b.iNewTid (pBufs loop) b.room ∧
      let r := tidGetNxtItems b.hash b.iNewTid (pBufs loop) b.room
      let b := { b with hash := r.1.hash, iNewTid := r.1.tidLast }
      if r.2 = 0 then True
      else if r.2 < 0 then BcastOk iLocalTid pBufs loop { b with extra := (-r.2).toNat }
      else
        BcastOk iLocalTid pBufs loop { b with sent := b.sent ++ [⟨iLocalTid, r.1.mem, r.2.toNat⟩] }

instance decidableBcastOk (iLocalTid : Nat) (pBufs : Nat → Mem)
    : ∀ loop b, Decidable (BcastOk iLocalTid pBufs loop b)
  | 0, _ => isTrue trivial
  | loop + 1, _ => by
    have := decidableBcastOk iLocalTid pBufs loop
    unfold BcastOk
    exact inferInstance

inductive Carries : List TidData → List (Nat × HashEntry) → Prop
  | nil : Carries [] []
  | cons {d : TidData} {ds : List TidData} {es es' : List (Nat × HashEntry)}
    (hd : Filled d.mem d.size es) (hds : Carries ds es') : Carries (d :: ds) (es ++ es')

variable {s : LsShmHash} {E : List Nat} {log : TidLog} {ds ds' : List TidData}
  {es es' : List (Nat × HashEntry)} {iLocalTid loop : Nat} {pBufs : Nat → Mem} {b : Bcast}

theorem Carries.append (h : Carries ds es) (h' : Carries ds' es') : Carries (ds ++ ds') (es ++ es') := by
  induction h with
  | nil => exact h'
  | cons hd _ ih =>
    rw [List.append_assoc]
    exact .cons hd ih

theorem Carries.concat (h : Carries ds es) {d : TidData} (hd : Filled d.mem d.size es')
    : Carries (ds ++ [d]) (es ++ es') := by
  have hone := Carries.cons hd .nil
  rw [List.append_nil] at hone
  exact h.append hone

/--
What a broadcast leaves: the buffers carry the entries of the journal from the given id on up to the
one that is returned. That is the last id, or all iterations were used up.
-/
structure Handed (J : HashJournal) (iLstTid : Nat) (ds : List TidData) (es : List (Nat × HashEntry))
    (b : Bcast) : Prop where
  entries : Stretch J iLstTid b.iNewTid es
  carries : Carries ds es
  le : b.iNewTid ≤ b.hash.x_tid

theorem Filled.eq_nil {mem : Mem} (h : Filled mem 0 es) : es = [] := by
  cases es with
  | nil => rfl
  | cons hd es =>
    have hge := entrySize_ge hd.2
    have hsum : entriesSize (hd :: es) = entrySize hd.2 + entriesSize es := List.sum_cons
    have hsize := h.size
    omega

theorem Sends.last_le {r : TidGet × Int} {tidLast iBufSz : Nat} {pBuf : Mem}
    (h : Sends (r.1.hash.journal log) tidLast pBuf iBufSz r) (hj : Journaled r.1.hash E log)
    : r.1.tidLast ≤ r.1.hash.x_tid := by
  rcases h.ended with ⟨heq, _⟩ | ⟨u, e, hnext, _, _⟩
  . exact Nat.le_of_eq heq
  . have hu := hj.linked.journal_le r.1.hash.table.elem u (by
      show r.1.hash.journal log u ≠ none
      rw [hnext.entry]
      exact Option.some_ne_none e)
    exact Nat.le_trans (Nat.le_of_lt hnext.lt) hu

theorem Handed.after {J J' : HashJournal} {p q : Nat} (h : Handed J' q ds es b) (hs : Stretch J p q es')
    (hsame : ∀ w ≤ q, J' w = J w) (hc : Carries ds' es') : Handed J' p (ds' ++ ds) (es' ++ es) b where
  entries := (hs.congr fun w _ hw => hsame w hw).append h.entries
  carries := hc.append h.carries
  le := h.le

theorem bcastLoop_spec (h : Journaled b.hash E log) (hle : b.iNewTid ≤ b.hash.x_tid)
    (hok : BcastOk iLocalTid pBufs loop b)
    : ∃ E' log' ds es, Passed b.hash log b.iNewTid (bcastLoop iLocalTid pBufs loop b).hash E' log' ∧
        (bcastLoop iLocalTid pBufs loop b).sent = b.sent ++ ds ∧
        Handed ((bcastLoop iLocalTid pBufs loop b).hash.journal log') b.iNewTid ds es
          (bcastLoop iLocalTid pBufs loop b) := by
  induction loop generalizing b E log with
  | zero =>
    exact ⟨E, log, [], [], Passed.refl h _, (List.append_nil _).symm,
      .nil (Nat.le_refl _) (fun w hw hwt => absurd hw (Nat.not_lt.mpr hwt)), .nil, hle⟩
  | succ loop ih =>
    obtain ⟨hnext, hrest⟩ := hok
    obtain ⟨E₁, log₁, hpassed, hfilled, hsends⟩ := tidGetNxtItems_spec h hnext
    rw [bcastLoop]
    dsimp only at hrest ⊢
    generalize tidGetNxtItems b.hash b.iNewTid (pBufs loop) b.room = r at hrest hpassed hfilled hsends ⊢
    have hlast := hsends.entries.le
    have hle' := hsends.last_le hpassed.journaled
    have hnone : r.1.pos = 0 → stream r.1.mem b.iNewTid r.1.pos = [] := by
      intro hz
      rw [hz] at hfilled ⊢
      exact hfilled.eq_nil
    have hstretch := hsends.entries
    rcases Int.lt_trichotomy r.2 0 with hneg | hz | hpos
    . -- the buffer is too small for the next item
      have hzero : r.1.pos = 0 := by
        rcases hsends.ended with ⟨_, hret⟩ | ⟨_, _, _, _, hret⟩
        . omega
        . by_contra hne
          rw [if_pos (by omega)] at hret
          omega
      rw [hnone hzero] at hstretch
      rw [if_neg (by omega), if_pos hneg] at hrest ⊢
      obtain ⟨E', log', ds, es, hpassed', hsent, hhanded⟩ :=
        ih (b := ⟨r.1.hash, r.1.tidLast, (-r.2).toNat, b.sent⟩) hpassed.journaled hle' hrest
      exact ⟨E', log', ds, es, hpassed.trans hpassed' hlast, hsent,
        hhanded.after hstretch hpassed'.same .nil⟩
    . have hzero : r.1.pos = 0 := by
        rcases hsends.ended with ⟨_, hret⟩ | ⟨_, e, _, _, hret⟩
        . omega
        . have hge := entrySize_ge e
          split at hret <;> omega
      rw [hnone hzero] at hstretch
      rw [if_pos hz]
      exact ⟨E₁, log₁, [], [], hpassed, (List.append_nil _).symm, hstretch, .nil, hle'⟩
    . have hret : r.2.toNat = r.1.pos := by
        rcases hsends.ended with ⟨_, hret⟩ | ⟨_, _, _, _, hret⟩
        . omega
        . split at hret <;> omega
      rw [if_neg (by omega), if_neg (by omega), hret] at hrest ⊢
      obtain ⟨E', log', ds, es, hpassed', hsent, hhanded⟩ :=
        ih (b := ⟨r.1.hash, r.1.tidLast, b.extra, b.sent ++ [⟨iLocalTid, r.1.mem, r.1.pos⟩]⟩)
          hpassed.journaled hle' hrest
      have hone : Carries [⟨iLocalTid, r.1.mem, r.1.pos⟩] (stream r.1.mem b.iNewTid r.1.pos) :=
        Carries.nil.concat (d := ⟨iLocalTid, r.1.mem, r.1.pos⟩) hfilled
      refine ⟨E', log', [⟨iLocalTid, r.1.mem, r.1.pos⟩] ++ ds, _, hpassed.trans hpassed' hlast, ?_,
        hhanded.after hstretch hpassed'.same hone⟩
      rw [hsent, List.append_assoc]

theorem plain_of_stretch {p q : Nat} (h : Stretch (s.journal log) p q es) : Plain es := by
  intro t d hmem
  obtain ⟨v, _, hev⟩ := journalOf_eq_some (h.mem_iff.mp hmem).2.2
  exact (tidEntry_eq_del hev).2.2.1

theorem mirror_tidSetItems {mem : Mem} {n b q c : Nat} (h : Mirror s E log) (hfilled : Filled mem n es)
    (hfits : StreamFits mem (n + 2) s 0 n) (hok : PktsOk mem s (wfPrefix mem (n + 2) s.x_tid 0 n))
    (hc : Chain s.x_tid b es q c) (hb : s.x_lastTidPreClear ≤ b) (hplain : Plain es)
    : ∃ E' log', Mirror (tidSetItems s mem n).1 E' log' ∧
        (tidSetItems s mem n).1.replica log' = Journal.replay (s.replica log) es ∧
        (tidSetItems s mem n).1.x_tid = q ∧ (tidSetItems s mem n).1.x_lastTidPreClear ≤ c := by
  have hstream : pktEntries mem (wfPrefix mem (n + 2) s.x_tid 0 n) = es :=
    hfilled.stream_eq hc.ascends
  have hhandles := handles_of_fits h.slave (show n < n + 2 by omega) hfits
  unfold tidSetItems
  rw [tidSetItemsLoop_of_trace hhandles]
  rw [← hstream] at hc hplain ⊢
  exact mirror_applyAll h hok hc hb hplain

namespace TidReplRun

/--
A master and a slave that is connected to it. `currTid` is what the slave has been sent up to: its own
last id when it joins, then what `bcastNewTidData` has returned. `wire` are the packets under way, the
oldest one first.
-/
structure Repl where
  master : LsShmHash
  slave : LsShmHash
  currTid : Nat
  wire : List TidData

inductive ReplOp where
  | op (o : LsShmHashOp)
  | notify (pBufs : Nat → Mem)
  | recv

def step (y : Repl) : ReplOp → Repl
  | .op o => { y with master := y.master.step o }
  | .notify pBufs =>
    let b := bcastNewTidData y.master y.currTid pBufs
    { y with master := b.hash, currTid := b.iNewTid, wire := y.wire ++ b.sent }
  | .recv =>
    match y.wire with
    | [] => y
    | d :: ds => { y with slave := (tidSetItems y.slave d.mem d.size).1, wire := ds }

def Ok (y : Repl) : ReplOp → Prop
  | .op o => HashJournalRun.Ok y.master o
  | .notify pBufs => BcastOk y.master.x_tid pBufs 10 ⟨y.master, y.currTid, 0, []⟩
  | .recv => ∀ d ∈ y.wire.head?, StreamFits d.mem (d.size + 2) y.slave 0 d.size ∧
      PktsOk d.mem y.slave (wfPrefix d.mem (d.size + 2) y.slave.x_tid 0 d.size)

instance (y : Repl) (op : ReplOp) : Decidable (Ok y op) :=
  match op with
  | .op _ => inferInstanceAs (Decidable (HashJournalRun.Ok _ _))
  | .notify _ => inferInstanceAs (Decidable (BcastOk _ _ _ _))
  | .recv => inferInstanceAs (Decidable (∀ d ∈ y.wire.head?, _ ∧ _))

/--
The slave, brought up to date with what is under way, is in step with the journal of the master.
-/
structure Good (y : Repl) (E F : List Nat) (log flog : TidLog) (es : List (Nat × HashEntry))
    (b q c : Nat) : Prop where
  master : Journaled y.master E log
  slave : Mirror y.slave F flog
  wire : Carries y.wire es
  chain : Chain y.slave.x_tid b es q c
  pre : y.slave.x_lastTidPreClear ≤ b
  plain : Plain es
  last_le : q ≤ y.currTid
  base_le : c ≤ q
  synced : Synced (Journal.replay (y.slave.replica flog) es) (y.master.journal log) y.currTid
    y.master.x_tid c

def Inv (y : Repl) : Prop :=
  ∃ E F log flog es b q c, Good y E F log flog es b q c

theorem step_inv {y : Repl} (h : Inv y) (op : ReplOp) (hok : Ok y op) : Inv (step y op) := by
  obtain ⟨E, F, log, flog, es, b, q, c, hg⟩ := h
  cases op with
  | op o =>
    obtain ⟨E', log', hj, hl⟩ := HashJournalRun.step_advanced hg.master o hok
    exact ⟨E', F, log', flog, es, b, q, c, hj, hg.slave, hg.wire, hg.chain, hg.pre, hg.plain,
      hg.last_le, hg.base_le, hg.synced.later hl⟩
  | notify pBufs =>
    obtain ⟨E', log', ds, es', hpassed, hsent, hhanded⟩ :=
      bcastLoop_spec (b := ⟨y.master, y.currTid, 0, []⟩) hg.master hg.synced.le hok
    rw [List.nil_append] at hsent
    have hj := hpassed.journaled
    obtain ⟨q', c', hchain, hq', hc', hsync⟩ :=
      (hg.synced.later hpassed.later).stretch hhanded.entries hj.well hhanded.le hg.last_le hg.base_le
    rw [← Journal.replay_append] at hsync
    refine ⟨E', F, log', flog, es ++ es', b, q', c', hj, hg.slave, ?_, hg.chain.append hchain, hg.pre,
      ?_, hq', hc', hsync⟩
    . show Carries (y.wire ++ (bcastLoop _ _ _ _).sent) (es ++ es')
      rw [hsent]
      exact hg.wire.append hhanded.carries
    . intro t d hmem
      rcases List.mem_append.mp hmem with hmem | hmem
      . exact hg.plain t d hmem
      . exact plain_of_stretch hhanded.entries t d hmem
  | recv =>
    have hwire := hg.wire
    unfold step
    cases hw : y.wire with
    | nil => exact ⟨E, F, log, flog, es, b, q, c, hg⟩
    | cons d ds =>
      obtain ⟨hfits, hpkts⟩ := hok d (by rw [hw]; rfl)
      rw [hw] at hwire
      cases hwire with
      | @cons _ _ es₁ es₂ hd hds =>
        obtain ⟨q₁, c₁, hc₁, hc₂⟩ := hg.chain.split
        obtain ⟨F', flog', hm, hS, htid, hpre⟩ := mirror_tidSetItems hg.slave hd hfits hpkts hc₁ hg.pre
          (fun t x hmem => hg.plain t x (List.mem_append_left _ hmem))
        have hsync := hg.synced
        rw [Journal.replay_append, ← hS] at hsync
        exact ⟨E, F', log, flog', es₂, c₁, q, c, hg.master, hm, hds, by rw [htid]; exact hc₂, hpre,
          fun t x hmem => hg.plain t x (List.mem_append_right _ hmem), hg.last_le, hg.base_le, hsync⟩

theorem exec_inv {y : Repl} (h : Inv y) {ops : List ReplOp} (hok : Run.Meets step Ok y ops)
    : Inv (Run.exec step y ops) :=
  Run.exec_invariant Inv (fun _ op hinv hop => step_inv hinv op hop) h hok

theorem allocHTable_mirror {m : Shm} {parm : HashParm} {init_size : Nat} {s : LsShmHash}
    (h : allocHTable m parm init_size = some s) (hn : init_size ≤ MAX_INIT_SIZE)
    (hflag : parm.flagTid = true) (hslave : parm.slave = true)
    : Mirror s [] (fun _ => none) ∧ s.x_tid = 0 ∧ s.x_lastTidPreClear = 0 := by
  have hok := TidHashRun.allocHTable_tidOk h hn hflag
  unfold allocHTable at h
  dsimp only at h
  split at h
  . cases h
  split at h
  . cases h
  cases h
  exact ⟨⟨hok, hslave⟩, rfl, rfl⟩

theorem init_inv {m m' : Shm} {parm parm' : HashParm} {n n' : Nat} {s t : LsShmHash}
    (hs : allocHTable m parm n = some s) (hn : n ≤ MAX_INIT_SIZE) (hflag : parm.flagTid = true)
    (hmaster : parm.slave = false) (ht : allocHTable m' parm' n' = some t) (hn' : n' ≤ MAX_INIT_SIZE)
    (hflag' : parm'.flagTid = true) (hslave : parm'.slave = true) : Inv ⟨s, t, 0, []⟩ := by
  have hj := HashJournalRun.allocHTable_journaled hs hn hflag hmaster
  obtain ⟨hm, htid, hpre⟩ := allocHTable_mirror ht hn' hflag' hslave
  refine ⟨[], [], _, _, [], 0, 0, 0, hj, hm, .nil, ?_, Nat.le_of_eq hpre, ?_, Nat.le_refl 0,
    Nat.le_refl 0, ?_⟩
  . show Chain t.x_tid 0 [] 0 0
    rw [htid]
    exact .nil 0 0
  . exact fun t d hmem => nomatch hmem
  . exact Synced.empty _ (fun t ht => absurd rfl ht) (fun u t hd => nomatch hd)

def found (s : LsShmHash) (key : List UInt8) : Option (List UInt8 × Nat) :=
  (HashJournalRun.lookup s key).map fun e => (e.getVal, s.tidLink (s.findKey key))

theorem found_eq_some {key val : List UInt8} {t : Nat} (h : TidOk s E log)
    : found s key = some (val, t) ↔ s.journal log t = some (.add key val) := by
  unfold found
  rw [Option.map_eq_some_iff]
  constructor
  . rintro ⟨e, he, heq⟩
    obtain ⟨rfl, rfl⟩ := Prod.mk.inj heq
    exact (HashJournalRun.journal_of_lookup h he).2.2
  . intro hJ
    obtain ⟨e, he, hval, hlink⟩ := HashJournalRun.lookup_of_journal h hJ
    exact ⟨e, he, Prod.ext hval hlink⟩

theorem found_congr {s' : LsShmHash} {E' : List Nat} {log' : TidLog} (h : TidOk s E log)
    (h' : TidOk s' E' log') (heq : s.replica log = Journal.adds (s'.journal log')) (key : List UInt8)
    : found s key = found s' key := by
  have hiff : ∀ r, found s key = some r ↔ found s' key = some r := by
    rintro ⟨val, t⟩
    rw [found_eq_some h, found_eq_some h']
    have hat := congrFun heq t
    constructor
    . intro hJ
      have hr : s.replica log t = some (key, val) := adds_eq_some.mpr hJ
      exact adds_eq_some.mp (hat.symm.trans hr)
    . intro hJ
      have hr : Journal.adds (s'.journal log') t = some (key, val) := adds_eq_some.mpr hJ
      exact adds_eq_some.mp (hat.trans hr)
  cases hs : found s key with
  | some r => exact ((hiff r).mp hs).symm
  | none =>
    cases hs' : found s' key with
    | none => rfl
    | some r =>
      rw [(hiff r).mpr hs'] at hs
      cases hs

/--
The slave never gets ahead, and when everything has been sent and nothing is under way, it has for
every key the value and the id that the master has.
-/
structure InStep (y : Repl) : Prop where
  slave_le : y.slave.x_tid ≤ y.currTid
  sent_le : y.currTid ≤ y.master.x_tid
  same : y.wire = [] → y.currTid = y.master.x_tid → ∀ key, found y.slave key = found y.master key

/--
The changes of the hash of a master, the sending of them and their application by a slave may follow
each other in any order.
-/
theorem converges_exec (m m' : Shm) (parm parm' : HashParm) (n n' : Nat) (s t : LsShmHash)
    (hs : allocHTable m parm n = some s) (hn : n ≤ MAX_INIT_SIZE) (hflag : parm.flagTid = true)
    (hmaster : parm.slave = false) (ht : allocHTable m' parm' n' = some t) (hn' : n' ≤ MAX_INIT_SIZE)
    (hflag' : parm'.flagTid = true) (hslave : parm'.slave = true) (ops : List ReplOp)
    (hok : Run.Meets step Ok ⟨s, t, 0, []⟩ ops)
    : InStep (Run.exec step ⟨s, t, 0, []⟩ ops) := by
  obtain ⟨E, F, log, flog, es, b, q, c, hg⟩ :=
    exec_inv (init_inv hs hn hflag hmaster ht hn' hflag' hslave) hok
  refine ⟨Nat.le_trans hg.chain.le hg.last_le, hg.synced.le, ?_⟩
  intro hwire hcurr key
  have hnil : es = [] := by
    have hc := hg.wire
    rw [hwire] at hc
    cases hc
    rfl
  have hsync := hg.synced
  rw [hnil, Journal.replay_nil, hcurr] at hsync
  exact found_congr hg.slave.toTidOk hg.master.toTidOk (hsync.complete hg.master.well) key

def sampleSlave : Option LsShmHash :=
  allocHTable (Shm.empty [Answer.clean 0x400 320, Answer.clean 0x800 64, Answer.clean 0x1000 48,
    Answer.clean 0x8000 9216, Answer.clean 0xc000 1024, Answer.clean 0x1100 48,
    Answer.clean 0x1200 48]) { HashParm.clean false true with slave := true } 7

theorem sampleSlave_isSome : sampleSlave.isSome = true := by decide

def sampleOps : List ReplOp :=
  [.op (.doInsert [1] (ValParm.ofBytes [10])), .op (.doSet [2] (ValParm.ofBytes [20])),
    .op (.eraseIterator [2]), .notify fun _ _ => 0, .recv]

theorem sampleOps_meets
    : Run.Meets step Ok ⟨TidHashRun.sample.get TidHashRun.sample_isSome,
        sampleSlave.get sampleSlave_isSome, 0, []⟩ sampleOps := by
  decide +kernel

theorem converges_exec_sample
    : InStep (Run.exec step ⟨TidHashRun.sample.get TidHashRun.sample_isSome,
        sampleSlave.get sampleSlave_isSome, 0, []⟩ sampleOps) :=
  converges_exec _ _ _ _ 7 7 _ _ (Option.some_get TidHashRun.sample_isSome).symm (by decide)
    rfl rfl (Option.some_get sampleSlave_isSome).symm (by decide) rfl rfl sampleOps sampleOps_meets

end TidReplRun

end Lsmcd
