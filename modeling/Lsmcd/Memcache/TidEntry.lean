import Lsmcd.Memcache.Number
import Lsmcd.Memcache.TidSet
import Lsmcd.Shm.Contents
import Lsmcd.Shm.HashJournal

/-!
The packets of the replication stream as entries of a journal: what `iter2tidPack` and `del2tidPack`
write is read back by the fields of the packet.
-/

namespace Lsmcd

def pktEntry (mem : Mem) (p : Nat) : HashEntry :=
  if pktType mem p = LSSHM_PKTADD then
    .add (getMem mem (addData p) (pktKeySz mem p))
      (getMem mem (addData p + pktKeySz mem p) (addValSz mem p))
  else if delTid mem p = TIDDEL_FLUSHALL then .flush
  else .del (delTid mem p)

/--
The entries of the packets that a receiver takes who has got up to `last`.
-/
def stream (mem : Mem) (last n : Nat) : List (Nat × HashEntry) :=
  (wfPrefix mem (n + 2) last 0 n).map fun p => (pktTid mem p, pktEntry mem p)

def entrySize : HashEntry → Nat
  | .add key val => round4 (sizeofPktHdr + sizeofTidAdd + key.length + val.length)
  | _ => tidDelPktSize

def SameOutside (mem mem' : Mem) (p n : Nat) : Prop :=
  ∀ i, i < p ∨ p + n ≤ i → mem' i = mem i

/--
The packet at `p` is whole and carries the entry `e`.
-/
structure HasPkt (mem : Mem) (p tid : Nat) (e : HashEntry) : Prop where
  size : pktSize mem p = entrySize e
  tid : pktTid mem p = tid
  entry : pktEntry mem p = e
  wf : wfPkt mem p (entrySize e) = true

variable {mem mem' : Mem} {p n : Nat}

theorem writeLe_of_out {off v i : Nat} (h : i < off ∨ off + n ≤ i) : writeLe mem off n v i = mem i := by
  unfold writeLe
  rw [if_neg]
  omega

theorem putMem_of_out {bs : List UInt8} {i : Nat} (h : i < p ∨ p + bs.length ≤ i)
    : putMem mem p bs i = mem i := by
  unfold putMem
  rw [if_neg]
  omega

theorem getMem_congr (h : ∀ i, p ≤ i → i < p + n → mem' i = mem i)
    : getMem mem' p n = getMem mem p n := by
  unfold getMem
  apply List.map_congr_left
  intro i hi
  rw [List.mem_range] at hi
  exact h (p + i) (by omega) (by omega)

theorem getMem_putMem (mem : Mem) (p : Nat) (bs : List UInt8)
    : getMem (putMem mem p bs) p bs.length = bs := by
  apply List.ext_getElem
  . exact length_getMem _ _ _
  . intro i hi hi'
    simp only [getMem, List.getElem_map, List.getElem_range]
    unfold putMem
    rw [if_pos ⟨by omega, by omega⟩, Nat.add_sub_cancel_left, ← List.getElem_eq_getD]

theorem wfPkt_mono {left left' : Nat} (h : wfPkt mem p left = true) (hle : left ≤ left')
    : wfPkt mem p left' = true := by
  unfold wfPkt at h ⊢
  rw [Bool.and_eq_true, decide_eq_true_eq] at h ⊢
  exact ⟨Nat.le_trans h.1 hle, h.2⟩

theorem HasPkt.congr {tid : Nat} {e : HashEntry} (h : HasPkt mem p tid e)
    (heq : ∀ i, p ≤ i → i < p + entrySize e → mem' i = mem i) : HasPkt mem' p tid e := by
  have hb := wfPkt_bounds h.wf
  rw [h.size] at hb
  have hread : ∀ off k, p ≤ off → off + k ≤ p + entrySize e → readLe mem' off k = readLe mem off k :=
    fun off k hlo hhi => readLe_congr fun i h₁ h₂ => heq i (by omega) (by omega)
  have hsize : pktSize mem' p = pktSize mem p := hread p 4 (Nat.le_refl p) (by omega)
  have htype : pktType mem' p = pktType mem p := hread (p + 5) 1 (by omega) (by omega)
  have hkey : pktKeySz mem' p = pktKeySz mem p := hread (p + 6) 2 (by omega) (by omega)
  have htid : pktTid mem' p = pktTid mem p := hread (p + 8) 8 (by omega) (by omega)
  have hval : addValSz mem' p = addValSz mem p :=
    hread (p + sizeofPktHdr) 4 (by omega) (by rw [sizeofPktHdr]; omega)
  have hdel : delTid mem' p = delTid mem p :=
    hread (p + sizeofPktHdr) 8 (by omega) (by rw [sizeofPktHdr]; omega)
  have hwf : wfPkt mem' p (entrySize e) = wfPkt mem p (entrySize e) := by
    unfold wfPkt
    rw [hsize, htype, hkey, hval]
  have hentry : pktEntry mem' p = pktEntry mem p := by
    unfold pktEntry
    rw [htype, hkey, hval, hdel]
    split
    . next hadd =>
      have hfit := h.wf
      unfold wfPkt at hfit
      rw [if_pos hadd, Bool.and_eq_true, decide_eq_true_eq, decide_eq_true_eq, h.size] at hfit
      have hbody := hfit.2
      simp only [sizeofPktHdr, sizeofTidAdd] at hbody
      have hget : ∀ off k, p ≤ off → off + k ≤ p + entrySize e →
          getMem mem' off k = getMem mem off k :=
        fun off k hlo hhi => getMem_congr fun i h₁ h₂ => heq i (by omega) (by omega)
      rw [hget _ _ (by unfold addData; omega)
          (by simp only [addData, sizeofPktHdr, sizeofTidAdd]; omega),
        hget _ _ (by unfold addData; omega)
          (by simp only [addData, sizeofPktHdr, sizeofTidAdd]; omega)]
    . rfl
  exact ⟨hsize.trans h.size, htid.trans h.tid, hentry.trans h.entry, hwf.trans h.wf⟩

section Hdr

variable {totSz type keySz tid : Nat}

theorem sameOutside_putPktHdr (mem : Mem) (p totSz type keySz tid : Nat)
    : SameOutside mem (putPktHdr mem p totSz type keySz tid) p sizeofPktHdr := by
  intro i hi
  rw [sizeofPktHdr] at hi
  unfold putPktHdr
  rw [writeLe_of_out (by omega), writeLe_of_out (by omega), writeLe_of_out (by omega),
    writeLe_of_out (by omega), writeLe_of_out (by omega)]

theorem putPktHdr_fields (mem : Mem) (p : Nat) (hsize : totSz < 2 ^ 32) (htype : type < 256) (hkey : keySz < 2 ^ 16)
    (htid : tid < 2 ^ 64)
    : pktSize (putPktHdr mem p totSz type keySz tid) p = totSz ∧
        pktType (putPktHdr mem p totSz type keySz tid) p = type ∧
        pktKeySz (putPktHdr mem p totSz type keySz tid) p = keySz ∧
        pktTid (putPktHdr mem p totSz type keySz tid) p = tid := by
  unfold putPktHdr pktSize pktType pktKeySz pktTid
  dsimp only
  refine ⟨?_, ?_, ?_, ?_⟩
  . rw [readLe_writeLe_of_disjoint _ _ (by omega), readLe_writeLe_of_disjoint _ _ (by omega),
      readLe_writeLe_of_disjoint _ _ (by omega), readLe_writeLe_of_disjoint _ _ (by omega),
      readLe_writeLe _ _ hsize]
  . rw [readLe_writeLe_of_disjoint _ _ (by omega), readLe_writeLe_of_disjoint _ _ (by omega),
      readLe_writeLe _ _ htype]
  . rw [readLe_writeLe_of_disjoint _ _ (by omega), readLe_writeLe _ _ hkey]
  . rw [readLe_writeLe _ _ htid]

end Hdr

theorem hdr_congr (p : Nat) (h : ∀ i, i < p + sizeofPktHdr → mem' i = mem i)
    : pktSize mem' p = pktSize mem p ∧ pktType mem' p = pktType mem p ∧
        pktKeySz mem' p = pktKeySz mem p ∧ pktTid mem' p = pktTid mem p := by
  rw [sizeofPktHdr] at h
  unfold pktSize pktType pktKeySz pktTid
  refine ⟨?_, ?_, ?_, ?_⟩
  all_goals exact readLe_congr fun i _ hi => h i (by omega)

section Add

variable {e : LsShmHElem} {tid : Nat}

theorem entrySize_add (e : LsShmHElem) : entrySize (.add e.key e.getVal) = tidAddPktSize e := by
  show round4 (sizeofPktHdr + sizeofTidAdd + e.key.length + e.getVal.length) = tidAddPktSize e
  rw [Value.length_getVal]
  rfl

theorem hasPkt_iter2tidPack (mem : Mem) (p : Nat) (hkey : e.key.length < 2 ^ 16)
    (hsize : tidAddPktSize e < 2 ^ 32) (htid : tid < 2 ^ 64)
    : HasPkt (iter2tidPack mem p e tid (tidAddPktSize e)) p tid (.add e.key e.getVal) ∧
        SameOutside mem (iter2tidPack mem p e tid (tidAddPktSize e)) p (tidAddPktSize e) := by
  have hge : 28 + e.key.length + e.valLen ≤ tidAddPktSize e :=
    le_round4 (sizeofPktHdr + sizeofTidAdd + e.key.length + e.valLen)
  generalize hsz : tidAddPktSize e = sz at hsize hge
  obtain ⟨hs, ht, hk, hi⟩ := putPktHdr_fields mem p hsize (show LSSHM_PKTADD < 256 by decide) hkey
    htid
  have hout := sameOutside_putPktHdr mem p sz LSSHM_PKTADD e.key.length tid
  generalize hm₀ : putPktHdr mem p sz LSSHM_PKTADD e.key.length tid = m₀ at hs ht hk hi hout
  -- the fields of `LsShmTidAdd`
  generalize hm₁ : writeLe (writeLe (writeLe m₀ (p + sizeofPktHdr) 4 e.valLen)
    (p + sizeofPktHdr + 4) 4 e.x_hkey) (p + sizeofPktHdr + 8) 4 0 = m₁
  have hm₁_out : ∀ i, i < p + sizeofPktHdr ∨ addData p ≤ i → m₁ i = m₀ i := by
    intro i hi
    simp only [addData, sizeofPktHdr, sizeofTidAdd] at hi
    rw [← hm₁]
    simp only [sizeofPktHdr]
    rw [writeLe_of_out (by omega), writeLe_of_out (by omega), writeLe_of_out (by omega)]
  obtain ⟨hs₁, ht₁, hk₁, hi₁⟩ := hdr_congr p fun i hi => hm₁_out i (.inl hi)
  have hval₁ : addValSz m₁ p = e.valLen := by
    rw [← hm₁]
    unfold addValSz
    rw [readLe_writeLe_of_disjoint _ _ (by omega), readLe_writeLe_of_disjoint _ _ (by omega),
      readLe_writeLe _ _ (show e.valLen < 2 ^ 32 by omega)]
  have hkeySz : pktKeySz m₁ p = e.key.length := hk₁.trans hk
  have htake : e.key.take (pktKeySz m₁ p) = e.key := by rw [hkeySz, List.take_length]
  have heq : iter2tidPack mem p e tid sz =
      putMem (putMem m₁ (addData p) e.key) (addData p + e.key.length) e.getVal := by
    unfold iter2tidPack
    dsimp only
    rw [hm₀, hm₁, htake, hkeySz]
  have hvlen := Value.length_getVal e
  rw [heq]
  generalize hm₂ : putMem (putMem m₁ (addData p) e.key) (addData p + e.key.length) e.getVal = m₂
  have hm₂_out : ∀ i, i < addData p ∨ addData p + e.key.length + e.valLen ≤ i → m₂ i = m₁ i := by
    intro i hi
    rw [← hm₂, putMem_of_out (by omega), putMem_of_out (by omega)]
  have hdata : addData p = p + 28 := by rw [addData, sizeofPktHdr, sizeofTidAdd]
  obtain ⟨hs₂, ht₂, hk₂, hi₂⟩ := hdr_congr p fun i hi =>
    hm₂_out i (.inl (by rw [sizeofPktHdr] at hi; omega))
  have hval₂ : addValSz m₂ p = e.valLen := by
    rw [← hval₁]
    exact readLe_congr fun i _ hi => hm₂_out i (.inl (by rw [sizeofPktHdr] at hi; omega))
  have hk₂ : pktKeySz m₂ p = e.key.length := hk₂.trans hkeySz
  have ht₂ : pktType m₂ p = LSSHM_PKTADD := (ht₂.trans ht₁).trans ht
  have hs₂ : pktSize m₂ p = sz := (hs₂.trans hs₁).trans hs
  have hgetKey : getMem m₂ (addData p) e.key.length = e.key := by
    rw [← hm₂]
    refine (getMem_congr ?_).trans (getMem_putMem m₁ (addData p) e.key)
    intro i _ hi
    exact putMem_of_out (.inl hi)
  have hgetVal : getMem m₂ (addData p + e.key.length) e.valLen = e.getVal := by
    rw [← hm₂, ← hvlen]
    exact getMem_putMem _ _ _
  refine ⟨⟨?_, (hi₂.trans hi₁).trans hi, ?_, ?_⟩, ?_⟩
  . rw [entrySize_add, hsz]
    exact hs₂
  . unfold pktEntry
    rw [if_pos ht₂, hk₂, hval₂, hgetKey, hgetVal]
  . unfold wfPkt
    rw [entrySize_add, hsz, if_pos ht₂, hk₂, hval₂, hs₂, Bool.and_eq_true, decide_eq_true_eq,
      decide_eq_true_eq, sizeofPktHdr, sizeofTidAdd]
    exact ⟨Nat.le_refl sz, hge⟩
  . intro i hi
    rw [hm₂_out i (by omega), hm₁_out i (by rw [sizeofPktHdr]; omega)]
    exact hout i (by rw [sizeofPktHdr]; omega)

end Add

theorem hasPkt_del2tidPack (mem : Mem) (p : Nat) {val tid : Nat} (hval : val < 2 ^ 64)
    (htid : tid < 2 ^ 64) {e : HashEntry}
    (he : e = if val = TIDDEL_FLUSHALL then .flush else .del val)
    : HasPkt (del2tidPack mem p val tid tidDelPktSize) p tid e ∧
        SameOutside mem (del2tidPack mem p val tid tidDelPktSize) p tidDelPktSize := by
  have hsz : tidDelPktSize = 24 := by decide
  have hesz : entrySize e = 24 := by
    rw [he]
    split <;> exact hsz
  obtain ⟨hs, ht, hk, hi⟩ := putPktHdr_fields mem p (show tidDelPktSize < 2 ^ 32 by decide)
    (show LSSHM_PKTDEL < 256 by decide) (show 0 < 2 ^ 16 by decide) htid
  have hout := sameOutside_putPktHdr mem p tidDelPktSize LSSHM_PKTDEL 0 tid
  unfold del2tidPack
  dsimp only
  generalize putPktHdr mem p tidDelPktSize LSSHM_PKTDEL 0 tid = m₀ at hs ht hk hi hout ⊢
  have hkeep : ∀ i, i < p + sizeofPktHdr → writeLe m₀ (p + sizeofPktHdr) 8 val i = m₀ i := fun i hi =>
    writeLe_of_out (.inl hi)
  obtain ⟨hs₁, ht₁, _, hi₁⟩ := hdr_congr p hkeep
  have hdel : delTid (writeLe m₀ (p + sizeofPktHdr) 8 val) p = val := readLe_writeLe _ _ hval
  have ht₁ := ht₁.trans ht
  refine ⟨⟨?_, hi₁.trans hi, ?_, ?_⟩, ?_⟩
  . rw [hesz, hs₁, hs, hsz]
  . unfold pktEntry
    rw [ht₁, if_neg (by decide), hdel, he]
  . unfold wfPkt
    rw [ht₁, if_neg (by decide), hs₁, hs, hesz]
    decide
  . intro i hi
    rw [hsz] at hi
    rw [writeLe_of_out (by rw [sizeofPktHdr]; omega)]
    exact hout i (by rw [sizeofPktHdr]; omega)

end Lsmcd
