import Lsmcd.Shm.HashRep

/-!
What the operations that a slave performs leave alone: the id given out last changes only when an
entry is made under a new id.
-/

namespace Lsmcd

namespace LsShmTidMgr

/--
The id given out last and the part that the process plays are as before.
-/
structure SameId (t u : LsShmTidMgr) : Prop where
  tid : u.x_tid = t.x_tid
  slave : u.slave = t.slave

variable {t u v : LsShmTidMgr}

theorem SameId.refl (t : LsShmTidMgr) : SameId t t := ⟨rfl, rfl⟩

theorem SameId.trans (h₁ : SameId t u) (h₂ : SameId u v) : SameId t v :=
  ⟨h₂.tid.trans h₁.tid, h₂.slave.trans h₁.slave⟩

theorem SameId.after (h : SameId u v) (htid : u.x_tid = t.x_tid) (hslave : u.slave = t.slave)
    : SameId t v :=
  ⟨h.tid.trans htid, h.slave.trans hslave⟩

theorem sameId_allocBlkIdx (t : LsShmTidMgr) (oldIdx oldCnt : Nat)
    : SameId t (t.allocBlkIdx oldIdx oldCnt).1 := by
  unfold allocBlkIdx
  dsimp only
  repeat' split
  all_goals exact ⟨rfl, rfl⟩

theorem sameId_appendBlk (t : LsShmTidMgr) (base blkOff : Nat)
    : SameId t (t.appendBlk base blkOff).1 := by
  unfold appendBlk
  dsimp only
  repeat' split
  all_goals exact ⟨rfl, rfl⟩

theorem sameId_growTidTbl (t : LsShmTidMgr) (base : Nat) : SameId t (t.growTidTbl base).1 := by
  unfold growTidTbl
  have halloc := sameId_allocBlkIdx { t with shm := (t.shm.alloc2 sizeofTidTblBlk).1 }
    t.x_iBlkIdxOff t.x_iBlkCnt
  dsimp only at halloc ⊢
  generalize allocBlkIdx _ t.x_iBlkIdxOff t.x_iBlkCnt = r at halloc ⊢
  split
  . exact ⟨rfl, rfl⟩
  . split
    . split
      . exact ⟨halloc.tid, halloc.slave⟩
      . exact (sameId_appendBlk _ base _).after halloc.tid halloc.slave
    . exact (sameId_appendBlk _ base _).after rfl rfl

theorem sameId_storeTidTblEnt (t : LsShmTidMgr) (tidVal tid : Nat)
    : SameId t (t.storeTidTblEnt tidVal tid).1 := by
  have hgrow := sameId_growTidTbl t (tid - tid % TIDTBLBLK_MAXSZ)
  unfold storeTidTblEnt
  dsimp only
  split
  . split
    . exact hgrow
    . split
      . exact hgrow
      . exact ⟨hgrow.tid, hgrow.slave⟩
  . exact ⟨rfl, rfl⟩

theorem sameId_clrTidTblEnt (t : LsShmTidMgr) (tid : Nat) : SameId t (t.clrTidTblEnt tid) := by
  unfold clrTidTblEnt
  split
  . exact SameId.refl t
  . exact ⟨rfl, rfl⟩

theorem sameId_clrTidTblLoop (fuel : Nat) (t : LsShmTidMgr) (off : Nat)
    : SameId t (clrTidTblLoop fuel t off).1 := by
  induction fuel generalizing t off with
  | zero => exact SameId.refl t
  | succ fuel ih =>
    unfold clrTidTblLoop
    split
    . exact SameId.refl t
    . split
      . exact SameId.refl t
      . exact (ih _ _).after rfl rfl

theorem sameId_releaseTidTbl (t : LsShmTidMgr) : SameId t t.releaseTidTbl.1 := by
  unfold releaseTidTbl
  dsimp only
  split
  . exact (sameId_clrTidTblLoop _ _ _).after rfl rfl
  . exact sameId_clrTidTblLoop _ _ _

theorem sameId_clrTidTbl (h : t.slave = true) : SameId t t.clrTidTbl := by
  have hrel := sameId_releaseTidTbl t
  have hmaster : t.releaseTidTbl.1.resetTidTbl.isTidMaster = false := by
    show (!t.releaseTidTbl.1.slave) = false
    rw [hrel.slave, h]
    rfl
  unfold clrTidTbl
  dsimp only
  split
  . rw [hmaster]
    exact ⟨hrel.tid, hrel.slave⟩
  . exact hrel

theorem sameId_unlinkTid (h : t.slave = true) (tid : Nat) : SameId t (t.unlinkTid tid) := by
  have hclr := sameId_clrTidTblEnt t tid
  have hmaster : (t.clrTidTblEnt tid).isTidMaster = false := by
    show (!(t.clrTidTblEnt tid).slave) = false
    rw [hclr.slave, h]
    rfl
  unfold unlinkTid
  dsimp only
  rw [hmaster]
  exact hclr

theorem setTidTblEnt_new (v : Nat) {pTid : Nat} (hnew : t.x_tid < pTid)
    : (t.setTidTblEnt v pTid).1.x_tid = pTid ∧ (t.setTidTblEnt v pTid).1.slave = t.slave := by
  have htid : t.newTid pTid = some pTid := by
    unfold newTid
    rw [if_neg (by omega), if_pos hnew]
  have hstore := sameId_storeTidTblEnt { t with x_tid := pTid } v pTid
  unfold setTidTblEnt
  rw [htid]
  exact ⟨hstore.tid, hstore.slave⟩

end LsShmTidMgr

namespace LsShmHash

open LsShmTidMgr (SameId)

variable {s s' : LsShmHash}

theorem LruOnly.sameId (h : LruOnly s s') : SameId s.toLsShmTidMgr s'.toLsShmTidMgr := by
  rw [h]
  exact ⟨rfl, rfl⟩

theorem sameId_next (s : LsShmHash) (off : Nat)
    : SameId s.toLsShmTidMgr (s.next off).1.toLsShmTidMgr := by
  have hbucket : ∀ n (t : LsShmHash) i, SameId t.toLsShmTidMgr (nextBucket off n t i).1.toLsShmTidMgr := by
    intro n
    induction n with
    | zero => exact fun t _ => SameId.refl _
    | succ n ih =>
      intro t i
      unfold nextBucket
      dsimp only
      split
      . exact ih _ _
      . split
        . exact (ih _ _).after rfl rfl
        . exact SameId.refl _
  unfold next
  split
  . exact SameId.refl _
  . split
    . exact ⟨rfl, rfl⟩
    . dsimp only
      split
      . exact SameId.refl _
      . split
        . exact (hbucket _ _ _).after rfl rfl
        . exact hbucket _ _ _

def SameIds (s : LsShmHash) (l : List LsShmHash) : Prop :=
  ∀ t ∈ l, SameId s.toLsShmTidMgr t.toLsShmTidMgr

theorem SameIds.getLastD {l : List LsShmHash} (h : SameIds s l)
    (hs : SameId s.toLsShmTidMgr s'.toLsShmTidMgr)
    : SameId s.toLsShmTidMgr (l.getLastD s').toLsShmTidMgr := by
  rcases List.eq_nil_or_concat' l with rfl | ⟨init, t, rfl⟩
  . exact hs
  . rw [List.getLastD_concat]
    exact h t (by simp)

theorem SameIds.after {l : List LsShmHash} (h : SameIds s' l)
    (hs : SameId s.toLsShmTidMgr s'.toLsShmTidMgr) : SameIds s l :=
  fun t ht => hs.trans (h t ht)

theorem SameIds.append {l l' : List LsShmHash} (h : SameIds s l) (h' : SameIds s l')
    : SameIds s (l ++ l') := by
  intro t ht
  rcases List.mem_append.mp ht with ht | ht
  . exact h t ht
  . exact h' t ht

theorem sameIds_rehashMove (s : LsShmHash) (newSize newIdxOff iterOff : Nat) (e : LsShmHElem)
    : SameIds s (s.rehashMove newSize newIdxOff iterOff e) := by
  unfold rehashMove SameIds
  dsimp only
  simp only [List.mem_cons, List.not_mem_nil, or_false]
  rintro t (rfl | rfl | rfl | rfl | rfl)
  all_goals repeat' split
  all_goals exact ⟨rfl, rfl⟩

theorem sameIds_rehashLoop (newSize newIdxOff fuel : Nat) (s : LsShmHash) (iterOff count : Nat)
    : SameIds s (rehashLoop newSize newIdxOff fuel s iterOff count) := by
  induction fuel generalizing s iterOff count with
  | zero => exact fun t ht => nomatch ht
  | succ fuel ih =>
    unfold rehashLoop
    split
    . exact fun t ht => nomatch ht
    . split
      . intro t ht
        rw [List.mem_singleton.mp ht]
        exact ⟨rfl, rfl⟩
      . next e he =>
        dsimp only
        have hnext := sameId_next s iterOff
        have hmove := (sameIds_rehashMove (s.next iterOff).1 newSize newIdxOff iterOff e).after hnext
        refine hmove.append ((ih _ _ _).after ?_)
        have hlast := hmove.getLastD hnext
        split
        . exact ⟨hlast.tid, hlast.slave⟩
        . exact hlast

theorem sameIds_rehashFinish (s : LsShmHash) (newSize newIdxOff : Nat)
    : SameIds s (s.rehashFinish newSize newIdxOff) := by
  have hreleased : ∀ m idx, SameId s.toLsShmTidMgr
      ((s.setTable fun t => { t with x_iWorkIterOff := 0 }).withIdx m idx).toLsShmTidMgr :=
    fun _ _ => ⟨rfl, rfl⟩
  have hlast : SameId s.toLsShmTidMgr (((s.setTable fun t =>
      { t with x_iWorkIterOff := 0 }).releaseIdx.getLastD (s.setTable fun t =>
      { t with x_iWorkIterOff := 0 })).toLsShmTidMgr) := by
    rw [releaseIdx, List.getLastD_concat]
    exact hreleased _ _
  unfold rehashFinish SameIds
  dsimp only
  intro t ht
  simp only [List.mem_cons, List.mem_append, List.not_mem_nil, or_false] at ht
  rcases ht with rfl | ht | rfl | rfl
  . exact ⟨rfl, rfl⟩
  . obtain ⟨m, idx, rfl⟩ := mem_releaseIdx ht
    exact hreleased m idx
  . exact hlast
  . exact hlast

theorem sameIds_rehashResume (s : LsShmHash) : SameIds s s.rehashResume := by
  unfold rehashResume
  dsimp only
  split
  . exact fun t ht => nomatch ht
  . split
    . intro t ht
      rw [List.mem_singleton.mp ht]
      exact ⟨rfl, rfl⟩
    . split
      . split
        . intro t ht
          simp only [List.mem_append, List.mem_cons, List.not_mem_nil, or_false] at ht
          rcases ht with rfl | rfl | rfl <;> exact ⟨rfl, rfl⟩
        . intro t ht
          simp only [List.nil_append, List.mem_cons, List.not_mem_nil, or_false] at ht
          rcases ht with rfl | rfl <;> exact ⟨rfl, rfl⟩
      . exact fun t ht => nomatch ht

theorem sameIds_rehashStart (s : LsShmHash) : SameIds s s.rehashStart.1 := by
  unfold rehashStart
  dsimp only
  split
  . intro t ht
    rw [List.mem_singleton.mp ht]
    exact ⟨rfl, rfl⟩
  . intro t ht
    simp only [List.mem_cons, List.not_mem_nil, or_false] at ht
    rcases ht with rfl | rfl | rfl | rfl | rfl | rfl <;> exact ⟨rfl, rfl⟩

theorem sameIds_rehashBody (s : LsShmHash) (newSize newIdxOff : Nat)
    : SameIds s (s.rehashBody newSize newIdxOff) := by
  have hmoves := sameIds_rehashLoop newSize newIdxOff s.fuel s s.begin 0
  exact hmoves.append ((sameIds_rehashFinish _ _ _).after (hmoves.getLastD (SameId.refl _)))

theorem sameId_rehash (s : LsShmHash) : SameId s.toLsShmTidMgr s.rehash.1.toLsShmTidMgr := by
  have hstores : SameIds s s.rehashStores.1 := by
    unfold rehashStores
    split
    . have hpre := sameIds_rehashResume s
      exact hpre.append ((sameIds_rehashBody _ _ _).after (hpre.getLastD (SameId.refl _)))
    . have hpre := sameIds_rehashStart s
      dsimp only
      split
      . exact hpre
      . exact hpre.append ((sameIds_rehashBody _ _ _).after (hpre.getLastD (SameId.refl _)))
  exact hstores.getLastD (SameId.refl _)

theorem sameId_insertCopy2 (s : LsShmHash) (hkey : Nat) (parms : StrPair)
    : SameId s.toLsShmTidMgr (s.insertCopy2 hkey parms).1.toLsShmTidMgr := by
  have hfirst : SameId s.toLsShmTidMgr
      (if s.capacity < s.size * s.table.x_iFullFactor then s.rehash else (s, true)).1.toLsShmTidMgr := by
    split
    . exact sameId_rehash s
    . exact SameId.refl _
  unfold insertCopy2
  dsimp only
  generalize (if s.capacity < s.size * s.table.x_iFullFactor then s.rehash else (s, true)) = r at hfirst ⊢
  have halloc : SameId s.toLsShmTidMgr
      (r.1.allocIter parms.key.length parms.val.len).1.toLsShmTidMgr := by
    unfold allocIter
    dsimp only
    split
    . exact ⟨hfirst.tid, hfirst.slave⟩
    . exact ⟨hfirst.tid, hfirst.slave⟩
  generalize r.1.allocIter parms.key.length parms.val.len = q at halloc ⊢
  have hfill : SameId s.toLsShmTidMgr (q.1.fillIter q.2 hkey parms).toLsShmTidMgr := by
    unfold fillIter
    split
    . exact halloc
    . exact ⟨halloc.tid, halloc.slave⟩
  have hlink := hfill.trans (lruOnly_linkHElem (q.1.fillIter q.2 hkey parms) q.2).sameId
  split
  . exact hfirst
  . split
    . exact halloc
    . split
      . exact halloc
      . split
        . exact ⟨hlink.tid, hlink.slave⟩
        . exact ⟨hfill.tid, hfill.slave⟩

theorem sameId_leaveBucket (s : LsShmHash) (iterOff hashIndx offset next : Nat)
    : SameId s.toLsShmTidMgr (s.leaveBucket iterOff hashIndx offset next).toLsShmTidMgr := by
  unfold leaveBucket
  dsimp only
  repeat' split
  all_goals exact ⟨rfl, rfl⟩

theorem sameId_eraseIterCb (h : s.slave = true) (off : Nat)
    : SameId s.toLsShmTidMgr (s.eraseIterCb off).toLsShmTidMgr := by
  unfold eraseIterCb
  dsimp only
  split
  . exact LsShmTidMgr.sameId_unlinkTid h _
  . exact SameId.refl _

theorem sameId_eraseIteratorHelper (h : s.slave = true) (off : Nat)
    : SameId s.toLsShmTidMgr (s.eraseIteratorHelper off).toLsShmTidMgr := by
  unfold eraseIteratorHelper
  split
  . exact SameId.refl _
  . split
    . exact ⟨rfl, rfl⟩
    . next iter hiter =>
      dsimp only
      have hlru : SameId s.toLsShmTidMgr (if s.flagLru then s.unlinkHElem off else s).toLsShmTidMgr := by
        split
        . exact (lruOnly_unlinkHElem s off).sameId
        . exact SameId.refl _
      generalize (if s.flagLru then s.unlinkHElem off else s) = t at hlru ⊢
      have htid : SameId s.toLsShmTidMgr (if t.flagTid then t.eraseIterCb off else t).toLsShmTidMgr := by
        split
        . exact hlru.trans (sameId_eraseIterCb (hlru.slave.trans h) off)
        . exact hlru
      generalize (if t.flagTid then t.eraseIterCb off else t) = u at htid ⊢
      have hleave := htid.trans (sameId_leaveBucket u off (iter.x_hkey % s.capacity)
        (s.table.hIdx s.table.x_iHIdx (iter.x_hkey % s.capacity)) (s.table.next off))
      exact ⟨hleave.tid, hleave.slave⟩

theorem sameId_releaseAll (fuel : Nat) (s : LsShmHash) (off : Nat)
    : SameId s.toLsShmTidMgr (releaseAll fuel s off).toLsShmTidMgr := by
  induction fuel generalizing s off with
  | zero => exact SameId.refl _
  | succ fuel ih =>
    unfold releaseAll
    split
    . exact SameId.refl _
    . have hnext := sameId_next s off
      dsimp only
      split
      . exact (ih _ _).after hnext.tid hnext.slave
      . exact (ih _ _).after hnext.tid hnext.slave

theorem sameId_clear (h : s.slave = true) : SameId s.toLsShmTidMgr s.clear.toLsShmTidMgr := by
  have hrel := sameId_releaseAll s.fuel s s.begin
  unfold clear
  dsimp only
  generalize releaseAll s.fuel s s.begin = t at hrel ⊢
  split
  . have hlru : SameId s.toLsShmTidMgr
        (if (t.setTable clearTable).flagLru then
          (t.setTable clearTable).setLru fun l =>
            { l with linkFirst := 0, linkLast := 0, nvalset := 0, ndataset := 0 }
        else t.setTable clearTable).toLsShmTidMgr := by
      split <;> exact ⟨hrel.tid, hrel.slave⟩
    generalize (if (t.setTable clearTable).flagLru then _ else t.setTable clearTable) = u at hlru ⊢
    split
    . exact hlru.trans (LsShmTidMgr.sameId_clrTidTbl (hlru.slave.trans h))
    . exact hlru
  . exact hrel

end LsShmHash

end Lsmcd
