import Lsmcd.Shm.HashMap
import Lsmcd.Shm.Trim

/-!
Which elements an operation can add to a hash, whatever state the hash is in.
-/

namespace Lsmcd

def LsShmHash.Adds (P : LsShmHElem → Prop) (s s' : LsShmHash) : Prop :=
  ∀ off e, s'.table.elem off = some e → s.table.elem off = some e ∨ P e

namespace LsShmHash

variable {P Q : LsShmHElem → Prop} {s t u : LsShmHash}

theorem Adds.refl (s : LsShmHash) : Adds P s s :=
  fun _ _ h => Or.inl h

theorem Adds.trans (h₁ : Adds P s t) (h₂ : Adds P t u) : Adds P s u := by
  intro off e he
  rcases h₂ off e he with ht | hP
  . exact h₁ off e ht
  . exact Or.inr hP

theorem Adds.of_elem (h : t.table.elem = s.table.elem) : Adds P s t := by
  intro off e he
  rw [h] at he
  exact Or.inl he

theorem Quiet.adds (h : Quiet s t) : Adds P s t :=
  .of_elem (congrArg LsShmHTable.elem h.table)

theorem adds_setElem_none (s : LsShmHash) (off : Nat) : Adds P s (s.setTable (·.setElem off none)) := by
  intro x e he
  have he : Function.update s.table.elem off none x = some e := he
  by_cases hx : x = off
  . rw [hx, Function.update_self] at he
    cases he
  . rw [Function.update_of_ne hx] at he
    exact Or.inl he

theorem adds_setElem (s : LsShmHash) (off : Nat) {e : LsShmHElem} (h : P e)
    : Adds P s (s.setTable (·.setElem off (some e))) := by
  intro x e' he
  have he : Function.update s.table.elem off (some e) x = some e' := he
  by_cases hx : x = off
  . rw [hx, Function.update_self] at he
    cases he
    exact Or.inr h
  . rw [Function.update_of_ne hx] at he
    exact Or.inl he

theorem adds_withElem (s : LsShmHash) (m : Shm) (off : Nat) {e : LsShmHElem} (h : P e)
    : Adds P s (s.withElem m off e) :=
  fun x e' he => adds_setElem s off h x e' he

theorem elem_leaveBucket (s : LsShmHash) (iterOff hashIndx offset next : Nat)
    : (s.leaveBucket iterOff hashIndx offset next).table.elem = s.table.elem := by
  unfold leaveBucket
  dsimp only
  split
  . split
    . unfold LsShmHTable.clrBitMapEnt LsShmHTable.putBitMapEnt setTable
      dsimp only
      split <;> rfl
    . rfl
  . split <;> rfl

theorem adds_releaseElem (s : LsShmHash) (off size : Nat) : Adds P s (s.releaseElem off size) :=
  adds_setElem_none { s with shm := s.shm.release2 off size } off

theorem adds_eraseIteratorHelper (s : LsShmHash) (iterOff : Nat)
    : Adds P s (s.eraseIteratorHelper iterOff) := by
  unfold eraseIteratorHelper
  split
  . exact .refl s
  . split
    . exact (quiet_rebuild s).adds
    . rename_i iter _
      have hcbs : Adds P s (s.eraseCbs iterOff) := (quiet_eraseCbs s iterOff).adds
      have hleave : Adds P s ((s.eraseCbs iterOff).leaveBucket iterOff (iter.x_hkey % s.capacity)
          (s.table.hIdx s.table.x_iHIdx (iter.x_hkey % s.capacity)) (s.table.next iterOff)) :=
        hcbs.trans (.of_elem (elem_leaveBucket _ _ _ _ _))
      exact (hleave.trans (adds_releaseElem _ iterOff iter.x_iLen)).trans (.of_elem rfl)

theorem elem_nextBucket (off n : Nat) (s : LsShmHash) (i : Nat)
    : (nextBucket off n s i).1.table.elem = s.table.elem := by
  induction n generalizing s i with
  | zero => rfl
  | succ n ih =>
    unfold nextBucket
    dsimp only
    split
    . exact ih s (i + 1)
    . split
      . exact ih _ (i + 1)
      . rfl

theorem elem_next (s : LsShmHash) (off : Nat) : (s.next off).1.table.elem = s.table.elem := by
  unfold next
  split
  . rfl
  . split
    . rfl
    . dsimp only
      split
      . rfl
      . rw [elem_nextBucket]
        split <;> rfl

theorem elem_getLastD {ss : List LsShmHash} (h : ∀ s' ∈ ss, s'.table.elem = s.table.elem)
    : (ss.getLastD s).table.elem = s.table.elem := by
  rw [List.getLastD_eq_getLast?]
  cases hlast : ss.getLast? with
  | none => rfl
  | some s' => exact h s' (List.mem_of_getLast? hlast)

theorem elem_setBitMapEnt (t : LsShmHTable) (i : Nat) : (t.setBitMapEnt i).elem = t.elem := by
  unfold LsShmHTable.setBitMapEnt LsShmHTable.putBitMapEnt
  split <;> rfl

theorem elem_rebuildIf (c : Prop) [Decidable c] (t : LsShmHash)
    : (if c then t.rebuild else t).table.elem = t.table.elem := by
  split <;> rfl

theorem elem_rehashMove (s : LsShmHash) (newSize newIdxOff iterOff : Nat) (e : LsShmHElem)
    : ∀ s' ∈ s.rehashMove newSize newIdxOff iterOff e, s'.table.elem = s.table.elem := by
  unfold rehashMove
  extract_lets opIdx new_idx s₁ s₂ s₂' s₃ s₃' s₄ s₅
  have h₁ : s₁.table.elem = s.table.elem := elem_setBitMapEnt _ _
  have h₂ : s₂.table.elem = s.table.elem := h₁
  have h₃ : s₃.table.elem = s.table.elem := (elem_rebuildIf _ s₂).trans h₂
  have h₄ : s₄.table.elem = s.table.elem := (elem_rebuildIf _ s₃).trans h₃
  have h₅ : s₅.table.elem = s.table.elem := h₄
  intro s' hs'
  simp only [List.mem_cons, List.not_mem_nil, or_false] at hs'
  rcases hs' with rfl | rfl | rfl | rfl | rfl
  . exact h₁
  . exact h₂
  . exact h₃
  . exact h₄
  . exact h₅

theorem elem_rehashLoop (newSize newIdxOff fuel : Nat) (s : LsShmHash) (iterOff count : Nat)
    : ∀ s' ∈ rehashLoop newSize newIdxOff fuel s iterOff count, s'.table.elem = s.table.elem := by
  induction fuel generalizing s iterOff count with
  | zero => simp [rehashLoop]
  | succ fuel ih =>
    unfold rehashLoop
    split
    . simp
    . split
      . intro s' hs'
        cases List.mem_singleton.mp hs'
        rfl
      . rename_i e _
        dsimp only
        have hnext := elem_next s iterOff
        have hmove := elem_rehashMove (s.next iterOff).1 newSize newIdxOff iterOff e
        intro s' hs'
        rcases List.mem_append.mp hs' with hs' | hs'
        . rw [hmove s' hs', hnext]
        . rw [ih _ _ _ s' hs']
          exact (elem_rebuildIf _ _).trans ((elem_getLastD hmove).trans hnext)

theorem elem_rehashFinish (s : LsShmHash) (newSize newIdxOff : Nat)
    : ∀ s' ∈ s.rehashFinish newSize newIdxOff, s'.table.elem = s.table.elem := by
  unfold rehashFinish
  extract_lets s₁ released s₂ s₃ s₄
  have h₁ : s₁.table.elem = s.table.elem := rfl
  have h₂ : s₂.table.elem = s.table.elem := by
    show (s₁.releaseIdx.getLastD s₁).table.elem = _
    rw [releaseIdx, List.getLastD_concat]
    exact h₁
  have h₃ : s₃.table.elem = s.table.elem := h₂
  have h₄ : s₄.table.elem = s.table.elem := h₃
  intro s' hs'
  simp only [List.mem_cons, List.mem_append, List.not_mem_nil, or_false] at hs'
  rcases hs' with rfl | hs' | rfl | rfl
  . exact h₁
  . obtain ⟨m, idx, rfl⟩ := mem_releaseIdx hs'
    exact h₁
  . exact h₃
  . exact h₄

theorem elem_rehashResume (s : LsShmHash) : ∀ s' ∈ s.rehashResume, s'.table.elem = s.table.elem := by
  unfold rehashResume
  dsimp only
  split
  . simp
  . split
    . intro s' hs'
      cases List.mem_singleton.mp hs'
      rfl
    . split
      . rename_i e _ _
        have hremoved : ∀ s' ∈ (if s.table.hIdx s.table.x_iHIdx (e.x_hkey % s.capacity) =
              s.table.x_iWorkIterOff then
            [s.setTable fun t => t.setHIdx t.x_iHIdx (e.x_hkey % s.capacity) (t.next s.table.x_iWorkIterOff)]
            else []), s'.table.elem = s.table.elem := by
          intro s' hs'
          split at hs'
          . cases List.mem_singleton.mp hs'
            rfl
          . cases hs'
        have hlast := elem_getLastD hremoved
        intro s' hs'
        rcases List.mem_append.mp hs' with hs' | hs'
        . exact hremoved s' hs'
        . simp only [List.mem_cons, List.not_mem_nil, or_false] at hs'
          rcases hs' with rfl | rfl
          . exact hlast
          . exact hlast
      . simp

theorem elem_rehashStart (s : LsShmHash) : ∀ s' ∈ s.rehashStart.1, s'.table.elem = s.table.elem := by
  unfold rehashStart
  extract_lets newSize szTable szBitMap r s₀
  have h₀ : s₀.table.elem = s.table.elem := rfl
  split
  . intro s' hs'
    cases List.mem_singleton.mp hs'
    exact h₀
  . rename_i newBitOff newIdxOff s₁ s₂ s₃ s₄ s₅ _
    have h₁ : s₁.table.elem = s.table.elem := h₀
    have h₂ : s₂.table.elem = s.table.elem := h₁
    have h₃ : s₃.table.elem = s.table.elem := h₂
    have h₄ : s₄.table.elem = s.table.elem := h₃
    have h₅ : s₅.table.elem = s.table.elem := h₄
    intro s' hs'
    simp only [List.mem_cons, List.not_mem_nil, or_false] at hs'
    rcases hs' with rfl | rfl | rfl | rfl | rfl | rfl
    . exact h₀
    . exact h₁
    . exact h₂
    . exact h₃
    . exact h₄
    . exact h₅

theorem elem_rehashBody (s : LsShmHash) (newSize newIdxOff : Nat)
    : ∀ s' ∈ s.rehashBody newSize newIdxOff, s'.table.elem = s.table.elem := by
  have hloop := elem_rehashLoop newSize newIdxOff s.fuel s s.begin 0
  unfold rehashBody
  dsimp only
  intro s' hs'
  rcases List.mem_append.mp hs' with hs' | hs'
  . exact hloop s' hs'
  . rw [elem_rehashFinish _ _ _ s' hs', elem_getLastD hloop]

theorem elem_rehash (s : LsShmHash) : s.rehash.1.table.elem = s.table.elem := by
  unfold rehash
  apply elem_getLastD
  unfold rehashStores
  split
  . intro s' hs'
    rcases List.mem_append.mp hs' with hs' | hs'
    . exact elem_rehashResume s s' hs'
    . rw [elem_rehashBody _ _ _ s' hs', elem_getLastD (elem_rehashResume s)]
  . dsimp only
    split
    . exact elem_rehashStart s
    . intro s' hs'
      rcases List.mem_append.mp hs' with hs' | hs'
      . exact elem_rehashStart s s' hs'
      . rw [elem_rehashBody _ _ _ s' hs', elem_getLastD (elem_rehashStart s)]

theorem elem_rehashed (s : LsShmHash) : s.rehashed.1.table.elem = s.table.elem := by
  unfold rehashed
  split
  . exact elem_rehash s
  . rfl

theorem elem_enterBucket (s : LsShmHash) (off hkey : Nat)
    : (s.enterBucket off hkey).table.elem = s.table.elem :=
  elem_setBitMapEnt _ _

/--
An insertion adds an element with the length of the new value. If it fails late, the key of the
element may not have been written.
-/
theorem adds_insertCopy2 (s : LsShmHash) (hkey : Nat) (parms : StrPair)
    (h : ∀ e : LsShmHElem, e.valLen = parms.val.len → P e) : Adds P s (s.insertCopy2 hkey parms).1 := by
  have halloc : ∀ t : LsShmHash, Adds P t (t.allocIter parms.key.length parms.val.len).1 := by
    intro t
    unfold allocIter
    dsimp only
    split
    . exact .of_elem rfl
    . exact Adds.trans (.of_elem rfl) (Adds.trans (adds_setElem { t with shm := _ } _ (h _ rfl)) (.of_elem rfl))
  have hfill : ∀ (t : LsShmHash) (off : Nat), Adds P t (t.fillIter off hkey parms) := by
    intro t off
    unfold fillIter
    split
    . exact .refl t
    . apply adds_setElem
      exact h _ rfl
  have hrehashed : Adds P s s.rehashed.1 := .of_elem (elem_rehashed s)
  unfold rehashed at hrehashed
  unfold insertCopy2
  dsimp only
  generalize (if s.capacity < s.size * s.table.x_iFullFactor then s.rehash else (s, true)) = r at hrehashed ⊢
  split
  . exact hrehashed
  . have hq := halloc r.1
    generalize r.1.allocIter parms.key.length parms.val.len = q at hq ⊢
    have hadd := hrehashed.trans hq
    split
    . exact hadd
    . split
      . exact hadd
      . refine hadd.trans ((hfill q.1 q.2).trans (Adds.trans ?_ (.of_elem (elem_enterBucket _ _ _))))
        exact (quiet_linkCb (q.1.fillIter q.2 hkey parms) q.2).adds

theorem adds_insert2 (s : LsShmHash) (hkey : Nat) (parms : StrPair)
    (h : ∀ e : LsShmHElem, e.valLen = parms.val.len → P e) : Adds P s (s.insert2 hkey parms).1 := by
  rw [insert2_eq]
  exact (adds_insertCopy2 s hkey parms h).trans (quiet_insertCb _ _).adds

theorem adds_doInsert (s : LsShmHash) (iterOff hkey : Nat) (parms : StrPair)
    (h : ∀ e : LsShmHElem, e.valLen = parms.val.len → P e) : Adds P s (s.doInsert iterOff hkey parms).1 := by
  unfold doInsert
  split
  . exact .refl s
  . split
    . exact .refl s
    . exact adds_insert2 s hkey parms h

theorem adds_doSet (s : LsShmHash) (iterOff hkey : Nat) (parms : StrPair)
    (h : ∀ e : LsShmHElem, e.valLen = parms.val.len → P e) : Adds P s (s.doSet iterOff hkey parms).1 := by
  unfold doSet
  split
  . exact .refl s
  . split
    . exact adds_insert2 s hkey parms h
    . split
      . exact (quiet_rebuild s).adds.trans (adds_insert2 _ hkey parms h)
      . rename_i iter _
        split
        . exact (adds_setElem s iterOff (h (iter.setVal parms.val) rfl)).trans
            (quiet_updateCbs _ iterOff).adds
        . exact (adds_eraseIteratorHelper s iterOff).trans (adds_insert2 _ hkey parms h)

theorem adds_doUpdate (s : LsShmHash) (iterOff hkey : Nat) (parms : StrPair)
    (h : ∀ e : LsShmHElem, e.valLen = parms.val.len → P e) : Adds P s (s.doUpdate iterOff hkey parms).1 := by
  unfold doUpdate
  split
  . exact .refl s
  . exact adds_doSet s iterOff hkey parms h

theorem adds_iterGrowValue (s : LsShmHash) (iterOff n : Nat) (front : Bool)
    (h : ∀ e, s.table.elem iterOff = some e → ∀ e' : LsShmHElem, e'.valLen = e.valLen + n → P e')
    : Adds P s (s.iterGrowValue iterOff n front).1 := by
  unfold iterGrowValue
  split
  . exact .refl s
  . rename_i pOld hold
    split
    . exact .refl s
    . dsimp only
      split
      . exact .of_elem rfl
      . split
        . exact .of_elem rfl
        . have hgrow : Adds P s (s.withElem (s.shm.alloc2 (pOld.x_iLen + round4 n)).1
              (s.shm.alloc2 (pOld.x_iLen + round4 n)).2 (growElem pOld
                ((s.shm.alloc2 (pOld.x_iLen + round4 n)).1.junk
                  (s.shm.alloc2 (pOld.x_iLen + round4 n)).2) n front)) :=
            adds_withElem s _ _ (h pOld hold _ rfl)
          have hdone := ((hgrow.trans (adds_eraseIteratorHelper _ iterOff)).trans
            (quiet_linkCb _ (s.shm.alloc2 (pOld.x_iLen + round4 n)).2).adds).trans
            (quiet_insertCb _ (s.shm.alloc2 (pOld.x_iLen + round4 n)).2).adds
          have hend : ∀ t : LsShmHash, Adds P s t → Adds P s
              (if t.flagTid && (t.offset2iterator (s.shm.alloc2 (pOld.x_iLen + round4 n)).2).isNone
                then (t.rebuild, 0)
                else (t.enterBucket (s.shm.alloc2 (pOld.x_iLen + round4 n)).2 pOld.x_hkey,
                  (s.shm.alloc2 (pOld.x_iLen + round4 n)).2)).1 := by
            intro t ht
            split
            . exact ht.trans (quiet_rebuild t).adds
            . exact ht.trans (.of_elem (elem_enterBucket t _ _))
          exact hend _ hdone

theorem adds_releaseAll (fuel : Nat) (s : LsShmHash) (off : Nat) : Adds P s (releaseAll fuel s off) := by
  induction fuel generalizing s off with
  | zero => exact .refl s
  | succ fuel ih =>
    unfold releaseAll
    split
    . exact .refl s
    . have hnext : Adds P s (s.next off).1 := .of_elem (elem_next s off)
      dsimp only
      split
      . exact hnext.trans ((quiet_rebuild _).adds.trans (ih _ _))
      . exact hnext.trans ((adds_releaseElem _ _ _).trans (ih _ _))

theorem adds_clear (s : LsShmHash) : Adds P s s.clear := by
  unfold clear
  have hrel : Adds P s (releaseAll s.fuel s s.begin) := adds_releaseAll _ _ _
  dsimp only
  split
  . exact hrel.trans ((Adds.of_elem rfl).trans (quiet_clearCbs ((releaseAll s.fuel s s.begin).setTable
      clearTable)).adds)
  . exact hrel

theorem adds_trimIter (act : Nat → LsShmHElem → TrimAct) (cost : LsShmHElem → Int) (st : TrimState)
    : Adds P st.hash (trimIter act cost st).hash := by
  unfold trimIter
  split
  . exact .refl _
  . have hchk : Adds P st.hash (if st.hash.flagTid then st.hash.onTid (·.checkTidTbl) else st.hash) :=
      .of_elem (by split <;> rfl)
    dsimp only
    generalize (if st.hash.flagTid then st.hash.onTid (·.checkTidTbl) else st.hash) = s at hchk ⊢
    split
    . exact hchk.trans (quiet_rebuild s).adds
    . split
      . exact hchk
      . exact hchk
      . exact hchk.trans (quiet_linkSetTop s _).adds
      . exact hchk.trans ((adds_eraseIteratorHelper s _).trans (quiet_setLru _ _).adds)

theorem adds_trimsize (s : LsShmHash) (need : Int) (func : Option (LsShmHElem → Int)) (fuel : Nat)
    : Adds P s (s.trimsize need func fuel).1 := by
  unfold trimsize trimLoop
  split
  . exact .refl s
  . dsimp only
    have hrun : ∀ (us : List Unit) (st : TrimState), Adds P st.hash (Run.exec (fun st (_ : Unit) =>
        trimIter (fun _ e => .erase (trimRet func e)) (fun e => (e.x_iLen : Int)) st) st us).hash := by
      intro us
      induction us with
      | nil => exact fun st => .refl _
      | cons u us ih => exact fun st => (adds_trimIter _ _ st).trans (ih _)
    exact (hrun _ (s.trimStart need)).trans (quiet_setLru _ _).adds

theorem find2_some {hkey : Nat} {key : List UInt8} (h : s.find2 hkey key ≠ 0) {e : LsShmHElem}
    (he : s.offset2iterator (s.find2 hkey key) = some e)
    : s.table.elem (s.find2 hkey key) = some e ∧ e.key = key := by
  have helem : s.table.elem (s.find2 hkey key) = some e := by
    unfold offset2iterator at he
    split at he
    . cases he
    . rename_i e' he'
      split at he
      . cases he
        exact he'
      . cases he
  refine ⟨helem, ?_⟩
  -- the search ends at an element that the test accepts
  have hseek : ∀ (p : Nat → Bool) (n a : Nat), Linked.seek s.table.next 0 p n a ≠ 0 →
      p (Linked.seek s.table.next 0 p n a) = true := by
    intro p n
    induction n with
    | zero => exact fun a h => absurd rfl h
    | succ n ih =>
      intro a h
      rw [Linked.seek] at h ⊢
      split
      . rename_i ha
        rw [if_pos ha] at h
        exact absurd rfl h
      . rename_i ha
        rw [if_neg ha] at h
        split
        . rename_i hp
          exact hp
        . rename_i hp
          rw [if_neg hp] at h
          exact ih _ h
  generalize hx : s.find2 hkey key = x at h helem
  unfold find2 at hx
  dsimp only at hx
  split at hx
  . exact absurd hx.symm h
  . split at hx
    . rename_i hptr
      rw [hx] at hptr
      have hp := hseek _ _ _ (by rw [hx]; exact h)
      rw [hx] at hp
      simp only [hptr, Bool.not_true, Bool.false_or, helem, Bool.and_eq_true, decide_eq_true_eq] at hp
      exact hp.2
    . exact absurd hx.symm h

section Now

theorem now_eraseIteratorHelper (s : LsShmHash) (iterOff : Nat)
    : (s.eraseIteratorHelper iterOff).now = s.now := by
  have hlink : ∀ t : LsShmHash, (if t.flagLru then t.unlinkHElem iterOff else t).now = t.now := by
    intro t
    split
    . rw [lruOnly_unlinkHElem t iterOff]
    . rfl
  have hcb : ∀ t : LsShmHash, (if t.flagTid then t.eraseIterCb iterOff else t).now = t.now := by
    intro t
    split
    . unfold eraseIterCb
      dsimp only
      split <;> rfl
    . rfl
  have hleave : ∀ (t : LsShmHash) (i o n : Nat), (t.leaveBucket iterOff i o n).now = t.now := by
    intro t i o n
    unfold leaveBucket
    dsimp only
    split
    . rfl
    . split <;> rfl
  unfold eraseIteratorHelper
  split
  . rfl
  . split
    . rfl
    . exact (hleave _ _ _ _).trans ((hcb _).trans (hlink s))

theorem now_trimsize (s : LsShmHash) (need : Int) (func : Option (LsShmHElem → Int)) (fuel : Nat)
    : (s.trimsize need func fuel).1.now = s.now := by
  have hiter : ∀ (act : Nat → LsShmHElem → TrimAct) (cost : LsShmHElem → Int) (st : TrimState),
      (trimIter act cost st).hash.now = st.hash.now := by
    intro act cost st
    unfold trimIter
    split
    . rfl
    . have hchk : (if st.hash.flagTid then st.hash.onTid (·.checkTidTbl) else st.hash).now =
          st.hash.now := by
        split <;> rfl
      dsimp only
      rw [← hchk]
      split
      . rfl
      . split
        . rfl
        . rfl
        . rw [lruOnly_linkSetTop _ st.offElem]
        . exact now_eraseIteratorHelper _ _
  have hrun : ∀ (act : Nat → LsShmHElem → TrimAct) (cost : LsShmHElem → Int) (us : List Unit)
      (st : TrimState),
      (Run.exec (fun st (_ : Unit) => trimIter act cost st) st us).hash.now = st.hash.now := by
    intro act cost us
    induction us with
    | nil => exact fun _ => rfl
    | cons u us ih => exact fun st => (ih _).trans (hiter act cost st)
  unfold trimsize trimLoop
  split
  . rfl
  . exact hrun _ _ _ (s.trimStart need)

end Now

def HasLen (n : Nat) (r : LsShmHash × Nat) : Prop :=
  r.2 ≠ 0 → ∀ e, r.1.table.elem r.2 = some e → e.valLen = n

theorem HasLen.quiet {n : Nat} {r : LsShmHash × Nat} (h : HasLen n r) {s' : LsShmHash} (hq : Quiet r.1 s')
    : HasLen n (s', r.2) := by
  intro h0 e he
  rw [hq.table] at he
  exact h h0 e he

theorem HasLen.valLen {n : Nat} {r : LsShmHash × Nat} (h : HasLen n r) {e : LsShmHElem}
    (he : r.1.offset2iterator r.2 = some e) : e.valLen = n := by
  refine h ?_ e (elem_of_offset2iterator he)
  intro h0
  rw [h0, offset2iterator_zero] at he
  cases he

theorem hasLen_zero (n : Nat) (s : LsShmHash) : HasLen n (s, 0) :=
  fun h0 => absurd rfl h0

theorem hasLen_allocIter (s : LsShmHash) (keyLen n : Nat) : HasLen n (s.allocIter keyLen n) := by
  unfold allocIter
  dsimp only
  split
  . exact hasLen_zero n _
  . intro _ e he
    have he : Function.update s.table.elem (s.shm.alloc2 (s.elementSize keyLen n)).2 (some _)
      (s.shm.alloc2 (s.elementSize keyLen n)).2 = some e := he
    rw [Function.update_self] at he
    cases he
    rfl

theorem HasLen.fillIter {r : LsShmHash × Nat} {parms : StrPair} (h : HasLen parms.val.len r) (hkey : Nat)
    : HasLen parms.val.len (r.1.fillIter r.2 hkey parms, r.2) := by
  unfold LsShmHash.fillIter
  split
  . exact h
  . intro _ e he
    have he : Function.update r.1.table.elem r.2 (some _) r.2 = some e := he
    rw [Function.update_self] at he
    cases he
    rfl

theorem hasLen_insertCopy2 (s : LsShmHash) (hkey : Nat) (parms : StrPair)
    : HasLen parms.val.len (s.insertCopy2 hkey parms) := by
  unfold insertCopy2
  dsimp only
  generalize (if s.capacity < s.size * s.table.x_iFullFactor then s.rehash else (s, true)) = r
  split
  . exact hasLen_zero _ _
  . have hq := hasLen_allocIter r.1 parms.key.length parms.val.len
    generalize r.1.allocIter parms.key.length parms.val.len = q at hq ⊢
    split
    . exact hq
    . split
      . exact hasLen_zero _ _
      . have hlink := (hq.fillIter hkey).quiet (quiet_linkCb _ q.2)
        intro h0 e he
        rw [elem_enterBucket] at he
        exact hlink h0 e he

theorem hasLen_insert2 (s : LsShmHash) (hkey : Nat) (parms : StrPair)
    : HasLen parms.val.len (s.insert2 hkey parms) := by
  rw [insert2_eq]
  exact (hasLen_insertCopy2 s hkey parms).quiet (quiet_insertCb _ _)

theorem hasLen_doInsert (s : LsShmHash) (iterOff hkey : Nat) (parms : StrPair)
    : HasLen parms.val.len (s.doInsert iterOff hkey parms) := by
  unfold doInsert
  split
  . exact hasLen_zero _ _
  . split
    . exact hasLen_zero _ _
    . exact hasLen_insert2 s hkey parms

theorem hasLen_doSet (s : LsShmHash) (iterOff hkey : Nat) (parms : StrPair)
    : HasLen parms.val.len (s.doSet iterOff hkey parms) := by
  unfold doSet
  split
  . exact hasLen_zero _ _
  . split
    . exact hasLen_insert2 s hkey parms
    . split
      . exact hasLen_insert2 _ hkey parms
      . rename_i iter _
        split
        . have hset : HasLen parms.val.len (s.setTable (·.setElem iterOff (some (iter.setVal parms.val))),
              iterOff) := by
            intro _ e he
            have he : Function.update s.table.elem iterOff (some (iter.setVal parms.val)) iterOff = some e := he
            rw [Function.update_self] at he
            cases he
            rfl
          exact hset.quiet (quiet_updateCbs _ iterOff)
        . exact hasLen_insert2 _ hkey parms

theorem hasLen_doUpdate (s : LsShmHash) (iterOff hkey : Nat) (parms : StrPair)
    : HasLen parms.val.len (s.doUpdate iterOff hkey parms) := by
  unfold doUpdate
  split
  . exact hasLen_zero _ _
  . exact hasLen_doSet s iterOff hkey parms

end LsShmHash

end Lsmcd
