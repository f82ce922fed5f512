import Lsmcd.Shm.Hash
import Lsmcd.Shm.TidMgrLemmas

/-!
What a `LsShmHash` in use looks like: the elements of a list `E` are distributed over the buckets,
each is intact and has a block of its own.
-/

namespace Lsmcd

namespace LsShmHash

/--
The element at `off` is laid out as `allocIter` does it, and passes the checks of `validate`.
-/
structure ElemOk (s : LsShmHash) (off : Nat) (e : LsShmHElem) : Prop where
  hkey : e.x_hkey = s.m_hf e.key
  valOff : e.x_iValOff = s.valueOff e.key.length
  len : ∃ room, e.x_iLen = sizeofHElem + e.x_iValOff + sizeofVardata + room ∧ e.valLen ≤ room
  sound : e.x_iValOff < 32 ∨ e.x_iLen ≤ VALIDATE_MAXLEN
  owns : s.shm.Owns off (size2roundSize e.x_iLen)

variable {s s' : LsShmHash} {E : List Nat}

theorem validate_of_owns {m : Shm} {off x_iLen x_iValOff : Nat} {lru : Bool}
    (ho : m.Owns off x_iLen) (hlen : sizeofHElem + x_iValOff + sizeofVardata ≤ x_iLen)
    (hmax : x_iLen ≤ VALIDATE_MAXLEN)
    (hoff : sizeofVardata + (if lru then sizeofHElemLink else 0) < x_iValOff)
    : LsShmHElem.validate m off x_iLen x_iValOff lru = true := by
  have hadd := ho.add_le
  have hfs := m.fileSize_lt
  have hvalid : m.isOffsetValid ((x_iValOff + (off + sizeofHElem)) % 2 ^ 32) = true := by
    rw [Nat.mod_eq_of_lt (by omega), show x_iValOff + (off + sizeofHElem) =
      off + (sizeofHElem + x_iValOff) by omega]
    exact ho.isOffsetValid (by omega)
  unfold LsShmHElem.validate
  rw [hvalid]
  unfold sizeofHElem sizeofVardata sizeofHElemLink round4 at *
  cases lru with
  | false =>
    simp only [Bool.false_eq_true, if_false] at hoff
    simp
    omega
  | true =>
    simp only [if_true] at hoff
    simp
    omega

theorem ElemOk.len_ge {off : Nat} {e : LsShmHElem} (h : ElemOk s off e)
    : sizeofHElem + e.x_iValOff + sizeofVardata ≤ e.x_iLen := by
  obtain ⟨room, hlen, _⟩ := h.len
  omega

theorem ElemOk.offset2iterator {off : Nat} {e : LsShmHElem} (h : ElemOk s off e)
    (he : s.table.elem off = some e) : s.offset2iterator off = some e := by
  have ho := h.owns.mono (le_size2roundSize e.x_iLen)
  unfold LsShmHash.offset2iterator
  simp only [he, ho.offset2ptr, Bool.true_and]
  rw [if_pos]
  unfold LsShmHElem.iterOk
  by_cases hsmall : e.x_iValOff < 32
  . simp [hsmall]
  . have hlen := h.sound.resolve_left hsmall
    rw [validate_of_owns ho h.len_ge hlen, Bool.or_true]
    unfold sizeofVardata
    simp
    omega

/--
The header between two operations: no rehash is going on, and the index with its bitmap has a block
of its own.
-/
structure TableOk (m : Shm) (t : LsShmHTable) : Prop where
  prime : t.x_iCapacity ∈ s_primeList
  cap_le : t.x_iCapacity * 4 + sz2BitMapSz t.x_iCapacity ≤ LSSHM_MAXSIZE
  fullFactor : t.x_iFullFactor = 2
  growFactor : t.x_iGrowFactor = 2
  idle : t.x_iHIdxNew = t.x_iHIdx
  work : t.x_iWorkIterOff = 0
  bitMapSz : t.x_iBitMapSz = sz2BitMapSz t.x_iCapacity
  hIdx : t.x_iHIdx = t.x_iBitMap + t.x_iBitMapSz
  owns : m.Owns t.x_iBitMap (size2roundSize (sz2TableSz t.x_iCapacity + sz2BitMapSz t.x_iCapacity))

theorem TableOk.cap_pos {m : Shm} {t : LsShmHTable} (h : TableOk m t) : 0 < t.x_iCapacity := by
  have hpos : ∀ c ∈ s_primeList, 0 < c := by decide
  exact hpos _ h.prime

structure Rep (s : LsShmHash) (E : List Nat) : Prop where
  nodup : E.Nodup
  size : s.table.x_iSize = E.length
  size_le : E.length ≤ s.capacity
  elems : ∀ x ∈ E, ∃ e, s.table.elem x = some e ∧ ElemOk s x e
  keys : ∀ x ∈ E, ∀ y ∈ E, s.table.keyOf x = s.table.keyOf y → x = y
  buckets : Linked.Buckets s.table.next 0 (s.table.hIdx s.table.x_iHIdx) s.table.getIndex
    s.capacity (· ∈ E)
  bits : s.table.x_iBitMapSz ≠ 0 → ∀ b < s.capacity,
    (s.table.bitMap s.table.x_iBitMap b = true ↔ s.table.hIdx s.table.x_iHIdx b ≠ 0)
  tableOk : TableOk s.shm s.table
  table_notMem : s.table.x_iBitMap ∉ E
  blks : LsShmTidMgr.Blks s.toLsShmTidMgr
  unused : ∀ x, x = s.table.x_iBitMap ∨ x ∈ E → ¬ s.toLsShmTidMgr.Uses x

theorem Rep.ne_zero (h : Rep s E) {x : Nat} (hx : x ∈ E) : x ≠ 0 := by
  obtain ⟨e, _, hok⟩ := h.elems x hx
  exact hok.owns.ne_zero

theorem Rep.offset2ptr (h : Rep s E) {x : Nat} (hx : x ∈ E) : s.shm.offset2ptr x = true := by
  obtain ⟨e, _, hok⟩ := h.elems x hx
  exact hok.owns.offset2ptr

theorem Rep.length_lt_fuel (h : Rep s E) {xs : List Nat} (hnd : xs.Nodup) (hxs : ∀ x ∈ xs, x ∈ E)
    : xs.length < s.fuel := by
  unfold fuel
  apply Nat.lt_succ_of_le
  apply s.shm.length_le_live hnd
  intro x hx
  obtain ⟨e, _, hok⟩ := h.elems x (hxs x hx)
  exact ⟨_, hok.owns⟩

/--
`s'` differs from `s` in the LRU list, in the ids and their table and in the clock only.
-/
structure Quiet (s s' : LsShmHash) : Prop where
  table : s'.table = s.table
  hf : s'.m_hf = s.m_hf
  flagLru : s'.flagLru = s.flagLru
  flagTid : s'.flagTid = s.flagTid
  tid : LsShmTidMgr.Blks s.toLsShmTidMgr →
    LsShmTidMgr.Blks s'.toLsShmTidMgr ∧ LsShmTidMgr.Frame s.toLsShmTidMgr s'.toLsShmTidMgr

theorem Quiet.refl (s : LsShmHash) : Quiet s s :=
  ⟨rfl, rfl, rfl, rfl, fun h => ⟨h, LsShmTidMgr.Frame.refl _⟩⟩

theorem Quiet.trans {s₁ s₂ s₃ : LsShmHash} (h₁ : Quiet s₁ s₂) (h₂ : Quiet s₂ s₃)
    : Quiet s₁ s₃ where
  table := h₂.table.trans h₁.table
  hf := h₂.hf.trans h₁.hf
  flagLru := h₂.flagLru.trans h₁.flagLru
  flagTid := h₂.flagTid.trans h₁.flagTid
  tid := fun h => ⟨(h₂.tid (h₁.tid h).1).1, (h₁.tid h).2.trans (h₂.tid (h₁.tid h).1).2⟩

theorem valueOff_congr (hl : s'.flagLru = s.flagLru) (ht : s'.flagTid = s.flagTid) (n : Nat)
    : s'.valueOff n = s.valueOff n := by
  unfold valueOff iterExtraSpace
  rw [hl, ht]

theorem ElemOk.congr {off : Nat} {e : LsShmHElem} (h : ElemOk s off e) (hf : s'.m_hf = s.m_hf)
    (hl : s'.flagLru = s.flagLru) (ht : s'.flagTid = s.flagTid)
    (ho : s'.shm.Owns off (size2roundSize e.x_iLen)) : ElemOk s' off e where
  hkey := h.hkey.trans (congrFun hf.symm _)
  valOff := h.valOff.trans (valueOff_congr hl ht _).symm
  len := h.len
  sound := h.sound
  owns := ho

theorem Rep.quiet (h : Rep s E) (hq : Quiet s s') : Rep s' E := by
  have hcap : s'.capacity = s.capacity := by
    unfold capacity
    rw [hq.table]
  obtain ⟨hblks, hframe⟩ := hq.tid h.blks
  have htbl := hframe.owns _ _ h.tableOk.owns (h.unused _ (Or.inl rfl))
  constructor
  case nodup => exact h.nodup
  case size => rw [hq.table]; exact h.size
  case size_le => rw [hcap]; exact h.size_le
  case elems =>
    intro x hx
    obtain ⟨e, he, hok⟩ := h.elems x hx
    refine ⟨e, by rw [hq.table]; exact he, ?_⟩
    exact hok.congr hq.hf hq.flagLru hq.flagTid
      (hframe.owns _ _ hok.owns (h.unused x (Or.inr hx)))
  case keys => rw [hq.table]; exact h.keys
  case buckets => rw [hcap, hq.table]; exact h.buckets
  case bits => rw [hcap, hq.table]; exact h.bits
  case tableOk => rw [hq.table]; exact { h.tableOk with owns := htbl }
  case table_notMem => rw [hq.table]; exact h.table_notMem
  case blks => exact hblks
  case unused =>
    rw [hq.table]
    intro x hx
    have hu := h.unused x hx
    rcases hx with rfl | hx
    . exact hframe.uses _ _ h.tableOk.owns hu
    . obtain ⟨e, _, hok⟩ := h.elems x hx
      exact hframe.uses _ _ hok.owns hu

theorem Rep.withShm (h : Rep s E) {m : Shm} (hg : Shm.Grows s.shm m) : Rep { s with shm := m } E where
  nodup := h.nodup
  size := h.size
  size_le := h.size_le
  elems := by
    intro x hx
    obtain ⟨e, he, hok⟩ := h.elems x hx
    exact ⟨e, he, hok.congr rfl rfl rfl (hok.owns.grows hg)⟩
  keys := h.keys
  buckets := h.buckets
  bits := h.bits
  tableOk := { h.tableOk with owns := h.tableOk.owns.grows hg }
  table_notMem := h.table_notMem
  blks := h.blks.withShm (fun _ _ ho _ => ho.grows hg)
  unused := h.unused

theorem quiet_setLru (s : LsShmHash) (f : LsHashLruInfo → LsHashLruInfo) : Quiet s (s.setLru f) :=
  ⟨rfl, rfl, rfl, rfl, fun h => ⟨h, LsShmTidMgr.Frame.refl _⟩⟩

theorem quiet_rebuild (s : LsShmHash) : Quiet s s.rebuild :=
  ⟨rfl, rfl, rfl, rfl, fun h => ⟨h, LsShmTidMgr.Frame.refl _⟩⟩

theorem quiet_tidLink (s : LsShmHash) (f : Nat → Nat) : Quiet s { s with tidLink := f } :=
  ⟨rfl, rfl, rfl, rfl, fun h => ⟨h, LsShmTidMgr.Frame.refl _⟩⟩

theorem quiet_onTid (s : LsShmHash) {f : LsShmTidMgr → LsShmTidMgr}
    (hf : LsShmTidMgr.Blks s.toLsShmTidMgr → LsShmTidMgr.Blks (f s.toLsShmTidMgr) ∧
      LsShmTidMgr.Frame s.toLsShmTidMgr (f s.toLsShmTidMgr))
    : Quiet s (s.onTid f) :=
  ⟨rfl, rfl, rfl, rfl, hf⟩

def LruOnly (s s' : LsShmHash) : Prop :=
  s' = { s with lru := s'.lru, rebuilt := s'.rebuilt }

theorem LruOnly.refl (s : LsShmHash) : LruOnly s s := rfl

theorem LruOnly.trans {s₁ s₂ s₃ : LsShmHash} (h₁ : LruOnly s₁ s₂) (h₂ : LruOnly s₂ s₃)
    : LruOnly s₁ s₃ := by
  unfold LruOnly at h₁ h₂ ⊢
  rw [h₂, h₁]

theorem LruOnly.quiet (h : LruOnly s s') : Quiet s s' := by
  rw [h]
  exact ⟨rfl, rfl, rfl, rfl, fun h => ⟨h, LsShmTidMgr.Frame.refl _⟩⟩

theorem lruOnly_setLru (s : LsShmHash) (f : LsHashLruInfo → LsHashLruInfo) : LruOnly s (s.setLru f) :=
  rfl

theorem lruOnly_rebuild (s : LsShmHash) : LruOnly s s.rebuild := rfl

theorem lruOnly_setLink (s : LsShmHash) (offThis value : Nat) (f : LsHashLruInfo → LsHashLruInfo)
    : LruOnly s (s.setLink offThis value f).1 := by
  unfold setLink
  split
  . split
    . exact lruOnly_rebuild s
    . split
      . exact lruOnly_setLru s f
      . exact LruOnly.refl s
  . exact LruOnly.refl s

theorem lruOnly_linkHElem (s : LsShmHash) (off : Nat) : LruOnly s (s.linkHElem off) := by
  unfold linkHElem
  split
  . exact LruOnly.refl s
  . split
    . have hq := lruOnly_setLink s s.lru.linkFirst off (·.setNext s.lru.linkFirst off)
      dsimp only
      split
      . exact hq
      . exact (hq.trans (lruOnly_setLru _ _)).trans (lruOnly_setLru _ _)
    . exact (lruOnly_setLru s _).trans (lruOnly_setLru _ _)

theorem lruOnly_unlinkHElem (s : LsShmHash) (off : Nat) : LruOnly s (s.unlinkHElem off) := by
  unfold unlinkHElem
  split
  . exact LruOnly.refl s
  . dsimp only
    generalize hr : (if s.lru.linkNext off ≠ 0 then
      s.set_linkPrev (s.lru.linkNext off) (s.lru.linkPrev off)
      else (s.setLru fun l => { l with linkFirst := l.linkPrev off }, false)) = r
    have hqr : LruOnly s r.1 := by
      rw [← hr]
      split
      . exact lruOnly_setLink s _ _ _
      . dsimp only
        exact lruOnly_setLru s _
    split
    . exact hqr
    . generalize hq : (if r.1.lru.linkPrev off ≠ 0 then
        r.1.set_linkNext (r.1.lru.linkPrev off) (r.1.lru.linkNext off)
        else (r.1.setLru fun l => { l with linkLast := l.linkNext off }, false)) = q
      have hqq : LruOnly r.1 q.1 := by
        rw [← hq]
        split
        . exact lruOnly_setLink r.1 _ _ _
        . dsimp only
          exact lruOnly_setLru r.1 _
      split
      . exact hqr.trans hqq
      . exact (hqr.trans hqq).trans (lruOnly_setLru _ _)

theorem lruOnly_linkSetTop (s : LsShmHash) (off : Nat) : LruOnly s (s.linkSetTop off) := by
  unfold linkSetTop
  split
  . exact LruOnly.refl s
  . dsimp only
    split
    . generalize hr : (if s.lru.linkPrev off = 0 then
        (s.setLru fun l => { l with linkLast := s.lru.linkNext off }, false)
        else s.set_linkNext (s.lru.linkPrev off) (s.lru.linkNext off)) = r
      have hqr : LruOnly s r.1 := by
        rw [← hr]
        split
        . dsimp only
          exact lruOnly_setLru s _
        . exact lruOnly_setLink s _ _ _
      split
      . exact hqr
      . have hq := hqr.trans (lruOnly_setLink r.1 (s.lru.linkNext off) (s.lru.linkPrev off)
          (·.setPrev (s.lru.linkNext off) (s.lru.linkPrev off)))
        split
        . exact hq
        . split
          . exact (hq.trans (lruOnly_setLru _ _)).trans (lruOnly_setLink _ _ _ _)
          . exact ((hq.trans (lruOnly_setLru _ _)).trans (lruOnly_setLink _ _ _ _)).trans
              (lruOnly_setLru _ _)
    . exact lruOnly_setLru s _

theorem quiet_linkHElem (s : LsShmHash) (off : Nat) : Quiet s (s.linkHElem off) :=
  (lruOnly_linkHElem s off).quiet

theorem quiet_unlinkHElem (s : LsShmHash) (off : Nat) : Quiet s (s.unlinkHElem off) :=
  (lruOnly_unlinkHElem s off).quiet

theorem quiet_linkSetTop (s : LsShmHash) (off : Nat) : Quiet s (s.linkSetTop off) :=
  (lruOnly_linkSetTop s off).quiet

theorem quiet_linkTid (s : LsShmHash) (off pTid : Nat) : Quiet s (s.linkTid off pTid) := by
  have hq : Quiet s
      (s.onTid fun _ => (s.toLsShmTidMgr.setTidTblEnt (iterOff2tidVal off) pTid).1) :=
    quiet_onTid s (fun h => LsShmTidMgr.setTidTblEnt_blks h _ _)
  unfold linkTid
  dsimp only
  split
  . exact hq
  . split
    . exact hq.trans (quiet_rebuild _)
    . exact hq.trans (quiet_tidLink _ _)

theorem quiet_unlinkTid (s : LsShmHash) (tid : Nat) : Quiet s (s.onTid (·.unlinkTid tid)) :=
  quiet_onTid s (fun h => LsShmTidMgr.unlinkTid_blks h tid)

theorem quiet_eraseIterCb (s : LsShmHash) (off : Nat) : Quiet s (s.eraseIterCb off) := by
  unfold eraseIterCb
  dsimp only
  split
  . exact (quiet_tidLink s _).trans (quiet_unlinkTid _ _)
  . exact Quiet.refl s

theorem quiet_updateIterCb (s : LsShmHash) (off : Nat) : Quiet s (s.updateIterCb off) :=
  (quiet_eraseIterCb s off).trans (quiet_linkTid _ off 0)

theorem quiet_tidReplaceTid (s : LsShmHash) (off pTid : Nat) : Quiet s (s.tidReplaceTid off pTid) :=
  (quiet_unlinkTid s _).trans (quiet_linkTid _ off pTid)

theorem quiet_checkTidTbl (s : LsShmHash) : Quiet s (s.onTid (·.checkTidTbl)) :=
  quiet_onTid s (fun h => LsShmTidMgr.checkTidTbl_blks h)

theorem quiet_ite {c : Bool} {t : LsShmHash} (h : c = true → Quiet s t)
    : Quiet s (if c then t else s) := by
  split
  . next hc => exact h hc
  . exact Quiet.refl s

end LsShmHash

end Lsmcd
