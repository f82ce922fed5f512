import Lsmcd.Shm.Adds
import Lsmcd.Shm.HashMap

/-!
The element that an operation hands out, and when `offset2iterator` takes it for intact.
-/

namespace Lsmcd

open LsShmHTable

namespace LsShmHash

variable {s s' : LsShmHash} {E : List Nat} {x : Nat} {key : List UInt8} {v : ValParm}
  {map : List UInt8 → Option Value}

structure Made (s : LsShmHash) (parms : StrPair) (s' : LsShmHash) (off : Nat) : Prop where
  elem : ∃ e, s'.table.elem off = some e ∧ e.key = parms.key ∧
    e.x_iLen = s.elementSize parms.key.length parms.val.len ∧ e.x_iValOff = s.valueOff parms.key.length

theorem Made.keyOf {parms : StrPair} {off : Nat} (h : Made s parms s' off)
    : s'.table.keyOf off = parms.key := by
  obtain ⟨e, he, hkey, _⟩ := h.elem
  simpa [LsShmHTable.keyOf, he] using hkey

theorem offset2iterator_of_long {off : Nat} {e : LsShmHElem} (he : s.table.elem off = some e)
    (hval : 32 ≤ e.x_iValOff) (hlen : VALIDATE_MAXLEN < e.x_iLen) : s.offset2iterator off = none := by
  have hbad : LsShmHElem.iterOk s.shm off e.x_iLen e.x_iValOff = false := by
    have hsmall : ¬ e.x_iValOff < 32 := by omega
    simp [LsShmHElem.iterOk, LsShmHElem.validate, hsmall, hlen]
  unfold LsShmHash.offset2iterator
  simp only [he, hbad, Bool.and_false, Bool.false_eq_true, if_false]

theorem Made.offset2iterator {parms : StrPair} {off : Nat} (h : Made s parms s' off)
    (hs : ¬ s.Sound parms.key.length parms.val.len) : s'.offset2iterator off = none := by
  obtain ⟨e, he, _, hlen, hval⟩ := h.elem
  unfold Sound at hs
  rw [not_or, not_lt, not_le] at hs
  exact offset2iterator_of_long he (hval ▸ hs.1) (hlen ▸ hs.2)

theorem insert2_made (h : Rep s E) {hkey : Nat} {parms : StrPair} (h0 : (s.insert2 hkey parms).2 ≠ 0)
    : Made s parms (s.insert2 hkey parms).1 (s.insert2 hkey parms).2 := by
  obtain ⟨_, hk, _⟩ := rehashed_spec h
  have helem : ∀ t : LsShmHash, (t.allocIter parms.key.length parms.val.len).2 ≠ 0 →
      ∃ e, (t.allocIter parms.key.length parms.val.len).1.table.elem
          (t.allocIter parms.key.length parms.val.len).2 = some e ∧
        e.x_iLen = t.elementSize parms.key.length parms.val.len ∧ e.x_iValOff = t.valueOff parms.key.length := by
    intro t
    unfold allocIter
    dsimp only
    split
    . exact fun h => absurd rfl h
    . exact fun _ => ⟨_, Function.update_self .., rfl, rfl⟩
  have hfill : ∀ (t : LsShmHash) (off : Nat) (e : LsShmHElem), t.table.elem off = some e →
      (t.fillIter off hkey parms).table.elem off =
        some ({ e with x_hkey := hkey, key := parms.key }.setVal parms.val) := by
    intro t off e he
    unfold fillIter
    rw [he]
    exact Function.update_self ..
  constructor
  revert h0
  rw [insert2_eq]
  dsimp only
  rw [(quiet_insertCb _ _).table]
  unfold insertCopy2
  dsimp only
  rw [← rehashed]
  split
  . exact fun h => absurd rfl h
  . split
    . rename_i hq
      exact fun h => absurd hq h
    . rename_i hq
      split
      . exact fun h => absurd rfl h
      . intro _
        obtain ⟨e, he, hlen, hval⟩ := helem _ hq
        refine ⟨{ e with x_hkey := hkey, key := parms.key }.setVal parms.val, ?_, rfl, hlen.trans (elementSize_kept hk _ _), hval.trans (valueOff_kept hk _)⟩
        rw [elem_enterBucket]
        show (linkCb _ _).table.elem _ = _
        rw [(quiet_linkCb _ _).table]
        exact hfill _ _ _ he

theorem doSet_cases (h : Rep s E) (key : List UInt8) (v : ValParm)
    : let r := s.doSet (s.findKey key) (s.m_hf key) ⟨key, v⟩
      r = (s, 0) ∨
      (∃ e, s.findKey key ∈ E ∧ s.table.elem (s.findKey key) = some e ∧ v.len ≤ e.realValLen ∧
        r = ((s.setTable (·.setElem (s.findKey key) (some (e.setVal v)))).updateCbs (s.findKey key),
          s.findKey key)) ∨
      (∃ s' E', SameParm s s' ∧ Rep s' E' ∧ (∀ y ∈ E', s'.table.keyOf y ≠ key) ∧
        r = s'.insert2 (s'.m_hf key) ⟨key, v⟩) := by
  dsimp only
  unfold doSet
  cases hsz : checkSize v.len with
  | false => exact Or.inl rfl
  | true =>
    simp only [Bool.not_true, Bool.false_eq_true, if_false]
    right
    rcases h.lookup.find2_cases key with ⟨hz, hnone⟩ | ⟨hx, hkx⟩
    . right
      change s.findKey key = 0 at hz
      rw [if_pos hz]
      exact ⟨s, E, ⟨rfl, rfl, rfl⟩, h, hnone, rfl⟩
    . change s.findKey key ∈ E at hx
      obtain ⟨e, he, hiter, _⟩ := h.lookup.elem_some hx
      rw [if_neg (h.ne_zero hx), hiter]
      dsimp only
      split
      . rename_i hfit
        exact Or.inl ⟨e, hx, he, hfit, rfl⟩
      . obtain ⟨hparm, _, hkeys⟩ := erase_others h hx hkx
        refine Or.inr ⟨_, _, hparm, (eraseIteratorHelper_spec h hx he).1, hkeys, ?_⟩
        rw [hparm.hf]

structure HandedOut (s' : LsShmHash) (key : List UInt8) (off : Nat) : Prop where
  elems : ∃ E', Rep s' E' ∧ off ∈ E'
  key : s'.table.keyOf off = key

theorem HandedOut.isSome {off : Nat} (h : HandedOut s' key off) : (s'.offset2iterator off).isSome = true := by
  obtain ⟨E', hrep, hmem⟩ := h.elems
  obtain ⟨e, _, hiter, _⟩ := hrep.lookup.elem_some hmem
  rw [hiter]
  rfl

theorem HandedOut.findKey {off : Nat} (h : HandedOut s' key off) : s'.findKey key = off := by
  obtain ⟨E', hrep, hmem⟩ := h.elems
  exact hrep.lookup.find2_eq hmem h.key

theorem Rep.exists_maps (h : Rep s E) : ∃ map, Maps s E map := by
  refine ⟨fun key => if s.findKey key = 0 then none
    else (s.table.elem (s.findKey key)).map fun e => ⟨e.valLen, fun i => some (e.data i)⟩, ?_, ?_⟩
  . intro x hx e he
    have hfind : s.findKey e.key = x := h.lookup.find2_eq hx (by simp [keyOf, he])
    refine ⟨⟨e.valLen, fun i => some (e.data i)⟩, ?_, rfl, ?_⟩
    . rw [hfind, if_neg (h.ne_zero hx), he]
      rfl
    . intro i _ b hb
      exact Option.some.inj hb
  . intro key v hv
    split at hv
    . cases hv
    . rename_i hz
      exact ⟨_, (h.lookup.find2_cases key).resolve_left fun hnone => hz hnone.1⟩

theorem insert2_handedOut (h : Rep s E) (hkey : ∀ x ∈ E, s.table.keyOf x ≠ key)
    (hsound : s.Sound key.length v.len) (h0 : (s.insert2 (s.m_hf key) ⟨key, v⟩).2 ≠ 0)
    : HandedOut (s.insert2 (s.m_hf key) ⟨key, v⟩).1 key (s.insert2 (s.m_hf key) ⟨key, v⟩).2 := by
  obtain ⟨map, hmap⟩ := h.exists_maps
  obtain ⟨_, hfail | ⟨_, hrep, _⟩⟩ := insert2_maps h hmap ⟨key, v⟩ hkey hsound
  . exact absurd hfail.1 h0
  . exact ⟨⟨_, hrep, List.mem_cons_self ..⟩, (insert2_made h h0).keyOf⟩

theorem insert2_isSome (h : Rep s E) (hkey : ∀ x ∈ E, s.table.keyOf x ≠ key)
    (h0 : (s.insert2 (s.m_hf key) ⟨key, v⟩).2 ≠ 0)
    : ((s.insert2 (s.m_hf key) ⟨key, v⟩).1.offset2iterator (s.insert2 (s.m_hf key) ⟨key, v⟩).2).isSome = true ↔
      s.Sound key.length v.len := by
  constructor
  . intro hiter
    by_contra hs
    rw [(insert2_made h h0).offset2iterator hs] at hiter
    cases hiter
  . exact fun hs => (insert2_handedOut h hkey hs h0).isSome

theorem SameParm.sound_iff (h : SameParm s s') (keyLen valLen : Nat)
    : s'.Sound keyLen valLen ↔ s.Sound keyLen valLen :=
  ⟨SameParm.sound ⟨h.hf.symm, h.flagLru.symm, h.flagTid.symm⟩, h.sound⟩

theorem valueOff_mod (s : LsShmHash) (n : Nat) : s.valueOff n % 4 = 0 := by
  unfold valueOff iterExtraSpace sizeofVardata sizeofHElemLink sizeofTidLink round4
  cases s.flagLru <;> cases s.flagTid <;> simp <;> omega

theorem ElemOk.sound_of_fit {e : LsShmHElem} (h : ElemOk s x e) (hfit : v.len ≤ e.realValLen)
    : s.Sound e.key.length v.len := by
  obtain ⟨room, hlen, _⟩ := h.len
  rcases h.sound with hsmall | hmax
  . left
    rw [← h.valOff]
    exact hsmall
  . right
    unfold LsShmHElem.realValLen at hfit
    unfold elementSize
    have hmod := valueOff_mod s e.key.length
    rw [h.valOff] at hlen hfit
    unfold sizeofHElem sizeofVardata VALIDATE_MAXLEN at *
    unfold round4
    omega

theorem doSet_handedOut (h : Rep s E) (hsound : s.Sound key.length v.len)
    (h0 : (s.doSet (s.findKey key) (s.m_hf key) ⟨key, v⟩).2 ≠ 0)
    : HandedOut (s.doSet (s.findKey key) (s.m_hf key) ⟨key, v⟩).1 key
        (s.doSet (s.findKey key) (s.m_hf key) ⟨key, v⟩).2 := by
  have hkey := (h.lookup.find2_cases key).imp And.right And.right
  rcases doSet_cases h key v with hz | ⟨e, hx, he, hfit, heq⟩ | ⟨s', E', hparm, hrep, hkeys, heq⟩
  . exact absurd (congrArg Prod.snd hz) h0
  . rw [heq]
    obtain ⟨e', he', hok⟩ := h.elems _ hx
    cases he.symm.trans he'
    have hset := h.setElem (o := some (e.setVal v)) (fun _ => ⟨e, _, he, rfl, rfl, setVal_ok hok hfit⟩)
    have hq := quiet_updateCbs (s.setTable (·.setElem (s.findKey key) (some (e.setVal v)))) (s.findKey key)
    refine ⟨⟨E, hset.quiet hq, hx⟩, ?_⟩
    rw [hq.table]
    have hold : s.table.keyOf (s.findKey key) = key := hkey.resolve_left fun hnone =>
      h.ne_zero hx (h.lookup.find2_eq_zero_iff.mpr hnone)
    rw [← hold]
    show (s.table.setElem _ _).keyOf _ = _
    simp [keyOf, he, LsShmHTable.setElem, LsShmHElem.setVal]
  . rw [heq] at h0 ⊢
    exact insert2_handedOut hrep hkeys (hparm.sound hsound) h0

theorem doSet_isSome (h : Rep s E) (h0 : (s.doSet (s.findKey key) (s.m_hf key) ⟨key, v⟩).2 ≠ 0)
    : ((s.doSet (s.findKey key) (s.m_hf key) ⟨key, v⟩).1.offset2iterator
        (s.doSet (s.findKey key) (s.m_hf key) ⟨key, v⟩).2).isSome = true ↔ s.Sound key.length v.len := by
  constructor
  . intro hiter
    rcases doSet_cases h key v with hz | ⟨e, hx, he, hfit, _⟩ | ⟨s', E', hparm, hrep, hkeys, heq⟩
    . exact absurd (congrArg Prod.snd hz) h0
    . obtain ⟨e', he', hok⟩ := h.elems _ hx
      cases he.symm.trans he'
      have hkey : s.table.keyOf (s.findKey key) = key :=
        ((h.lookup.find2_cases key).resolve_left fun hnone => h.ne_zero hx hnone.1).2
      simp only [keyOf, he] at hkey
      rw [← hkey]
      exact hok.sound_of_fit hfit
    . rw [heq] at h0 hiter
      exact (hparm.sound_iff _ _).mp ((insert2_isSome hrep hkeys h0).mp hiter)
  . exact fun hs => (doSet_handedOut h hs h0).isSome

theorem doInsert_isSome (h : Rep s E) (h0 : (s.doInsert (s.findKey key) (s.m_hf key) ⟨key, v⟩).2 ≠ 0)
    : ((s.doInsert (s.findKey key) (s.m_hf key) ⟨key, v⟩).1.offset2iterator
        (s.doInsert (s.findKey key) (s.m_hf key) ⟨key, v⟩).2).isSome = true ↔ s.Sound key.length v.len := by
  revert h0
  unfold doInsert
  split
  . exact fun h0 => absurd rfl h0
  . rename_i hz
    split
    . exact fun h0 => absurd rfl h0
    . exact insert2_isSome h (h.lookup.find2_eq_zero_iff.mp (not_not.mp hz))

theorem doUpdate_eq (s : LsShmHash) {iterOff : Nat} (h : iterOff ≠ 0) (hkey : Nat) (parms : StrPair)
    : s.doUpdate iterOff hkey parms = s.doSet iterOff hkey parms :=
  if_neg h

theorem Rep.withElem_rep (h : Rep s E) {m : Shm} {off n : Nat} {e : LsShmHElem} (hg : Shm.Grows s.shm m)
    (hf : Shm.Fresh s.shm m off n) (hn : 0 < n) : Rep (s.withElem m off e) E ∧ off ∉ E := by
  obtain ⟨hE, _, _⟩ := h.fresh hf hn
  exact ⟨((h.withShm hg).setElem (x := off) (o := some e) (fun hx => absurd hx hE)).quiet (quiet_tidLink _ _), hE⟩

def StillRep (s s' : LsShmHash) : Prop :=
  (∃ E', Rep s' E') ∧ s'.m_hf = s.m_hf

theorem Rep.still (h : Rep s E) : StillRep s s := ⟨⟨E, h⟩, rfl⟩

theorem StillRep.quiet {t u : LsShmHash} (h : StillRep s t) (hq : Quiet t u) : StillRep s u :=
  ⟨h.1.imp fun _ hE => hE.quiet hq, hq.hf.trans h.2⟩

theorem iterGrowValue_outcome (h : Rep s E) (hx : x ∈ E) {e : LsShmHElem} (he : s.table.elem x = some e)
    (n : Nat) (front : Bool)
    : let q := s.shm.alloc2 (e.x_iLen + round4 n)
      let e' := growElem e (q.1.junk q.2) n front
      (q.2 = 0 ∧ s.iterGrowValue x n front = ({ s with shm := q.1 }, 0)) ∨
      (q.2 ≠ 0 ∧ LsShmHElem.iterOk q.1 q.2 (q.1.junk q.2).x_iLen (q.1.junk q.2).x_iValOff = false ∧
        s.iterGrowValue x n front = ({ s with shm := q.1 }.rebuild, 0)) ∨
      (q.2 ≠ 0 ∧ LsShmHElem.iterOk q.1 q.2 (q.1.junk q.2).x_iLen (q.1.junk q.2).x_iValOff = true ∧
        ∃ t, StillRep s t ∧ t.flagTid = s.flagTid ∧ t.table.elem q.2 = some e' ∧
          s.iterGrowValue x n front =
            if t.flagTid && (t.offset2iterator q.2).isNone then (t.rebuild, 0)
            else (t.enterBucket q.2 e.x_hkey, q.2)) := by
  intro q e'
  have hptr := h.offset2ptr hx
  unfold iterGrowValue
  simp only [he, hptr, Bool.not_true, Bool.false_eq_true, if_false]
  rw [show s.shm.alloc2 (e.x_iLen + round4 n) = q from rfl]
  by_cases h0 : q.2 = 0
  . left
    rw [if_pos h0]
    exact ⟨h0, rfl⟩
  right
  have hne : (s.shm.alloc2 (e.x_iLen + round4 n)).2 ≠ 0 := h0
  have hfresh := Shm.fresh_alloc2 _ _ hne
  have hgrows := Shm.grows_alloc2 s.shm (e.x_iLen + round4 n)
  have hpos := size2roundSize_pos (Shm.alloc2_size _ _ hne).1
  have hoptr : q.1.offset2ptr q.2 = true := hfresh.owns.offset2ptr
  rw [if_neg h0, hoptr, Bool.true_and]
  cases hjunk : LsShmHElem.iterOk q.1 q.2 (q.1.junk q.2).x_iLen (q.1.junk q.2).x_iValOff with
  | false =>
    left
    exact ⟨h0, rfl, rfl⟩
  | true =>
    right
    rw [if_neg (by simp)]
    -- the new element is in no bucket yet
    obtain ⟨h₁, hnot⟩ := h.withElem_rep (e := e') hgrows hfresh hpos
    change Rep (s.withElem q.1 q.2 e') E at h₁
    have hne₁ : x ≠ q.2 := fun hxq => hnot (hxq ▸ hx)
    have he₁ : (s.withElem q.1 q.2 e').table.elem x = some e := (setElem_of_ne hne₁ _ _).trans he
    obtain ⟨h₂, hd⟩ := eraseIteratorHelper_spec h₁ hx he₁
    have hq := quiet_eraseCbs (s.withElem q.1 q.2 e') x
    have hcbs := (quiet_linkCb ((s.withElem q.1 q.2 e').eraseIteratorHelper x) q.2).trans
      (quiet_insertCb _ q.2)
    refine ⟨h0, rfl, (((s.withElem q.1 q.2 e').eraseIteratorHelper x).linkCb q.2).insertCb q.2, ?_, ?_, ?_, rfl⟩
    . exact StillRep.quiet ⟨⟨_, h₂⟩, hd.hf.trans hq.hf⟩ hcbs
    . exact hcbs.flagTid.trans (hd.flagTid.trans hq.flagTid)
    . rw [hcbs.table, (erase_others h₁ hx rfl).2.1 q.2 hne₁.symm]
      exact Function.update_self ..

theorem iterGrowValue_elem (h : Rep s E) (hx : x ∈ E) {e : LsShmHElem} (he : s.table.elem x = some e) (n : Nat)
    (front : Bool) (h0 : (s.iterGrowValue x n front).2 ≠ 0)
    : ∃ e', (s.iterGrowValue x n front).1.table.elem (s.iterGrowValue x n front).2 = some e' ∧
        e'.key = e.key ∧ e'.x_iLen = e.x_iLen + round4 n ∧ e'.x_iValOff = e.x_iValOff := by
  have hout := iterGrowValue_outcome h hx he n front
  dsimp only at hout
  rcases hout with ⟨_, heq⟩ | ⟨_, _, heq⟩ | ⟨_, _, t, _, _, hnew, heq⟩
  . rw [heq] at h0
    exact absurd rfl h0
  . rw [heq] at h0
    exact absurd rfl h0
  . rw [heq] at h0 ⊢
    split at h0
    . exact absurd rfl h0
    . next hlast =>
      rw [if_neg hlast]
      have hlast := (elem_enterBucket t (s.shm.alloc2 (e.x_iLen + round4 n)).2 e.x_hkey).symm ▸ hnew
      exact ⟨_, hlast, rfl, rfl, rfl⟩

theorem iterGrowValue_handedOut (h : Rep s E) {n : Nat} {front : Bool}
    (hsound : s.GrowSound (s.findKey key) n) (h0 : (s.iterGrowValue (s.findKey key) n front).2 ≠ 0)
    : HandedOut (s.iterGrowValue (s.findKey key) n front).1 key
        (s.iterGrowValue (s.findKey key) n front).2 := by
  rcases h.lookup.find2_cases key with ⟨hz, _⟩ | ⟨hx, hkx⟩
  . rw [show s.findKey key = 0 from hz, iterGrowValue_zero] at h0
    exact absurd rfl h0
  . change s.findKey key ∈ E at hx
    change s.table.keyOf (s.findKey key) = key at hkx
    generalize s.findKey key = x at *
    obtain ⟨e, he, _⟩ := h.elems x hx
    obtain ⟨e₁, he₁, hkey₁, _⟩ := iterGrowValue_elem h hx he n front h0
    constructor
    case key => simpa [keyOf, he, he₁, hkey₁] using hkx
    case elems =>
      have hcases := iterGrowValue_cases h hx he n front (hsound e he)
      dsimp only at hcases
      rcases hcases with ⟨_, heq⟩ | ⟨_, _, heq⟩ | ⟨_, _, _, _, h₂, hs₂, _, hroom, hkeys, heq⟩
      . rw [heq] at h0
        exact absurd rfl h0
      . rw [heq] at h0
        exact absurd rfl h0
      . rw [heq]
        generalize s.shm.alloc2 (e.x_iLen + round4 n) = q at *
        generalize growElem e (q.1.junk q.2) n front = e' at *
        generalize (s.withElem q.1 q.2 e').eraseIteratorHelper x = s₂ at *
        have hq₃ := (quiet_linkCb s₂ q.2).trans (quiet_insertCb (s₂.linkCb q.2) q.2)
        refine ⟨_, (enterBucket_spec (h₂.quiet hq₃) (hs₂.quiet h₂ hq₃) ?_ ?_).1, List.mem_cons_self ..⟩
        . rw [hq₃.table]
          exact hkeys
        . unfold capacity at hroom ⊢
          rw [hq₃.table]
          exact hroom

theorem iterGrowValue_isSome (h : Rep s E) {n : Nat} {front : Bool}
    (h0 : (s.iterGrowValue (s.findKey key) n front).2 ≠ 0)
    : ((s.iterGrowValue (s.findKey key) n front).1.offset2iterator
        (s.iterGrowValue (s.findKey key) n front).2).isSome = true ↔ s.GrowSound (s.findKey key) n := by
  rcases h.lookup.find2_cases key with ⟨hz, _⟩ | ⟨hx, _⟩
  . rw [show s.findKey key = 0 from hz, iterGrowValue_zero] at h0
    exact absurd rfl h0
  . change s.findKey key ∈ E at hx
    obtain ⟨e, he, _⟩ := h.elems _ hx
    have hsound : s.GrowSound (s.findKey key) n ↔ (e.x_iValOff < 32 ∨ e.x_iLen + round4 n ≤ VALIDATE_MAXLEN) := by
      unfold GrowSound
      rw [he]
      exact ⟨fun hs => hs e rfl, fun hs e' he' => Option.some.inj he' ▸ hs⟩
    constructor
    . rw [hsound]
      intro hiter
      obtain ⟨e', he', _, hlen, hval⟩ := iterGrowValue_elem h hx he n front h0
      by_contra hs
      rw [not_or, not_lt, not_le] at hs
      rw [offset2iterator_of_long he' (hval ▸ hs.1) (hlen ▸ hs.2)] at hiter
      cases hiter
    . exact fun hs => (iterGrowValue_handedOut h hs h0).isSome

theorem insert2_failed (h : Rep s E) {hkey : Nat} {parms : StrPair} (h0 : (s.insert2 hkey parms).2 = 0)
    : StillRep s (s.insert2 hkey parms).1 := by
  obtain ⟨h₁, hk, _⟩ := rehashed_spec h
  rw [insert2_eq] at h0 ⊢
  dsimp only at h0 ⊢
  refine StillRep.quiet ?_ (quiet_insertCb _ _)
  revert h0
  unfold insertCopy2
  dsimp only
  rw [← rehashed]
  split
  . exact fun _ => ⟨⟨E, h₁⟩, hk.hf⟩
  . generalize s.rehashed.1 = s₁ at *
    unfold allocIter
    dsimp only
    by_cases hz : (s₁.shm.alloc2 (s₁.elementSize parms.key.length parms.val.len)).2 = 0
    . rw [if_pos hz, if_pos rfl]
      exact fun _ => ⟨⟨E, h₁.withShm (Shm.grows_alloc2 _ _)⟩, hk.hf⟩
    . have hptr := (Shm.fresh_alloc2 _ _ hz).owns.offset2ptr
      rw [if_neg hz]
      dsimp only
      rw [if_neg hz]
      intro h0
      rw [if_neg (by rw [Bool.not_eq_true', Bool.not_eq_false]; exact hptr)] at h0
      exact absurd h0 hz

theorem doSet_failed (h : Rep s E) {v : ValParm} (h0 : (s.doSet (s.findKey key) (s.m_hf key) ⟨key, v⟩).2 = 0)
    : StillRep s (s.doSet (s.findKey key) (s.m_hf key) ⟨key, v⟩).1 := by
  rcases doSet_cases h key v with heq | ⟨e, hx, _, _, heq⟩ | ⟨s', E', hparm, hrep, _, heq⟩
  . rw [heq]
    exact h.still
  . rw [heq] at h0
    exact absurd h0 (h.ne_zero hx)
  . rw [heq] at h0 ⊢
    obtain ⟨hE, hf⟩ := insert2_failed hrep h0
    exact ⟨hE, hf.trans hparm.hf⟩

theorem iterGrowValue_failed (h : Rep s E) {n : Nat} {front : Bool}
    (h0 : (s.iterGrowValue (s.findKey key) n front).2 = 0)
    : StillRep s (s.iterGrowValue (s.findKey key) n front).1 := by
  rcases h.lookup.find2_cases key with ⟨hz, _⟩ | ⟨hx, _⟩
  . rw [show s.findKey key = 0 from hz, iterGrowValue_zero]
    exact h.still
  . change s.findKey key ∈ E at hx
    generalize s.findKey key = x at *
    obtain ⟨e, he, _⟩ := h.elems x hx
    have hshm := h.withShm (Shm.grows_alloc2 s.shm (e.x_iLen + round4 n))
    have hout := iterGrowValue_outcome h hx he n front
    dsimp only at hout
    rcases hout with ⟨_, heq⟩ | ⟨_, _, heq⟩ | ⟨hne, _, t, ht, _, _, heq⟩
    . rw [heq]
      exact ⟨⟨E, hshm⟩, rfl⟩
    . rw [heq]
      exact ⟨⟨E, hshm.quiet (quiet_rebuild _)⟩, rfl⟩
    . rw [heq] at h0 ⊢
      split at h0
      . next hlast =>
        rw [if_pos hlast]
        exact ht.quiet (quiet_rebuild t)
      . exact absurd h0 hne

end LsShmHash

end Lsmcd
