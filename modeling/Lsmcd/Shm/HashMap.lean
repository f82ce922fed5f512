import Lsmcd.Lib.Run
import Lsmcd.Shm.HashOps

/-!
`LsShmHash` as a finite map from keys to values, over all runs of its operations.
-/

namespace Lsmcd

open LsShmHTable

/--
A value as far as it was stored: the bytes that no caller has given are left open.
-/
structure Value where
  len : Nat
  byte : Nat → Option UInt8

namespace Value

def ofParm (v : ValParm) : Value where
  len := v.len
  byte := fun i => v.buf.map (fun buf => buf i)

def grow (v : Value) (n : Nat) (front : Bool) : Value where
  len := v.len + n
  byte := fun i =>
    let shift := if front then n else 0
    if shift ≤ i ∧ i < shift + v.len then v.byte (i - shift) else none

def StoredIn (v : Value) (e : LsShmHElem) : Prop :=
  e.valLen = v.len ∧ ∀ i < v.len, ∀ b, v.byte i = some b → e.data i = b

theorem storedIn_setVal (v : ValParm) (e : LsShmHElem) : (ofParm v).StoredIn (e.setVal v) := by
  refine ⟨rfl, ?_⟩
  intro i hi b hb
  cases hbuf : v.buf with
  | none => simp [ofParm, hbuf] at hb
  | some buf =>
    simp only [ofParm, hbuf, Option.map_some, Option.some.injEq] at hb
    simp only [LsShmHElem.setVal, hbuf]
    rw [if_pos (show i < v.len from hi), hb]

theorem StoredIn.grow {v : Value} {e : LsShmHElem} (h : v.StoredIn e) (junk : Junk) (n : Nat)
    (front : Bool) : (v.grow n front).StoredIn (LsShmHash.growElem e junk n front) := by
  refine ⟨congrArg (· + n) h.1, ?_⟩
  intro i _ b hb
  simp only [Value.grow] at hb
  simp only [LsShmHash.growElem, h.1]
  generalize (if front then n else 0) = shift at hb ⊢
  split at hb
  . next hin =>
    rw [if_pos hin]
    exact h.2 _ (by omega) b hb
  . cases hb

end Value

namespace LsShmHash

variable {s s' : LsShmHash} {E : List Nat} {x : Nat} {key : List UInt8}

structure Maps (s : LsShmHash) (E : List Nat) (map : List UInt8 → Option Value) : Prop where
  stored : ∀ x ∈ E, ∀ e, s.table.elem x = some e → ∃ v, map e.key = some v ∧ v.StoredIn e
  found : ∀ key v, map key = some v → ∃ x ∈ E, s.table.keyOf x = key

variable {map : List UInt8 → Option Value}

theorem Maps.congr (h : Maps s E map) (he : ∀ x ∈ E, s'.table.elem x = s.table.elem x)
    : Maps s' E map := by
  constructor
  . intro x hx e hex
    rw [he x hx] at hex
    exact h.stored x hx e hex
  . intro key v hv
    obtain ⟨x, hx, hk⟩ := h.found key v hv
    refine ⟨x, hx, ?_⟩
    simp only [keyOf, he x hx]
    exact hk

theorem Maps.update (h : Maps s E map) {e : LsShmHElem} {v : Value} (hek : e.key = key)
    (helem : s'.table.elem x = some e) (hv : v.StoredIn e)
    (hkey : ∀ y ∈ E, y ≠ x → s.table.keyOf y ≠ key)
    (hothers : ∀ y ∈ E, y ≠ x → s'.table.elem y = s.table.elem y)
    (hx : x ∈ E → s.table.keyOf x = key) {E' : List Nat} (hE' : ∀ y, y ∈ E' ↔ y = x ∨ y ∈ E)
    : Maps s' E' (Function.update map key (some v)) := by
  constructor
  . intro y hy e' he'
    by_cases hyx : y = x
    . subst hyx
      cases helem.symm.trans he'
      exact ⟨v, by rw [hek, Function.update_self], hv⟩
    . have hyE := ((hE' y).mp hy).resolve_left hyx
      rw [hothers y hyE hyx] at he'
      obtain ⟨v', hv', hst⟩ := h.stored y hyE e' he'
      refine ⟨v', ?_, hst⟩
      rw [Function.update_of_ne]
      . exact hv'
      . have hk := hkey y hyE hyx
        simpa [keyOf, he'] using hk
  . intro key' v' hv'
    by_cases hk : key' = key
    . refine ⟨x, (hE' x).mpr (Or.inl rfl), ?_⟩
      simp [keyOf, helem, hk, hek]
    . rw [Function.update_of_ne hk] at hv'
      obtain ⟨y, hy, hyk⟩ := h.found key' v' hv'
      have hyx : y ≠ x := by
        rintro rfl
        exact hk (hyk.symm.trans (hx hy))
      refine ⟨y, (hE' y).mpr (Or.inr hy), ?_⟩
      simp only [keyOf, hothers y hy hyx]
      exact hyk

theorem Maps.erase (h : Maps s E map) (hnd : E.Nodup) (hx : x ∈ E)
    (hkeys : ∀ y ∈ E, s.table.keyOf y = s.table.keyOf x → y = x)
    (hothers : ∀ y ∈ E, y ≠ x → s'.table.elem y = s.table.elem y)
    : Maps s' (E.erase x) (Function.update map (s.table.keyOf x) none) := by
  constructor
  . intro y hy e he
    rw [hnd.mem_erase_iff] at hy
    rw [hothers y hy.2 hy.1] at he
    obtain ⟨v, hv, hst⟩ := h.stored y hy.2 e he
    refine ⟨v, ?_, hst⟩
    rw [Function.update_of_ne]
    . exact hv
    . intro hk
      apply hy.1
      apply hkeys y hy.2
      simpa [keyOf, he] using hk
  . intro key v hv
    have hk : key ≠ s.table.keyOf x := by
      rintro rfl
      rw [Function.update_self] at hv
      cases hv
    rw [Function.update_of_ne hk] at hv
    obtain ⟨y, hy, hyk⟩ := h.found key v hv
    have hyx : y ≠ x := by
      rintro rfl
      exact hk hyk.symm
    refine ⟨y, hnd.mem_erase_iff.mpr ⟨hyx, hy⟩, ?_⟩
    simp only [keyOf, hothers y hy hyx]
    exact hyk

theorem Maps.update_none (h : Maps s E map) (hnone : ∀ x ∈ E, s.table.keyOf x ≠ key)
    : Function.update map key none = map := by
  apply Function.update_eq_self_iff.mpr
  by_contra hsome
  obtain ⟨v, hv⟩ := Option.ne_none_iff_exists'.mp (Ne.symm hsome)
  obtain ⟨x, hx, hk⟩ := h.found key v hv
  exact hnone x hx hk

structure SameParm (s s' : LsShmHash) : Prop where
  hf : s'.m_hf = s.m_hf
  flagLru : s'.flagLru = s.flagLru
  flagTid : s'.flagTid = s.flagTid

theorem SameParm.trans {s₁ s₂ s₃ : LsShmHash} (h₁ : SameParm s₁ s₂) (h₂ : SameParm s₂ s₃)
    : SameParm s₁ s₃ :=
  ⟨h₂.hf.trans h₁.hf, h₂.flagLru.trans h₁.flagLru, h₂.flagTid.trans h₁.flagTid⟩

theorem Quiet.parm (h : Quiet s s') : SameParm s s' := ⟨h.hf, h.flagLru, h.flagTid⟩

theorem Kept.parm (h : Kept s s') : SameParm s s' := ⟨h.hf, h.flagLru, h.flagTid⟩

theorem Dropped.parm {e : LsShmHElem} (h : Dropped s s' x e) : SameParm s s' :=
  ⟨h.hf, h.flagLru, h.flagTid⟩

theorem Entered.parm (h : Entered s s') : SameParm s s' := ⟨h.hf, h.flagLru, h.flagTid⟩

theorem sameParm_withShm (s : LsShmHash) (m : Shm) : SameParm s { s with shm := m } :=
  ⟨rfl, rfl, rfl⟩

theorem sameParm_withElem (s : LsShmHash) (m : Shm) (off : Nat) (e : LsShmHElem)
    : SameParm s (s.withElem m off e) :=
  ⟨rfl, rfl, rfl⟩

theorem SameParm.sound (h : SameParm s s') {keyLen valLen : Nat} (hs : s.Sound keyLen valLen)
    : s'.Sound keyLen valLen := by
  have hv := valueOff_congr h.flagLru h.flagTid keyLen
  unfold Sound elementSize at hs ⊢
  rw [hv]
  exact hs

theorem insert2_maps (h : Rep s E) (hmap : Maps s E map) (parms : StrPair)
    (hkey : ∀ x ∈ E, s.table.keyOf x ≠ parms.key) (hsound : s.Sound parms.key.length parms.val.len)
    : let r := s.insert2 (s.m_hf parms.key) parms
      SameParm s r.1 ∧
      ((r.2 = 0 ∧ Rep r.1 E ∧ Maps r.1 E map) ∨
        (r.2 ≠ 0 ∧ Rep r.1 (r.2 :: E) ∧
          Maps r.1 (r.2 :: E) (Function.update map parms.key (some (Value.ofParm parms.val))))) := by
  rw [insert2_eq]
  dsimp only
  have hcases := insertCopy2_cases h hkey hsound
  dsimp only at hcases
  obtain ⟨h₁, hk₁, _⟩ := rehashed_spec h
  rcases hcases with ⟨_, heq⟩ | ⟨_, heq⟩ | ⟨_, h0, h₂, hs₂, hroom, hkeys, heq⟩
  . rw [heq]
    have hq := quiet_insertCb s.rehashed.1 0
    refine ⟨hk₁.parm.trans hq.parm, Or.inl ⟨rfl, h₁.quiet hq, ?_⟩⟩
    apply hmap.congr
    intro x _
    rw [hq.table, hk₁.elem]
  . rw [heq]
    generalize hm : (s.rehashed.1.shm.alloc2 _).1 = m
    have hg : Shm.Grows s.rehashed.1.shm m := hm ▸ Shm.grows_alloc2 _ _
    have hq := quiet_insertCb { s.rehashed.1 with shm := m } 0
    have hparm := (hk₁.parm.trans (sameParm_withShm _ m)).trans hq.parm
    refine ⟨hparm, Or.inl ⟨rfl, (h₁.withShm hg).quiet hq, ?_⟩⟩
    apply hmap.congr
    intro x _
    rw [hq.table]
    exact congrFun hk₁.elem x
  . rw [heq]
    dsimp only
    generalize hqq : s.rehashed.1.shm.alloc2 _ = q at h0 h₂ hs₂ hroom hkeys ⊢
    generalize hee : s.newElem _ _ _ = e at h₂ hs₂ hroom hkeys ⊢
    have hparm₂ := hk₁.parm.trans (sameParm_withElem s.rehashed.1 q.1 q.2 e)
    have helem₂ : ∀ x ∈ E, (s.rehashed.1.withElem q.1 q.2 e).table.elem x = s.table.elem x := by
      intro x hx
      have hxo : x ≠ q.2 := fun heq => hs₂.notMem (heq ▸ hx)
      rw [← hk₁.elem]
      exact setElem_of_ne hxo _ _
    generalize s.rehashed.1.withElem q.1 q.2 e = s₂ at h₂ hs₂ hroom hkeys hparm₂ helem₂ ⊢
    have hq₃ := quiet_linkCb s₂ q.2
    have hhkey : e.x_hkey = s.m_hf parms.key := by rw [← hee]; rfl
    have hekey : e.key = parms.key := by rw [← hee]; rfl
    have hcap₃ : (s₂.linkCb q.2).capacity = s₂.capacity := by
      unfold capacity
      rw [hq₃.table]
    obtain ⟨h₄, hent⟩ := enterBucket_spec (h₂.quiet hq₃) (hs₂.quiet h₂ hq₃)
      (by rw [hq₃.table]; exact hkeys) (by rw [hcap₃]; exact hroom)
    rw [hhkey] at h₄ hent
    have hq₅ := quiet_insertCb ((s₂.linkCb q.2).enterBucket q.2 (s.m_hf parms.key)) q.2
    have helem₅ : (((s₂.linkCb q.2).enterBucket q.2 (s.m_hf parms.key)).insertCb q.2).table.elem =
        s₂.table.elem := by
      rw [hq₅.table, hent.elem, hq₃.table]
    refine ⟨((hparm₂.trans hq₃.parm).trans hent.parm).trans hq₅.parm,
      Or.inr ⟨h0, h₄.quiet hq₅, ?_⟩⟩
    apply hmap.update hekey
    case helem => rw [helem₅]; exact hs₂.elem
    case hv =>
      rw [← hee]
      exact Value.storedIn_setVal _ _
    case hkey => exact fun y hy _ => hkey y hy
    case hothers =>
      intro y hy _
      rw [helem₅]
      exact helem₂ y hy
    case hx => exact fun hin => absurd hin hs₂.notMem
    case hE' => exact fun y => List.mem_cons

theorem setVal_ok {e : LsShmHElem} (hok : ElemOk s x e) {v : ValParm} (hv : v.len ≤ e.realValLen)
    : ElemOk s x (e.setVal v) := by
  obtain ⟨room, hlen, _⟩ := hok.len
  refine ⟨hok.hkey, hok.valOff, ⟨room, hlen, ?_⟩, hok.sound, hok.owns⟩
  unfold LsShmHElem.realValLen at hv
  show v.len ≤ room
  omega

def updateCbs (s : LsShmHash) (x : Nat) : LsShmHash :=
  let s := if s.flagLru then s.linkSetTop x else s
  if s.flagTid then s.updateIterCb x else s

theorem quiet_updateCbs (s : LsShmHash) (x : Nat) : Quiet s (s.updateCbs x) := by
  unfold updateCbs
  exact (quiet_ite (fun _ => quiet_linkSetTop s x)).trans
    (quiet_ite (fun _ => quiet_updateIterCb _ x))

section MapOps

variable {v : ValParm}

theorem erase_others (h : Rep s E) (hx : x ∈ E) (hkx : s.table.keyOf x = key)
    : SameParm s (s.eraseIteratorHelper x) ∧
      (∀ y, y ≠ x → (s.eraseIteratorHelper x).table.elem y = s.table.elem y) ∧
      ∀ y ∈ E.erase x, (s.eraseIteratorHelper x).table.keyOf y ≠ key := by
  obtain ⟨e, he, _⟩ := h.elems x hx
  obtain ⟨_, hd⟩ := eraseIteratorHelper_spec h hx he
  have hq := quiet_eraseCbs s x
  have hothers : ∀ y, y ≠ x → (s.eraseIteratorHelper x).table.elem y = s.table.elem y := by
    intro y hyx
    rw [hd.elem, Function.update_of_ne hyx, hq.table]
  refine ⟨hq.parm.trans hd.parm, hothers, ?_⟩
  intro y hy hk
  rw [h.nodup.mem_erase_iff] at hy
  apply hy.1
  apply h.keys y hy.2 x hx
  rw [hkx, ← hk]
  simp only [keyOf, hothers y hy.1]

theorem erase_maps (h : Rep s E) (hmap : Maps s E map) (hx : x ∈ E) (hkx : s.table.keyOf x = key)
    : Rep (s.eraseIteratorHelper x) (E.erase x) ∧
      Maps (s.eraseIteratorHelper x) (E.erase x) (Function.update map key none) := by
  obtain ⟨e, he, _⟩ := h.elems x hx
  obtain ⟨_, hothers, _⟩ := erase_others h hx hkx
  refine ⟨(eraseIteratorHelper_spec h hx he).1, ?_⟩
  subst hkx
  exact hmap.erase h.nodup hx (fun y hy hk => h.keys y hy x hx hk) (fun y _ => hothers y)

theorem doSet_maps (h : Rep s E) (hmap : Maps s E map) (hsound : s.Sound key.length v.len)
    : let r := s.doSet (s.findKey key) (s.m_hf key) ⟨key, v⟩
      SameParm s r.1 ∧
      ∃ E', Rep r.1 E' ∧ Maps r.1 E' (if r.2 ≠ 0 then Function.update map key (some (Value.ofParm v))
        else if checkSize v.len then Function.update map key none else map) := by
  dsimp only
  unfold doSet
  cases hsz : checkSize v.len with
  | false => exact ⟨⟨rfl, rfl, rfl⟩, E, h, hmap⟩
  | true =>
    simp only [Bool.not_true, Bool.false_eq_true, if_false, if_true]
    -- a key that is not there is the same as a key that was erased
    have hinsert : ∀ {s' : LsShmHash} {E' : List Nat} {map' : List UInt8 → Option Value},
        SameParm s s' → Rep s' E' → Maps s' E' map' → map' = Function.update map key none →
        (∀ y ∈ E', s'.table.keyOf y ≠ key) →
        let r := s'.insert2 (s.m_hf key) ⟨key, v⟩
        SameParm s r.1 ∧ ∃ E', Rep r.1 E' ∧ Maps r.1 E' (if r.2 ≠ 0 then
          Function.update map key (some (Value.ofParm v)) else Function.update map key none) := by
      rintro s' E' map' hparm h' hmap' rfl hkey
      have hins := insert2_maps h' hmap' ⟨key, v⟩ hkey (hparm.sound hsound)
      rw [hparm.hf] at hins
      obtain ⟨hparm', ⟨h0, hrep, hm⟩ | ⟨h0, hrep, hm⟩⟩ := hins
      . refine ⟨hparm.trans hparm', _, hrep, ?_⟩
        rw [if_neg (by simpa using h0)]
        exact hm
      . refine ⟨hparm.trans hparm', _, hrep, ?_⟩
        rw [if_pos h0]
        rw [Function.update_idem] at hm
        exact hm
    rcases h.lookup.find2_cases key with ⟨hz, hnone⟩ | ⟨hx, hkx⟩
    . have hz : s.findKey key = 0 := hz
      rw [if_pos hz]
      exact hinsert ⟨rfl, rfl, rfl⟩ h hmap (hmap.update_none hnone).symm hnone
    . change s.findKey key ∈ E at hx
      change s.table.keyOf (s.findKey key) = key at hkx
      generalize s.findKey key = x at hx hkx ⊢
      obtain ⟨e, he, hiter, _⟩ := h.lookup.elem_some hx
      obtain ⟨e', he', hok⟩ := h.elems x hx
      cases he.symm.trans he'
      rw [if_neg (h.ne_zero hx), hiter]
      dsimp only
      split
      . next hfit =>
        have h₁ := h.setElem (o := some (e.setVal v)) (fun _ => ⟨e, _, he, rfl, rfl, setVal_ok hok hfit⟩)
        have hq := quiet_updateCbs (s.setTable (·.setElem x (some (e.setVal v)))) x
        have hparm₁ : SameParm s (s.setTable (·.setElem x (some (e.setVal v)))) := ⟨rfl, rfl, rfl⟩
        refine ⟨hparm₁.trans hq.parm, E, h₁.quiet hq, ?_⟩
        rw [if_pos (h.ne_zero hx)]
        have hkey : e.key = key := by simpa [keyOf, he] using hkx
        apply hmap.update (show (e.setVal v).key = key from hkey)
        case helem =>
          show (updateCbs _ x).table.elem x = _
          rw [hq.table]
          exact Function.update_self _ _ _
        case hv => exact Value.storedIn_setVal v e
        case hkey =>
          intro y hy hyx hyk
          exact hyx (h.keys y hy x hx (hyk.trans hkx.symm))
        case hothers =>
          intro y _ hyx
          show (updateCbs _ x).table.elem y = _
          rw [hq.table]
          exact setElem_of_ne hyx _ _
        case hx => exact fun _ => hkx
        case hE' =>
          intro y
          constructor
          . exact Or.inr
          . rintro (rfl | hy)
            . exact hx
            . exact hy
      . obtain ⟨hparm, _, hkeys⟩ := erase_others h hx hkx
        obtain ⟨hrep, hm⟩ := erase_maps h hmap hx hkx
        exact hinsert hparm hrep hm rfl hkeys

end MapOps

theorem doInsert_maps (h : Rep s E) (hmap : Maps s E map) {v : ValParm}
    (hsound : s.Sound key.length v.len)
    : let r := s.doInsert (s.findKey key) (s.m_hf key) ⟨key, v⟩
      SameParm s r.1 ∧ ∃ E', Rep r.1 E' ∧ Maps r.1 E'
        (if r.2 ≠ 0 then Function.update map key (some (Value.ofParm v)) else map) := by
  dsimp only
  unfold doInsert
  split
  . exact ⟨⟨rfl, rfl, rfl⟩, E, h, hmap⟩
  . next hz =>
    have hnone := h.lookup.find2_eq_zero_iff.mp (not_not.mp hz)
    split
    . exact ⟨⟨rfl, rfl, rfl⟩, E, h, hmap⟩
    . obtain ⟨hparm, ⟨h0, hrep, hm⟩ | ⟨h0, hrep, hm⟩⟩ := insert2_maps h hmap ⟨key, v⟩ hnone hsound
      . refine ⟨hparm, E, hrep, ?_⟩
        rw [if_neg (by simpa using h0)]
        exact hm
      . refine ⟨hparm, _, hrep, ?_⟩
        rw [if_pos h0]
        exact hm

theorem doUpdate_maps (h : Rep s E) (hmap : Maps s E map) {v : ValParm}
    (hsound : s.Sound key.length v.len)
    : let r := s.doUpdate (s.findKey key) (s.m_hf key) ⟨key, v⟩
      SameParm s r.1 ∧
      ∃ E', Rep r.1 E' ∧ Maps r.1 E' (if r.2 ≠ 0 then Function.update map key (some (Value.ofParm v))
        else if checkSize v.len then Function.update map key none else map) := by
  dsimp only
  unfold doUpdate
  split
  . next hz =>
    refine ⟨⟨rfl, rfl, rfl⟩, E, h, ?_⟩
    have habsent := hmap.update_none (h.lookup.find2_eq_zero_iff.mp hz)
    simp only [ne_eq, not_true_eq_false, if_false, habsent, ite_self]
    exact hmap
  . exact doSet_maps h hmap hsound

def GrowSound (s : LsShmHash) (off n : Nat) : Prop :=
  ∀ e ∈ s.table.elem off, e.x_iValOff < 32 ∨ e.x_iLen + round4 n ≤ VALIDATE_MAXLEN

instance (s : LsShmHash) (off n : Nat) : Decidable (s.GrowSound off n) :=
  inferInstanceAs (Decidable (∀ e ∈ s.table.elem off,
    e.x_iValOff < 32 ∨ e.x_iLen + round4 n ≤ VALIDATE_MAXLEN))

def growMap (map : List UInt8 → Option Value) (key : List UInt8) (n : Nat) (front : Bool)
    : List UInt8 → Option Value :=
  Function.update map key ((map key).map (·.grow n front))

theorem iterGrowValue_maps (h : Rep s E) (hmap : Maps s E map) {n : Nat} {front : Bool}
    (hsound : s.GrowSound (s.findKey key) n)
    : let r := s.iterGrowValue (s.findKey key) n front
      SameParm s r.1 ∧
      ∃ E', Rep r.1 E' ∧ Maps r.1 E' (if r.2 ≠ 0 then growMap map key n front else map) := by
  dsimp only
  rcases h.lookup.find2_cases key with ⟨hz, hnone⟩ | ⟨hx, hkx⟩
  . have hz : s.findKey key = 0 := hz
    rw [hz, iterGrowValue_zero]
    exact ⟨⟨rfl, rfl, rfl⟩, E, h, hmap⟩
  . change s.findKey key ∈ E at hx
    change s.table.keyOf (s.findKey key) = key at hkx
    generalize s.findKey key = x at hx hkx hsound ⊢
    obtain ⟨e, he, _⟩ := h.elems x hx
    have hcases := iterGrowValue_cases h hx he n front (hsound e he)
    dsimp only at hcases
    rcases hcases with ⟨_, heq⟩ | ⟨_, _, heq⟩ | ⟨h0, _, h₁, hs₁, h₂, hs₂, hd, hroom, hkeys, heq⟩
    . rw [heq]
      exact ⟨sameParm_withShm _ _, E, h.withShm (Shm.grows_alloc2 _ _), hmap.congr (fun _ _ => rfl)⟩
    . rw [heq]
      exact ⟨(sameParm_withShm s _).trans (quiet_rebuild _).parm, E,
        (h.withShm (Shm.grows_alloc2 _ _)).quiet (quiet_rebuild _), hmap.congr (fun _ _ => rfl)⟩
    . rw [heq]
      dsimp only
      generalize hqq : s.shm.alloc2 (e.x_iLen + round4 n) = q at *
      generalize hee : growElem e (q.1.junk q.2) n front = e' at *
      have hxo : x ≠ q.2 := fun hxq => hs₁.notMem (hxq ▸ hx)
      have hmap₁ : Maps (s.withElem q.1 q.2 e') E map := by
        apply hmap.congr
        intro y hy
        have hyo : y ≠ q.2 := fun hyq => hs₁.notMem (hyq ▸ hy)
        exact setElem_of_ne hyo _ _
      have hkx₁ : (s.withElem q.1 q.2 e').table.keyOf x = key := by
        rw [← hkx]
        simp only [keyOf]
        rw [show (s.withElem q.1 q.2 e').table.elem x = s.table.elem x from setElem_of_ne hxo _ _]
      obtain ⟨hparm, _, hkeys₂⟩ := erase_others h₁ hx hkx₁
      obtain ⟨_, hmap₂⟩ := erase_maps h₁ hmap₁ hx hkx₁
      generalize (s.withElem q.1 q.2 e').eraseIteratorHelper x = s₂ at *
      have hq₃ := (quiet_linkCb s₂ q.2).trans (quiet_insertCb (s₂.linkCb q.2) q.2)
      generalize (s₂.linkCb q.2).insertCb q.2 = s₃ at *
      have hcap₃ : s₃.capacity = s₂.capacity := by
        unfold capacity
        rw [hq₃.table]
      obtain ⟨h₄, hent⟩ := enterBucket_spec (h₂.quiet hq₃) (hs₂.quiet h₂ hq₃)
        (by rw [hq₃.table]; exact hkeys) (by rw [hcap₃]; exact hroom)
      have helem₄ : (s₃.enterBucket q.2 e'.x_hkey).table.elem = s₂.table.elem := by
        rw [hent.elem, hq₃.table]
      have hparm' := (((sameParm_withElem s q.1 q.2 e').trans hparm).trans hq₃.parm).trans hent.parm
      refine ⟨hparm', _, h₄, ?_⟩
      rw [if_pos h0]
      have hekey : e.key = key := by simpa [keyOf, he] using hkx
      obtain ⟨v, hv, hst⟩ := hmap.stored x hx e he
      have hgrow : growMap map key n front =
          Function.update (Function.update map key none) key (some (v.grow n front)) := by
        rw [Function.update_idem, growMap, ← hekey, hv]
        rfl
      rw [hgrow]
      apply hmap₂.update (show e'.key = key by rw [← hee]; exact hekey)
      case helem => rw [helem₄]; exact hs₂.elem
      case hv =>
        rw [← hee]
        exact hst.grow _ n front
      case hkey => exact fun y hy _ => hkeys₂ y hy
      case hothers => exact fun y _ _ => congrFun helem₄ y
      case hx => exact fun hin => absurd hin hs₂.notMem
      case hE' => exact fun y => List.mem_cons

theorem clear_maps (h : Rep s E)
    : SameParm s s.clear ∧ Rep s.clear [] ∧ Maps s.clear [] (fun _ => none) := by
  obtain ⟨xs, _, heq, hrep⟩ := clear_spec h
  have hr := releaseList_spec s xs
  have hq := quiet_clearCbs ((s.releaseList xs).setTable clearTable)
  have hparm : SameParm s ((s.releaseList xs).setTable clearTable) := by
    rw [hr.rest]
    exact ⟨rfl, rfl, rfl⟩
  rw [heq]
  refine ⟨hparm.trans hq.parm, hrep.quiet hq, ?_, ?_⟩
  . intro x hx
    cases hx
  . intro key v hv
    cases hv

end LsShmHash

/--
The operations with the keys that the callers pass, an offset being what `find2` gave for its key.
-/
inductive HashOp
  | find2 (key : List UInt8)
  | doInsert (key : List UInt8) (val : ValParm)
  | doSet (key : List UInt8) (val : ValParm)
  | doUpdate (key : List UInt8) (val : ValParm)
  | iterGrowValue (key : List UInt8) (n : Nat) (front : Bool)
  | eraseIteratorHelper (key : List UInt8)
  | rehash
  | clear

/--
A hash together with the map that it is to represent.
-/
structure HashRun where
  hash : LsShmHash
  map : List UInt8 → Option Value

namespace HashRun

open LsShmHash

def stored (map : List UInt8 → Option Value) (key : List UInt8) (val : ValParm) (ok : Bool)
    : List UInt8 → Option Value :=
  if ok then Function.update map key (some (Value.ofParm val))
  else if checkSize val.len then Function.update map key none else map

/--
A `doSet` of a value of admissible size that fails has taken the old value out before.
-/
def step (s : HashRun) : HashOp → HashRun
  | .find2 _ => s
  | .doInsert key val =>
    let r := s.hash.doInsert (s.hash.findKey key) (s.hash.m_hf key) ⟨key, val⟩
    { hash := r.1
      map := if r.2 ≠ 0 then Function.update s.map key (some (Value.ofParm val)) else s.map }
  | .doSet key val =>
    let r := s.hash.doSet (s.hash.findKey key) (s.hash.m_hf key) ⟨key, val⟩
    { hash := r.1, map := stored s.map key val (r.2 ≠ 0) }
  | .doUpdate key val =>
    let r := s.hash.doUpdate (s.hash.findKey key) (s.hash.m_hf key) ⟨key, val⟩
    { hash := r.1, map := stored s.map key val (r.2 ≠ 0) }
  | .iterGrowValue key n front =>
    let r := s.hash.iterGrowValue (s.hash.findKey key) n front
    { hash := r.1, map := if r.2 ≠ 0 then growMap s.map key n front else s.map }
  | .eraseIteratorHelper key =>
    { hash := s.hash.eraseIteratorHelper (s.hash.findKey key)
      map := Function.update s.map key none }
  | .rehash => { s with hash := s.hash.rehash.1 }
  | .clear => { hash := s.hash.clear, map := fun _ => none }

/--
No element is made that is larger than `validate` accepts, except where its value offset keeps
`offset2iterator` from looking at the size.
-/
def Ok (s : HashRun) : HashOp → Prop
  | .doInsert key val => s.hash.Sound key.length val.len
  | .doSet key val => s.hash.Sound key.length val.len
  | .doUpdate key val => s.hash.Sound key.length val.len
  | .iterGrowValue key n _ => s.hash.GrowSound (s.hash.findKey key) n
  | _ => True

instance (s : HashRun) (op : HashOp) : Decidable (s.Ok op) :=
  match op with
  | .find2 _ => .isTrue trivial
  | .doInsert key val => inferInstanceAs (Decidable (s.hash.Sound key.length val.len))
  | .doSet key val => inferInstanceAs (Decidable (s.hash.Sound key.length val.len))
  | .doUpdate key val => inferInstanceAs (Decidable (s.hash.Sound key.length val.len))
  | .iterGrowValue key n _ =>
    inferInstanceAs (Decidable (s.hash.GrowSound (s.hash.findKey key) n))
  | .eraseIteratorHelper _ => .isTrue trivial
  | .rehash => .isTrue trivial
  | .clear => .isTrue trivial

structure IsMap (s : HashRun) : Prop where
  absent : ∀ key, s.map key = none ↔ s.hash.findKey key = 0
  present : ∀ key v, s.map key = some v →
    ∃ e, s.hash.table.elem (s.hash.findKey key) = some e ∧ e.key = key ∧ v.StoredIn e
  traversal : ∃ xs, Linked.Chain (fun x => (s.hash.next x).2) 0 s.hash.begin xs ∧
    (∀ x ∈ xs, (s.hash.next x).1 = s.hash) ∧
    Linked.Buckets s.hash.table.next 0 (s.hash.table.hIdx s.hash.table.x_iHIdx)
      s.hash.table.getIndex s.hash.capacity (· ∈ xs) ∧
    (xs.map s.hash.table.keyOf).Nodup ∧
    (∀ key, s.map key ≠ none ↔ key ∈ xs.map s.hash.table.keyOf) ∧
    s.hash.size = xs.length
  bits : s.hash.table.x_iBitMapSz ≠ 0 → ∀ b < s.hash.capacity,
    (s.hash.table.bitMap s.hash.table.x_iBitMap b = true ↔
      s.hash.table.hIdx s.hash.table.x_iHIdx b ≠ 0)

def Represents (s : HashRun) : Prop :=
  ∃ E, Rep s.hash E ∧ Maps s.hash E s.map

theorem step_represents (s : HashRun) (op : HashOp) (h : s.Represents) (hok : s.Ok op)
    : (s.step op).Represents := by
  obtain ⟨E, hrep, hmap⟩ := h
  cases op with
  | find2 key => exact ⟨E, hrep, hmap⟩
  | doInsert key val => exact (doInsert_maps hrep hmap hok).2
  | doSet key val =>
    have hset := (doSet_maps hrep hmap hok).2
    simp only [Represents, step, stored, decide_eq_true_eq]
    exact hset
  | doUpdate key val =>
    have hupd := (doUpdate_maps hrep hmap hok).2
    simp only [Represents, step, stored, decide_eq_true_eq]
    exact hupd
  | iterGrowValue key n front => exact (iterGrowValue_maps hrep hmap hok).2
  | eraseIteratorHelper key =>
    rcases hrep.lookup.find2_cases key with ⟨hz, hnone⟩ | ⟨hx, hkx⟩
    . have hz : s.hash.findKey key = 0 := hz
      refine ⟨E, ?_, ?_⟩
      . show Rep (s.hash.eraseIteratorHelper (s.hash.findKey key)) E
        rw [hz]
        exact hrep
      . show Maps (s.hash.eraseIteratorHelper (s.hash.findKey key)) E
          (Function.update s.map key none)
        rw [hz, hmap.update_none hnone]
        exact hmap
    . exact ⟨_, erase_maps hrep hmap hx hkx⟩
  | rehash =>
    obtain ⟨hrep', hkept, _⟩ := rehash_spec hrep
    exact ⟨E, hrep', hmap.congr (fun x _ => congrFun hkept.elem x)⟩
  | clear => exact ⟨[], (clear_maps hrep).2⟩

theorem Represents.isMap {s : HashRun} (h : s.Represents) : s.IsMap := by
  obtain ⟨E, hrep, hmap⟩ := h
  have hlk := hrep.lookup
  have habsent : ∀ key, s.map key = none ↔ ∀ x ∈ E, s.hash.table.keyOf x ≠ key := by
    intro key
    constructor
    . intro hnone x hx hkx
      obtain ⟨e, he, _⟩ := hrep.elems x hx
      obtain ⟨v, hv, _⟩ := hmap.stored x hx e he
      have hek : e.key = key := by simpa [LsShmHTable.keyOf, he] using hkx
      rw [hek, hnone] at hv
      cases hv
    . intro hnone
      by_contra hsome
      obtain ⟨v, hv⟩ := Option.ne_none_iff_exists'.mp hsome
      obtain ⟨x, hx, hkx⟩ := hmap.found key v hv
      exact hnone x hx hkx
  constructor
  case absent =>
    intro key
    rw [habsent key]
    exact hlk.find2_eq_zero_iff.symm
  case present =>
    intro key v hv
    obtain ⟨x, hx, hkx⟩ := hmap.found key v hv
    obtain ⟨e, he, _⟩ := hrep.elems x hx
    have hek : e.key = key := by simpa [LsShmHTable.keyOf, he] using hkx
    obtain ⟨v', hv', hst⟩ := hmap.stored x hx e he
    rw [hek, hv] at hv'
    cases hv'
    exact ⟨e, by rw [findKey, hlk.find2_eq hx hkx]; exact he, hek, hst⟩
  case traversal =>
    obtain ⟨hnext, xs, hc, hperm⟩ := hlk.traversal hrep.nodup
    have hmem : ∀ x, x ∈ xs ↔ x ∈ E := fun x => hperm.mem_iff
    refine ⟨xs, hc, fun x hx => hnext x ((hmem x).mp hx), ?_, ?_, ?_, ?_⟩
    . exact hrep.buckets.congr (fun _ _ => rfl) (fun _ _ => rfl) (fun _ _ => rfl) hmem
    . apply List.Nodup.map_on _ hc.nodup
      intro x hx y hy hxy
      exact hrep.keys x ((hmem x).mp hx) y ((hmem y).mp hy) hxy
    . intro key
      rw [ne_eq, habsent key, List.mem_map]
      push Not
      constructor
      . rintro ⟨x, hx, hkx⟩
        exact ⟨x, (hmem x).mpr hx, hkx⟩
      . rintro ⟨x, hx, hkx⟩
        exact ⟨x, (hmem x).mp hx, hkx⟩
    . rw [hperm.length_eq]
      exact hrep.size
  case bits => exact hrep.bits

theorem IsMap.size_le {s : HashRun} (h : s.IsMap) (ks : List (List UInt8))
    (hks : ∀ key, s.map key ≠ none → key ∈ ks) : s.hash.size ≤ ks.length := by
  obtain ⟨xs, _, _, _, hnd, hkeys, hsize⟩ := h.traversal
  have hsub : xs.map s.hash.table.keyOf ⊆ ks := fun key hkey => hks key ((hkeys key).mpr hkey)
  have hle := (List.Nodup.subperm hnd hsub).length_le
  rw [List.length_map] at hle
  rw [hsize]
  exact hle

theorem doSet_map_of_ne {key key' : List UInt8} (hne : key' ≠ key) (s : HashRun) (val : ValParm)
    : (s.step (.doSet key val)).map key' = s.map key' := by
  simp only [step, stored]
  split
  . exact Function.update_of_ne hne _ _
  . split
    . exact Function.update_of_ne hne _ _
    . rfl

def init (s : LsShmHash) : HashRun := { hash := s, map := fun _ => none }

theorem init_represents {m : Shm} {parm : HashParm} {init_size : Nat} {s : LsShmHash}
    (h : allocHTable m parm init_size = some s) (hn : init_size ≤ MAX_INIT_SIZE)
    : (init s).Represents := by
  refine ⟨[], allocHTable_rep h hn, ?_, ?_⟩
  . intro x hx
    cases hx
  . intro key v hv
    cases hv

/--
A run in which no element becomes too large: the hash is a finite map in every state.
-/
theorem isMap_exec (m : Shm) (parm : HashParm) (init_size : Nat) (s : LsShmHash)
    (h : allocHTable m parm init_size = some s) (hn : init_size ≤ MAX_INIT_SIZE) (ops : List HashOp)
    (hok : Run.Meets step Ok (init s) ops) : (Run.exec step (init s) ops).IsMap := by
  apply Represents.isMap
  exact Run.exec_invariant Represents step_represents (init_represents h hn) hok

def sample : Option LsShmHash :=
  allocHTable (Shm.empty [Answer.clean 0x400 320, Answer.clean 0x800 64, Answer.clean 0x1000 32,
    Answer.clean 0x1100 32, Answer.clean 0x1200 48]) (HashParm.clean false false) 7

theorem sample_isSome : sample.isSome = true := by decide

def sampleOps : List HashOp :=
  [.doSet [1] (ValParm.ofBytes [10, 11]), .doInsert [2] (ValParm.ofBytes [20]),
    .iterGrowValue [1] 8 true, .eraseIteratorHelper [2]]

theorem isMap_exec_sample
    : (Run.exec step (init (sample.get sample_isSome)) sampleOps).IsMap ∧
      (Run.exec step (init (sample.get sample_isSome)) sampleOps).hash.findKey [1] = 0x1200 :=
  ⟨isMap_exec _ _ 7 _ (Option.some_get sample_isSome).symm (by decide) sampleOps (by decide),
    by decide⟩

def largeAnswer (off size : Nat) : Answer :=
  { Answer.clean off size with fileSize := 300000000 }

def sampleLarge : Option LsShmHash :=
  allocHTable (Shm.empty [Answer.clean 0x400 320, Answer.clean 0x800 64,
    largeAnswer 0x100000 100000768, largeAnswer 0x8000000 100000768]) (HashParm.clean false false) 7

theorem sampleLarge_isSome : sampleLarge.isSome = true := by decide

def largeVal : ValParm := { len := 100000000, buf := some (fun _ => 0) }

def sampleLargeOps : List HashOp :=
  [.doSet (List.replicate 28 7) largeVal, .doSet (List.replicate 28 7) largeVal]

/--
The second `doSet` finds the element, takes it for damaged and inserts another one: two elements
for one key.
-/
theorem not_isMap_large
    : ¬ (Run.exec step (init (sampleLarge.get sampleLarge_isSome)) sampleLargeOps).IsMap := by
  intro h
  have hle := h.size_le [List.replicate 28 7] (by
    intro key hkey
    rw [List.mem_singleton]
    by_contra hne
    apply hkey
    rw [sampleLargeOps, Run.exec_cons, Run.exec_cons, Run.exec_nil, doSet_map_of_ne hne,
      doSet_map_of_ne hne]
    rfl)
  exact absurd hle (by decide)

end HashRun

end Lsmcd
