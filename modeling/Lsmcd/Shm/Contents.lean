import Lsmcd.Shm.Failed

/-!
A table as a map from keys to the bytes of their values: what an operation that succeeds does to the
key it is for, and that the other keys keep their bytes.
-/

namespace Lsmcd

open LsShmHTable

namespace Value

def ofBytes (bs : List UInt8) : Value :=
  ofParm (.ofBytes bs)

theorem length_getVal (e : LsShmHElem) : e.getVal.length = e.valLen := by
  simp [LsShmHElem.getVal]

theorem getD_getVal (e : LsShmHElem) {i : Nat} (h : i < e.valLen) : e.getVal.getD i 0 = e.data i := by
  simp [LsShmHElem.getVal, h]

theorem storedIn_ofBytes {e : LsShmHElem} {bs : List UInt8}
    : (ofBytes bs).StoredIn e ↔ e.getVal = bs := by
  constructor
  . rintro ⟨hlen, hbyte⟩
    change e.valLen = bs.length at hlen
    apply List.ext_getElem ((length_getVal e).trans hlen)
    intro i hi hi'
    have hb := hbyte i hi' (bs.getD i 0) rfl
    simp only [LsShmHElem.getVal, List.getElem_map, List.getElem_range]
    rw [hb]
    simp [hi']
  . rintro rfl
    refine ⟨(length_getVal e).symm, ?_⟩
    intro i hi b hb
    have hi : i < e.valLen := by
      rw [← length_getVal e]
      exact hi
    rw [← getD_getVal e hi]
    exact Option.some.inj hb

end Value

namespace LsShmHash

variable {s s' t : LsShmHash} {E E' : List Nat} {x off : Nat} {key k : List UInt8} {v : ValParm}
  {map : List UInt8 → Option Value}

def contents (s : LsShmHash) (key : List UInt8) : Option Value :=
  (s.valueOf key).map Value.ofBytes

theorem Rep.maps_contents (h : Rep s E) : Maps s E s.contents := by
  constructor
  . intro x hx e he
    refine ⟨Value.ofBytes e.getVal, ?_, Value.storedIn_ofBytes.mpr rfl⟩
    unfold contents
    rw [h.valueOf_of_mem hx he]
    rfl
  . intro key v hv
    by_contra hnone
    push Not at hnone
    unfold contents at hv
    rw [h.valueOf_none hnone] at hv
    cases hv

theorem Maps.elem_of_some (h : Rep s E) (hmap : Maps s E map) {v : Value} (hv : map key = some v)
    : ∃ e, s.findKey key ∈ E ∧ s.table.elem (s.findKey key) = some e ∧ e.key = key ∧ v.StoredIn e := by
  obtain ⟨x, hx, hkx⟩ := hmap.found key v hv
  obtain ⟨e, he, _⟩ := h.elems x hx
  have hek : e.key = key := by simpa [keyOf, he] using hkx
  have hfind : s.findKey key = x := h.lookup.find2_eq hx hkx
  obtain ⟨v', hv', hst⟩ := hmap.stored x hx e he
  rw [hek, hv] at hv'
  cases hv'
  exact ⟨e, hfind ▸ hx, hfind ▸ he, hek, hst⟩

theorem Maps.valueOf_eq (h : Rep s E) (hmap : Maps s E map) {o : Option (List UInt8)}
    (hkey : map key = o.map Value.ofBytes) : s.valueOf key = o := by
  cases o with
  | none =>
    apply h.valueOf_none
    intro x hx hkx
    obtain ⟨e, he, _⟩ := h.elems x hx
    obtain ⟨v, hv, _⟩ := hmap.stored x hx e he
    rw [show e.key = key by simpa [keyOf, he] using hkx, hkey] at hv
    cases hv
  | some bs =>
    obtain ⟨e, hx, he, hek, hst⟩ := hmap.elem_of_some h hkey
    have hval := h.valueOf_of_mem hx he
    rw [hek] at hval
    rw [hval, Value.storedIn_ofBytes.mp hst]

theorem Rep.valueOf_quiet (h : Rep s E) (hq : Quiet s s') (key : List UInt8)
    : s'.valueOf key = s.valueOf key := by
  apply h.valueOf_congr (h.quiet hq)
  intro x _
  rw [hq.table]

structure KeepsOthers (s s' : LsShmHash) (key : List UInt8) : Prop where
  parm : SameParm s s'
  others : ∀ k, k ≠ key → s'.valueOf k = s.valueOf k

theorem KeepsOthers.trans (h : KeepsOthers s t key) (h' : KeepsOthers t s' key) : KeepsOthers s s' key :=
  ⟨h.parm.trans h'.parm, fun k hk => (h'.others k hk).trans (h.others k hk)⟩

theorem keepsOthers_of_maps (h : Rep s' E') {v : Option Value} (hparm : SameParm s s')
    (hmap : Maps s' E' (Function.update s.contents key v)) : KeepsOthers s s' key := by
  refine ⟨hparm, fun k hk => ?_⟩
  apply hmap.valueOf_eq h
  rw [Function.update_of_ne hk]
  rfl

theorem erase_keepsOthers (h : Rep s E) (hx : x ∈ E) (hkx : s.table.keyOf x = key)
    : KeepsOthers s (s.eraseIteratorHelper x) key ∧ (s.eraseIteratorHelper x).valueOf key = none := by
  obtain ⟨hparm, _, hkeys⟩ := erase_others h hx hkx
  obtain ⟨hrep, hmap⟩ := erase_maps h h.maps_contents hx hkx
  exact ⟨keepsOthers_of_maps hrep hparm hmap, hrep.valueOf_none hkeys⟩

structure Put (s s' : LsShmHash) (key : List UInt8) (off len : Nat) : Prop extends
    KeepsOthers s s' key where
  out : HandedOut s' key off
  len : ∀ e, s'.table.elem off = some e → e.valLen = len

theorem put_of_maps (h : Rep s' E') (hparm : SameParm s s') {v : Value}
    (hmap : Maps s' E' (Function.update s.contents key (some v))) (hout : HandedOut s' key off)
    : Put s s' key off v.len ∧ ∀ e, s'.table.elem off = some e → v.StoredIn e := by
  obtain ⟨e, hx, he, _, hst⟩ := hmap.elem_of_some h (Function.update_self key (some v) s.contents)
  rw [hout.findKey] at he
  refine ⟨⟨keepsOthers_of_maps h hparm hmap, hout, ?_⟩, ?_⟩
  . intro e' he'
    cases he.symm.trans he'
    exact hst.1
  . intro e' he'
    cases he.symm.trans he'
    exact hst

theorem doSet_put (h : Rep s E) (hsound : s.Sound key.length v.len)
    (h0 : (s.doSet (s.findKey key) (s.m_hf key) ⟨key, v⟩).2 ≠ 0)
    : Put s (s.doSet (s.findKey key) (s.m_hf key) ⟨key, v⟩).1 key
        (s.doSet (s.findKey key) (s.m_hf key) ⟨key, v⟩).2 v.len := by
  obtain ⟨hparm, E', hrep, hmap⟩ := doSet_maps h h.maps_contents hsound
  rw [if_pos h0] at hmap
  exact (put_of_maps hrep hparm hmap (doSet_handedOut h hsound h0)).1

theorem iterGrowValue_put (h : Rep s E) {n : Nat} {front : Bool} {bs : List UInt8}
    (hbs : s.valueOf key = some bs) (hsound : s.GrowSound (s.findKey key) n)
    (h0 : (s.iterGrowValue (s.findKey key) n front).2 ≠ 0)
    : let r := s.iterGrowValue (s.findKey key) n front
      Put s r.1 key r.2 (bs.length + n) ∧
      ∀ e, r.1.table.elem r.2 = some e → ((Value.ofBytes bs).grow n front).StoredIn e := by
  dsimp only
  obtain ⟨hparm, E', hrep, hmap⟩ := @iterGrowValue_maps s E key _ h h.maps_contents n front hsound
  rw [if_pos h0] at hmap
  unfold growMap at hmap
  rw [show s.contents key = some (Value.ofBytes bs) by simp [contents, hbs]] at hmap
  exact put_of_maps hrep hparm hmap (iterGrowValue_handedOut h hsound h0)

theorem Put.setData {len : Nat} (h : Put s s' key off len) {e : LsShmHElem}
    (he : s'.table.elem off = some e) (data : Nat → UInt8)
    : let t := s'.setTable (·.setElem off (some { e with data := data }))
      Put s t key off len ∧ t.valueOf key = some ({ e with data := data } : LsShmHElem).getVal := by
  intro t
  obtain ⟨E', hrep, hx⟩ := h.out.elems
  obtain ⟨e₁, he₁, hok⟩ := hrep.elems off hx
  cases he.symm.trans he₁
  have hek : e.key = key := by simpa [keyOf, he] using h.out.key
  have hrep' : Rep t E' := hrep.setElem fun _ =>
    ⟨e, _, he, rfl, rfl, ⟨hok.hkey, hok.valOff, hok.len, hok.sound, hok.owns⟩⟩
  have helem : t.table.elem off = some { e with data := data } := Function.update_self ..
  have hkeys : ∀ y ∈ E', y ≠ off → s'.table.keyOf y ≠ key := fun y hy hne hk =>
    hne (hrep.keys y hy off hx (hk.trans h.out.key.symm))
  have hval := hrep'.valueOf_of_mem hx helem
  rw [show ({ e with data := data } : LsShmHElem).key = key from hek] at hval
  have hmap : Maps t E' (Function.update s'.contents key
      (some (Value.ofBytes ({ e with data := data } : LsShmHElem).getVal))) := by
    apply hrep.maps_contents.update (show ({ e with data := data } : LsShmHElem).key = key from hek) helem
    case hv => exact Value.storedIn_ofBytes.mpr rfl
    case hkey => exact hkeys
    case hothers => exact fun y _ hne => setElem_of_ne hne _ _
    case hx => exact fun _ => h.out.key
    case hE' => exact fun y => ⟨Or.inr, fun hy => hy.elim (fun heq => heq ▸ hx) id⟩
  have hkeeps : KeepsOthers s' t key := keepsOthers_of_maps hrep' ⟨rfl, rfl, rfl⟩ hmap
  refine ⟨⟨h.toKeepsOthers.trans hkeeps, ⟨⟨E', hrep', hx⟩, by simp [keyOf, helem, hek]⟩, ?_⟩, hval⟩
  intro e' he'
  cases helem.symm.trans he'
  exact h.len e he

structure Thinned (s s' : LsShmHash) : Prop where
  parm : SameParm s s'
  values : ∀ key, s'.valueOf key = s.valueOf key ∨ s'.valueOf key = none

theorem Thinned.refl (s : LsShmHash) : Thinned s s :=
  ⟨⟨rfl, rfl, rfl⟩, fun _ => .inl rfl⟩

theorem Thinned.trans (h : Thinned s t) (h' : Thinned t s') : Thinned s s' := by
  refine ⟨h.parm.trans h'.parm, fun key => ?_⟩
  rcases h'.values key with heq | hnone
  . rw [heq]
    exact h.values key
  . exact .inr hnone

theorem Rep.thinned_quiet (h : Rep s E) (hq : Quiet s s') : Thinned s s' :=
  ⟨hq.parm, fun key => .inl (h.valueOf_quiet hq key)⟩

theorem erase_thinned (h : Rep s E) (hx : x ∈ E) : Thinned s (s.eraseIteratorHelper x) := by
  obtain ⟨hkeeps, hnone⟩ := erase_keepsOthers h hx rfl
  refine ⟨hkeeps.parm, fun key => ?_⟩
  by_cases hkey : key = s.table.keyOf x
  . rw [hkey]
    exact .inr hnone
  . exact .inl (hkeeps.others key hkey)

def Sane (s : LsShmHash) : Prop :=
  ∃ E, Rep s E ∧ ∀ x e, s.table.elem x = some e → x ∈ E

theorem Sane.rep (h : s.Sane) : ∃ E, Rep s E :=
  h.imp fun _ hE => hE.1

theorem Sane.quiet (h : s.Sane) (hq : Quiet s s') : s'.Sane ∧ Thinned s s' := by
  obtain ⟨E, hrep, helems⟩ := h
  exact ⟨⟨E, hrep.quiet hq, hq.table ▸ helems⟩, hrep.thinned_quiet hq⟩

theorem Sane.erase (h : s.Sane) {e : LsShmHElem} (he : s.table.elem x = some e)
    : (s.eraseIteratorHelper x).Sane ∧ Thinned s (s.eraseIteratorHelper x) := by
  obtain ⟨E, hrep, helems⟩ := h
  have hx := helems x e he
  obtain ⟨hrep', hd⟩ := eraseIteratorHelper_spec hrep hx he
  have hq := quiet_eraseCbs s x
  refine ⟨⟨E.erase x, hrep', ?_⟩, erase_thinned hrep hx⟩
  intro y e' hy
  rw [hd.elem, hq.table] at hy
  by_cases hyx : y = x
  . rw [hyx, Function.update_self] at hy
    cases hy
  . rw [Function.update_of_ne hyx] at hy
    exact (hrep.nodup.mem_erase_iff).mpr ⟨hyx, helems y e' hy⟩

theorem Sane.isSome (h : s.Sane) (h0 : s.findKey key ≠ 0)
    : (s.offset2iterator (s.findKey key)).isSome = true := by
  obtain ⟨E, hrep, _⟩ := h
  have hx := ((hrep.lookup.find2_cases key).resolve_left fun hnone => h0 hnone.1).1
  obtain ⟨e, _, hiter, _⟩ := hrep.lookup.elem_some hx
  rw [show s.offset2iterator (s.findKey key) = some e from hiter]
  rfl

theorem Sane.insert2 (h : s.Sane) (hkey : ∀ x e, s.table.elem x = some e → e.key ≠ key)
    (hsound : s.Sound key.length v.len) : (s.insert2 (s.m_hf key) ⟨key, v⟩).1.Sane := by
  obtain ⟨E, hrep, helems⟩ := h
  have hnone : ∀ x ∈ E, s.table.keyOf x ≠ key := by
    intro x hx
    obtain ⟨e, he, _⟩ := hrep.elems x hx
    simpa [keyOf, he] using hkey x e he
  obtain ⟨_, hkept, _⟩ := rehashed_spec hrep
  have hold : ∀ x e, s.rehashed.1.table.elem x = some e → x ∈ E := by
    intro x e he
    rw [hkept.elem] at he
    exact helems x e he
  have hnew : ∀ x e, (s.insert2 (s.m_hf key) ⟨key, v⟩).1.table.elem x = some e →
      x ∈ E ∨ (s.insert2 (s.m_hf key) ⟨key, v⟩).2 = x ∧ x ≠ 0 := by
    rw [insert2_eq]
    intro x e he
    rw [(quiet_insertCb _ _).table] at he
    have hcases := @insertCopy2_cases s E ⟨key, v⟩ hrep hnone hsound
    rcases hcases with ⟨_, heq⟩ | ⟨_, heq⟩ | ⟨_, h0, _, _, _, _, heq⟩
    . rw [heq] at he
      exact .inl (hold x e he)
    . rw [heq] at he
      exact .inl (hold x e he)
    . rw [heq] at he ⊢
      rw [elem_enterBucket, (quiet_linkCb _ _).table] at he
      by_cases hx : x = (s.rehashed.1.shm.alloc2 (s.elementSize key.length v.len)).2
      . exact .inr ⟨hx.symm, hx ▸ h0⟩
      . rw [show (s.rehashed.1.withElem _ _ _).table.elem x = s.rehashed.1.table.elem x from
          setElem_of_ne hx _ _] at he
        exact .inl (hold x e he)
  obtain ⟨_, ⟨h0, hrep', _⟩ | ⟨_, hrep', _⟩⟩ := insert2_maps hrep hrep.maps_contents ⟨key, v⟩ hnone hsound
  . refine ⟨E, hrep', fun x e he => (hnew x e he).resolve_right ?_⟩
    rintro ⟨heq, hx⟩
    exact hx (heq ▸ h0)
  . refine ⟨_, hrep', fun x e he => ?_⟩
    rcases hnew x e he with hx | ⟨heq, _⟩
    . exact List.mem_cons_of_mem _ hx
    . exact heq ▸ List.mem_cons_self

section Trim

variable {act : Nat → LsShmHElem → TrimAct} {cost : LsShmHElem → Int} {st : TrimState}

theorem Sane.trimIter (h : st.hash.Sane)
    : (trimIter act cost st).hash.Sane ∧ Thinned st.hash (trimIter act cost st).hash := by
  unfold LsShmHash.trimIter
  split
  . exact ⟨h, .refl _⟩
  rw [← grownTid]
  obtain ⟨hsane, hgrown⟩ := h.quiet (quiet_ite (fun _ => quiet_checkTidTbl st.hash) : Quiet st.hash st.hash.grownTid)
  dsimp only
  split
  . obtain ⟨hsane', hthin⟩ := hsane.quiet (quiet_rebuild _)
    exact ⟨hsane', hgrown.trans hthin⟩
  next e he =>
  split
  . exact ⟨hsane, hgrown⟩
  . exact ⟨hsane, hgrown⟩
  . obtain ⟨hsane', hthin⟩ := hsane.quiet (quiet_linkSetTop _ st.offElem)
    exact ⟨hsane', hgrown.trans hthin⟩
  . obtain ⟨hsane₁, hthin₁⟩ := hsane.erase (elem_of_offset2iterator he)
    obtain ⟨hsane₂, hthin₂⟩ := hsane₁.quiet (quiet_setLru _ _)
    dsimp only
    exact ⟨hsane₂, (hgrown.trans hthin₁).trans hthin₂⟩

theorem Sane.trimLoop (h : s.Sane) (left : Int) (fuel : Nat)
    : (s.trimLoop act cost left fuel).1.Sane ∧ Thinned s (s.trimLoop act cost left fuel).1 := by
  unfold LsShmHash.trimLoop
  split
  . exact ⟨h, .refl s⟩
  generalize hend : Run.exec (fun st (_ : Unit) => LsShmHash.trimIter act cost st) (s.trimStart left)
    (List.replicate fuel ()) = st
  have hrun : st.hash.Sane ∧ Thinned s st.hash := by
    rw [← hend]
    apply Run.exec_invariant (fun st : TrimState => st.hash.Sane ∧ Thinned s st.hash) _ ⟨h, .refl s⟩ (Run.Meets.true _ _)
    exact fun st u hinv _ => ⟨hinv.1.trimIter.1, hinv.2.trans hinv.1.trimIter.2⟩
  obtain ⟨hsane, hthin⟩ := hrun
  obtain ⟨hsane', hthin'⟩ := hsane.quiet (quiet_setLru _ _)
  dsimp only
  exact ⟨hsane', hthin.trans hthin'⟩

end Trim

theorem Sane.trimsize (h : s.Sane) (need : Int) (func : Option (LsShmHElem → Int)) (fuel : Nat)
    : (s.trimsize need func fuel).1.Sane ∧ Thinned s (s.trimsize need func fuel).1 :=
  h.trimLoop need fuel

end LsShmHash

end Lsmcd
