import BehaviorTree.Proofs.Blackboard
import Mathlib.Data.Finmap

/-!
# The blackboard as two finite maps

One map has a value with its type under each key in use, another a value for each component type. What the
typed operations answer and what they leave is told by these maps alone.
-/

namespace BehaviorTree

namespace Dict

variable {κ : Type} {β : κ → Type} [DecidableEq κ]

/-- The map without the order of its entries. -/
def toFinmap (d : Dict κ β) : Finmap β := ⟨d.entries, Multiset.coe_nodupKeys.mpr d.nodup⟩

@[simp] theorem lookup_toFinmap (d : Dict κ β) (k : κ) : d.toFinmap.lookup k = d.find? k := by
  obtain ⟨es, h⟩ := d
  change List.dlookup k es = find?.go k es
  clear h
  induction es with
  | nil => rfl
  | cons e es ih =>
      obtain ⟨k', v⟩ := e
      rw [find?.go]
      split
      · rename_i hk
        subst hk
        exact List.dlookup_cons_eq es k' v
      · rename_i hk
        rw [List.dlookup_cons_ne es ⟨k', v⟩ (Ne.symm hk), ih]

theorem toFinmap_insert (d : Dict κ β) (k : κ) (v : β k) : (d.insert k v).toFinmap = d.toFinmap.insert k v := by
  refine Finmap.ext_lookup fun k' => ?_
  by_cases hk : k = k'
  · subst hk
    simp
  · rw [lookup_toFinmap, find?_insert_of_ne d v hk, Finmap.lookup_insert_of_ne _ (Ne.symm hk), lookup_toFinmap]

theorem toFinmap_erase (d : Dict κ β) (k : κ) : (d.erase k).toFinmap = d.toFinmap.erase k := by
  refine Finmap.ext_lookup fun k' => ?_
  by_cases hk : k = k'
  · subst hk
    simp
  · rw [lookup_toFinmap, find?_erase_of_ne d hk, Finmap.lookup_erase_ne (Ne.symm hk), lookup_toFinmap]

/-- A value that is taken out and put back leaves the map as it was. -/
theorem toFinmap_putBack {d : Dict κ β} {k : κ} {v : β k} (h : d.find? k = some v) :
    ((d.erase k).insert k v).toFinmap = d.toFinmap := by
  refine Finmap.ext_lookup fun k' => ?_
  rw [lookup_toFinmap, lookup_toFinmap]
  by_cases hk : k = k'
  · subst hk
    rw [find?_insert_self, h]
  · rw [find?_insert_of_ne _ v hk, find?_erase_of_ne d hk]

end Dict

/-! ## Operations -/

/-- An operation of the typed interface. A change goes through a reference, as `f` says. -/
inductive BoardOp where
  | set (t : BoardType) (key : UInt64) (x : t.Carrier)
  | get (t : BoardType) (key : UInt64)
  | get? (t : BoardType) (key : UInt64)
  | modify (t : BoardType) (key : UInt64) (f : t.Carrier → t.Carrier)
  | remove (t : BoardType) (key : UInt64)
  | contains (key : UInt64)
  | clear
  | insertComponent (c : ValueType) (x : c.Value)
  | component (c : ValueType)
  | modifyComponent (c : ValueType) (f : c.Value → c.Value)
  | removeComponent (c : ValueType)

namespace BoardOp

abbrev Reply : BoardOp → Type
  | get t _ => t.Carrier
  | get? t _ | remove t _ => Option t.Carrier
  | contains _ => Bool
  | component c => c.Value
  | removeComponent c => Option c.Value
  | set .. | modify .. | clear | insertComponent .. | modifyComponent .. => Unit

def key? : BoardOp → Option UInt64
  | set _ key _ | get _ key | get? _ key | modify _ key _ | remove _ key | contains key => some key
  | _ => none

def component? : BoardOp → Option ValueType
  | insertComponent c _ | component c | modifyComponent c _ | removeComponent c => some c
  | _ => none

end BoardOp

namespace Blackboard

/-- The outcome of a change that may fail, and the blackboard after it. -/
def orKeep (bb : Blackboard) : Except BoardError Blackboard → Except BoardError Unit × Blackboard
  | .ok bb => (.ok (), bb)
  | .error e => (.error e, bb)

def run (bb : Blackboard) : (op : BoardOp) → Except BoardError op.Reply × Blackboard
  | .set t key x => (.ok (), bb.set t key x)
  | .get t key => (bb.get t key, bb)
  | .get? t key => (bb.get? t key, bb)
  | .modify t key f => bb.orKeep (bb.modify t key f)
  | .remove t key => bb.remove t key
  | .contains key => (.ok (bb.contains key), bb)
  | .clear => (.ok (), bb.clear)
  | .insertComponent _ x => (.ok (), bb.insertComponent x)
  | .component c => (bb.component c, bb)
  | .modifyComponent c f => bb.orKeep (bb.modifyComponent c f)
  | .removeComponent c => ((.ok (bb.removeComponent c).1), (bb.removeComponent c).2)

def afterAll (bb : Blackboard) (ops : List BoardOp) : Blackboard := ops.foldl (fun bb op => (bb.run op).2) bb

end Blackboard

/-! ## Maps -/

/-- What a blackboard holds. -/
structure BoardMaps where
  values : Finmap fun _ : UInt64 => BoardValue
  components : Finmap ValueType.Value

namespace BoardMaps

/-- The value under the key, if it is of the type. -/
def typed? (m : BoardMaps) (t : BoardType) (key : UInt64) : Option t.Carrier :=
  (m.values.lookup key).bind (·.as? t)

/-- The maps after the operation. Only a change and a removal ask for the type of what is there. -/
def after (m : BoardMaps) : BoardOp → BoardMaps
  | .set t key x => { m with values := m.values.insert key ⟨t, x⟩ }
  | .modify t key f =>
    match m.typed? t key with
    | some x => { m with values := m.values.insert key ⟨t, f x⟩ }
    | none => m
  | .remove t key =>
    match m.typed? t key with
    | some _ => { m with values := m.values.erase key }
    | none => m
  | .clear => ⟨∅, ∅⟩
  | .insertComponent c x => { m with components := m.components.insert c x }
  | .modifyComponent c f =>
    match m.components.lookup c with
    | some x => { m with components := m.components.insert c (f x) }
    | none => m
  | .removeComponent c => { m with components := m.components.erase c }
  | .get .. | .get? .. | .contains _ | .component _ => m

def afterAll (m : BoardMaps) (ops : List BoardOp) : BoardMaps := ops.foldl after m

/-- Only what is under the named key and of the named component type differs. -/
structure SameBut (key : Option UInt64) (c : Option ValueType) (m m' : BoardMaps) : Prop where
  values (k : UInt64) : key ≠ some k → m'.values.lookup k = m.values.lookup k
  components (c' : ValueType) : c ≠ some c' → m'.components.lookup c' = m.components.lookup c'

end BoardMaps

def Blackboard.maps (bb : Blackboard) : BoardMaps := ⟨bb.values.toFinmap, bb.components.toFinmap⟩

/-! ## Answers -/

/-- How an operation on the key ends that names the type `t`, while `held` is stored there: a value of the type
is answered with `found`, no value with `absent`. -/
structure BoardType.Verdict {α : Type} (t : BoardType) (key : UInt64) (held : Option BoardValue)
    (found : t.Carrier → α) (absent answer : Except BoardError α) : Prop where
  value (x : t.Carrier) : held = some ⟨t, x⟩ → answer = .ok (found x)
  succeeds : (∃ x, answer = .ok (found x)) ↔ ∃ x, held = some ⟨t, x⟩
  mismatch : answer = .error (.typeMismatch key t.name) ↔ ∃ v, held = some v ∧ v.type ≠ t
  missing : answer = absent ↔ held = none

/-- How an operation on the component `c` ends, while `held` is stored for it. -/
structure ValueType.Verdict {α : Type} (c : ValueType) (held : Option c.Value) (found : c.Value → α)
    (answer : Except BoardError α) : Prop where
  value (x : c.Value) : held = some x → answer = .ok (found x)
  succeeds : (∃ a, answer = .ok a) ↔ ∃ x, held = some x
  missing : answer = .error (.missingComponent c.name) ↔ held = none

/-- How the operation ends on a blackboard with these maps. -/
def BoardOp.Verdict (m : BoardMaps) : (op : BoardOp) → Except BoardError op.Reply → Prop
  | get t key, answer => t.Verdict key (m.values.lookup key) id (.error (.missingKey key)) answer
  | get? t key, answer => t.Verdict key (m.values.lookup key) some (.ok none) answer
  | modify t key _, answer =>
    t.Verdict key (m.values.lookup key) (fun _ => ()) (.error (.missingKey key)) answer
  | remove t key, answer => t.Verdict key (m.values.lookup key) some (.ok none) answer
  | contains key, answer => ∃ b, answer = .ok b ∧ (b = true ↔ ∃ v, m.values.lookup key = some v)
  | component c, answer => c.Verdict (m.components.lookup c) id answer
  | modifyComponent c _, answer => c.Verdict (m.components.lookup c) (fun _ => ()) answer
  | removeComponent c, answer => answer = .ok (m.components.lookup c)
  | set .., answer | clear, answer | insertComponent .., answer => answer = .ok ()

/-- An answer as the stored value asks for it. The three cases exclude one another. -/
theorem BoardType.Verdict.of_cases {α : Type} {t : BoardType} {key : UInt64} {held : Option BoardValue}
    {found : t.Carrier → α} {absent answer : Except BoardError α} (hfound : ∀ x, .ok (found x) ≠ absent)
    (habsent : absent ≠ .error (.typeMismatch key t.name))
    (h : (held = none ∧ answer = absent) ∨ (∃ x, held = some ⟨t, x⟩ ∧ answer = .ok (found x)) ∨
      ∃ v, held = some v ∧ v.type ≠ t ∧ answer = .error (.typeMismatch key t.name)) :
    t.Verdict key held found absent answer := by
  obtain ⟨rfl, rfl⟩ | ⟨x, rfl, rfl⟩ | ⟨v, rfl, hv, rfl⟩ := h
  · refine ⟨?_, iff_of_false ?_ (by simp), iff_of_false habsent (by simp), iff_of_true rfl rfl⟩
    · rintro x ⟨⟩
    · rintro ⟨x, hx⟩
      exact hfound x hx.symm
  · refine ⟨?_, iff_of_true ⟨x, rfl⟩ ⟨x, rfl⟩, iff_of_false (by simp) ?_, iff_of_false (hfound x) (by simp)⟩
    · rintro _ ⟨⟩
      rfl
    · rintro ⟨_, ⟨⟩, hne⟩
      exact hne rfl
  · refine ⟨?_, iff_of_false (by simp) ?_, iff_of_true rfl ⟨v, rfl, hv⟩, iff_of_false habsent.symm (by simp)⟩
    · rintro x ⟨⟩
      exact absurd rfl hv
    · rintro ⟨x, ⟨⟩⟩
      exact hv rfl

theorem ValueType.Verdict.of_cases {α : Type} {c : ValueType} {held : Option c.Value} {found : c.Value → α}
    {answer : Except BoardError α} (h : (held = none ∧ answer = .error (.missingComponent c.name)) ∨
      ∃ x, held = some x ∧ answer = .ok (found x)) : c.Verdict held found answer := by
  obtain ⟨rfl, rfl⟩ | ⟨x, rfl, rfl⟩ := h
  · refine ⟨?_, iff_of_false (by simp) (by simp), iff_of_true rfl rfl⟩
    rintro x ⟨⟩
  · refine ⟨?_, iff_of_true ⟨_, rfl⟩ ⟨x, rfl⟩, iff_of_false (by simp) (by simp)⟩
    rintro _ ⟨⟩
    rfl

namespace Blackboard

variable {bb : Blackboard} {op : BoardOp}

@[simp] theorem lookup_values (bb : Blackboard) (key : UInt64) :
    bb.maps.values.lookup key = bb.values.find? key := bb.values.lookup_toFinmap key

@[simp] theorem lookup_components (bb : Blackboard) (c : ValueType) :
    bb.maps.components.lookup c = bb.components.find? c := bb.components.lookup_toFinmap c

/-- What is stored under a key decides how a typed access ends, and a failed `remove` puts it back. -/
theorem access_cases (bb : Blackboard) (t : BoardType) (key : UInt64) :
    (bb.values.find? key = none ∧ bb.get? t key = .ok none ∧ bb.remove t key = (.ok none, bb)) ∨
    (∃ x, bb.values.find? key = some ⟨t, x⟩ ∧ bb.get? t key = .ok (some x) ∧
      bb.remove t key = (.ok (some x), { bb with values := bb.values.erase key })) ∨
    ∃ v, bb.values.find? key = some v ∧ v.type ≠ t ∧ bb.get? t key = .error (.typeMismatch key t.name) ∧
      bb.remove t key = (.error (.typeMismatch key t.name),
        { bb with values := (bb.values.erase key).insert key v }) := by
  unfold get? remove
  cases bb.values.find? key with
  | none => exact .inl ⟨rfl, rfl, rfl⟩
  | some v =>
      cases hv : v.as? t with
      | none => exact .inr (.inr ⟨v, rfl, BoardValue.as?_eq_none.mp hv, by simp only [hv], by simp only [hv]⟩)
      | some x =>
          obtain rfl := BoardValue.eq_of_as? hv
          exact .inr (.inl ⟨x, rfl, by simp only [hv], by simp only [hv]⟩)

theorem component_cases (h : bb.answer = .stored) (c : ValueType) :
    (bb.components.find? c = none ∧ bb.component c = .error (.missingComponent c.name)) ∨
    ∃ x, bb.components.find? c = some x ∧ bb.component c = .ok x := by
  unfold component
  rw [h]
  cases bb.components.find? c with
  | none => exact .inl ⟨rfl, rfl⟩
  | some x => exact .inr ⟨x, rfl, rfl⟩

theorem typed?_maps (bb : Blackboard) (t : BoardType) (key : UInt64) :
    bb.maps.typed? t key = (bb.values.find? key).bind (·.as? t) := by
  rw [BoardMaps.typed?, lookup_values]

/-! ## One operation -/

theorem get?_verdict (bb : Blackboard) (t : BoardType) (key : UInt64) :
    t.Verdict key (bb.values.find? key) some (.ok none) (bb.get? t key) := by
  refine .of_cases (by simp) (by simp) ?_
  obtain ⟨hf, hg, -⟩ | ⟨x, hf, hg, -⟩ | ⟨v, hf, hv, hg, -⟩ := bb.access_cases t key
  · exact .inl ⟨hf, hg⟩
  · exact .inr (.inl ⟨x, hf, hg⟩)
  · exact .inr (.inr ⟨v, hf, hv, hg⟩)

theorem get_verdict (bb : Blackboard) (t : BoardType) (key : UInt64) :
    t.Verdict key (bb.values.find? key) id (.error (.missingKey key)) (bb.get t key) := by
  rw [get]
  refine .of_cases (by simp) (by simp) ?_
  obtain ⟨hf, hg, -⟩ | ⟨x, hf, hg, -⟩ | ⟨v, hf, hv, hg, -⟩ := bb.access_cases t key
  · exact .inl ⟨hf, by rw [hg]⟩
  · exact .inr (.inl ⟨x, hf, by rw [hg]; rfl⟩)
  · exact .inr (.inr ⟨v, hf, hv, by rw [hg]⟩)

theorem modify_verdict (bb : Blackboard) (t : BoardType) (key : UInt64) (f : t.Carrier → t.Carrier) :
    t.Verdict key (bb.values.find? key) (fun _ => ()) (.error (.missingKey key))
      (bb.orKeep (bb.modify t key f)).1 := by
  rw [modify, get]
  refine .of_cases (by simp) (by simp) ?_
  obtain ⟨hf, hg, -⟩ | ⟨x, hf, hg, -⟩ | ⟨v, hf, hv, hg, -⟩ := bb.access_cases t key
  · exact .inl ⟨hf, by rw [hg]; rfl⟩
  · exact .inr (.inl ⟨x, hf, by rw [hg]; rfl⟩)
  · exact .inr (.inr ⟨v, hf, hv, by rw [hg]; rfl⟩)

theorem remove_verdict (bb : Blackboard) (t : BoardType) (key : UInt64) :
    t.Verdict key (bb.values.find? key) some (.ok none) (bb.remove t key).1 := by
  refine .of_cases (by simp) (by simp) ?_
  obtain ⟨hf, -, hr⟩ | ⟨x, hf, -, hr⟩ | ⟨v, hf, hv, -, hr⟩ := bb.access_cases t key
  · exact .inl ⟨hf, by rw [hr]⟩
  · exact .inr (.inl ⟨x, hf, by rw [hr]⟩)
  · exact .inr (.inr ⟨v, hf, hv, by rw [hr]⟩)

theorem run_verdict (h : bb.answer = .stored) (op : BoardOp) : op.Verdict bb.maps (bb.run op).1 := by
  cases op with
  | set | clear | insertComponent => rfl
  | get t key =>
      rw [BoardOp.Verdict, lookup_values]
      exact bb.get_verdict t key
  | get? t key =>
      rw [BoardOp.Verdict, lookup_values]
      exact bb.get?_verdict t key
  | modify t key f =>
      rw [BoardOp.Verdict, lookup_values]
      exact bb.modify_verdict t key f
  | remove t key =>
      rw [BoardOp.Verdict, lookup_values]
      exact bb.remove_verdict t key
  | contains key =>
      refine ⟨_, rfl, ?_⟩
      rw [contains, Dict.contains, lookup_values, Option.isSome_iff_exists]
  | component c =>
      rw [BoardOp.Verdict, lookup_components]
      exact .of_cases (component_cases h c)
  | modifyComponent c f =>
      rw [BoardOp.Verdict, lookup_components, run, modifyComponent]
      refine .of_cases ?_
      obtain ⟨hf, hc⟩ | ⟨x, hf, hc⟩ := component_cases h c
      · exact .inl ⟨hf, by rw [hc]; rfl⟩
      · exact .inr ⟨x, hf, by rw [hc]; rfl⟩
  | removeComponent c =>
      rw [BoardOp.Verdict, lookup_components]
      rfl

/-- The maps after an operation are told by the maps before it. -/
theorem run_maps (h : bb.answer = .stored) (op : BoardOp) : (bb.run op).2.maps = bb.maps.after op := by
  cases op with
  | get | get? | contains | component => rfl
  | clear => rfl
  | set t key x => exact congrArg (BoardMaps.mk · _) (Dict.toFinmap_insert _ _ _)
  | insertComponent c x => exact congrArg (BoardMaps.mk _) (Dict.toFinmap_insert _ _ _)
  | removeComponent c => exact congrArg (BoardMaps.mk _) (Dict.toFinmap_erase _ _)
  | modify t key f =>
      change (bb.orKeep (bb.modify t key f)).2.maps = _
      rw [modify, get, BoardMaps.after, typed?_maps]
      obtain ⟨hf, hg, -⟩ | ⟨x, hf, hg, -⟩ | ⟨v, hf, hv, hg, -⟩ := bb.access_cases t key
      · rw [hf, hg]
        rfl
      · rw [hf, hg, Option.bind_some, BoardValue.as?_self]
        exact congrArg (BoardMaps.mk · _) (Dict.toFinmap_insert _ _ _)
      · rw [hf, hg, Option.bind_some, BoardValue.as?_eq_none.mpr hv]
        rfl
  | remove t key =>
      change (bb.remove t key).2.maps = _
      rw [BoardMaps.after, typed?_maps]
      obtain ⟨hf, -, hr⟩ | ⟨x, hf, -, hr⟩ | ⟨v, hf, hv, -, hr⟩ := bb.access_cases t key
      · rw [hf, hr]
        rfl
      · rw [hf, hr, Option.bind_some, BoardValue.as?_self]
        exact congrArg (BoardMaps.mk · _) (Dict.toFinmap_erase _ _)
      · rw [hf, hr, Option.bind_some, BoardValue.as?_eq_none.mpr hv]
        exact congrArg (BoardMaps.mk · _) (Dict.toFinmap_putBack hf)
  | modifyComponent c f =>
      change (bb.orKeep (bb.modifyComponent c f)).2.maps = _
      rw [modifyComponent, BoardMaps.after, lookup_components]
      obtain ⟨hf, hc⟩ | ⟨x, hf, hc⟩ := component_cases h c
      · rw [hf, hc]
        rfl
      · rw [hf, hc]
        exact congrArg (BoardMaps.mk _) (Dict.toFinmap_insert _ _ _)

theorem run_answer (bb : Blackboard) (op : BoardOp) : (bb.run op).2.answer = bb.answer := by
  cases op with
  | modify t key f =>
      change (bb.orKeep (bb.modify t key f)).2.answer = _
      rw [modify]
      cases bb.get t key <;> rfl
  | modifyComponent c f =>
      change (bb.orKeep (bb.modifyComponent c f)).2.answer = _
      rw [modifyComponent]
      cases bb.component c <;> rfl
  | remove t key =>
      change (bb.remove t key).2.answer = _
      obtain ⟨-, -, hr⟩ | ⟨x, -, -, hr⟩ | ⟨v, -, -, -, hr⟩ := bb.access_cases t key <;> rw [hr]
  | _ => rfl

theorem orKeep_error {r : Except BoardError Blackboard} {e : BoardError} (h : (bb.orKeep r).1 = .error e) :
    (bb.orKeep r).2 = bb := by
  cases r with
  | ok bb' => cases h
  | error e' => rfl

theorem run_error {e : BoardError} (h : (bb.run op).1 = .error e) : (bb.run op).2.maps = bb.maps := by
  cases op with
  | get | get? | contains | component => rfl
  | set | clear | insertComponent | removeComponent => cases h
  | modify t key f => exact congrArg maps (orKeep_error h)
  | modifyComponent c f => exact congrArg maps (orKeep_error h)
  | remove t key =>
      change (bb.remove t key).2.maps = _
      obtain ⟨-, -, hr⟩ | ⟨x, -, -, hr⟩ | ⟨v, hf, -, -, hr⟩ := bb.access_cases t key
      · rw [hr]
      · change (bb.remove t key).1 = .error e at h
        rw [hr] at h
        cases h
      · -- the entry now stands last, so only the maps are equal
        rw [hr]
        exact congrArg (BoardMaps.mk · _) (Dict.toFinmap_putBack hf)

end Blackboard

namespace BoardMaps

variable {m : BoardMaps} {key : Option UInt64} {c : Option ValueType}

theorem SameBut.refl (key : Option UInt64) (c : Option ValueType) (m : BoardMaps) : m.SameBut key c m :=
  ⟨fun _ _ => rfl, fun _ _ => rfl⟩

theorem sameBut_insertValue (m : BoardMaps) (k : UInt64) (v : BoardValue) :
    m.SameBut (some k) c { m with values := m.values.insert k v } :=
  ⟨fun _ hk => Finmap.lookup_insert_of_ne _ fun heq => hk (heq ▸ rfl), fun _ _ => rfl⟩

theorem sameBut_eraseValue (m : BoardMaps) (k : UInt64) :
    m.SameBut (some k) c { m with values := m.values.erase k } :=
  ⟨fun _ hk => Finmap.lookup_erase_ne fun heq => hk (heq ▸ rfl), fun _ _ => rfl⟩

theorem sameBut_insertComponent (m : BoardMaps) (c : ValueType) (x : c.Value) :
    m.SameBut key (some c) { m with components := m.components.insert c x } :=
  ⟨fun _ _ => rfl, fun _ hc => Finmap.lookup_insert_of_ne _ fun heq => hc (heq ▸ rfl)⟩

theorem sameBut_eraseComponent (m : BoardMaps) (c : ValueType) :
    m.SameBut key (some c) { m with components := m.components.erase c } :=
  ⟨fun _ _ => rfl, fun _ hc => Finmap.lookup_erase_ne fun heq => hc (heq ▸ rfl)⟩

theorem after_sameBut {op : BoardOp} (h : op ≠ .clear) (m : BoardMaps) :
    m.SameBut op.key? op.component? (m.after op) := by
  cases op with
  | clear => exact absurd rfl h
  | get | get? | contains | component => exact .refl _ _ m
  | set t key x => exact m.sameBut_insertValue key _
  | insertComponent c x => exact m.sameBut_insertComponent c x
  | removeComponent c => exact m.sameBut_eraseComponent c
  | modify t key f =>
      rw [after]
      split
      · exact m.sameBut_insertValue key _
      · exact .refl _ _ m
  | remove t key =>
      rw [after]
      split
      · exact m.sameBut_eraseValue key
      · exact .refl _ _ m
  | modifyComponent c f =>
      rw [after]
      split
      · exact m.sameBut_insertComponent c _
      · exact .refl _ _ m

end BoardMaps

/-! ## Sequences of operations -/

namespace Blackboard

theorem afterAll_answer (bb : Blackboard) (ops : List BoardOp) : (bb.afterAll ops).answer = bb.answer := by
  induction ops generalizing bb with
  | nil => rfl
  | cons op ops ih => exact (ih (bb.run op).2).trans (bb.run_answer op)

theorem afterAll_maps {bb : Blackboard} (h : bb.answer = .stored) (ops : List BoardOp) :
    (bb.afterAll ops).maps = bb.maps.afterAll ops := by
  induction ops generalizing bb with
  | nil => rfl
  | cons op ops ih =>
      have hstep := ih ((bb.run_answer op).trans h)
      rw [run_maps h op] at hstep
      exact hstep

/-- Whatever operations were run, a blackboard that stores its components agrees with the two maps, and the next
operation ends as they say. One that fails leaves both as they are, and one on a single key or component changes
nothing else. -/
theorem typed_operations_agree {bb : Blackboard} (h : bb.answer = .stored) (ops : List BoardOp) :
    let last := bb.afterAll ops
    let m := bb.maps.afterAll ops
    last.maps = m ∧ ∀ op : BoardOp,
      op.Verdict m (last.run op).1 ∧
      (∀ e, (last.run op).1 = .error e → (last.run op).2.maps = m) ∧
      (op ≠ .clear → m.SameBut op.key? op.component? (last.run op).2.maps) := by
  have hlast : (bb.afterAll ops).answer = .stored := (bb.afterAll_answer ops).trans h
  rw [← afterAll_maps h]
  refine ⟨rfl, fun op => ⟨run_verdict hlast op, fun e he => run_error he, fun hop => ?_⟩⟩
  rw [run_maps hlast]
  exact BoardMaps.after_sameBut hop _

/-- A text that is removed as a status stays where it is. -/
theorem typed_operations_agree_putBack : Blackboard.empty.answer = .stored ∧
    let last := Blackboard.empty.afterAll [.set .text 7 "seven"]
    (last.run (.remove .status 7)).1 = .error (.typeMismatch 7 "NodeState") ∧
      (last.run (.remove .status 7)).2.maps = Blackboard.empty.maps.afterAll [.set .text 7 "seven"] := by
  obtain ⟨-, hall⟩ := @typed_operations_agree .empty rfl [.set .text 7 "seven"]
  obtain ⟨hverdict, hfailed, -⟩ := hall (.remove .status 7)
  have hmismatch := hverdict.mismatch.mpr ⟨⟨.text, "seven"⟩, Finmap.lookup_insert _, nofun⟩
  exact ⟨rfl, hmismatch, hfailed _ hmismatch⟩

end Blackboard

end BehaviorTree
