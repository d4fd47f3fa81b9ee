import BehaviorTree.Proofs.Variable.InPlace
import BehaviorTree.Proofs.Variable.Registry

/-!
# Strategies looked up

A handle is resolved by the strategy for its type and id. The lookup fails in one way while the type has no
registry and in another while nothing is registered for the id, and nothing else that is done with a handle
fails in one of these ways.
-/

namespace BehaviorTree

/-- What a strategy is registered under. -/
structure StrategyKey where
  type : ValueType
  id : UInt32
  deriving DecidableEq

namespace Registries

variable {rs rs' : Registries} {t : ValueType} {id : UInt32} {s : Strategy t}

def find? (rs : Registries) (k : StrategyKey) : Option (Strategy k.type) := (rs.registryD k.type).find? k.id

/-- The type has a registry, maybe an empty one. -/
def Known (rs : Registries) (t : ValueType) : Prop := rs.byType.find? t ≠ none

theorem known_of_find? {k : StrategyKey} (h : rs.find? k ≠ none) : rs.Known k.type := by
  intro hnone
  rw [find?, registryD, hnone] at h
  exact h rfl

theorem isRegistered_eq (rs : Registries) (t : ValueType) (id : UInt32) :
    rs.isRegistered t id = (rs.find? ⟨t, id⟩).isSome := by
  unfold isRegistered find? registryD
  cases rs.byType.find? t <;> rfl

theorem strategy_cases (rs : Registries) (t : ValueType) (id : UInt32) :
    (¬ rs.Known t ∧ rs.find? ⟨t, id⟩ = none ∧
      rs.strategy t id = .error (.unregisteredVariableType t.name)) ∨
    (rs.Known t ∧ rs.find? ⟨t, id⟩ = none ∧ rs.strategy t id = .error (.unknownVariable id t.name)) ∨
    (rs.Known t ∧ ∃ s, rs.find? ⟨t, id⟩ = some s ∧ rs.strategy t id = .ok s) := by
  unfold Known find? registryD strategy registry
  cases rs.byType.find? t with
  | none => exact .inl ⟨fun h => h rfl, rfl, rfl⟩
  | some r =>
      change _ ∨ (_ ∧ r.find? id = none ∧ r.strategy id = _) ∨
        (_ ∧ ∃ s, r.find? id = some s ∧ r.strategy id = _)
      unfold Registry.strategy
      cases r.find? id with
      | none => exact .inr (.inl ⟨nofun, rfl, rfl⟩)
      | some s => exact .inr (.inr ⟨nofun, s, rfl, rfl⟩)

theorem strategy_eq_ok : rs.strategy t id = .ok s ↔ rs.find? ⟨t, id⟩ = some s := by
  obtain ⟨-, hnone, heq⟩ | ⟨-, hnone, heq⟩ | ⟨-, s', hsome, heq⟩ := rs.strategy_cases t id
  · exact iff_of_false (by simp [heq]) (by simp [hnone])
  · exact iff_of_false (by simp [heq]) (by simp [hnone])
  · rw [heq, hsome, Except.ok.injEq, Option.some_inj]

theorem strategy_congr (h : rs'.byType.find? t = rs.byType.find? t) (id : UInt32) :
    rs'.strategy t id = rs.strategy t id := by
  rw [strategy, registry, h, strategy, registry]

end Registries

/-! ## Lookups behind a handle -/

/-- The two ways in which a registry fails to give a strategy. -/
def Fault.IsLookup : Fault → Prop
  | .error (.unregisteredVariableType _) | .error (.unknownVariable ..) => True
  | _ => False

/-- How a use of the handle `id` of type `t` fails at its lookup, when the type has a registry if `known`, and
`held` is registered there. -/
structure Resolution {α : Type} (t : ValueType) (id : UInt32) (known : Prop) (held : Option (Strategy t))
    (x : Checked α) : Prop where
  unregistered (name : String) :
    x = Checked.fail (.unregisteredVariableType name) ↔ ¬ known ∧ name = t.name
  unknown (id' : UInt32) (name : String) :
    x = Checked.fail (.unknownVariable id' name) ↔ known ∧ held = none ∧ id' = id ∧ name = t.name

/-- The computation may fail, but at no lookup. -/
abbrev Checked.LooksUpNothing {α : Type} (x : Checked α) : Prop := x.FailsBy (¬ ·.IsLookup)

section

variable {b : Blob} {t : ValueType} {α : Type}

theorem Instance.locate_looksUpNothing (s : Instance b) (i o len : Nat) : (s.locate i o len).LooksUpNothing := by
  rcases Nat.lt_or_ge i b.size with hi | hi
  · rw [locate_eq s hi]
    exact .ite (fun _ => .error nofun) fun _ => .ite (fun _ => .error nofun) fun _ => .ok _
  · rw [locate_of_le s hi]
    exact .error nofun

theorem Instance.readAt_looksUpNothing (s : Instance b) (t : ValueType) (i o : Nat) :
    (s.readAt t i o).LooksUpNothing := by
  refine (s.locate_looksUpNothing i o t.size).bind fun start h => ?_
  obtain ⟨hl, hslice⟩ := Buffer.slice_eq s.data (le_of_locate h)
  rw [hslice]
  exact .ok _

theorem Variable.payloadOffset_looksUpNothing (v : Variable) (i : Nat) :
    (Checked.ofExcept (v.payloadOffset i)).LooksUpNothing := by
  refine .ofExcept fun e he => ?_
  unfold payloadOffset at he
  split at he <;> cases he
  exact nofun

theorem Checked.ofBoard_looksUpNothing (x : Except BoardError α) : (Checked.ofBoard x).LooksUpNothing :=
  .ofBoard fun _ _ => nofun

theorem Strategy.payload_looksUpNothing (v : Variable) (i : Nat) (s : Instance b) (p : PlainData α) :
    (payload v i s p).LooksUpNothing :=
  (v.payloadOffset_looksUpNothing i).bind fun _ _ => (s.readAt_looksUpNothing _ _ _).bind fun _ _ => .ok _

theorem Strategy.read_looksUpNothing (st : Strategy t) (v : Variable) (i : Nat) (s : Instance b)
    (bb : Blackboard) : (st.read v i s bb).LooksUpNothing := by
  cases st with
  | constant => exact (v.payloadOffset_looksUpNothing i).bind fun _ _ => s.readAt_looksUpNothing _ _ _
  | blackboard => exact (payload_looksUpNothing v i s _).bind fun _ _ => Checked.ofBoard_looksUpNothing _
  | node => exact (payload_looksUpNothing v i s _).bind fun _ _ => s.readAt_looksUpNothing _ _ _
  | component c field mode => exact (Checked.ofBoard_looksUpNothing _).bind fun _ _ => .ok _

/-- A change fails at the lookup exactly if a read does. -/
theorem Variable.modify_eq_fail {v : Variable} {rs : Registries} {i : Nat} {f : t.Value → t.Value}
    {s : Instance b} {a : Address} {bb : Blackboard} {e : Error} (he : (Fault.error e).IsLookup) :
    v.modify rs t i f s a bb = Checked.fail e ↔ v.read rs t i s bb = Checked.fail e := by
  cases hread : v.read rs t i s bb with
  | error e' => simp [modify_error hread f a, Checked.fail]
  | ok x =>
      refine iff_of_false (fun h => ?_) (by simp [Checked.fail])
      obtain ⟨l, -, ⟨-, s', bb', heq, -⟩ | ⟨-, j, o, -, heq⟩⟩ := modify_cases hread f a
      · cases heq.symm.trans h
      · cases heq.symm.trans h
        exact he

namespace Registries

theorem resolution_bind (rs : Registries) (t : ValueType) (id : UInt32) {k : Strategy t → Checked α}
    (hk : ∀ st, (k st).LooksUpNothing) :
    Resolution t id (rs.Known t) (rs.find? ⟨t, id⟩) (Checked.ofExcept (rs.strategy t id) >>= k) := by
  obtain ⟨hknown, hnone, heq⟩ | ⟨hknown, hnone, heq⟩ | ⟨hknown, st, hsome, heq⟩ := rs.strategy_cases t id
  · rw [heq, hnone]
    exact ⟨fun name => by simp [Checked.fail, hknown, eq_comm], fun id' name => by simp [Checked.fail, hknown]⟩
  · rw [heq, hnone]
    exact ⟨fun name => by simp [Checked.fail, hknown], fun id' name => by simp [Checked.fail, hknown, eq_comm]⟩
  · rw [heq, hsome]
    exact ⟨fun name => iff_of_false (fun h => hk st _ h trivial) fun h => h.1 hknown,
      fun id' name => iff_of_false (fun h => hk st _ h trivial) (by simp)⟩

end Registries

namespace Variable

/-- Reads and changes through the handle, and the list of the components that it needs, fail at the lookup
alike. -/
structure Lookups (v : Variable) (rs : Registries) (t : ValueType) (known : Prop) (held : Option (Strategy t)) :
    Prop where
  read {b : Blob} (i : Nat) (s : Instance b) (bb : Blackboard) :
    Resolution t v.id known held (v.read rs t i s bb)
  modify {b : Blob} (i : Nat) (f : t.Value → t.Value) (s : Instance b) (a : Address) (bb : Blackboard) :
    Resolution t v.id known held (v.modify rs t i f s a bb)
  access : Resolution t v.id known held (Checked.ofExcept (v.access rs t))

theorem lookups (v : Variable) (rs : Registries) (t : ValueType) :
    v.Lookups rs t (rs.Known t) (rs.find? ⟨t, v.id⟩) where
  read i s bb := rs.resolution_bind t v.id fun st => st.read_looksUpNothing v i s bb
  modify i f s a bb := by
    have hread := rs.resolution_bind t v.id fun st => st.read_looksUpNothing v i s bb
    exact ⟨fun name => (modify_eq_fail (e := .unregisteredVariableType name) trivial).trans (hread.unregistered name),
      fun id' name => (modify_eq_fail (e := .unknownVariable id' name) trivial).trans (hread.unknown id' name)⟩
  access := by
    have hsplit : Checked.ofExcept (v.access rs t) =
        Checked.ofExcept (rs.strategy t v.id) >>= fun st => .ok st.access := by
      unfold access
      cases rs.strategy t v.id <;> rfl
    rw [hsplit]
    exact rs.resolution_bind t v.id fun _ => .ok _

end Variable

end

end BehaviorTree
