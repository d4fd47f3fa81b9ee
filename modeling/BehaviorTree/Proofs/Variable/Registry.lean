import BehaviorTree.Proofs.Checked
import BehaviorTree.Variable.Registry

/-! # Strategies found after the library added its own -/

namespace BehaviorTree

variable {t : ValueType} {id id' : UInt32} {s : Strategy t}

namespace Registry

theorem strategy_eq_ok {r : Registry t} : r.strategy id = .ok s ↔ r.find? id = some s := by
  unfold strategy
  cases r.find? id <;> simp

theorem find?_ensure (r : Registry t) (id id' : UInt32) (s : Strategy t) : (r.ensure id s).find? id' =
    if id = id' then some ((r.find? id).getD s) else r.find? id' := by
  unfold ensure Dict.contains
  by_cases h : id = id'
  · subst h
    cases hf : r.find? id with
    | none => simp
    | some old => simp [hf]
  · rw [if_neg h]
    split
    · rfl
    · exact Dict.find?_insert_of_ne r s h

theorem find?_ensureBuiltin (r : Registry t) :
    r.ensureBuiltin.find? Variable.constantId = some ((r.find? Variable.constantId).getD .constant) ∧
    r.ensureBuiltin.find? Variable.blackboardId = some ((r.find? Variable.blackboardId).getD .blackboard) := by
  simp [ensureBuiltin, find?_ensure, Variable.constantId, Variable.blackboardId, Variable.nodeId]

/-- A strategy is added under a free id, and the others stay. -/
theorem register_strategy {r r' : Registry t} (h : r.register id s = .ok r') :
    r'.strategy id = .ok s ∧ ∀ id' s', r.strategy id' = .ok s' → r'.strategy id' = .ok s' := by
  unfold register at h
  split at h
  · cases h
  rename_i hfree
  cases h
  refine ⟨strategy_eq_ok.mpr (Dict.find?_insert_self _ _ _), fun id' s' hs' => ?_⟩
  rw [strategy_eq_ok] at hs' ⊢
  by_cases hid : id = id'
  · subst hid
    rw [Dict.contains, hs'] at hfree
    exact absurd rfl hfree
  · rw [Dict.find?_insert_of_ne r s hid, hs']

end Registry

namespace Registries

variable {rs : Registries}

theorem strategy_put (rs : Registries) (r : Registry t) (id : UInt32) :
    (rs.put r).strategy t id = r.strategy id := by
  rw [strategy, registry, put, Dict.find?_insert_self]
  rfl

theorem strategy_of_find? (h : (rs.registryD t).find? id = some s) : rs.strategy t id = .ok s := by
  unfold registryD at h
  unfold strategy registry
  cases hr : rs.byType.find? t with
  | none =>
      rw [hr] at h
      cases h
  | some r =>
      rw [hr] at h
      exact Registry.strategy_eq_ok.mpr h

theorem strategy_registryD (h : rs.strategy t id = .ok s) : (rs.registryD t).strategy id = .ok s := by
  unfold strategy registry at h
  unfold registryD
  cases hr : rs.byType.find? t with
  | none =>
      rw [hr] at h
      cases h
  | some r =>
      rw [hr] at h
      exact h

/-- An id holds the library's strategy afterwards unless the host had put another one there. -/
theorem strategy_ensureBuiltin (hconst : ∀ s, rs.strategy t Variable.constantId = .ok s → s = .constant)
    (hboard : ∀ s, rs.strategy t Variable.blackboardId = .ok s → s = .blackboard) :
    (rs.ensureBuiltin t).strategy t Variable.constantId = .ok .constant ∧
      (rs.ensureBuiltin t).strategy t Variable.blackboardId = .ok .blackboard := by
  obtain ⟨h₁, h₂⟩ := (rs.registryD t).find?_ensureBuiltin
  rw [ensureBuiltin, strategy_put, strategy_put, Registry.strategy_eq_ok, Registry.strategy_eq_ok, h₁, h₂]
  constructor
  · cases h : (rs.registryD t).find? Variable.constantId with
    | none => rfl
    | some s => rw [hconst s (strategy_of_find? h)]; rfl
  · cases h : (rs.registryD t).find? Variable.blackboardId with
    | none => rfl
    | some s => rw [hboard s (strategy_of_find? h)]; rfl

/-- The ids of the library have its strategies. -/
structure HasBuiltin (rs : Registries) (t : ValueType) : Prop where
  constant : rs.strategy t Variable.constantId = .ok .constant
  blackboard : rs.strategy t Variable.blackboardId = .ok .blackboard
  node : rs.strategy t Variable.nodeId = .ok .node

theorem registerAll_strategy : ∀ {xs : List (UInt32 × Strategy t)} {rs rs' : Registries},
    rs.registerAll xs = (rs', .ok ()) →
      (∀ x ∈ xs, rs'.strategy t x.1 = .ok x.2) ∧
      ∀ id s, rs.strategy t id = .ok s → rs'.strategy t id = .ok s
  | [], rs, rs', h => by
      cases h
      exact ⟨nofun, fun _ _ => id⟩
  | (id, s) :: xs, rs, rs', h => by
      rw [registerAll, register] at h
      cases hr : (rs.registryD t).register id s with
      | error e =>
          rw [hr] at h
          cases h
      | ok r =>
          rw [hr] at h
          have hrest : (rs.put r).registerAll xs = (rs', .ok ()) := h
          obtain ⟨hall, hkeep⟩ := registerAll_strategy hrest
          obtain ⟨hnew, hold⟩ := Registry.register_strategy hr
          simp only [strategy_put] at hkeep
          exact ⟨List.forall_mem_cons.mpr ⟨hkeep _ _ hnew, hall⟩,
            fun id' s' hs' => hkeep _ _ (hold _ _ (strategy_registryD hs'))⟩

/-- If it could add its strategies, the library has them afterwards. -/
theorem hasBuiltin_of_registerBuiltin {rs' : Registries} (h : rs.registerBuiltin t = (rs', .ok ())) :
    rs'.HasBuiltin t := by
  obtain ⟨hall, -⟩ := registerAll_strategy h
  simp only [List.forall_mem_cons] at hall
  exact ⟨hall.1, hall.2.1, hall.2.2.1⟩

end Registries

end BehaviorTree
