import BehaviorTree.Proofs.Variable.FirstStrategy
import Mathlib.Data.Set.Card

/-!
# Which value types are listed

A type has a strategy from the first call on that names it and does more than ask for its registry, whether this
call fails or not. The list has one name for each type that was named at all, so a type that was only asked for
stands in it without a strategy.
-/

namespace BehaviorTree

namespace Registries

/-- Some id is registered for the type. -/
def HasStrategy (rs : Registries) (t : ValueType) : Prop := ∃ id, rs.isRegistered t id = true

/-- There are calls for the type, and all of them only asked for its registry. -/
def OnlyAskedFor (calls : List Call) (t : ValueType) : Prop :=
  (∃ c ∈ calls, c.type = t) ∧ ∀ c ∈ calls, c.type = t → c = .touch t

variable {rs : Registries} {t : ValueType} {c : Call}

theorem hasStrategy_iff : rs.HasStrategy t ↔ ∃ id, rs.find? ⟨t, id⟩ ≠ none :=
  exists_congr fun id => by rw [isRegistered_eq, Option.isSome_iff_ne_none]

theorem not_hasStrategy_empty (t : ValueType) : ¬ empty.HasStrategy t := nofun

/-! ## Types with a strategy -/

/-- The first of several ids is taken after the attempts, or it was before. -/
theorem or_attempts_ne_none (rs : Registries) (id : UInt32) (s : Strategy t) (rest : List (UInt32 × Strategy t)) :
    (rs.find? ⟨t, id⟩).or (firstAccepted ⟨t, id⟩ (rs.attempts ((id, s) :: rest))) ≠ none := by
  obtain ⟨hold, -⟩ | ⟨hnone, heq⟩ := rs.register_cases id s
  · intro hor
    exact hold (Option.or_eq_none_iff.mp hor).1
  · rw [hnone, Option.none_or]
    unfold attempts
    rw [heq, firstAccepted_accepted]
    exact Option.some_ne_none s

/-- The constants of the library are attempted first, where their id is free. -/
theorem missing_eq (h : rs.isRegistered t 1 = false) :
    ∃ rest, rs.missing t = ((1 : UInt32), (.constant : Strategy t)) :: rest :=
  ⟨_, List.filter_cons_of_pos (by simp [h])⟩

theorem HasStrategy.call (h : rs.HasStrategy t) (c : Call) : (rs.call c).1.HasStrategy t := by
  rw [hasStrategy_iff] at h ⊢
  obtain ⟨id, hid⟩ := h
  refine ⟨id, fun hnone => hid ?_⟩
  rw [find?_call] at hnone
  exact (Option.or_eq_none_iff.mp hnone).1

/-- A call that does more than ask for a registry leaves a strategy in it, also if it fails. -/
theorem hasStrategy_of_ne_touch (rs : Registries) (h : c ≠ .touch c.type) : (rs.call c).1.HasStrategy c.type := by
  by_cases hold : rs.HasStrategy c.type
  · exact hold.call c
  refine hasStrategy_iff.mpr ?_
  simp only [find?_call]
  cases c with
  | register id s => exact ⟨id, rs.or_attempts_ne_none id s []⟩
  | registerComponent id field mode => exact ⟨id, rs.or_attempts_ne_none id _ []⟩
  | registerBuiltin t => exact ⟨1, rs.or_attempts_ne_none 1 .constant _⟩
  | ensureBuiltin t =>
      have hfree : rs.isRegistered t 1 = false := Bool.eq_false_iff.mpr fun h => hold ⟨1, h⟩
      obtain ⟨rest, hmissing⟩ := missing_eq hfree
      rw [attemptsOf, hmissing]
      exact ⟨1, rs.or_attempts_ne_none 1 .constant rest⟩
  | touch t => exact absurd rfl h

theorem hasStrategy_call (rs : Registries) (c : Call) (t : ValueType) :
    (rs.call c).1.HasStrategy t ↔ rs.HasStrategy t ∨ c.type = t ∧ c ≠ .touch t := by
  constructor
  · intro h
    by_cases hc : c.type = t ∧ c ≠ .touch t
    · exact .inr hc
    -- the call is for another type, or changes no entry
    · rw [hasStrategy_iff] at h ⊢
      obtain ⟨id, hid⟩ := h
      refine .inl ⟨id, ?_⟩
      by_cases ht : c.type = t
      · rw [not_and_not_right.mp hc ht, call, find?_touch] at hid
        exact hid
      · rwa [find?, registryD, byType_call_of_ne ht] at hid
  · rintro (h | ⟨rfl, hc⟩)
    · exact h.call c
    · exact rs.hasStrategy_of_ne_touch hc

theorem hasStrategy_afterCalls : ∀ (calls : List Call) (rs : Registries) (t : ValueType),
    (rs.afterCalls calls).HasStrategy t ↔ rs.HasStrategy t ∨ ∃ c ∈ calls, c.type = t ∧ c ≠ .touch t
  | [], rs, t => by simp [afterCalls]
  | c :: calls, rs, t => by
      rw [afterCalls, hasStrategy_afterCalls calls, hasStrategy_call, or_assoc]
      simp only [List.mem_cons, exists_eq_or_imp]

theorem OnlyAskedFor.not_hasStrategy {calls : List Call} (h : OnlyAskedFor calls t) :
    ¬ (empty.afterCalls calls).HasStrategy t := by
  rw [hasStrategy_afterCalls, or_iff_right (not_hasStrategy_empty t)]
  rintro ⟨c, hc, ht, hne⟩
  exact hne (h.2 c hc ht)

/-! ## Listed types -/

theorem known_iff (calls : List Call) (t : ValueType) :
    (empty.afterCalls calls).Known t ↔ (empty.afterCalls calls).HasStrategy t ∨ OnlyAskedFor calls t := by
  have hnew : ¬ empty.Known t := fun h => h rfl
  rw [known_afterCalls, or_iff_right hnew, hasStrategy_afterCalls, or_iff_right (not_hasStrategy_empty t)]
  constructor
  · intro hnamed
    by_cases hmore : ∃ c ∈ calls, c.type = t ∧ c ≠ .touch t
    · exact .inl hmore
    · push Not at hmore
      exact .inr ⟨hnamed, hmore⟩
  · rintro (⟨c, hc, ht, -⟩ | h)
    · exact ⟨c, hc, ht⟩
    · exact h.1

theorem known_iff_mem_keys : rs.Known t ↔ t ∈ rs.byType.keys := by
  rw [Known, ← Option.isSome_iff_ne_none, Dict.find?_isSome_iff]

/-- A name is listed once for each type of this name that has a registry. -/
theorem count_valueTypes (rs : Registries) (name : String) :
    rs.valueTypes.count name = {t | t.name = name ∧ rs.Known t}.ncard := by
  have hset : {t | t.name = name ∧ rs.Known t} = ↑(rs.byType.keys.filter (·.name == name)).toFinset := by
    ext t
    simp [known_iff_mem_keys, and_comm]
  have hnodup : (rs.byType.keys.filter (·.name == name)).Nodup := rs.byType.nodup.filter _
  rw [hset, Set.ncard_coe_finset, List.toFinset_card_of_nodup hnodup, valueTypes,
    (List.mergeSort_perm _ _).count_eq, List.count, List.countP_map, List.countP_eq_length_filter]
  rfl

theorem mem_valueTypes {name : String} : name ∈ rs.valueTypes ↔ ∃ t, rs.Known t ∧ t.name = name := by
  rw [valueTypes, List.mem_mergeSort, List.mem_map]
  simp only [known_iff_mem_keys]

/-- A type that shares its name with no other one is listed at most once. -/
theorem listed_of_own_name (hname : ∀ t', rs.Known t' → t'.name = t.name → t' = t) :
    rs.valueTypes.count t.name ≤ 1 ∧ (t.name ∈ rs.valueTypes ↔ rs.Known t) := by
  have honly : {t' | t'.name = t.name ∧ rs.Known t'} ⊆ {t} := fun t' h => hname t' h.2 h.1
  constructor
  · rw [count_valueTypes, ← Set.ncard_singleton t]
    exact Set.ncard_le_ncard honly
  · rw [mem_valueTypes]
    constructor
    · rintro ⟨t', hknown, heq⟩
      exact hname t' hknown heq ▸ hknown
    · exact fun hknown => ⟨t, hknown, rfl⟩

/-- A name is listed once for each type of this name that has a strategy, and once for each that was only asked
for, which has none. So a type whose name no call uses for another one is listed at most once, namely if it has a
strategy or was only asked for. -/
theorem listed_with_strategy_or_asked_for (calls : List Call) :
    let rs := empty.afterCalls calls
    (∀ name, rs.valueTypes.count name =
      {t | t.name = name ∧ (rs.HasStrategy t ∨ OnlyAskedFor calls t)}.ncard) ∧
    (∀ t, OnlyAskedFor calls t → ¬ rs.HasStrategy t) ∧
    ∀ t, (∀ c ∈ calls, c.type.name = t.name → c.type = t) →
      rs.valueTypes.count t.name ≤ 1 ∧
      (t.name ∈ rs.valueTypes ↔ rs.HasStrategy t ∨ OnlyAskedFor calls t) := by
  refine ⟨fun name => ?_, fun t => OnlyAskedFor.not_hasStrategy, fun t hname => ?_⟩
  · simp only [← known_iff]
    exact count_valueTypes _ name
  · rw [← known_iff]
    refine listed_of_own_name fun t' hknown heq => ?_
    obtain hnew | ⟨c, hc, rfl⟩ := (known_afterCalls calls empty t').mp hknown
    · exact absurd rfl hnew
    · exact hname c hc heq

theorem listed_with_strategy_or_asked_for_touched :
    let calls := [Call.ensureBuiltin .u8, .touch .f32, .registerBuiltin .u8, .touch .u8]
    (∀ c ∈ calls, c.type.name = ValueType.f32.name → c.type = .f32) ∧
    (empty.afterCalls calls).valueTypes.count "f32" = 1 ∧
    ∀ id, (empty.afterCalls calls).isRegistered .f32 id = false := by
  intro calls
  have hname : ∀ c ∈ calls, c.type.name = ValueType.f32.name → c.type = .f32 := by
    simp [calls, Call.type, ValueType.u8, ValueType.f32]
  have hasked : OnlyAskedFor calls .f32 := by
    refine ⟨⟨.touch .f32, by simp [calls], rfl⟩, ?_⟩
    simp [calls, Call.type, ValueType.u8, ValueType.f32]
  obtain ⟨-, hnone, hlisted⟩ := listed_with_strategy_or_asked_for calls
  obtain ⟨hle, hmem⟩ := hlisted .f32 hname
  refine ⟨hname, Nat.le_antisymm hle (List.count_pos_iff.mpr (hmem.mpr (.inr hasked))), fun id => ?_⟩
  have hfree := fun h => hnone .f32 hasked ⟨id, h⟩
  exact Bool.eq_false_iff.mpr hfree

end Registries

end BehaviorTree
