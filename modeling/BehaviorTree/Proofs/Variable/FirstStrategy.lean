import BehaviorTree.Proofs.Registration
import BehaviorTree.Proofs.Variable.Lookup

/-!
# Strategies while the registries are filled

The registries are filled by calls in any order and for any types. For every type and id they find the strategy
that was accepted first. A lookup fails in one way for a type that no call has touched and in another for an
id that is free.
-/

namespace BehaviorTree

/-- How a registration under `k` ends while `held` is registered there. -/
structure StrategyKey.Verdict (k : StrategyKey) (held : Option (Strategy k.type)) (answer : Except Error Unit) :
    Prop where
  taken : answer = .error (.duplicateVariable k.id k.type.name) ↔ held ≠ none
  accepted : answer = .ok () ↔ held = none

/-- The strategies that come with the library, by id. -/
def Strategy.builtin (t : ValueType) : List (UInt32 × Strategy t) := [(1, constant), (2, blackboard), (3, node)]

namespace Registries

abbrev Past := List (Attempt StrategyKey fun k => Strategy k.type)

/-- A call that fills the registry of a type, or asks for it. A strategy that is added to a registry asked for
comes in by `register`. -/
inductive Call where
  | register {t : ValueType} (id : UInt32) (s : Strategy t)
  | registerComponent {c t : ValueType} (id : UInt32) (field : Field c t) (mode : AccessMode)
  | registerBuiltin (t : ValueType)
  | ensureBuiltin (t : ValueType)
  | touch (t : ValueType)

def Call.type : Call → ValueType
  | @register t _ _ | @registerComponent _ t _ _ _ | registerBuiltin t | ensureBuiltin t | touch t => t

def call (rs : Registries) : Call → Registries × Except Error Unit
  | .register id s => rs.register id s
  | .registerComponent id field mode => rs.registerComponent id field mode
  | .registerBuiltin t => rs.registerBuiltin t
  | .ensureBuiltin t => (rs.ensureBuiltin t, .ok ())
  | .touch t => (rs.touch t, .ok ())

def afterCalls (rs : Registries) : List Call → Registries
  | [] => rs
  | c :: calls => (rs.call c).1.afterCalls calls

/-- The single registrations of several strategies, up to the first one that fails. -/
def attempts (rs : Registries) {t : ValueType} : List (UInt32 × Strategy t) → Past
  | [] => []
  | (id, s) :: rest =>
    match rs.register id s with
    | (rs, .ok ()) => ⟨⟨t, id⟩, s, .ok ()⟩ :: rs.attempts rest
    | (_, .error e) => [⟨⟨t, id⟩, s, .error e⟩]

/-- The strategies of the library whose ids are free. -/
def missing (rs : Registries) (t : ValueType) : List (UInt32 × Strategy t) :=
  (Strategy.builtin t).filter fun x => !rs.isRegistered t x.1

/-- The single registrations that a call makes. -/
def attemptsOf (rs : Registries) : Call → Past
  | .register id s => rs.attempts [(id, s)]
  | @Call.registerComponent c _ id field mode => rs.attempts [(id, .component c field mode)]
  | .registerBuiltin t => rs.attempts (Strategy.builtin t)
  | .ensureBuiltin t => rs.attempts (rs.missing t)
  | .touch _ => []

/-- All single registrations that were attempted, with their answers. -/
def history (rs : Registries) : List Call → Past
  | [] => []
  | c :: calls => rs.attemptsOf c ++ (rs.call c).1.history calls

variable {rs : Registries} {t t' : ValueType} {id : UInt32} {s : Strategy t}

/-! ## Registries put back -/

theorem byType_put_of_ne (r : Registry t) (h : t ≠ t') : (rs.put r).byType.find? t' = rs.byType.find? t' :=
  Dict.find?_insert_of_ne _ r h

theorem registryD_put (rs : Registries) (r : Registry t) : (rs.put r).registryD t = r := by
  rw [registryD, put, Dict.find?_insert_self, Option.getD_some]

theorem find?_put (rs : Registries) (r : Registry t) (id : UInt32) : (rs.put r).find? ⟨t, id⟩ = r.find? id := by
  rw [find?, registryD_put]

theorem find?_put_of_ne (r : Registry t) {k : StrategyKey} (h : t ≠ k.type) : (rs.put r).find? k = rs.find? k := by
  rw [find?, registryD, byType_put_of_ne r h]
  rfl

theorem find?_touch (rs : Registries) (t : ValueType) (k : StrategyKey) : (rs.touch t).find? k = rs.find? k := by
  by_cases h : t = k.type
  · subst h
    exact find?_put rs _ k.id
  · exact find?_put_of_ne _ h

/-! ## One registration -/

theorem register_cases (rs : Registries) (id : UInt32) (s : Strategy t) :
    (rs.find? ⟨t, id⟩ ≠ none ∧ rs.register id s = (rs.touch t, .error (.duplicateVariable id t.name))) ∨
    (rs.find? ⟨t, id⟩ = none ∧ rs.register id s = (rs.put ((rs.registryD t).insert id s), .ok ())) := by
  unfold register Registry.register Dict.contains find?
  cases h : (rs.registryD t).find? id with
  | none => exact .inr ⟨rfl, rfl⟩
  | some old => exact .inl ⟨nofun, rfl⟩

theorem find?_insert (rs : Registries) (id : UInt32) (s : Strategy t) :
    (rs.put ((rs.registryD t).insert id s)).find? ⟨t, id⟩ = some s := by
  rw [find?_put, Dict.find?_insert_self]

theorem find?_insert_of_ne (rs : Registries) (s : Strategy t) {k : StrategyKey} (h : ⟨t, id⟩ ≠ k) :
    (rs.put ((rs.registryD t).insert id s)).find? k = rs.find? k := by
  obtain ⟨t', id'⟩ := k
  by_cases ht : t = t'
  · subst ht
    have hid : id ≠ id' := fun hid => h (hid ▸ rfl)
    rw [find?_put]
    exact Dict.find?_insert_of_ne (rs.registryD t) s hid
  · exact find?_put_of_ne _ ht

theorem register_verdict (rs : Registries) (id : UInt32) (s : Strategy t) :
    StrategyKey.Verdict ⟨t, id⟩ (rs.find? ⟨t, id⟩) (rs.register id s).2 := by
  obtain ⟨hold, heq⟩ | ⟨hnone, heq⟩ := rs.register_cases id s
  · rw [heq]
    exact ⟨iff_of_true rfl hold, iff_of_false nofun hold⟩
  · rw [heq]
    exact ⟨iff_of_false nofun (fun hne => hne hnone), iff_of_true rfl hnone⟩

theorem find?_accepted (hnone : rs.find? ⟨t, id⟩ = none) (s : Strategy t) (k : StrategyKey) :
    (rs.put ((rs.registryD t).insert id s)).find? k =
      (rs.find? k).or (firstAccepted (β := fun k => Strategy k.type) k [⟨⟨t, id⟩, s, .ok ()⟩]) := by
  by_cases hk : ⟨t, id⟩ = k
  · subst hk
    rw [find?_insert, hnone, firstAccepted_accepted]
    rfl
  · rw [find?_insert_of_ne rs s hk, firstAccepted_of_ne hk, firstAccepted_nil, Option.or_none]

/-! ## Several registrations -/

theorem find?_registerAll : ∀ (xs : List (UInt32 × Strategy t)) (rs : Registries) (k : StrategyKey),
    (rs.registerAll xs).1.find? k = (rs.find? k).or (firstAccepted k (rs.attempts xs))
  | [], rs, k => by simp [registerAll, attempts]
  | (id, s) :: rest, rs, k => by
      unfold registerAll attempts
      obtain ⟨-, heq⟩ | ⟨hnone, heq⟩ := rs.register_cases id s
      · rw [heq]
        simp only []
        rw [firstAccepted_refused, firstAccepted_nil, Option.or_none, find?_touch]
      · rw [heq]
        simp only []
        rw [find?_registerAll rest, find?_accepted hnone, Option.or_assoc, ← firstAccepted_cons]

theorem attempts_verdict : ∀ (xs : List (UInt32 × Strategy t)) (rs : Registries),
    Verdicts StrategyKey.Verdict rs.find? (rs.attempts xs)
  | [], _ => .nil
  | (id, s) :: rest, rs => by
      have hverdict := rs.register_verdict id s
      unfold attempts
      obtain ⟨-, heq⟩ | ⟨hnone, heq⟩ := rs.register_cases id s
      · rw [heq] at hverdict ⊢
        exact .singleton hverdict
      · rw [heq] at hverdict ⊢
        exact (Verdicts.singleton hverdict).append (find?_accepted hnone s) (attempts_verdict rest _)

/-! ## The strategies of the library -/

/-- Registrations that were all accepted. -/
def granted (xs : List (UInt32 × Strategy t)) : Past := xs.map fun x => ⟨⟨t, x.1⟩, x.2, .ok ()⟩

theorem attempts_of_free : ∀ {xs : List (UInt32 × Strategy t)} {rs : Registries},
    (∀ x ∈ xs, rs.find? ⟨t, x.1⟩ = none) → (xs.map (·.1)).Nodup → rs.attempts xs = granted xs
  | [], _, _, _ => rfl
  | (id, s) :: rest, rs, hfree, hnodup => by
      rw [List.forall_mem_cons] at hfree
      obtain ⟨hid, hnodup⟩ := List.nodup_cons.mp hnodup
      obtain ⟨hold, -⟩ | ⟨-, heq⟩ := rs.register_cases id s
      · exact absurd hfree.1 hold
      · unfold attempts
        rw [heq]
        refine congrArg _ (attempts_of_free (fun x hx => ?_) hnodup)
        have hne : StrategyKey.mk t id ≠ ⟨t, x.1⟩ := by
          intro heq
          cases heq
          exact hid (List.mem_map.mpr ⟨x, hx, rfl⟩)
        rw [find?_insert_of_ne rs s hne]
        exact hfree.2 x hx

theorem firstAccepted_granted_of_ne (h : t ≠ t') : ∀ xs : List (UInt32 × Strategy t),
    firstAccepted ⟨t', id⟩ (granted xs) = none
  | [] => rfl
  | x :: xs => by
      rw [granted, List.map_cons, firstAccepted_of_ne fun heq => h (congrArg StrategyKey.type heq)]
      exact firstAccepted_granted_of_ne h xs

theorem firstAccepted_granted_cons (id' : UInt32) (s : Strategy t) (xs : List (UInt32 × Strategy t)) :
    firstAccepted ⟨t, id⟩ (granted ((id', s) :: xs)) =
      if id' = id then some s else firstAccepted ⟨t, id⟩ (granted xs) := by
  rw [granted, List.map_cons]
  by_cases hid : id' = id
  · subst hid
    rw [if_pos rfl, firstAccepted_accepted]
  · rw [if_neg hid, firstAccepted_of_ne fun heq => hid (congrArg StrategyKey.id heq)]
    rfl

theorem firstAccepted_granted_filter (p : UInt32 → Bool) : ∀ xs : List (UInt32 × Strategy t),
    firstAccepted ⟨t, id⟩ (granted (xs.filter fun x => p x.1)) =
      if p id then firstAccepted ⟨t, id⟩ (granted xs) else none
  | [] => by simp [granted]
  | (id', s) :: xs => by
      have ih := firstAccepted_granted_filter p xs
      rw [List.filter_cons, firstAccepted_granted_cons]
      by_cases hid : id' = id
      · subst hid
        cases hp : p id' with
        | true => simp [firstAccepted_granted_cons]
        | false => simpa [hp] using ih
      · rw [if_neg hid]
        split
        · rwa [firstAccepted_granted_cons, if_neg hid]
        · exact ih

theorem firstAccepted_granted_eq_some : ∀ {xs : List (UInt32 × Strategy t)} {s : Strategy t},
    (xs.map (·.1)).Nodup → (firstAccepted ⟨t, id⟩ (granted xs) = some s ↔ (id, s) ∈ xs)
  | [], _, _ => by simp [granted]
  | (id', s') :: xs, s, hnodup => by
      obtain ⟨hid', hnodup⟩ := List.nodup_cons.mp hnodup
      rw [firstAccepted_granted_cons, List.mem_cons]
      by_cases hid : id' = id
      · subst hid
        have hnot : (id', s) ∉ xs := fun h => hid' (List.mem_map.mpr ⟨_, h, rfl⟩)
        rw [if_pos rfl, or_iff_left hnot]
        simp [eq_comm]
      · rw [if_neg hid, firstAccepted_granted_eq_some hnodup,
          or_iff_right fun heq => hid (congrArg Prod.fst heq).symm]

theorem nodup_builtin (t : ValueType) : ((Strategy.builtin t).map (·.1)).Nodup := by
  change [1, 2, 3].Nodup
  decide

theorem attempts_missing (rs : Registries) (t : ValueType) :
    rs.attempts (rs.missing t) = granted (rs.missing t) := by
  refine attempts_of_free (fun x hx => ?_) ((nodup_builtin t).sublist (List.filter_sublist.map _))
  have hfree := (List.mem_filter.mp hx).2
  simpa [isRegistered_eq] using hfree

theorem find?_ensureAll : ∀ (xs : List (UInt32 × Strategy t)) (r : Registry t),
    (xs.foldl (fun r x => r.ensure x.1 x.2) r).find? id = (r.find? id).or (firstAccepted ⟨t, id⟩ (granted xs))
  | [], r => (Option.or_none).symm
  | (id', s) :: xs, r => by
      rw [List.foldl_cons, find?_ensureAll xs, Registry.find?_ensure, firstAccepted_granted_cons]
      by_cases hid : id' = id
      · subst hid
        rw [if_pos rfl, if_pos rfl]
        cases r.find? id' <;> rfl
      · rw [if_neg hid, if_neg hid]

theorem find?_ensureBuiltin (rs : Registries) (t : ValueType) (k : StrategyKey) :
    (rs.ensureBuiltin t).find? k = (rs.find? k).or (firstAccepted k (rs.attempts (rs.missing t))) := by
  obtain ⟨t', id⟩ := k
  rw [attempts_missing]
  by_cases ht : t = t'
  · subst ht
    have hensure : (rs.registryD t).ensureBuiltin =
        (Strategy.builtin t).foldl (fun r x => r.ensure x.1 x.2) (rs.registryD t) := rfl
    rw [ensureBuiltin, find?_put, hensure, find?_ensureAll, missing,
      firstAccepted_granted_filter fun id => !rs.isRegistered t id, isRegistered_eq]
    change (rs.find? ⟨t, id⟩).or _ = _
    cases rs.find? ⟨t, id⟩ <;> rfl
  · rw [firstAccepted_granted_of_ne ht, Option.or_none]
    exact find?_put_of_ne _ ht

/-! ## Types with a registry -/

theorem known_put (r : Registry t) : (rs.put r).Known t' ↔ t = t' ∨ rs.Known t' := by
  by_cases ht : t = t'
  · subst ht
    simp [Known, put]
  · rw [Known, byType_put_of_ne r ht, or_iff_right ht, Known]

theorem touch_of_known (h : rs.Known t) : rs.touch t = rs := by
  obtain ⟨r, hr⟩ := Option.ne_none_iff_exists'.mp h
  rw [touch, put, registryD, hr, Option.getD_some, Dict.insert_of_find? hr]

/-- A failed registration has found the id taken, and changes nothing. -/
theorem register_failed (h : (rs.register id s).2 ≠ .ok ()) : (rs.register id s).1 = rs := by
  obtain ⟨hold, heq⟩ | ⟨-, heq⟩ := rs.register_cases id s
  · rw [heq]
    exact touch_of_known (known_of_find? hold)
  · rw [heq] at h
    exact absurd rfl h

theorem register_put (rs : Registries) (id : UInt32) (s : Strategy t) :
    ∃ r : Registry t, (rs.register id s).1 = rs.put r := by
  obtain ⟨-, heq⟩ | ⟨-, heq⟩ := rs.register_cases id s
  · exact ⟨_, congrArg Prod.fst heq⟩
  · exact ⟨_, congrArg Prod.fst heq⟩

theorem known_registerAll : ∀ (x : UInt32 × Strategy t) (xs : List (UInt32 × Strategy t)) (rs : Registries),
    (rs.registerAll (x :: xs)).1.Known t' ↔ t = t' ∨ rs.Known t'
  | (id, s), xs, rs => by
      unfold registerAll
      obtain ⟨-, heq⟩ | ⟨-, heq⟩ := rs.register_cases id s
      · rw [heq]
        exact known_put _
      · rw [heq]
        cases xs with
        | nil => exact known_put _
        | cons y ys =>
            refine (known_registerAll y ys _).trans ?_
            rw [known_put, ← or_assoc, or_self]

theorem byType_registerAll_of_ne (h : t ≠ t') : ∀ (xs : List (UInt32 × Strategy t)) (rs : Registries),
    (rs.registerAll xs).1.byType.find? t' = rs.byType.find? t'
  | [], _ => rfl
  | (id, s) :: xs, rs => by
      unfold registerAll
      obtain ⟨-, heq⟩ | ⟨-, heq⟩ := rs.register_cases id s
      · rw [heq]
        exact byType_put_of_ne _ h
      · rw [heq]
        exact (byType_registerAll_of_ne h xs _).trans (byType_put_of_ne _ h)

/-! ## Calls -/

theorem find?_register (rs : Registries) (id : UInt32) (s : Strategy t) (k : StrategyKey) :
    (rs.register id s).1.find? k = (rs.find? k).or (firstAccepted k (rs.attempts [(id, s)])) := by
  have hall : (rs.registerAll [(id, s)]).1 = (rs.register id s).1 := by
    obtain ⟨-, heq⟩ | ⟨-, heq⟩ := rs.register_cases id s
    · rw [registerAll, heq]
    · rw [registerAll, heq]
      rfl
  rw [← hall, find?_registerAll]

theorem find?_call (rs : Registries) (c : Call) (k : StrategyKey) :
    (rs.call c).1.find? k = (rs.find? k).or (firstAccepted k (rs.attemptsOf c)) := by
  cases c with
  | register id s => exact rs.find?_register id s k
  | registerComponent id field mode => exact rs.find?_register id (.component _ field mode) k
  | registerBuiltin t => exact find?_registerAll (Strategy.builtin t) rs k
  | ensureBuiltin t => exact find?_ensureBuiltin rs t k
  | touch t => exact (find?_touch rs t k).trans (Option.or_none).symm

theorem attemptsOf_verdict (rs : Registries) (c : Call) :
    Verdicts StrategyKey.Verdict rs.find? (rs.attemptsOf c) := by
  cases c with
  | touch t => exact .nil
  | _ => exact attempts_verdict _ rs

theorem known_call (rs : Registries) (c : Call) (t : ValueType) :
    (rs.call c).1.Known t ↔ c.type = t ∨ rs.Known t := by
  cases c with
  | register id s =>
      obtain ⟨r, hr⟩ := rs.register_put id s
      rw [call, hr]
      exact known_put r
  | registerComponent id field mode =>
      obtain ⟨r, hr⟩ := rs.register_put id (.component _ field mode)
      rw [call, registerComponent, hr]
      exact known_put r
  | registerBuiltin t' => exact known_registerAll _ _ rs
  | ensureBuiltin t' => exact known_put _
  | touch t' => exact known_put _

theorem byType_call_of_ne {c : Call} (h : c.type ≠ t) : (rs.call c).1.byType.find? t = rs.byType.find? t := by
  cases c with
  | register id s =>
      obtain ⟨r, hr⟩ := rs.register_put id s
      rw [call, hr]
      exact byType_put_of_ne r h
  | registerComponent id field mode =>
      obtain ⟨r, hr⟩ := rs.register_put id (.component _ field mode)
      rw [call, registerComponent, hr]
      exact byType_put_of_ne r h
  | registerBuiltin t' => exact byType_registerAll_of_ne h _ rs
  | ensureBuiltin t' => exact byType_put_of_ne _ h
  | touch t' => exact byType_put_of_ne _ h

theorem find?_afterCalls : ∀ (calls : List Call) (rs : Registries) (k : StrategyKey),
    (rs.afterCalls calls).find? k = (rs.find? k).or (firstAccepted k (rs.history calls))
  | [], _, _ => (Option.or_none).symm
  | c :: calls, rs, k => by
      rw [afterCalls, history, find?_afterCalls calls, find?_call, firstAccepted_append, Option.or_assoc]

theorem history_verdict : ∀ (calls : List Call) (rs : Registries),
    Verdicts StrategyKey.Verdict rs.find? (rs.history calls)
  | [], _ => .nil
  | c :: calls, rs => (rs.attemptsOf_verdict c).append (rs.find?_call c) (history_verdict calls (rs.call c).1)

theorem known_afterCalls : ∀ (calls : List Call) (rs : Registries) (t : ValueType),
    (rs.afterCalls calls).Known t ↔ rs.Known t ∨ ∃ c ∈ calls, c.type = t
  | [], rs, t => by simp [afterCalls]
  | c :: calls, rs, t => by
      rw [afterCalls, known_afterCalls calls, known_call, or_comm (a := c.type = t), or_assoc]
      simp only [List.mem_cons, exists_eq_or_imp]

/-! ## The library's strategies where they are missing -/

theorem ensureBuiltin_strategy (rs : Registries) (t : ValueType) (id : UInt32) (s : Strategy t) :
    (rs.ensureBuiltin t).strategy t id = .ok s ↔
      rs.strategy t id = .ok s ∨ rs.isRegistered t id = false ∧ (id, s) ∈ Strategy.builtin t := by
  rw [strategy_eq_ok, strategy_eq_ok, find?_ensureBuiltin, attempts_missing, missing,
    firstAccepted_granted_filter fun id => !rs.isRegistered t id, isRegistered_eq]
  cases rs.find? ⟨t, id⟩ with
  | none => simp [firstAccepted_granted_eq_some (nodup_builtin t)]
  | some old => simp

end Registries

theorem Registry.ensure_of_contains {t : ValueType} {r : Registry t} {id : UInt32} (h : r.contains id)
    (s : Strategy t) : r.ensure id s = r := by
  rw [ensure, if_pos h]

theorem Registry.contains_ensure {t : ValueType} (r : Registry t) (id id' : UInt32) (s : Strategy t) :
    (r.ensure id s).contains id' = (r.contains id' || id == id') := by
  rw [Dict.contains, find?_ensure, Dict.contains]
  by_cases h : id = id'
  · simp [h]
  · simp [h]

theorem Registry.ensureBuiltin_ensureBuiltin {t : ValueType} (r : Registry t) :
    r.ensureBuiltin.ensureBuiltin = r.ensureBuiltin := by
  have hall : r.ensureBuiltin.contains Variable.constantId ∧ r.ensureBuiltin.contains Variable.blackboardId ∧
      r.ensureBuiltin.contains Variable.nodeId := by simp [ensureBuiltin, contains_ensure]
  obtain ⟨hconst, hboard, hnode⟩ := hall
  rw [ensureBuiltin.eq_def r.ensureBuiltin, ensure_of_contains hconst, ensure_of_contains hboard,
    ensure_of_contains hnode]

theorem Registries.ensureBuiltin_ensureBuiltin (rs : Registries) (t : ValueType) :
    (rs.ensureBuiltin t).ensureBuiltin t = rs.ensureBuiltin t := by
  have hfind : (rs.ensureBuiltin t).byType.find? t = some (rs.registryD t).ensureBuiltin :=
    Dict.find?_insert_self _ _ _
  rw [ensureBuiltin.eq_def (rs.ensureBuiltin t), ensureBuiltin, registryD_put, ← ensureBuiltin,
    Registry.ensureBuiltin_ensureBuiltin, put, Dict.insert_of_find? hfind]

namespace Registries

/-- The registries are maps in which the first strategy stays, whatever calls filled them and however many of
them failed. A single registration fails exactly if its id is taken for its type, and changes nothing then.
Every type and id finds the strategy that was first accepted, whatever happens to other types. The strategies of
the library are added where they are missing, once. A handle is not resolved exactly if no call named its type,
or if some did and none registered its id. -/
theorem first_strategy_stays (calls : List Call) :
    let rs := empty.afterCalls calls
    let past := empty.history calls
    (∀ (n : Nat) (a : Attempt StrategyKey fun k => Strategy k.type), past[n]? = some a →
      a.key.Verdict (firstAccepted a.key (past.take n)) a.answer) ∧
    (∀ (t : ValueType) (id : UInt32),
      (∀ s : Strategy t, StrategyKey.Verdict ⟨t, id⟩ (firstAccepted ⟨t, id⟩ past) (rs.register id s).2 ∧
        ((rs.register id s).2 ≠ .ok () → (rs.register id s).1 = rs)) ∧
      (∀ s, rs.strategy t id = .ok s ↔ firstAccepted ⟨t, id⟩ past = some s) ∧
      rs.isRegistered t id = (firstAccepted ⟨t, id⟩ past).isSome ∧
      (∀ c : Call, c.type ≠ t → (rs.call c).1.strategy t id = rs.strategy t id) ∧
      ∀ s, (rs.ensureBuiltin t).strategy t id = .ok s ↔
        rs.strategy t id = .ok s ∨ rs.isRegistered t id = false ∧ (id, s) ∈ Strategy.builtin t) ∧
    (∀ t, (rs.ensureBuiltin t).ensureBuiltin t = rs.ensureBuiltin t) ∧
    ∀ (v : Variable) (t : ValueType),
      v.Lookups rs t (∃ c ∈ calls, c.type = t) (firstAccepted ⟨t, v.id⟩ past) := by
  have hfind (k : StrategyKey) : (empty.afterCalls calls).find? k = firstAccepted k (empty.history calls) := by
    rw [find?_afterCalls]
    rfl
  have hknown (t : ValueType) : (empty.afterCalls calls).Known t = ∃ c ∈ calls, c.type = t := by
    rw [known_afterCalls]
    exact propext (or_iff_right fun h => h rfl)
  refine ⟨fun n a ha => ?_, fun t id => ⟨fun s => ?_, fun s => ?_, ?_, fun c hc => ?_, fun s => ?_⟩, fun t => ?_,
    fun v t => ?_⟩
  · exact history_verdict calls empty n a ha
  · rw [← hfind]
    exact ⟨register_verdict _ id s, register_failed⟩
  · rw [← hfind, strategy_eq_ok]
  · rw [← hfind, isRegistered_eq]
  · exact strategy_congr (byType_call_of_ne hc) id
  · exact ensureBuiltin_strategy _ t id s
  · exact ensureBuiltin_ensureBuiltin _ t
  · rw [← hfind, ← hknown]
    exact v.lookups _ t

end Registries

end BehaviorTree
