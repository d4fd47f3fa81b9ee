import BehaviorTree.Library

/-! # Lookups in a machine after registrations -/

namespace BehaviorTree

namespace Machine

variable {m m' : Machine} {id : TypeId} {bh : Behavior}

theorem join_grow (table : Array (Option Behavior)) (slot k : Nat) :
    (grow table slot)[k]?.join = table[k]?.join := by
  unfold grow
  rw [Array.getElem?_append]
  split
  · rfl
  · rename_i hk
    rw [Array.getElem?_eq_none (Nat.le_of_not_lt hk), Array.getElem?_replicate]
    split <;> rfl

theorem lt_size_grow (table : Array (Option Behavior)) (slot : Nat) : slot < (grow table slot).size := by
  unfold grow
  rw [Array.size_append, Array.size_replicate]
  omega

theorem behavior?_register (h : m.register id bh = .ok m') (id' : TypeId) :
    m'.behavior? id' = if id' = id then some bh else m.behavior? id' := by
  unfold register at h
  split at h
  · cases h
  · split at h
    · cases h
    · cases h
      simp only [behavior?, Array.getElem?_setIfInBounds]
      by_cases hid : id.val.toNat = id'.val.toNat
      · have hsame : id' = id := by
          obtain ⟨v⟩ := id
          obtain ⟨v'⟩ := id'
          exact congrArg TypeId.mk (UInt32.toNat_inj.mp hid).symm
        rw [if_pos hid, if_pos (lt_size_grow _ _), if_pos hsame]
        rfl
      · have hne : id' ≠ id := fun h => hid (by rw [h])
        rw [if_neg hid, if_neg hne, join_grow]

theorem registries_register (h : m.register id bh = .ok m') : m'.registries = m.registries := by
  unfold register at h
  split at h
  · cases h
  · split at h
    · cases h
    · cases h
      rfl

theorem behavior?_of_register (h : m.register id bh = .ok m') {id' : TypeId} {bh' : Behavior}
    (hold : m.behavior? id' = some bh') : m'.behavior? id' = some bh' := by
  rw [behavior?_register h, if_neg, hold]
  rintro rfl
  unfold register at h
  rw [hold] at h
  split at h <;> cases h

/-- A registration of several behaviors that succeeds finds them all and loses none. -/
theorem registerAll_ok : ∀ {xs : List (TypeId × Behavior)} {m m' : Machine}, m.registerAll xs = (m', .ok ()) →
    (∀ x ∈ xs, m'.behavior? x.1 = some x.2) ∧
      (∀ id bh, m.behavior? id = some bh → m'.behavior? id = some bh) ∧ m'.registries = m.registries
  | [], m, m', h => by
      cases h
      exact ⟨fun _ hx => absurd hx List.not_mem_nil, fun _ _ h => h, rfl⟩
  | (id, bh) :: rest, m, m', h => by
      unfold registerAll at h
      cases hr : m.register id bh with
      | error e =>
          rw [hr] at h
          cases h
      | ok m₁ =>
          rw [hr] at h
          obtain ⟨hrest, hold, hreg⟩ := registerAll_ok h
          refine ⟨List.forall_mem_cons.mpr ⟨hold id bh ?_, hrest⟩,
            fun id' bh' h' => hold id' bh' (behavior?_of_register hr h'), hreg.trans (registries_register hr)⟩
          rw [behavior?_register hr, if_pos rfl]

/-- What holds of the behaviors of a machine holds after registrations of such behaviors. -/
theorem registerAll_induction {P : Behavior → Prop} : ∀ {xs : List (TypeId × Behavior)} {m : Machine},
    (∀ id bh, m.behavior? id = some bh → P bh) → (∀ x ∈ xs, P x.2) →
    ∀ id bh, (m.registerAll xs).1.behavior? id = some bh → P bh
  | [], _, hm, _ => hm
  | (id, bh) :: rest, m, hm, hxs => by
      rw [List.forall_mem_cons] at hxs
      unfold registerAll
      cases hr : m.register id bh with
      | error e => exact hm
      | ok m' =>
          refine registerAll_induction (fun id' bh' h => ?_) hxs.2
          rw [behavior?_register hr] at h
          split at h
          · cases h
            exact hxs.1
          · exact hm id' bh' h

theorem registerLibrary_induction {P : Behavior → Prop} (hm : ∀ id bh, m.behavior? id = some bh → P bh)
    (hlib : ∀ x ∈ Library.behaviors, P x.2) : ∀ id bh, m.registerLibrary.1.behavior? id = some bh → P bh := by
  have hall := registerAll_induction hm hlib
  unfold registerLibrary
  split
  · rename_i heq
    rw [heq] at hall
    exact hall
  · rename_i heq
    rw [heq] at hall
    exact hall

theorem behavior?_empty : empty.behavior? id = none := by simp [behavior?, empty]

theorem behaviorAt_eq_ok {b : Blob} {i : Nat} (h : m.behaviorAt b i = .ok bh) :
    ∃ id, b.typeOf i = .ok id ∧ m.behavior? id = some bh := by
  unfold behaviorAt at h
  split at h
  · cases h
  · cases hid : b.typeOf i with
    | error e => rw [hid] at h; cases h
    | ok id =>
        rw [hid] at h
        cases hb : m.behavior? id with
        | none => simp [bind, Except.bind, hb, Checked.fail] at h
        | some bh' =>
            simp only [bind, Except.bind, hb] at h
            cases h
            exact ⟨id, rfl, hb⟩

theorem lt_of_behaviorAt {b : Blob} {i : Nat} (h : m.behaviorAt b i = .ok bh) : i < b.size := by
  refine Nat.lt_of_not_le fun hle => ?_
  rw [behaviorAt, if_pos hle] at h
  cases h

end Machine

end BehaviorTree
