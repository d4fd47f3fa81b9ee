import BehaviorTree.Proofs.Access
import BehaviorTree.Proofs.Library.Twins
import BehaviorTree.Proofs.Machine.Table
import BehaviorTree.Proofs.Trace.Matches

/-!
# What the component access of a tree tells

Where the components of a tree can be listed, every node has a behavior, and every timer a head whose
handles have strategies. The list has the components of all of them.
-/

namespace BehaviorTree

open Library

/-! ## Nodes -/

/-- Every step of a fold that succeeds has succeeded, and what each one leaves is not lost. -/
theorem Checked.foldlM_eq_ok {α β : Type} {f : β → α → Checked β} (r : β → β → Prop) (refl : ∀ c, r c c)
    (trans : ∀ {c d e}, r c d → r d e → r c e) (step : ∀ c x d, f c x = .ok d → r c d) :
    ∀ {xs : List α} {c e : β}, xs.foldlM f c = .ok e → r c e ∧ ∀ x ∈ xs, ∃ d d', f d x = .ok d' ∧ r d' e
  | [], c, e, h => by
      cases h
      exact ⟨refl c, fun _ hx => absurd hx List.not_mem_nil⟩
  | x :: xs, c, e, h => by
      rw [List.foldlM_cons] at h
      obtain ⟨d, hd, h⟩ := Checked.bind_eq_ok.mp h
      obtain ⟨hle, hall⟩ := foldlM_eq_ok r refl trans step h
      exact ⟨trans (step c x d hd) hle, List.forall_mem_cons.mpr ⟨⟨c, d, hd, hle⟩, hall⟩⟩

variable {b : Blob} {m : Machine} {i : Nat} {l : AccessList}

namespace Machine

theorem addAccess_eq_ok {l' : AccessList} (h : m.addAccess b l i = .ok l') : ∃ bh, m.behaviorAt b i = .ok bh ∧
    (∀ c, l.Lists c → l'.Lists c) ∧ ∀ access, bh.access = some access →
      ∃ own, access m.registries b i = .ok own ∧ ∀ c, own.Lists c → l'.Lists c := by
  unfold addAccess at h
  obtain ⟨bh, hbh, h⟩ := Checked.bind_eq_ok.mp h
  refine ⟨bh, hbh, ?_⟩
  split at h
  · rename_i hnone
    cases h
    exact ⟨fun _ => id, fun access hsome => by cases hnone.symm.trans hsome⟩
  · rename_i access haccess
    obtain ⟨own, hown, h⟩ := Checked.bind_eq_ok.mp h
    cases h
    refine ⟨fun c hc => AccessList.lists_merge.mpr (.inl hc), fun access' hsome => ?_⟩
    cases haccess.symm.trans hsome
    exact ⟨own, hown, fun c hc => AccessList.lists_merge.mpr (.inr hc)⟩

theorem componentAccess_eq_ok (h : m.componentAccess b = .ok l) (hi : i < b.size) :
    ∃ bh, m.behaviorAt b i = .ok bh ∧ ∀ access, bh.access = some access →
      ∃ own, access m.registries b i = .ok own ∧ ∀ c, own.Lists c → l.Lists c := by
  obtain ⟨-, hall⟩ := Checked.foldlM_eq_ok (fun l l' => ∀ c, AccessList.Lists l c → AccessList.Lists l' c)
    (fun _ _ => id) (fun h h' c hc => h' c (h c hc))
    (fun l i l' hl => (addAccess_eq_ok hl).choose_spec.2.1) h
  obtain ⟨l₁, l₂, hstep, hle⟩ := hall i (List.mem_range.mpr hi)
  obtain ⟨bh, hbh, -, haccess⟩ := addAccess_eq_ok hstep
  refine ⟨bh, hbh, fun access hsome => ?_⟩
  obtain ⟨own, hown, hlists⟩ := haccess access hsome
  exact ⟨own, hown, fun c hc => hle c (hlists c hc)⟩

end Machine

/-! ## Timers -/

theorem Blob.defaultValue_eq_ok (hi : i < b.size) {t : ValueType} {v : t.Value}
    (h : b.defaultValue t i = .ok v) : t.size ≤ b.extent i ∧ window (b.defaults i) 0 t.size = v.1 := by
  rw [Layout.defaultValue, Blob.sizeOf_eq hi, Checked.ok_bind] at h
  split at h
  · cases h
  split at h
  · cases h
  rename_i hle
  rw [Blob.offsetOf_eq hi, Checked.ok_bind, Layout.slice] at h
  split at h
  · cases h
    refine ⟨Nat.le_of_not_lt hle, ?_⟩
    apply List.ext_getElem?
    intro k
    rw [getElem?_window, Nat.zero_add, Blob.defaults, List.getElem?_map, List.getElem?_map]
    split
    · rename_i hk
      rw [List.getElem?_range' (by omega), List.getElem?_range' hk]
    · rename_i hk
      rw [List.getElem?_eq_none (by rw [List.length_range']; omega), Option.map_none]
  · cases h

/-- The strategy of a handle is known, and its components are among those of `l`. -/
def Variable.Declared (v : Variable) (rs : Registries) (l : AccessList) : Prop :=
  ∃ st, rs.strategy PlainData.f32.type v.id = .ok st ∧ ∀ c, st.access.Lists c → l.Lists c

theorem Variable.Declared.of_access {v : Variable} {rs : Registries} {own : AccessList}
    (h : Checked.ofExcept (v.access rs PlainData.f32.type) = .ok own) (hown : ∀ c, own.Lists c → l.Lists c) :
    v.Declared rs l := by
  unfold Variable.access at h
  cases hst : rs.strategy PlainData.f32.type v.id with
  | error e =>
      rw [hst] at h
      cases h
  | ok st =>
      rw [hst] at h
      cases h
      exact ⟨st, hst, hown⟩

/-- Blackboards that match on all components the variable can touch are the same to it. -/
theorem Variable.read_of_matches {E : List TraceEvent → List TraceEvent → Prop} {T : ValueType → Prop}
    {bb bb' : Blackboard} (h : bb.Matches E T bb') {v : Variable} {rs : Registries}
    (hv : ∀ st, rs.strategy PlainData.f32.type v.id = .ok st → ∀ c, st.access.Lists c → T c) (i : Nat)
    (s : Instance b) : v.read rs PlainData.f32.type i s bb' = v.read rs PlainData.f32.type i s bb := by
  unfold Variable.read
  cases hst : rs.strategy PlainData.f32.type v.id with
  | error e => rfl
  | ok st =>
      rw [Checked.ofExcept_ok, Checked.ok_bind, Checked.ok_bind]
      cases st with
      | constant => rfl
      | blackboard => simp only [Strategy.read, h.get_eq (t := .plain PlainData.f32.type) (by simp)]
      | node => rfl
      | component c field mode =>
          have hc : T c := hv _ hst c (AccessList.lists_ofList.mpr (List.mem_singleton.mpr rfl))
          simp only [Strategy.read, h.component c hc]

theorem Library.delayAccess_eq_ok {rs : Registries} (hi : i < b.size) {own : AccessList}
    (h : delayAccess rs b i = .ok own) (hown : ∀ c, own.Lists c → l.Lists c) :
    PlainData.delayData.type.size ≤ b.extent i ∧ ∀ v ∈ delayHandles (b.defaults i), v.Declared rs l := by
  unfold delayAccess at h
  obtain ⟨head, hhead, h⟩ := Checked.bind_eq_ok.mp h
  obtain ⟨hle, hwin⟩ := Blob.defaultValue_eq_ok hi hhead
  obtain ⟨duration, hduration, h⟩ := Checked.bind_eq_ok.mp h
  obtain ⟨delta, hdelta, h⟩ := Checked.bind_eq_ok.mp h
  cases h
  rw [delayHandles_eq hwin, List.forall_mem_cons, List.forall_mem_singleton]
  exact ⟨hle, .of_access hduration fun c hc => hown c (AccessList.lists_merge.mpr (.inl hc)),
    .of_access hdelta fun c hc => hown c (AccessList.lists_merge.mpr (.inr hc))⟩

/-- A timer in a tree whose components are listed. -/
theorem Machine.timer_of_componentAccess (h : m.componentAccess b = .ok l) (hbh : m.behaviorAt b i = .ok delay) :
    PlainData.delayData.type.size ≤ b.extent i ∧
      ∀ v ∈ delayHandles (b.defaults i), v.Declared m.registries l := by
  have hi := lt_of_behaviorAt hbh
  obtain ⟨bh, hbh', haccess⟩ := componentAccess_eq_ok h hi
  cases hbh.symm.trans hbh'
  obtain ⟨own, hown, hlists⟩ := haccess delayAccess rfl
  exact delayAccess_eq_ok hi hown hlists

end BehaviorTree
