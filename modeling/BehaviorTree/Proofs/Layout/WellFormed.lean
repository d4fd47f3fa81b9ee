import BehaviorTree.Blob.Layout
import BehaviorTree.Proofs.Checked

/-!
# Well-formed layouts

What a valid layout says about its numbers, and conversely: `validate` accepts exactly the well-formed
layouts.
-/

namespace BehaviorTree

namespace Layout

variable {l : Layout}

def stop (l : Layout) (i : Nat) : Nat := (l.ends.getD i 0).toNat

def offset (l : Layout) (i : Nat) : Nat := (l.offsets.getD i 0).toNat

def extent (l : Layout) (i : Nat) : Nat := (l.sizes.getD i 0).toNat

theorem endOf_eq {i : Nat} (h : i < l.ends.size) : l.endOf i = .ok (l.stop i) := by
  simp [endOf, stop, h]

theorem offsetOf_eq {i : Nat} (h : i < l.offsets.size) : l.offsetOf i = .ok (l.offset i) := by
  simp [offsetOf, offset, h]

theorem sizeOf_eq {i : Nat} (h : i < l.sizes.size) : l.sizeOf i = .ok (l.extent i) := by
  simp [sizeOf, extent, h]

/-- The subtrees of `cs` follow one another from `lo` to `hi`. -/
def Tiles (l : Layout) (hi : Nat) : Nat → List Nat → Prop
  | lo, [] => lo = hi
  | lo, c :: cs => c = lo ∧ lo < l.stop lo ∧ l.stop lo ≤ hi ∧ Tiles l hi (l.stop lo) cs

/-- The numbers of a pre-order layout. -/
structure WellFormed (l : Layout) : Prop where
  size_pos : 0 < l.size
  ends_size : l.ends.size = l.size
  offsets_size : l.offsets.size = l.size
  sizes_size : l.sizes.size = l.size
  stop_root : l.stop 0 = l.size
  lt_stop : ∀ i < l.size, i < l.stop i
  stop_le : ∀ i < l.size, l.stop i ≤ l.size
  aligned : ∀ i < l.size, l.offset i % dataAlign = 0
  within : ∀ i < l.size, l.offset i + l.extent i ≤ l.regionSize
  ordered : ∀ i, i + 1 < l.size → l.offset i + l.extent i ≤ l.offset (i + 1)
  tiled : ∀ i < l.size, ∃ cs, l.Tiles (l.stop i) (i + 1) cs

theorem checkTiling_eq_ok_iff (hends : l.ends.size = l.size) {parent hi : Nat} (hhi : hi ≤ l.size) :
    ∀ {room lo : Nat}, lo ≤ hi → hi ≤ lo + room →
      (l.checkTiling parent hi room lo = .ok () ↔ ∃ cs, l.Tiles hi lo cs)
  | 0, lo, hle, hroom => by
      have : lo = hi := by omega
      simp only [checkTiling, true_iff]
      exact ⟨[], this⟩
  | room + 1, lo, hle, hroom => by
      rw [checkTiling]
      by_cases hlt : lo < hi
      · rw [if_pos hlt, endOf_eq (by omega), Checked.ok_bind]
        by_cases hbad : l.stop lo ≤ lo ∨ hi < l.stop lo
        · simp only [hbad, ↓reduceIte, Checked.throw_eq, Checked.error_bind, reduceCtorEq, false_iff]
          rintro ⟨_ | ⟨c, cs⟩, h⟩
          · exact absurd h (by simp only [Tiles]; omega)
          · obtain ⟨-, h₁, h₂, -⟩ := h
            omega
        · simp only [hbad, ↓reduceIte]
          rw [checkTiling_eq_ok_iff hends hhi (by omega) (by omega)]
          constructor
          · rintro ⟨cs, h⟩
            exact ⟨lo :: cs, rfl, by omega, by omega, h⟩
          · rintro ⟨_ | ⟨c, cs⟩, h⟩
            · exact absurd h (by simp only [Tiles]; omega)
            · exact ⟨cs, h.2.2.2⟩
      · rw [if_neg hlt]
        simp only [true_iff]
        exact ⟨[], by simp only [Tiles]; omega⟩

theorem checkSpan_eq_ok_iff (hoffsets : l.offsets.size = l.size) (hsizes : l.sizes.size = l.size)
    {i : Nat} (hi : i < l.size) : l.checkSpan i = .ok () ↔
      l.offset i % dataAlign = 0 ∧ l.offset i + l.extent i ≤ l.regionSize ∧
        (i + 1 < l.size → l.offset i + l.extent i ≤ l.offset (i + 1)) := by
  rw [checkSpan, offsetOf_eq (by omega), sizeOf_eq (by omega)]
  simp only [Checked.ok_bind]
  by_cases h₁ : l.offset i % dataAlign = 0
  · by_cases h₂ : l.regionSize < l.offset i + l.extent i
    · have hpast : ¬ l.offset i + l.extent i ≤ l.regionSize := by omega
      simp [h₁, h₂, hpast]
    · by_cases h₃ : i + 1 < l.size
      · rw [offsetOf_eq (by omega)]
        by_cases h₄ : l.offset (i + 1) < l.offset i + l.extent i
        · simp [h₁, h₂, h₃, h₄, hoffsets]
        · simp [h₁, h₂, h₃, h₄, hoffsets]
          omega
      · simp [h₁, h₂, h₃, hoffsets]
        omega
  · simp [h₁]

theorem checkNode_eq_ok_iff (hends : l.ends.size = l.size) {i : Nat} (hi : i < l.size) :
    l.checkNode i = .ok () ↔ i < l.stop i ∧ l.stop i ≤ l.size ∧ l.checkSpan i = .ok () ∧
      ∃ cs, l.Tiles (l.stop i) (i + 1) cs := by
  rw [checkNode, endOf_eq (by omega), Checked.ok_bind]
  by_cases hbad : l.stop i ≤ i ∨ l.size < l.stop i
  · simp only [hbad, ↓reduceIte, Checked.throw_eq, Checked.error_bind, reduceCtorEq, false_iff]
    omega
  · simp only [hbad, ↓reduceIte, Checked.bind_unit_eq_ok]
    rw [checkTiling_eq_ok_iff hends (by omega) (by omega) (by omega)]
    exact ⟨fun h => ⟨by omega, by omega, h⟩, fun h => h.2.2⟩

theorem validate_eq_ok_iff : l.validate = .ok () ↔ l.WellFormed := by
  rw [validate]
  by_cases hpos : l.size = 0
  · simp only [hpos, ↓reduceIte, Checked.throw_eq, Checked.error_bind, reduceCtorEq, false_iff]
    intro h
    exact absurd h.size_pos (by omega)
  by_cases hsizes : l.ends.size ≠ l.size ∨ l.offsets.size ≠ l.size ∨ l.sizes.size ≠ l.size
  · simp only [hpos, hsizes, ↓reduceIte, Checked.throw_eq, Checked.error_bind, reduceCtorEq, false_iff]
    intro h
    simp [h.ends_size, h.offsets_size, h.sizes_size] at hsizes
  have hends : l.ends.size = l.size := by omega
  have hoffs : l.offsets.size = l.size := by omega
  have hexts : l.sizes.size = l.size := by omega
  simp only [hpos, hsizes, ↓reduceIte]
  rw [endOf_eq (by omega), Checked.ok_bind]
  by_cases hroot : l.stop 0 = l.size
  · simp only [hroot, ne_eq, not_true_eq_false, ↓reduceIte, Checked.forM_eq_ok, List.mem_range]
    constructor
    · intro h
      have hnode := fun i hi => (checkNode_eq_ok_iff hends hi).mp (h i hi)
      have hspan := fun i hi => (checkSpan_eq_ok_iff hoffs hexts hi).mp (hnode i hi).2.2.1
      exact {
        size_pos := by omega
        ends_size := hends
        offsets_size := hoffs
        sizes_size := hexts
        stop_root := hroot
        lt_stop := fun i hi => (hnode i hi).1
        stop_le := fun i hi => (hnode i hi).2.1
        aligned := fun i hi => (hspan i hi).1
        within := fun i hi => (hspan i hi).2.1
        ordered := fun i hi => (hspan i (by omega)).2.2 hi
        tiled := fun i hi => (hnode i hi).2.2.2 }
    · intro h i hi
      rw [checkNode_eq_ok_iff hends hi, checkSpan_eq_ok_iff hoffs hexts hi]
      exact ⟨h.lt_stop i hi, h.stop_le i hi, ⟨h.aligned i hi, h.within i hi, h.ordered i⟩, h.tiled i hi⟩
  · simp only [hroot, ne_eq, not_false_eq_true, ↓reduceIte, Checked.throw_eq, Checked.error_bind,
      reduceCtorEq, false_iff]
    intro h
    exact hroot h.stop_root

end Layout

theorem Blob.wellFormed (b : Blob) : b.WellFormed := Layout.validate_eq_ok_iff.mp b.valid

end BehaviorTree
