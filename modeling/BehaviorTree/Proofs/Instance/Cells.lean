import BehaviorTree.Proofs.Instance.Frame

/-!
# The cells of an instance in pre-order

A subtree is a run of consecutive cells, so what an operation does to it is a change in the middle of the
list.
-/

namespace BehaviorTree

def Cell.clear (c : Cell) : Cell := { c with state := none }

namespace Instance

variable {b : Blob} {s s' : Instance b} {c c' : Cell} {cs l r : List Cell} {i : Nat}

def cells (s : Instance b) : List Cell := (List.range b.size).map s.cell

@[simp] theorem length_cells (s : Instance b) : s.cells.length = b.size := by
  simp [cells]

theorem getElem?_cells (s : Instance b) (hi : i < b.size) : s.cells[i]? = some (s.cell i) := by
  simp [cells, hi]

theorem getElem?_cells_of_le (s : Instance b) (hi : b.size ≤ i) : s.cells[i]? = none := by
  simp [cells, hi]

theorem lt_of_cells (h : s.cells = l ++ (c :: r)) : l.length < b.size := by
  have hlen := congrArg List.length h
  simp only [length_cells, List.length_append, List.length_cons] at hlen
  omega

theorem cell_of_cells (h : s.cells = l ++ (c :: r)) : s.cell l.length = c := by
  have hat := s.getElem?_cells (lt_of_cells h)
  rw [h, List.getElem?_append_right (Nat.le_refl _), Nat.sub_self, List.getElem?_cons_zero] at hat
  exact (Option.some.inj hat).symm

theorem cells_eq_of (hlen : cs.length = b.size) (h : ∀ j < b.size, cs[j]? = some (s.cell j)) :
    s.cells = cs := by
  apply List.ext_getElem?
  intro j
  rcases Nat.lt_or_ge j b.size with hj | hj
  · rw [s.getElem?_cells hj, h j hj]
  · rw [s.getElem?_cells_of_le hj, List.getElem?_eq_none (by omega)]

/-- A new cell for one node is a new cell at its place. -/
theorem Sets.cells_eq (h : s.cells = l ++ (c :: r)) (hset : s.Sets l.length c' s') :
    s'.cells = l ++ (c' :: r) := by
  have hs' : s'.cells = s.cells.set l.length c' := by
    apply cells_eq_of (by simp)
    intro j hj
    rw [List.getElem?_set]
    split
    · rename_i hl
      rw [if_pos (by simpa using lt_of_cells h), ← hl, hset.self]
    · rename_i hl
      rw [s.getElem?_cells hj, hset.other j (Ne.symm hl)]
  rw [hs', h, List.set_append_right _ _ (Nat.le_refl _), Nat.sub_self, List.set_cons_zero]

theorem Clears.cells_eq (h : s.cells = l ++ (cs ++ r))
    (hc : s.Clears l.length (l.length + cs.length) s') : s'.cells = l ++ (cs.map Cell.clear ++ r) := by
  have hlen := congrArg List.length h
  simp only [length_cells, List.length_append] at hlen
  apply cells_eq_of (by simp; omega)
  intro j hj
  have hat := s.getElem?_cells hj
  rw [h] at hat
  by_cases hlo : j < l.length
  · rw [List.getElem?_append_left hlo] at hat ⊢
    rw [hat, hc.outside j (by omega)]
  · rw [List.getElem?_append_right (by omega)] at hat ⊢
    by_cases hhi : j < l.length + cs.length
    · rw [List.getElem?_append_left (by omega)] at hat
      rw [List.getElem?_append_left (by rw [List.length_map]; omega), List.getElem?_map, hat,
        hc.inside j (by omega) hhi]
      rfl
    · rw [List.getElem?_append_right (by omega)] at hat
      rw [List.getElem?_append_right (by rw [List.length_map]; omega), List.length_map, hat,
        hc.outside j (by omega)]

end Instance

end BehaviorTree
