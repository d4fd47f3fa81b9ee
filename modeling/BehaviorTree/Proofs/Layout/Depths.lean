import BehaviorTree.Proofs.Layout.Children

/-!
# Depths

The pass over the nodes keeps the end indices of the subtrees that are still open, innermost first. Subtrees
are nested or disjoint, so these are the ends of the ancestors of the next node, in ascending order, and the
closed ones stand before the open ones.
-/

namespace BehaviorTree

theorem dropWhile_eq_filter {k : Nat} {xs : List Nat} (h : xs.Pairwise (· ≤ ·)) :
    xs.dropWhile (· ≤ k) = xs.filter (k < ·) := by
  induction xs with
  | nil => rfl
  | cons x xs ih =>
      obtain ⟨hx, hxs⟩ := List.pairwise_cons.mp h
      by_cases hk : x ≤ k
      · rw [List.dropWhile_cons_of_pos (by simpa using hk), List.filter_cons_of_neg (by simpa using hk), ih hxs]
      · have hall : ∀ y ∈ x :: xs, decide (k < y) = true := fun y hy => by
          rcases List.mem_cons.mp hy with rfl | hy
          · simpa using hk
          · have := hx y hy
            simp only [decide_eq_true_eq]
            omega
        rw [List.dropWhile_cons_of_neg (by simpa using hk), List.filter_eq_self.mpr hall]

namespace Blob

variable {b : Blob} {i j c : Nat}

/-- The nodes before `i` whose subtrees hold `i`, the latest first. -/
def ancestors (b : Blob) (i : Nat) : List Nat := (List.range i).reverse.filter fun j => i < b.stop j

/-- The number of nodes above node `i`. -/
def depth (b : Blob) (i : Nat) : Nat := (b.ancestors i).length

theorem mem_ancestors : j ∈ b.ancestors i ↔ j < i ∧ i < b.stop j := by
  simp [ancestors]

theorem depth_root (b : Blob) : b.depth 0 = 0 := rfl

/-- Above the next node are the node before it and the nodes above that, as far as their subtrees go on. -/
theorem ancestors_succ (b : Blob) (i : Nat) :
    b.ancestors (i + 1) = (i :: b.ancestors i).filter fun j => i + 1 < b.stop j := by
  have hfilter : (b.ancestors i).filter (fun j => i + 1 < b.stop j) =
      (List.range i).reverse.filter fun j => i + 1 < b.stop j := by
    rw [ancestors, List.filter_filter]
    refine List.filter_congr fun j _ => ?_
    simp only [Bool.and_eq_decide, decide_eq_decide]
    simp only [decide_eq_true_eq]
    omega
  rw [List.filter_cons, hfilter, ancestors, List.range_succ, List.reverse_append, List.reverse_singleton,
    List.singleton_append, List.filter_cons]

/-- The ends of the subtrees that hold node `i` ascend from the innermost to the outermost, and the subtree of
`i` ends no later. -/
theorem stops_pairwise (hi : i < b.size) : ((i :: b.ancestors i).map b.stop).Pairwise (· ≤ ·) := by
  have hdesc : (i :: b.ancestors i).Pairwise (· > ·) := by
    refine List.pairwise_cons.mpr ⟨fun j hj => (mem_ancestors.mp hj).1, ?_⟩
    exact (List.pairwise_reverse.mpr List.pairwise_lt_range).filter _
  have hopen : ∀ j ∈ i :: b.ancestors i, j ≤ i ∧ i < b.stop j := fun j hj => by
    rcases List.mem_cons.mp hj with rfl | hj
    · exact ⟨Nat.le_refl _, lt_stop hi⟩
    · obtain ⟨hlt, hstop⟩ := mem_ancestors.mp hj
      exact ⟨Nat.le_of_lt hlt, hstop⟩
  rw [List.pairwise_map]
  refine hdesc.imp_of_mem fun {x y} hx hy hxy => ?_
  have hx := hopen x hx
  have hy := hopen y hy
  exact stop_le_stop y (by omega) x (by omega) (by omega)

/-- Where the open subtrees are those that hold the next node, the depths from there on come out right. -/
theorem depthsFrom_ancestors : ∀ {count i : Nat} {opened : List Nat}, i + count = b.size →
    opened.dropWhile (· ≤ i) = (b.ancestors i).map b.stop →
      b.depthsFrom count i opened = .ok ((List.range' i count).map b.depth)
  | 0, _, _, _, _ => rfl
  | count + 1, i, opened, hsize, hopened => by
      have hi : i < b.size := by omega
      have hnext : (b.stop i :: opened.dropWhile (· ≤ i)).dropWhile (· ≤ i + 1) =
          (b.ancestors (i + 1)).map b.stop := by
        rw [hopened, ← List.map_cons, dropWhile_eq_filter (stops_pairwise hi), ancestors_succ,
          List.filter_map]
        rfl
      rw [Layout.depthsFrom, endOf_eq hi, Checked.ok_bind, depthsFrom_ancestors (by omega) hnext, hopened,
        List.length_map]
      rfl

theorem depths_eq (b : Blob) : b.depths = .ok ((List.range b.size).map b.depth) := by
  rw [Layout.depths, depthsFrom_ancestors (Nat.zero_add _) rfl, List.range_eq_range']

/-- Above a child are its parent and the nodes above that. -/
theorem ancestors_child (hi : i < b.size) (hc : c ∈ b.childList i) : b.ancestors c = i :: b.ancestors i := by
  obtain ⟨hic, hcc, hcle⟩ := lt_of_mem_childList hi hc
  have hle := stop_le hi
  have hrange : List.range c = List.range i ++ i :: List.range' (i + 1) (c - (i + 1)) := by
    rw [List.range_eq_range', List.range_eq_range', show c = i + (c - (i + 1) + 1) by omega,
      ← List.range'_append_1, Nat.zero_add, List.range'_succ]
    congr 3
    omega
  have hbetween : (List.range' (i + 1) (c - (i + 1))).reverse.filter (fun j => c < b.stop j) = [] := by
    refine List.filter_eq_nil_iff.mpr fun j hj hopen => ?_
    simp only [List.mem_reverse, List.mem_range'_1, decide_eq_true_eq] at hj hopen
    -- A node between the two lies under an earlier child.
    obtain ⟨d, hd, hdj, hjd⟩ := (tiles hi).cover (j := j) (by omega) (by omega)
    have hdc := (tiles hi).stop_le hd hc (by omega)
    have := stop_le_stop d (lt_size_of_mem_childList hi hd) j hdj hjd
    omega
  have habove : (List.range i).reverse.filter (fun j => c < b.stop j) = b.ancestors i := by
    refine List.filter_congr fun j hj => decide_eq_decide.mpr ⟨fun h => by omega, fun h => ?_⟩
    have hji : j < i := List.mem_range.mp (List.mem_reverse.mp hj)
    have := stop_le_stop j (by omega) i (by omega) h
    omega
  rw [ancestors, hrange, List.reverse_append, List.reverse_cons, List.append_assoc, List.singleton_append,
    List.filter_append, hbetween, List.nil_append, List.filter_cons_of_pos (by simp; omega), habove]

theorem depth_child (hi : i < b.size) (hc : c ∈ b.childList i) : b.depth c = b.depth i + 1 := by
  rw [depth, ancestors_child hi hc]
  rfl

end Blob

end BehaviorTree
