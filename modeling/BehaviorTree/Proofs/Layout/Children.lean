import BehaviorTree.Proofs.Layout.WellFormed

/-!
# Children and subtrees of a valid blob

The subtree of node `i` is the range from `i` to `b.stop i`. The subtrees of the children of a node tile
the rest of its own range, so subtrees are nested or disjoint and every node but the root has a parent.
-/

namespace BehaviorTree

namespace Layout

variable {l : Layout}

/-! ## Tiled ranges -/

theorem Tiles.le {hi : Nat} : ∀ {cs : List Nat} {lo : Nat}, l.Tiles hi lo cs → lo ≤ hi
  | [], _, h => Nat.le_of_eq h
  | _ :: _, _, ⟨_, hlt, hle, _⟩ => Nat.le_trans (Nat.le_of_lt hlt) hle

theorem Tiles.mem {hi : Nat} : ∀ {cs : List Nat} {lo : Nat}, l.Tiles hi lo cs → ∀ {c : Nat}, c ∈ cs →
    lo ≤ c ∧ c < l.stop c ∧ l.stop c ≤ hi
  | d :: cs, lo, ⟨hd, hlt, hle, h⟩, c, hc => by
      subst hd
      rcases List.mem_cons.mp hc with rfl | hc
      · exact ⟨Nat.le_refl _, hlt, hle⟩
      · have := Tiles.mem h hc
        exact ⟨by omega, this.2⟩

theorem Tiles.cover {hi : Nat} : ∀ {cs : List Nat} {lo : Nat}, l.Tiles hi lo cs → ∀ {j : Nat},
    lo ≤ j → j < hi → ∃ c ∈ cs, c ≤ j ∧ j < l.stop c
  | [], _, h, j, hlo, hhi => absurd hhi (by simp only [Tiles] at h; omega)
  | d :: cs, lo, ⟨hd, _, _, h⟩, j, hlo, hhi => by
      subst hd
      by_cases hj : j < l.stop d
      · exact ⟨d, List.mem_cons_self, hlo, hj⟩
      · obtain ⟨c, hc, hcj⟩ := Tiles.cover h (Nat.le_of_not_lt hj) hhi
        exact ⟨c, List.mem_cons_of_mem _ hc, hcj⟩

theorem Tiles.unique {hi : Nat} : ∀ {cs ds : List Nat} {lo : Nat}, l.Tiles hi lo cs → l.Tiles hi lo ds →
    cs = ds
  | [], [], _, _, _ => rfl
  | [], d :: ds, _, h, h' => absurd h (by obtain ⟨-, h₁, h₂, -⟩ := h'; simp only [Tiles]; omega)
  | c :: cs, [], _, h, h' => absurd h' (by obtain ⟨-, h₁, h₂, -⟩ := h; simp only [Tiles]; omega)
  | c :: cs, d :: ds, _, ⟨hc, _, _, h⟩, ⟨hd, _, _, h'⟩ => by
      subst hc hd
      rw [Tiles.unique h h']

theorem Tiles.nodup {hi : Nat} : ∀ {cs : List Nat} {lo : Nat}, l.Tiles hi lo cs → cs.Nodup
  | [], _, _ => List.nodup_nil
  | c :: cs, lo, ⟨hlo, hlt, _, h⟩ => by
      subst hlo
      exact List.nodup_cons.mpr ⟨fun hc => Nat.not_lt.mpr (h.mem hc).1 hlt, h.nodup⟩

/-- The subtrees of earlier siblings end before a later sibling. -/
theorem Tiles.stop_le {hi : Nat} : ∀ {cs : List Nat} {lo : Nat}, l.Tiles hi lo cs →
    ∀ {c d : Nat}, c ∈ cs → d ∈ cs → c < d → l.stop c ≤ d
  | e :: cs, lo, ⟨he, _, _, h⟩, c, d, hc, hd, hlt => by
      subst he
      rcases List.mem_cons.mp hc with rfl | hc'
      · rcases List.mem_cons.mp hd with rfl | hd'
        · omega
        · exact (h.mem hd').1
      · rcases List.mem_cons.mp hd with rfl | hd'
        · have := h.mem hc'
          omega
        · exact h.stop_le hc' hd' hlt

/-- A tiled range, cut at one of its subtrees. -/
theorem Tiles.split {hi c : Nat} {ds : List Nat} : ∀ {cs : List Nat} {lo : Nat}, l.Tiles hi lo (cs ++ c :: ds) →
    l.Tiles c lo cs ∧ c < l.stop c ∧ l.stop c ≤ hi ∧ l.Tiles hi (l.stop c) ds
  | [], _, ⟨hc, hlt, hle, h⟩ => ⟨hc.symm, hc ▸ hlt, hc ▸ hle, hc ▸ h⟩
  | d :: cs, lo, ⟨hd, hlt, _, h⟩ => by
      obtain ⟨hcs, hc⟩ := Tiles.split h
      exact ⟨⟨hd, hlt, hcs.le, hcs⟩, hc⟩

theorem siblings_eq (hends : l.ends.size = l.size) {hi : Nat} (hhi : hi ≤ l.size) :
    ∀ {cs : List Nat} {room lo : Nat}, hi ≤ lo + room → l.Tiles hi lo cs →
      l.siblings hi room lo = .ok cs
  | [], 0, _, _, _ => rfl
  | [], room + 1, lo, _, h => by
      have : ¬ lo < hi := by simp only [Tiles] at h; omega
      rw [siblings, if_neg this]
  | c :: cs, 0, lo, hroom, h => by
      have h₁ := h.2.1
      have h₂ := h.2.2.1
      omega
  | c :: cs, room + 1, lo, hroom, ⟨hc, hlt, hle, h⟩ => by
      subst hc
      rw [siblings, if_pos (by omega), endOf_eq (by omega), Checked.ok_bind,
        siblings_eq hends hhi (by omega) h]
      rfl

/-- The children of a node, or none if the layout has no such node. -/
def childList (l : Layout) (i : Nat) : List Nat := (l.children i).toOption.getD []

end Layout

namespace Blob

variable {b : Blob} {i j : Nat}

theorem endOf_eq (h : i < b.size) : b.endOf i = .ok (b.stop i) :=
  Layout.endOf_eq (by rw [b.wellFormed.ends_size]; exact h)

theorem endOf_of_le (h : b.size ≤ i) : b.endOf i = .error .outOfBounds := by
  have : b.ends[i]? = none := by
    rw [Array.getElem?_eq_none_iff, b.wellFormed.ends_size]
    exact h
  rw [Layout.endOf, this]
  rfl

theorem lt_stop (h : i < b.size) : i < b.stop i := b.wellFormed.lt_stop i h

theorem stop_le (h : i < b.size) : b.stop i ≤ b.size := b.wellFormed.stop_le i h

theorem stop_root (b : Blob) : b.stop 0 = b.size := b.wellFormed.stop_root

theorem size_pos (b : Blob) : 0 < b.size := b.wellFormed.size_pos

theorem children_eq_of_tiles (h : i < b.size) {cs : List Nat} (hcs : b.Tiles (b.stop i) (i + 1) cs) :
    b.children i = .ok cs := by
  have hle := stop_le h
  rw [Layout.children, endOf_eq h, Checked.ok_bind]
  exact Layout.siblings_eq b.wellFormed.ends_size hle (by omega) hcs

theorem children_eq (h : i < b.size) : b.children i = .ok (b.childList i) := by
  obtain ⟨cs, hcs⟩ := b.wellFormed.tiled i h
  rw [Layout.childList, children_eq_of_tiles h hcs]
  rfl

theorem tiles (h : i < b.size) : b.Tiles (b.stop i) (i + 1) (b.childList i) := by
  obtain ⟨cs, hcs⟩ := b.wellFormed.tiled i h
  rw [Layout.childList, children_eq_of_tiles h hcs]
  exact hcs

theorem lt_of_mem_childList (h : i < b.size) {c : Nat} (hc : c ∈ b.childList i) :
    i < c ∧ c < b.stop c ∧ b.stop c ≤ b.stop i := by
  have := (tiles h).mem hc
  exact ⟨by omega, this.2⟩

theorem lt_size_of_mem_childList (h : i < b.size) {c : Nat} (hc : c ∈ b.childList i) : c < b.size := by
  have := lt_of_mem_childList h hc
  have := stop_le h
  omega

/-- What holds of a node whenever it holds of its children holds of all nodes. -/
theorem subtree_induction {P : Nat → Prop}
    (step : ∀ i < b.size, (∀ c ∈ b.childList i, P c) → P i) : ∀ i < b.size, P i := by
  intro i hi
  induction hn : b.size - i using Nat.strongRecOn generalizing i with
  | ind n ih =>
      refine step i hi fun c hc => ?_
      have hlt := (lt_of_mem_childList hi hc).1
      have hcs := lt_size_of_mem_childList hi hc
      exact ih (b.size - c) (by omega) c hcs rfl

/-- A node of a subtree has its own subtree in it. -/
theorem stop_le_stop : ∀ i < b.size, ∀ j, i ≤ j → j < b.stop i → b.stop j ≤ b.stop i := by
  refine subtree_induction fun i hi ih j hij hj => ?_
  rcases Nat.eq_or_lt_of_le hij with rfl | hlt
  · exact Nat.le_refl _
  · obtain ⟨c, hc, hcj, hjc⟩ := (tiles hi).cover hlt hj
    exact Nat.le_trans (ih c hc j hcj hjc) (lt_of_mem_childList hi hc).2.2

/-- Node `c` is the child number `k` of node `p`. -/
def IsChild (b : Blob) (p k c : Nat) : Prop := p < b.size ∧ (b.childList p)[k]? = some c

theorem IsChild.mem {p k c : Nat} (h : b.IsChild p k c) : c ∈ b.childList p :=
  List.mem_of_getElem? h.2

theorem IsChild.lt {p k c : Nat} (h : b.IsChild p k c) : p < c ∧ c < b.stop c ∧ b.stop c ≤ b.stop p :=
  lt_of_mem_childList h.1 h.mem

/-- A node has one place among the children of its parent. -/
theorem IsChild.place_eq {p k j c : Nat} (h : b.IsChild p k c) (h' : b.IsChild p j c) : j = k := by
  obtain ⟨hk, -⟩ := List.getElem?_eq_some_iff.mp h.2
  exact ((List.getElem?_inj hk (tiles h.1).nodup).mp (h.2.trans h'.2.symm)).symm

theorem exists_isChild_of_mem (h : i < b.size) {c : Nat} (hc : c ∈ b.childList i) :
    ∃ k, b.IsChild i k c := by
  obtain ⟨k, hk, rfl⟩ := List.mem_iff_getElem.mp hc
  exact ⟨k, h, List.getElem?_eq_getElem hk⟩

/-- A node of a subtree other than its root has its parent there. -/
theorem exists_parent_within : ∀ i < b.size, ∀ c, i < c → c < b.stop i →
    ∃ p k, i ≤ p ∧ b.IsChild p k c := by
  refine subtree_induction fun i hi ih c hic hc => ?_
  obtain ⟨d, hd, hdc, hcd⟩ := (tiles hi).cover hic hc
  rcases Nat.eq_or_lt_of_le hdc with rfl | hlt
  · obtain ⟨k, hk⟩ := exists_isChild_of_mem hi hd
    exact ⟨i, k, Nat.le_refl i, hk⟩
  · obtain ⟨p, k, hdp, hk⟩ := ih d hd c hlt hcd
    have hid := (lt_of_mem_childList hi hd).1
    exact ⟨p, k, by omega, hk⟩

theorem exists_parent (i : Nat) (hi : i < b.size) (c : Nat) (hic : i < c) (hc : c < b.stop i) :
    ∃ p k, b.IsChild p k c := by
  obtain ⟨p, k, -, hk⟩ := exists_parent_within i hi c hic hc
  exact ⟨p, k, hk⟩

end Blob

end BehaviorTree
