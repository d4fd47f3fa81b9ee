import BehaviorTree.Proofs.Bounds
import BehaviorTree.Proofs.Layout.Outline

/-!
# Valid layouts are the pre-orders of ordered trees

The subtrees of a tree in pre-order, one for each node, say where the nodes end. `validate` accepts an
array of end indices exactly if it comes from a tree in this way, and whatever the arrays are, it finds
out without reading outside them.
-/

namespace BehaviorTree

namespace Blueprint

mutual

/-- The subtrees in pre-order, one for each node. -/
def subtrees : Blueprint → List Blueprint
  | node type data children => node type data children :: subtreesAll children

def subtreesAll : List Blueprint → List Blueprint
  | [] => []
  | t :: ts => t.subtrees ++ subtreesAll ts

end

mutual

theorem length_subtrees : ∀ t : Blueprint, t.subtrees.length = t.size
  | node _ _ children => by
      rw [subtrees, List.length_cons, length_subtreesAll children, size, Nat.add_comm]

theorem length_subtreesAll : ∀ ts : List Blueprint, (subtreesAll ts).length = sizeAll ts
  | [] => rfl
  | t :: ts => by
      rw [subtreesAll, List.length_append, length_subtrees t, length_subtreesAll ts, sizeAll]

end

/-- The end indices in pre-order: the index of each node and the size of its subtree. -/
def ends (t : Blueprint) : List Nat := t.subtrees.mapIdx fun i s => i + s.size

theorem length_ends (t : Blueprint) : t.ends.length = t.size := by
  rw [ends, List.length_mapIdx, length_subtrees]

/-- The trees satisfy `P` at `i` and the places after it. -/
def EachFrom (P : Nat → Blueprint → Prop) (i : Nat) (ts : List Blueprint) : Prop :=
  ∀ k t, ts[k]? = some t → P (i + k) t

variable {P : Nat → Blueprint → Prop} {i : Nat} {t : Blueprint} {ts us : List Blueprint}

theorem eachFrom_nil : EachFrom P i [] := nofun

theorem eachFrom_cons : EachFrom P i (t :: ts) ↔ P i t ∧ EachFrom P (i + 1) ts := by
  constructor
  · refine fun h => ⟨h 0 t rfl, fun k s hs => ?_⟩
    rw [show i + 1 + k = i + (k + 1) by omega]
    exact h (k + 1) s hs
  · rintro ⟨h₀, h⟩ k s hs
    cases k with
    | zero =>
        cases hs
        exact h₀
    | succ k =>
        rw [show i + (k + 1) = i + 1 + k by omega]
        exact h k s hs

theorem eachFrom_append : EachFrom P i (ts ++ us) ↔ EachFrom P i ts ∧ EachFrom P (i + ts.length) us := by
  induction ts generalizing i with
  | nil => simp [eachFrom_nil]
  | cons t ts ih =>
      rw [List.cons_append, eachFrom_cons, eachFrom_cons, ih, List.length_cons, and_assoc,
        show i + 1 + ts.length = i + (ts.length + 1) by omega]

theorem eachFrom_subtrees {type : TypeId} {data : List UInt8} {children : List Blueprint} :
    EachFrom P i (node type data children).subtrees ↔
      P i (node type data children) ∧ EachFrom P (i + 1) (subtreesAll children) := by
  rw [subtrees, eachFrom_cons]

theorem eachFrom_subtreesAll : EachFrom P i (subtreesAll (t :: ts)) ↔
    EachFrom P i t.subtrees ∧ EachFrom P (i + t.size) (subtreesAll ts) := by
  rw [subtreesAll, eachFrom_append, length_subtrees]

end Blueprint

open Blueprint (EachFrom)

/-! ## From a tree to its layout -/

namespace Layout

variable {l : Layout}

def EndsWith (l : Layout) (j : Nat) (t : Blueprint) : Prop := l.stop j = j + t.size

/-- Node `j` ends by `hi`, and subtrees tile the nodes below it. -/
structure Rooted (l : Layout) (hi j : Nat) : Prop where
  lt_stop : j < l.stop j
  stop_le : l.stop j ≤ hi
  tiled : ∃ cs, l.Tiles (l.stop j) (j + 1) cs

theorem Rooted.mono {lo hi j : Nat} (h : l.Rooted lo j) (hle : lo ≤ hi) : l.Rooted hi j :=
  ⟨h.lt_stop, Nat.le_trans h.stop_le hle, h.tiled⟩

theorem tiles_of_ends : ∀ {ts : List Blueprint} {i : Nat}, EachFrom l.EndsWith i (Blueprint.subtreesAll ts) →
    l.Tiles (i + Blueprint.sizeAll ts) i (Blueprint.roots i ts)
  | [], _, _ => rfl
  | t :: ts, i, h => by
      rw [Blueprint.eachFrom_subtreesAll] at h
      have hstop : l.stop i = i + t.size := by
        cases t with
        | node type data children => exact (Blueprint.eachFrom_subtrees.mp h.1).1
      have hpos := t.size_pos
      rw [Blueprint.sizeAll, ← Nat.add_assoc]
      refine ⟨rfl, by omega, by omega, ?_⟩
      rw [hstop]
      exact tiles_of_ends h.2

mutual

theorem rooted_of_ends : ∀ {t : Blueprint} {i : Nat}, EachFrom l.EndsWith i t.subtrees → ∀ j, i ≤ j →
    j < i + t.size → l.Rooted (i + t.size) j
  | .node type data children, i, h, j, hij, hj => by
      obtain ⟨hstop, h⟩ := Blueprint.eachFrom_subtrees.mp h
      have hsize : i + (Blueprint.node type data children).size = i + 1 + Blueprint.sizeAll children := by
        rw [Blueprint.size, Nat.add_assoc]
      rw [EndsWith, hsize] at hstop
      rw [hsize] at hj ⊢
      rcases Nat.eq_or_lt_of_le hij with rfl | hlt
      · exact ⟨by omega, by omega, Blueprint.roots (i + 1) children, hstop ▸ tiles_of_ends h⟩
      · exact rootedAll_of_ends h j hlt hj

theorem rootedAll_of_ends : ∀ {ts : List Blueprint} {i : Nat},
    EachFrom l.EndsWith i (Blueprint.subtreesAll ts) → ∀ j, i ≤ j → j < i + Blueprint.sizeAll ts →
    l.Rooted (i + Blueprint.sizeAll ts) j
  | [], i, _, j, hij, hj => by
      rw [Blueprint.sizeAll] at hj
      omega
  | t :: ts, i, h, j, hij, hj => by
      rw [Blueprint.eachFrom_subtreesAll] at h
      rw [Blueprint.sizeAll, ← Nat.add_assoc] at hj ⊢
      rcases Nat.lt_or_ge j (i + t.size) with hlt | hge
      · exact (rooted_of_ends h.1 j hij hlt).mono (Nat.le_add_right _ _)
      · exact rootedAll_of_ends h.2 j hge hj

end

/-- The nodes end as those of a tree, and their data lies aligned in the words, node after node. -/
structure IsPreorder (l : Layout) : Prop where
  size_pos : 0 < l.size
  ends_size : l.ends.size = l.size
  offsets_size : l.offsets.size = l.size
  sizes_size : l.sizes.size = l.size
  tree : ∃ t : Blueprint, t.size = l.size ∧ l.ends.toList.map UInt32.toNat = t.ends
  aligned : ∀ i < l.size, l.offset i % dataAlign = 0
  within : ∀ i < l.size, l.offset i + l.extent i ≤ l.regionSize
  ordered : ∀ i, i + 1 < l.size → l.offset i + l.extent i ≤ l.offset (i + 1)

theorem ends_eq_iff {t : Blueprint} (hends : l.ends.size = t.size) :
    l.ends.toList.map UInt32.toNat = t.ends ↔ EachFrom l.EndsWith 0 t.subtrees := by
  have hstop : ∀ k < t.size, (l.ends.toList.map UInt32.toNat)[k]? = some (l.stop k) := by
    intro k hk
    rw [← hends] at hk
    simp [stop, hk]
  have hends : ∀ (k : Nat) (s : Blueprint), t.subtrees[k]? = some s → t.ends[k]? = some (k + s.size) := by
    intro k s hs
    simp [Blueprint.ends, hs]
  constructor
  · intro h k s hs
    have hk := (List.getElem?_eq_some_iff.mp hs).1
    rw [Blueprint.length_subtrees] at hk
    have hat := hstop k hk
    rw [h, hends k s hs] at hat
    rw [EndsWith, Nat.zero_add]
    exact (Option.some.inj hat).symm
  · intro h
    apply List.ext_getElem?
    intro k
    rcases Nat.lt_or_ge k t.size with hk | hk
    · obtain ⟨s, hs⟩ : ∃ s, t.subtrees[k]? = some s :=
        ⟨_, List.getElem?_eq_getElem (by rw [Blueprint.length_subtrees]; exact hk)⟩
      have hat := h k s hs
      rw [EndsWith, Nat.zero_add] at hat
      rw [hstop k hk, hends k s hs, hat]
    · rw [List.getElem?_eq_none (by simpa using by omega),
        List.getElem?_eq_none (by rw [Blueprint.length_ends]; exact hk)]

theorem wellFormed_of_preorder (h : l.IsPreorder) : l.WellFormed := by
  obtain ⟨t, hsize, hends⟩ := h.tree
  rw [ends_eq_iff (h.ends_size.trans hsize.symm)] at hends
  have hrooted : ∀ j < l.size, l.Rooted l.size j := fun j hj => by
    have hr := rooted_of_ends hends j (Nat.zero_le j) (by omega)
    rw [Nat.zero_add, hsize] at hr
    exact hr
  have hroot : l.stop 0 = l.size := by
    cases t with
    | node type data children =>
        have hat := (Blueprint.eachFrom_subtrees.mp hends).1
        rw [EndsWith, Nat.zero_add, hsize] at hat
        exact hat
  exact {
    size_pos := h.size_pos
    ends_size := h.ends_size
    offsets_size := h.offsets_size
    sizes_size := h.sizes_size
    stop_root := hroot
    lt_stop := fun i hi => (hrooted i hi).lt_stop
    stop_le := fun i hi => (hrooted i hi).stop_le
    aligned := h.aligned
    within := h.within
    ordered := h.ordered
    tiled := fun i hi => (hrooted i hi).tiled }

end Layout

/-! ## From a valid layout to its tree -/

namespace Blob

variable {b : Blob}

mutual

/-- A blob that draws a tree draws each subtree at its place in pre-order. -/
theorem Draws.subtrees : ∀ {t : Blueprint} {i : Nat}, b.Draws i t → EachFrom b.Draws i t.subtrees
  | .node _ _ _, _, h => Blueprint.eachFrom_subtrees.mpr ⟨h, DrawsAll.subtrees h.2.2.2.2⟩

theorem DrawsAll.subtrees : ∀ {ts : List Blueprint} {i : Nat}, b.DrawsAll i ts →
    EachFrom b.Draws i (Blueprint.subtreesAll ts)
  | [], _, _ => Blueprint.eachFrom_nil
  | _ :: _, _, h => Blueprint.eachFrom_subtreesAll.mpr ⟨Draws.subtrees h.1, DrawsAll.subtrees h.2⟩

end

theorem Draws.size {t : Blueprint} (h : b.Draws 0 t) : t.size = b.size := by
  rw [← b.stop_root, h.stop, Nat.zero_add]

theorem isPreorder (b : Blob) : b.IsPreorder := by
  obtain ⟨t, -, ht⟩ := b.exists_outline
  have hends : b.ends.size = t.size := b.wellFormed.ends_size.trans ht.size.symm
  refine {
    size_pos := b.size_pos
    ends_size := b.wellFormed.ends_size
    offsets_size := b.wellFormed.offsets_size
    sizes_size := b.wellFormed.sizes_size
    tree := ⟨t, ht.size, (Layout.ends_eq_iff hends).mpr fun k s hs => (ht.subtrees k s hs).stop⟩
    aligned := b.wellFormed.aligned
    within := b.wellFormed.within
    ordered := b.wellFormed.ordered }

end Blob

/-! ## The check itself -/

namespace Layout

variable {l : Layout}

theorem endOf_inBounds {i : Nat} (h : i < l.ends.size) : (l.endOf i).InBounds := .of_eq_ok (endOf_eq h)

theorem offsetOf_inBounds {i : Nat} (h : i < l.offsets.size) : (l.offsetOf i).InBounds := .of_eq_ok (offsetOf_eq h)

theorem sizeOf_inBounds {i : Nat} (h : i < l.sizes.size) : (l.sizeOf i).InBounds := .of_eq_ok (sizeOf_eq h)

/-- More room does not change the answer: the walk over the children ends because it has passed them, not
because it ran out of room. -/
theorem checkTiling_room (l : Layout) (parent stop : Nat) : ∀ {room room' child : Nat}, stop ≤ child + room →
    stop ≤ child + room' → l.checkTiling parent stop room child = l.checkTiling parent stop room' child
  | 0, 0, _, _, _ => rfl
  | 0, room' + 1, child, h, _ => by
      rw [checkTiling, checkTiling, if_neg (by omega)]
  | room + 1, 0, child, _, h => by
      rw [checkTiling, checkTiling, if_neg (by omega)]
  | room + 1, room' + 1, child, h, h' => by
      rw [checkTiling, checkTiling]
      split
      · refine bind_congr fun childStop => ?_
        split
        · rfl
        · exact checkTiling_room l parent stop (by omega) (by omega)
      · rfl

theorem checkTiling_inBounds {parent stop : Nat} (hstop : stop ≤ l.ends.size) :
    ∀ {room child : Nat}, (l.checkTiling parent stop room child).InBounds
  | 0, _ => .ok ()
  | room + 1, child => by
      rw [checkTiling]
      refine .ite (fun hlt => ?_) fun _ => .ok ()
      refine .bind (endOf_inBounds (by omega)) fun childStop _ => ?_
      exact .guard (Defect.fault_ne_outOfBounds _) fun _ => checkTiling_inBounds hstop

theorem checkSpan_inBounds (hoffsets : l.offsets.size = l.size) (hsizes : l.sizes.size = l.size) {i : Nat}
    (hi : i < l.size) : (l.checkSpan i).InBounds := by
  refine .bind (offsetOf_inBounds (by omega)) fun offset _ => ?_
  refine .bind (sizeOf_inBounds (by omega)) fun size _ => ?_
  refine .guard (Defect.fault_ne_outOfBounds _) fun _ => .guard (Defect.fault_ne_outOfBounds _) fun _ => ?_
  refine .ite (fun hlt => .bind (offsetOf_inBounds hlt) fun next _ => ?_) fun _ => .ok ()
  exact .ite (fun _ => .error (Defect.fault_ne_outOfBounds _)) fun _ => .ok ()

theorem checkNode_inBounds (hends : l.ends.size = l.size) (hoffsets : l.offsets.size = l.size)
    (hsizes : l.sizes.size = l.size) {i : Nat} (hi : i < l.size) : (l.checkNode i).InBounds := by
  refine .bind (endOf_inBounds (by omega)) fun stop _ => ?_
  refine .guard (Defect.fault_ne_outOfBounds _) fun hstop => ?_
  exact .bind (checkSpan_inBounds hoffsets hsizes hi) fun _ _ => checkTiling_inBounds (by omega)

theorem validate_inBounds (l : Layout) : l.validate.InBounds := by
  refine .guard (Defect.fault_ne_outOfBounds _) fun hpos => ?_
  refine .guard (Defect.fault_ne_outOfBounds _) fun hsizes => ?_
  refine .bind (endOf_inBounds (by omega)) fun stop _ => .guard (Defect.fault_ne_outOfBounds _) fun _ => ?_
  refine .forM fun i hi => ?_
  rw [List.mem_range] at hi
  exact checkNode_inBounds (by omega) (by omega) (by omega) hi

theorem validate_eq_ok_iff_isPreorder : l.validate = .ok () ↔ l.IsPreorder :=
  ⟨fun h => Blob.isPreorder ⟨l, h⟩, fun h => validate_eq_ok_iff.mpr (wellFormed_of_preorder h)⟩

theorem toBlob_eq_ok_iff {b : Blob} : l.toBlob = .ok b ↔ b.toLayout = l := by
  unfold toBlob
  split
  · constructor
    · rintro ⟨⟩
      rfl
    · rintro rfl
      rfl
  · rename_i e he
    constructor
    · rintro ⟨⟩
    · rintro rfl
      rw [b.valid] at he
      cases he

theorem toBlob_inBounds (l : Layout) : l.toBlob.InBounds := by
  unfold toBlob
  split
  · exact .ok _
  · rename_i e he
    exact .error (l.validate_inBounds e he)

/-- Arrays are accepted exactly if they lay out an ordered tree in pre-order with its data. Whatever they
are, each walk over children comes to an end of its own accord, and nothing outside the arrays is read. -/
theorem accepts_preorders (l : Layout) :
    (l.validate = .ok () ↔ l.IsPreorder) ∧
    ((∃ b : Blob, l.toBlob = .ok b ∧ b.toLayout = l) ↔ l.IsPreorder) ∧
    (∀ parent stop child more,
      l.checkTiling parent stop (stop - child + more) child = l.checkTiling parent stop (stop - child) child) ∧
    l.validate ≠ .error .outOfBounds ∧ l.toBlob ≠ .error .outOfBounds := by
  refine ⟨validate_eq_ok_iff_isPreorder, ⟨?_, fun h => ?_⟩, fun parent stop child more => ?_,
    Checked.inBounds_iff.mp l.validate_inBounds, Checked.inBounds_iff.mp l.toBlob_inBounds⟩
  · rintro ⟨b, -, rfl⟩
    exact b.isPreorder
  · have hvalid := validate_eq_ok_iff_isPreorder.mpr h
    exact ⟨⟨l, hvalid⟩, toBlob_eq_ok_iff.mpr rfl, rfl⟩
  · exact l.checkTiling_room parent stop (by omega) (by omega)

end Layout

end BehaviorTree
