import Mathlib.Data.List.Chain
import BehaviorTree.Proofs.Layout.Depths

/-!
# Levels

The depths and the jumps over whole subtrees describe one tree: the children of a node are the nodes of its
subtree that are one level below it, and their subtrees cut the rest of its range into adjacent pieces.
-/

namespace BehaviorTree

namespace Layout

variable {l : Layout} {hi : Nat}

theorem Tiles.pairwise_lt : ∀ {cs : List Nat} {lo : Nat}, l.Tiles hi lo cs → cs.Pairwise (· < ·)
  | [], _, _ => List.Pairwise.nil
  | c :: cs, lo, ⟨hlo, hlt, _, h⟩ => by
      subst hlo
      exact List.pairwise_cons.mpr ⟨fun d hd => Nat.lt_of_lt_of_le hlt (h.mem hd).1, h.pairwise_lt⟩

theorem Tiles.isChain : ∀ {cs : List Nat} {lo : Nat}, l.Tiles hi lo cs →
    cs.IsChain fun c d => l.stop c = d
  | [], _, _ => List.IsChain.nil
  | [c], _, _ => List.IsChain.singleton c
  | c :: d :: cs, lo, ⟨hlo, _, _, h⟩ => by
      subst hlo
      exact List.IsChain.cons_cons h.1.symm h.isChain

/-- The subtrees that tile a range hold its indices, each once and in order. -/
theorem Tiles.flatMap_range' : ∀ {cs : List Nat} {lo : Nat}, l.Tiles hi lo cs →
    cs.flatMap (fun c => List.range' c (l.stop c - c)) = List.range' lo (hi - lo)
  | [], lo, h => by
      have : lo = hi := h
      rw [List.flatMap_nil, this, Nat.sub_self, List.range'_zero]
  | c :: cs, lo, ⟨hlo, hlt, hle, h⟩ => by
      subst hlo
      have hlen : hi - c = (l.stop c - c) + (hi - l.stop c) := by omega
      have hnext : c + (l.stop c - c) = l.stop c := by omega
      rw [List.flatMap_cons, h.flatMap_range', hlen, ← List.range'_append_1, hnext]

end Layout

namespace Blob

variable {b : Blob} {i c : Nat}

theorem depth_eq_countP (b : Blob) (i : Nat) :
    b.depth i = (List.range i).countP fun j => i < b.stop j := by
  rw [depth, ancestors, ← List.countP_eq_length_filter, List.countP_reverse]

/-- The nodes below a node are deeper. -/
theorem depth_lt (hi : i < b.size) (hic : i < c) (hc : c < b.stop i) : b.depth i < b.depth c := by
  induction c using Nat.strongRecOn with
  | ind c ih =>
      obtain ⟨p, k, hip, hk⟩ := exists_parent_within i hi c hic hc
      rw [depth_child hk.1 hk.mem]
      rcases Nat.eq_or_lt_of_le hip with rfl | hlt
      · exact Nat.lt_succ_self _
      · have hpc := hk.lt.1
        have := ih p hpc hlt (by omega)
        omega

/-- The children of a node are the nodes of its subtree that are one level below it. -/
theorem mem_childList_iff (hi : i < b.size) :
    c ∈ b.childList i ↔ i < c ∧ c < b.stop i ∧ b.depth c = b.depth i + 1 := by
  constructor
  · intro hc
    obtain ⟨hic, hcc, hci⟩ := lt_of_mem_childList hi hc
    exact ⟨hic, by omega, depth_child hi hc⟩
  · rintro ⟨hic, hci, hdepth⟩
    obtain ⟨d, hd, hdc, hcd⟩ := (tiles hi).cover hic hci
    rcases Nat.eq_or_lt_of_le hdc with rfl | hlt
    · exact hd
    · -- Below a child, nodes are at least two levels down.
      have := depth_lt (lt_size_of_mem_childList hi hd) hlt hcd
      rw [depth_child hi hd] at this
      omega

/-- The list `cs` is what the depths `ds` say of the children of node `i`, and their subtrees are adjacent and
make up the rest of its range. -/
structure ChildrenByDepth (b : Blob) (ds : List Nat) (i : Nat) (cs : List Nat) : Prop where
  increasing : cs.Pairwise (· < ·)
  mem_iff (c : Nat) : c ∈ cs ↔ i + 1 ≤ c ∧ c < b.stop i ∧ ds[c]? = ds[i]?.map (· + 1)
  disjoint : cs.Pairwise fun c d => b.stop c ≤ d
  adjacent : cs.IsChain fun c d => b.stop c = d
  covering : cs.flatMap (fun c => List.range' c (b.stop c - c)) = List.range' (i + 1) (b.stop i - (i + 1))

theorem getElem?_map_depth (hi : i < b.size) :
    ((List.range b.size).map b.depth)[i]? = some (b.depth i) := by
  rw [List.getElem?_map, List.getElem?_range hi, Option.map_some]

theorem childList_byDepth (hi : i < b.size) :
    b.ChildrenByDepth ((List.range b.size).map b.depth) i (b.childList i) where
  increasing := (tiles hi).pairwise_lt
  mem_iff c := by
    have hle := stop_le hi
    rw [mem_childList_iff hi]
    refine and_congr_right fun hic => and_congr_right fun hc => ?_
    rw [getElem?_map_depth (by omega), getElem?_map_depth hi, Option.map_some, Option.some_inj]
  disjoint := (tiles hi).pairwise_lt.imp_of_mem fun hc hd hcd => (tiles hi).stop_le hc hd hcd
  adjacent := (tiles hi).isChain
  covering := (tiles hi).flatMap_range'

/-- `depths` counts, for every node, the subtrees that hold it below their root. `children` reads off the nodes
one level down, and more steps find no further ones. -/
theorem depths_children (b : Blob) : ∃ ds, b.depths = .ok ds ∧ ds.length = b.size ∧
    ∀ i < b.size, ds[i]? = some ((List.range i).countP fun j => i < b.stop j) ∧
      ∃ cs, b.children i = .ok cs ∧
        (∀ room, b.stop i - (i + 1) ≤ room → b.siblings (b.stop i) room (i + 1) = .ok cs) ∧
        b.childCount i = .ok cs.length ∧ b.ChildrenByDepth ds i cs := by
  refine ⟨_, b.depths_eq, by rw [List.length_map, List.length_range], fun i hi => ⟨?_, ?_⟩⟩
  · rw [getElem?_map_depth hi, depth_eq_countP]
  · have hchildren := children_eq hi
    refine ⟨b.childList i, hchildren, fun room hroom => ?_, ?_, childList_byDepth hi⟩
    · exact Layout.siblings_eq b.wellFormed.ends_size (stop_le hi) (by omega) (tiles hi)
    · rw [Layout.childCount, hchildren]
      rfl

-- Four subtrees close at the end of the tree.
example : let b : Layout := ⟨.replicate 7 ⟨0⟩, #[7, 4, 3, 4, 7, 7, 7], .replicate 7 0, .replicate 7 0, #[]⟩
    b.validate = .ok () ∧ b.depths = .ok [0, 1, 2, 2, 1, 2, 3] ∧ b.children 0 = .ok [1, 4] := by decide +kernel

end Blob

end BehaviorTree
