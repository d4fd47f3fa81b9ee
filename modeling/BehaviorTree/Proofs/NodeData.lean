import BehaviorTree.Proofs.Layout.Build
import BehaviorTree.Variable.Handle

/-!
# Node data under construction

A call on the builder keeps the size of the head and all that lies behind it; a new payload comes after
everything that is there.
-/

namespace BehaviorTree

namespace NodeData

variable {d d' d'' : NodeData} {t : ValueType} {v : t.Value} {o : UInt32}

/-! ## Single calls -/

theorem alloc_eq_ok (h : d.alloc v = .ok (o, d')) : o.toNat = d.nextOffset t ∧ d'.headSize = d.headSize ∧
    d'.bytes = d.bytes ++ List.replicate (d.nextOffset t - d.size) 0 ++ v.1 := by
  unfold alloc at h
  obtain ⟨a, ha, h⟩ := Checked.bind_eq_ok.mp h
  cases h
  exact ⟨Quantity.fit_eq_ok ha, rfl, rfl⟩

theorem exists_alloc (v : t.Value) (h : d.nextOffset t < UInt32.size) : ∃ o d', d.alloc v = .ok (o, d') := by
  obtain ⟨o, ho⟩ := Quantity.payloadOffset.fit_of_lt h
  exact ⟨o, _, by rw [alloc, ho]; rfl⟩

theorem le_nextOffset (d : NodeData) (ht : 0 < t.align) : max d.size 1 ≤ d.nextOffset t := le_alignUp _ ht

theorem size_alloc (ht : 0 < t.align) (h : d.alloc v = .ok (o, d')) :
    d'.size = d.nextOffset t + t.size := by
  have hle := d.le_nextOffset ht
  have hv := v.2
  rw [size, (alloc_eq_ok h).2.2]
  simp only [List.length_append, List.length_replicate]
  rw [size] at hle ⊢
  omega

theorem alloc_offset (ht : 0 < t.align) (h : d.alloc v = .ok (o, d')) : d.bytes.length ≤ o.toNat ∧
    0 < o.toNat ∧ o.toNat + t.size ≤ d'.bytes.length := by
  have hle := d.le_nextOffset ht
  have hsize := size_alloc ht h
  have ho := (alloc_eq_ok h).1
  rw [size] at hle hsize
  omega

theorem alloc_window (ht : 0 < t.align) (h : d.alloc v = .ok (o, d')) :
    window d'.bytes o.toNat t.size = v.1 := by
  obtain ⟨ho, -, hbytes⟩ := alloc_eq_ok h
  have hle := d.le_nextOffset ht
  have hlen : (d.bytes ++ List.replicate (d.nextOffset t - d.size) 0).length = o.toNat := by
    rw [List.length_append, List.length_replicate, ho]
    rw [size] at hle ⊢
    omega
  rw [hbytes, window, List.drop_left' hlen, List.take_of_length_le (Nat.le_of_eq v.2)]

theorem setHead_eq_ok (h : d.setHead v = .ok d') : t.size = d.headSize ∧ d'.headSize = d.headSize ∧
    d'.bytes = v.1 ++ d.bytes.drop d.headSize := by
  unfold setHead at h
  split at h
  · cases h
    exact ⟨‹_›, rfl, rfl⟩
  · cases h

theorem size_setHead (h : d.setHead v = .ok d') : d'.size = d.size := by
  obtain ⟨ht, -, hbytes⟩ := setHead_eq_ok h
  have hle := d.headSize_le
  rw [size, hbytes, List.length_append, List.length_drop, v.2, size]
  omega

/-! ## What stays -/

/-- `d'` comes from `d` by calls on the builder. -/
inductive Grows (d : NodeData) : NodeData → Prop
  | refl : Grows d d
  | alloc {d' d'' : NodeData} {t : ValueType} {v : t.Value} {o : UInt32} :
      Grows d d' → d'.alloc v = .ok (o, d'') → Grows d d''
  | setHead {d' d'' : NodeData} {t : ValueType} {v : t.Value} :
      Grows d d' → d'.setHead v = .ok d'' → Grows d d''

/-- The head keeps its size, and what lies behind it stays. -/
structure Extends (d d' : NodeData) : Prop where
  headSize : d'.headSize = d.headSize
  length : d.bytes.length ≤ d'.bytes.length
  bytes : ∀ k, d.headSize ≤ k → k < d.bytes.length → d'.bytes[k]? = d.bytes[k]?

theorem Extends.refl (d : NodeData) : Extends d d := ⟨rfl, Nat.le_refl _, fun _ _ _ => rfl⟩

theorem Extends.trans (h : Extends d d') (h' : Extends d' d'') : Extends d d'' :=
  ⟨h'.headSize.trans h.headSize, Nat.le_trans h.length h'.length, fun k hk hlt => by
    rw [h'.bytes k (by rw [h.headSize]; exact hk) (Nat.lt_of_lt_of_le hlt h.length), h.bytes k hk hlt]⟩

theorem Extends.window (h : Extends d d') {o n : Nat} (ho : d.headSize ≤ o) (hn : o + n ≤ d.bytes.length) :
    window d'.bytes o n = window d.bytes o n := by
  apply List.ext_getElem?
  intro k
  rw [getElem?_window, getElem?_window]
  split
  · exact h.bytes _ (by omega) (by omega)
  · rfl

theorem alloc_extends (h : d.alloc v = .ok (o, d')) : Extends d d' := by
  obtain ⟨-, hhead, hbytes⟩ := alloc_eq_ok h
  refine ⟨hhead, by rw [hbytes]; simp only [List.length_append]; omega, fun k _ hlt => ?_⟩
  rw [hbytes, List.append_assoc, List.getElem?_append_left hlt]

theorem setHead_extends (h : d.setHead v = .ok d') : Extends d d' := by
  obtain ⟨ht, hhead, hbytes⟩ := setHead_eq_ok h
  have hv := v.2
  refine ⟨hhead, Nat.le_of_eq (size_setHead h).symm, fun k hk hlt => ?_⟩
  rw [hbytes, List.getElem?_append_right (by omega), List.getElem?_drop]
  congr 1
  omega

theorem Grows.extends (h : Grows d d') : Extends d d' := by
  induction h with
  | refl => exact Extends.refl d
  | alloc _ ha ih => exact ih.trans (alloc_extends ha)
  | setHead _ hs ih => exact ih.trans (setHead_extends hs)

/-! ## The head -/

/-- The head is `h`. -/
structure HasHead {n : Nat} (d : NodeData) (h : Bytes n) : Prop where
  size : d.headSize = n
  bytes : window d.bytes 0 n = h.1

theorem ofHead_hasHead (v : t.Value) : (ofHead v).HasHead v :=
  ⟨rfl, window_all v.2⟩

theorem HasHead.alloc {n : Nat} {h : Bytes n} (hd : d.HasHead h) (ha : d.alloc v = .ok (o, d')) :
    d'.HasHead h := by
  obtain ⟨-, hhead, hbytes⟩ := alloc_eq_ok ha
  have hle := d.headSize_le
  refine ⟨hhead.trans hd.size, ?_⟩
  rw [hbytes, ← hd.bytes, window, window, List.drop_zero, List.drop_zero, List.append_assoc,
    List.take_append_of_le_length (by rw [← hd.size]; exact hle)]

theorem HasHead.head {n : Nat} {h : Bytes n} (hd : d.HasHead h) (ht : t.size = n) :
    d.head t = .ok ⟨h.1, h.2.trans ht.symm⟩ := by
  obtain ⟨rfl, hbytes⟩ := hd
  rw [NodeData.head, dif_pos ht]
  refine congrArg Except.ok (Subtype.ext ?_)
  rw [← hbytes, window, List.drop_zero]

theorem HasHead.setHead {n : Nat} {h : Bytes n} (hd : d.HasHead h) (v : t.Value) (ht : t.size = n) :
    ∃ d', d.setHead v = .ok d' ∧ d'.HasHead (⟨v.1, v.2.trans ht⟩ : Bytes n) := by
  obtain ⟨rfl, -⟩ := hd
  refine ⟨_, dif_pos ht, rfl, ?_⟩
  rw [window, List.drop_zero, List.take_left' (v.2.trans ht)]

end NodeData

namespace Variable

theorem alloc_eq_ok {d d' : NodeData} {id : UInt32} {t : ValueType} {p : t.Value} {v : Variable}
    (h : alloc d id p = .ok (v, d')) : v.id = id ∧ d.alloc p = .ok (v.offset, d') := by
  unfold alloc at h
  obtain ⟨⟨o, d₁⟩, ho, h⟩ := Checked.bind_eq_ok.mp h
  cases h
  exact ⟨rfl, ho⟩

theorem payloadOffset_eq {v : Variable} (h : 0 < v.offset.toNat) (i : Nat) :
    v.payloadOffset i = .ok v.offset.toNat := by
  have hne : v.offset ≠ 0 := fun h₀ => by
    rw [h₀] at h
    exact Nat.lt_irrefl 0 h
  rw [payloadOffset, isAllocated, if_pos (by simpa using hne)]

end Variable

end BehaviorTree
