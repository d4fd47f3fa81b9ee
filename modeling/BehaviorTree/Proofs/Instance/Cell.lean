import BehaviorTree.Instance
import BehaviorTree.Proofs.Bytes
import BehaviorTree.Proofs.Layout.Children

/-!
# An instance as one cell for each node

The common memory and the vector of results hold, for each node, a cell of its own: the recorded result
and the node's bytes. Every operation on a node changes its cell and no other.
-/

namespace BehaviorTree

/-- What an instance keeps for one node. -/
structure Cell where
  state : Option Status
  bytes : List UInt8
  deriving DecidableEq, Repr

namespace Cell

/-- The value of type `t` at `offset`. The index `i` of the node stands in the errors. -/
def read (c : Cell) (t : ValueType) (i offset : Nat) : Except Error t.Value :=
  if c.bytes.length = 0 then .error (.unallocatedData i)
  else if h : offset + t.size ≤ c.bytes.length then
    .ok ⟨window c.bytes offset t.size, length_window h⟩
  else .error (.dataOutOfBounds i offset t.size c.bytes.length)

/-- Puts a value at `offset`. -/
def write (c : Cell) {t : ValueType} (i offset : Nat) (v : t.Value) : Except Error Cell :=
  if c.bytes.length = 0 then .error (.unallocatedData i)
  else if c.bytes.length < offset + t.size then
    .error (.dataOutOfBounds i offset t.size c.bytes.length)
  else if offset % t.align ≠ 0 then .error (.misaligned i offset t.name)
  else .ok { c with bytes := overlay c.bytes offset v.1 }

variable {c : Cell} {t : ValueType} {i o : Nat}

theorem read_eq_ok (hpos : 0 < t.size)
    (h : o + t.size ≤ c.bytes.length) : c.read t i o = .ok ⟨window c.bytes o t.size, length_window h⟩ := by
  rw [read, if_neg (by omega), dif_pos h]

theorem write_eq_ok {v : t.Value} (hpos : 0 < t.size)
    (h : o + t.size ≤ c.bytes.length) (ho : o % t.align = 0) :
    c.write i o v = .ok { c with bytes := overlay c.bytes o v.1 } := by
  rw [write, if_neg (by omega), if_neg (by omega), if_neg (by simpa using ho)]

/-- Data that is all of one value is read and written as a whole. -/
theorem read_all {α : Type} {p : PlainData α} {a : α} (hpos : 0 < p.type.size) (h : c.bytes = (p.encode a).1) :
    c.read p.type i 0 = .ok (p.encode a) := by
  have hlen : c.bytes.length = p.type.size := by rw [h, (p.encode a).2]
  rw [read_eq_ok hpos (by omega)]
  exact congrArg Except.ok (Subtype.ext ((window_all hlen).trans h))

theorem write_all {v : t.Value} (hpos : 0 < t.size) (hlen : c.bytes.length = t.size) :
    c.write i 0 v = .ok ⟨c.state, v.1⟩ := by
  rw [write_eq_ok hpos (by omega) (Nat.zero_mod _), overlay_all (by rw [hlen, v.2])]

theorem read_window {x : t.Value} (h : c.read t i o = .ok x) : window c.bytes o t.size = x.1 := by
  unfold read at h
  split at h
  · cases h
  · split at h
    · cases h
      rfl
    · cases h

theorem length_of_read {x : t.Value} (h : c.read t i o = .ok x) : o + t.size ≤ c.bytes.length := by
  unfold read at h
  split at h
  · cases h
  · split at h
    · assumption
    · cases h

theorem write_bytes {c' : Cell} {x : t.Value} (h : c.write i o x = .ok c') :
    c'.bytes = overlay c.bytes o x.1 := by
  unfold write at h
  split at h
  · cases h
  split at h
  · cases h
  split at h
  · cases h
  · cases h
    rfl

end Cell

namespace Blob

variable {b : Blob} {i j : Nat}

theorem offsetOf_eq (h : i < b.size) : b.offsetOf i = .ok (b.offset i) :=
  Layout.offsetOf_eq (by rw [b.wellFormed.offsets_size]; exact h)

theorem sizeOf_eq (h : i < b.size) : b.sizeOf i = .ok (b.extent i) :=
  Layout.sizeOf_eq (by rw [b.wellFormed.sizes_size]; exact h)

theorem offset_add_extent_le (h : i < b.size) : b.offset i + b.extent i ≤ b.regionSize :=
  b.wellFormed.within i h

theorem extent_eq_zero (h : b.size ≤ i) : b.extent i = 0 := by
  have : b.sizes[i]? = none := by
    rw [Array.getElem?_eq_none_iff, b.wellFormed.sizes_size]
    exact h
  simp [Layout.extent, this]

theorem offset_add_extent_le_offset (hij : i < j) (hj : j < b.size) :
    b.offset i + b.extent i ≤ b.offset j := by
  induction j with
  | zero => omega
  | succ j ih =>
      have hstep := b.wellFormed.ordered j hj
      rcases Nat.eq_or_lt_of_le (Nat.le_of_lt_succ hij) with rfl | hlt
      · exact hstep
      · have := ih hlt (by omega)
        omega

theorem spans_disjoint (hi : i < b.size) (hj : j < b.size) (hij : i ≠ j) :
    b.offset i + b.extent i ≤ b.offset j ∨ b.offset j + b.extent j ≤ b.offset i := by
  rcases Nat.lt_or_gt_of_ne hij with h | h
  · exact Or.inl (offset_add_extent_le_offset h hj)
  · exact Or.inr (offset_add_extent_le_offset h hi)

def defaults (b : Blob) (i : Nat) : List UInt8 := (List.range' (b.offset i) (b.extent i)).map b.byteAt

theorem length_defaults (b : Blob) (i : Nat) : (b.defaults i).length = b.extent i := by
  simp [defaults]

theorem defaultBytes_eq (h : i < b.size) : b.defaultBytes i = .ok (b.defaults i) := by
  rw [Layout.defaultBytes, offsetOf_eq h, Checked.ok_bind, sizeOf_eq h, Checked.ok_bind, Layout.slice,
    if_pos (offset_add_extent_le h)]
  rfl

end Blob

/-- An alignment that divides that of the data divides every address at which a memory starts. -/
theorem Address.aligned_iff (a : Address) {t : ValueType} (ht : t.align ∣ dataAlign) (k : Nat) :
    (a.toNat + k) % t.align = 0 ↔ k % t.align = 0 := by
  rw [Nat.add_mod, Nat.mod_eq_zero_of_dvd (Nat.dvd_trans ht a.aligned), Nat.zero_add, Nat.mod_mod]

namespace Instance

variable {b : Blob} {s s' : Instance b} {i j : Nat}

def cell (s : Instance b) (i : Nat) : Cell :=
  ⟨s.states[i]?.join, window s.data.toList (b.offset i) (b.extent i)⟩

theorem state_cell_of_le (s : Instance b) (h : b.size ≤ i) : (s.cell i).state = none := by
  simp [cell, Vector.getElem?_eq_none h]

theorem length_bytes_cell (s : Instance b) (h : i < b.size) : (s.cell i).bytes.length = b.extent i :=
  length_window (by simpa using Blob.offset_add_extent_le h)

theorem state_eq (s : Instance b) (h : i < b.size) : s.state i = .ok (s.cell i).state := by
  simp [state, cell, h]

theorem cell_new (hi : i < b.size) : (Instance.new b).cell i = ⟨none, b.defaults i⟩ := by
  have hspan := Blob.offset_add_extent_le hi
  simp only [cell, new, Cell.mk.injEq]
  constructor
  · simp [hi]
  · apply List.ext_getElem?
    intro k
    rw [getElem?_window, Vector.getElem?_toList, Blob.defaults, List.getElem?_map]
    by_cases hk : k < b.extent i
    · rw [if_pos hk, List.getElem?_range' hk, Vector.getElem?_eq_getElem (by omega)]
      simp [defaults]
    · rw [if_neg hk, List.getElem?_eq_none (by simp; omega)]
      rfl

/-- `s'` is `s` with `c` as the cell of node `i`. -/
structure Sets (i : Nat) (c : Cell) (s s' : Instance b) : Prop where
  self : s'.cell i = c
  other : ∀ j, j ≠ i → s'.cell j = s.cell j
  tick : s'.tick = s.tick
  depth : s'.depth = s.depth

/-! ## Data -/

theorem overwrite_sets (s : Instance b) (hi : i < b.size) {o : Nat} (bs : List UInt8)
    (h : o + bs.length ≤ b.extent i) :
    ∃ buf, s.data.overwrite (b.offset i + o) bs = .ok buf ∧
      s.Sets i { s.cell i with bytes := overlay (s.cell i).bytes o bs } { s with data := buf } := by
  have hspan := Blob.offset_add_extent_le hi
  obtain ⟨buf, hbuf, hl⟩ := Buffer.overwrite_eq s.data (b.offset i + o) bs (by omega)
  refine ⟨buf, hbuf, ?_, ?_, rfl, rfl⟩
  · simp only [cell, hl]
    rw [window_overlay (by simpa using hspan) h]
  · intro j hj
    simp only [cell, hl, Cell.mk.injEq, true_and]
    by_cases hjs : j < b.size
    · rw [window_overlay_of_disjoint (by simp; omega)]
      have := Blob.spans_disjoint hi hjs (Ne.symm hj)
      omega
    · simp [window, Blob.extent_eq_zero (Nat.le_of_not_lt hjs)]

theorem restoreSpan_eq (s : Instance b) {start stop : Nat} (h : start ≤ stop)
    (hs : stop ≤ b.regionSize) : ∃ buf, s.restoreSpan start stop = .ok { s with data := buf } ∧
      buf.toList = overlay s.data.toList start ((List.range' start (stop - start)).map b.byteAt) := by
  obtain ⟨buf, hbuf, hl⟩ := Buffer.overwrite_eq s.data start
    ((List.range' start (stop - start)).map b.byteAt) (by simp; omega)
  refine ⟨buf, ?_, hl⟩
  rw [restoreSpan, if_neg (by omega)]
  simp only [Layout.slice]
  rw [if_pos (by omega)]
  simp only [Checked.ok_bind, hbuf, Checked.pure_eq]

theorem restore_sets (s : Instance b) (hi : i < b.size) :
    ∃ s', s.restore i = .ok s' ∧ s.Sets i { s.cell i with bytes := b.defaults i } s' := by
  have hspan := Blob.offset_add_extent_le hi
  have hlen : (b.defaults i).length = b.extent i := b.length_defaults i
  obtain ⟨buf, hbuf, hl⟩ := overwrite_sets s hi (o := 0) (b.defaults i) (by omega)
  rw [overlay_all (by rw [hlen, length_bytes_cell s hi])] at hl
  refine ⟨_, ?_, hl⟩
  rw [restore, Blob.offsetOf_eq hi, Checked.ok_bind, Blob.sizeOf_eq hi, Checked.ok_bind, restoreSpan,
    if_neg (by omega)]
  simp only [Layout.slice]
  rw [if_pos (by omega), Nat.add_sub_cancel_left]
  simp only [Checked.ok_bind]
  have hd : (List.range' (b.offset i) (b.extent i)).map b.byteAt = b.defaults i := rfl
  rw [hd]
  rw [Nat.add_zero] at hbuf
  rw [hbuf]
  rfl

theorem bytes_eq (s : Instance b) (hi : i < b.size) : s.bytes i = .ok (s.cell i).bytes := by
  obtain ⟨hl, he⟩ := Buffer.slice_eq s.data (Blob.offset_add_extent_le hi)
  rw [bytes, Blob.offsetOf_eq hi, Checked.ok_bind, Blob.sizeOf_eq hi, Checked.ok_bind, he]
  rfl

theorem bytes_of_le (s : Instance b) (hi : b.size ≤ i) : s.bytes i = .error .outOfBounds := by
  have hnone : b.offsets[i]? = none := by
    rw [Array.getElem?_eq_none_iff, b.wellFormed.offsets_size]
    exact hi
  rw [bytes, Layout.offsetOf, hnone]
  rfl

theorem putBytes_sets (s : Instance b) (hi : i < b.size) {bs : List UInt8} (h : bs.length = b.extent i) :
    ∃ s', s.putBytes i bs = .ok s' ∧ s.Sets i { s.cell i with bytes := bs } s' := by
  obtain ⟨buf, hbuf, hl⟩ := overwrite_sets s hi (o := 0) bs (by omega)
  rw [overlay_all (by rw [h, length_bytes_cell s hi])] at hl
  refine ⟨_, ?_, hl⟩
  rw [Nat.add_zero] at hbuf
  rw [putBytes, Blob.offsetOf_eq hi, Checked.ok_bind, Blob.sizeOf_eq hi, Checked.ok_bind, if_pos h, hbuf]
  rfl

theorem fill_sets (s : Instance b) (hi : i < b.size) (byte : UInt8) :
    ∃ s', s.fill i byte = .ok s' ∧
      s.Sets i { s.cell i with bytes := List.replicate (b.extent i) byte } s' := by
  rw [fill, Blob.sizeOf_eq hi, Checked.ok_bind]
  exact putBytes_sets s hi List.length_replicate

theorem locate_eq (s : Instance b) (hi : i < b.size) (o len : Nat) : s.locate i o len =
    if (s.cell i).bytes.length = 0 then Checked.fail (.unallocatedData i)
    else if (s.cell i).bytes.length < o + len then
      Checked.fail (.dataOutOfBounds i o len (s.cell i).bytes.length)
    else .ok (b.offset i + o) := by
  rw [locate, if_neg (Nat.not_le.mpr hi), Blob.sizeOf_eq hi, Checked.ok_bind, Blob.offsetOf_eq hi,
    length_bytes_cell s hi]
  rfl

theorem readAt_eq (s : Instance b) (hi : i < b.size) (t : ValueType) (o : Nat) :
    s.readAt t i o = Checked.ofExcept ((s.cell i).read t i o) := by
  have hspan := Blob.offset_add_extent_le hi
  have hlen := length_bytes_cell s hi
  rw [readAt, locate_eq s hi, Cell.read]
  by_cases h₀ : (s.cell i).bytes.length = 0
  · rw [if_pos h₀, if_pos h₀]
    rfl
  by_cases h₁ : o + t.size ≤ (s.cell i).bytes.length
  · obtain ⟨hl, he⟩ := Buffer.slice_eq s.data
      (show b.offset i + o + t.size ≤ b.regionSize by omega)
    rw [if_neg h₀, if_neg h₀, if_neg (by omega), dif_pos h₁, Checked.ok_bind, he]
    refine congrArg Except.ok (Subtype.ext (List.ext_getElem? fun k => ?_))
    rw [cell] at hlen h₁
    simp only [getElem?_window, cell]
    split
    · rw [if_pos (by omega), Nat.add_assoc]
    · rfl
  · rw [if_neg h₀, if_neg h₀, if_pos (by omega), dif_neg h₁]
    rfl

theorem readAt_of_le (s : Instance b) (hi : b.size ≤ i) (t : ValueType) (o : Nat) :
    s.readAt t i o = Checked.fail (.nodeOutOfRange i b.size) := by
  rw [readAt, locate, if_pos hi]
  rfl

/-- The data of a node starts at a multiple of every alignment that divides that of the data, and so does the
memory. -/
theorem place_eq (s : Instance b) (hi : i < b.size) {t : ValueType} (ht : t.align ∣ dataAlign) (o : Nat)
    (a : Address) : s.place t i o a =
      if (s.cell i).bytes.length = 0 then Checked.fail (.unallocatedData i)
      else if (s.cell i).bytes.length < o + t.size then
        Checked.fail (.dataOutOfBounds i o t.size (s.cell i).bytes.length)
      else if o % t.align ≠ 0 then Checked.fail (.misaligned i o t.name)
      else .ok (b.offset i + o) := by
  have halign : (b.offset i + o) % t.align = o % t.align := by
    have h := Nat.dvd_trans ht (Nat.dvd_of_mod_eq_zero (b.wellFormed.aligned i hi))
    rw [Nat.add_mod, Nat.mod_eq_zero_of_dvd h, Nat.zero_add, Nat.mod_mod]
  rw [place, locate_eq s hi]
  by_cases h₀ : (s.cell i).bytes.length = 0
  · simp only [h₀, ↓reduceIte]
    rfl
  by_cases h₁ : (s.cell i).bytes.length < o + t.size
  · simp only [h₀, h₁, ↓reduceIte]
    rfl
  simp only [h₀, h₁, ↓reduceIte, Checked.ok_bind, ne_eq, a.aligned_iff ht, halign, Checked.pure_eq]
  split <;> rfl

theorem writeAt_eq (s : Instance b) (hi : i < b.size) {t : ValueType} (ht : t.align ∣ dataAlign) (o : Nat)
    (v : t.Value) (a : Address) : match (s.cell i).write i o v with
      | .ok c => ∃ s', s.writeAt i o v a = .ok s' ∧ s.Sets i c s'
      | .error e => s.writeAt i o v a = .error (.error e) := by
  have hlen := length_bytes_cell s hi
  rw [Cell.write, writeAt, place_eq s hi ht]
  by_cases h₀ : (s.cell i).bytes.length = 0
  · simp only [h₀, ↓reduceIte]
    rfl
  by_cases h₁ : (s.cell i).bytes.length < o + t.size
  · simp only [h₀, h₁, ↓reduceIte]
    rfl
  by_cases h₂ : o % t.align = 0
  · obtain ⟨buf, hbuf, hs⟩ := overwrite_sets s hi (o := o) v.1 (by rw [v.2]; omega)
    simp only [h₀, h₁, h₂, ne_eq, not_true_eq_false, ↓reduceIte, Checked.pure_eq, Checked.ok_bind, hbuf]
    exact ⟨_, rfl, hs⟩
  · simp only [h₀, h₁, h₂, ne_eq, not_false_eq_true, ↓reduceIte]
    rfl

/-! ## Recorded results -/

theorem setState_sets (s : Instance b) (hi : i < b.size) (r : Status) :
    ∃ s', s.setState i r = .ok s' ∧ s.Sets i { s.cell i with state := some r } s' := by
  refine ⟨{ s with states := s.states.setIfInBounds i (some r) }, if_pos hi, ?_, ?_, rfl, rfl⟩
  · simp [cell, hi]
  · intro j hj
    simp [cell, Vector.getElem?_setIfInBounds_ne (Ne.symm hj)]

/-- `s'` is `s` with the nodes from `lo` to before `hi` made inactive. -/
structure Clears (lo hi : Nat) (s s' : Instance b) : Prop where
  inside : ∀ j, lo ≤ j → j < hi → s'.cell j = { s.cell j with state := none }
  outside : ∀ j, ¬ (lo ≤ j ∧ j < hi) → s'.cell j = s.cell j
  tick : s'.tick = s.tick
  depth : s'.depth = s.depth

theorem clearStates_clears (s : Instance b) {lo hi : Nat} (h : lo ≤ hi) (hb : hi ≤ b.size) :
    ∃ s', s.clearStates lo hi = .ok s' ∧ s.Clears lo hi s' := by
  refine ⟨{ s with
    states := s.states.mapFinIdx fun i r _ => if lo ≤ i ∧ i < hi then none else r },
    if_pos ⟨h, hb⟩, ?_, ?_, rfl, rfl⟩
  · intro j hlo hhi
    have hj : j < b.size := by omega
    simp [cell, hj, hlo, hhi]
  · intro j hj
    by_cases hjs : j < b.size
    · simp [cell, hjs, hj]
    · simp [cell, hjs]

/-- `s'` is `s` with the nodes from `lo` to before `hi` as in a new instance. -/
structure Renews (lo hi : Nat) (s s' : Instance b) : Prop where
  inside : ∀ j, lo ≤ j → j < hi → s'.cell j = ⟨none, b.defaults j⟩
  outside : ∀ j, ¬ (lo ≤ j ∧ j < hi) → s'.cell j = s.cell j
  tick : s'.tick = s.tick
  depth : s'.depth = s.depth

theorem subtreeSpan_eq (hi : i < b.size) :
    b.subtreeSpan i = .ok (b.offset i, b.offset (b.stop i - 1) + b.extent (b.stop i - 1)) := by
  have hlt := Blob.lt_stop hi
  have hle := Blob.stop_le hi
  rw [Layout.subtreeSpan, Blob.endOf_eq hi, Checked.ok_bind, if_neg (by omega), Blob.offsetOf_eq hi,
    Blob.offsetOf_eq (by omega), Blob.sizeOf_eq (by omega)]
  rfl

theorem window_defaults {start stop : Nat} (hj : start ≤ b.offset j) (hs : b.offset j + b.extent j ≤ stop) :
    window ((List.range' start (stop - start)).map b.byteAt) (b.offset j - start) (b.extent j) =
      b.defaults j := by
  apply List.ext_getElem?
  intro k
  rw [getElem?_window, Blob.defaults, List.getElem?_map, List.getElem?_map]
  by_cases hk : k < b.extent j
  · rw [if_pos hk, List.getElem?_range' (by omega), List.getElem?_range' hk]
    simp only [Option.map_some, Option.some.injEq]
    congr 1
    omega
  · rw [if_neg hk, List.getElem?_eq_none (by simp; omega)]
    rfl

theorem window_overlay_defaults {mem : List UInt8} {start stop : Nat} (hj : start ≤ b.offset j)
    (hs : b.offset j + b.extent j ≤ stop) (hmem : stop ≤ mem.length) :
    window (overlay mem start ((List.range' start (stop - start)).map b.byteAt)) (b.offset j) (b.extent j) =
      b.defaults j := by
  rw [← window_defaults hj hs]
  apply List.ext_getElem?
  intro k
  rw [getElem?_window, getElem?_window]
  split
  · rw [getElem?_overlay (by omega), if_pos (by simp; omega)]
    congr 1
    omega
  · rfl

/-- The data of a subtree is one span, from that of its first node to that of its last. -/
theorem offset_mem_span (hi : i < b.size) (hij : i ≤ j) (hj : j < b.stop i) : b.offset i ≤ b.offset j ∧
    b.offset j + b.extent j ≤ b.offset (b.stop i - 1) + b.extent (b.stop i - 1) := by
  have hle := Blob.stop_le hi
  constructor
  · rcases Nat.eq_or_lt_of_le hij with rfl | h
    · exact Nat.le_refl _
    · have := Blob.offset_add_extent_le_offset (b := b) h (by omega)
      omega
  · rcases Nat.eq_or_lt_of_le (show j ≤ b.stop i - 1 by omega) with rfl | h
    · exact Nat.le_refl _
    · have := Blob.offset_add_extent_le_offset (b := b) h (by omega)
      omega

theorem resetSubtree_of_le (s : Instance b) (hi : b.size ≤ i) : s.resetSubtree i = .error .outOfBounds := by
  rw [resetSubtree, Layout.subtreeSpan, Blob.endOf_of_le hi]
  rfl

theorem resetSubtree_renews (s : Instance b) (hi : i < b.size) :
    ∃ s', s.resetSubtree i = .ok s' ∧ s.Renews i (b.stop i) s' := by
  have hlt := Blob.lt_stop hi
  have hle := Blob.stop_le hi
  have hlast := Blob.offset_add_extent_le (b := b) (i := b.stop i - 1) (by omega)
  have hfirst := offset_mem_span hi (Nat.le_refl _) hlt
  obtain ⟨buf, hbuf, hl⟩ := restoreSpan_eq s
    (show b.offset i ≤ b.offset (b.stop i - 1) + b.extent (b.stop i - 1) by omega) hlast
  obtain ⟨s', hs', hc⟩ := clearStates_clears { s with data := buf } (Nat.le_of_lt hlt) hle
  refine ⟨s', ?_, ?_, ?_, hc.tick, hc.depth⟩
  · rw [resetSubtree, subtreeSpan_eq hi, Checked.ok_bind]
    simp only [hbuf, Checked.ok_bind, Blob.endOf_eq hi, hs']
  · intro j hij hj
    rw [hc.inside j hij hj]
    obtain ⟨h₁, h₂⟩ := offset_mem_span hi hij hj
    simp only [cell, hl, Cell.mk.injEq, true_and]
    exact window_overlay_defaults h₁ h₂ (by simp; omega)
  · intro j hj
    rw [hc.outside j hj]
    simp only [cell, hl, Cell.mk.injEq, true_and]
    by_cases hjs : j < b.size
    · refine window_overlay_of_disjoint (by simp; omega) ?_
      simp only [List.length_map, List.length_range']
      rcases Nat.lt_or_ge j i with h | h
      · have := Blob.offset_add_extent_le_offset (b := b) h hi
        omega
      · have := Blob.offset_add_extent_le_offset (b := b) (i := b.stop i - 1) (j := j) (by omega) hjs
        omega
    · simp [window, Blob.extent_eq_zero (Nat.le_of_not_lt hjs)]

end Instance

end BehaviorTree
