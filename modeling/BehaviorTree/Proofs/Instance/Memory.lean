import BehaviorTree.Proofs.Instance.Frame

/-!
# The common memory, byte by byte

Which bytes an operation on a node changes, those between the spans of the nodes included. No operation on
data or results reads the counters of the instance.
-/

namespace BehaviorTree

theorem Buffer.getElem?_overwrite {n : Nat} {buf buf' : Buffer n} {start : Nat} {bs : List UInt8}
    (h : buf.overwrite start bs = .ok buf') (k : Nat) :
    buf'[k]? = if start ≤ k ∧ k < start + bs.length then bs[k - start]? else buf[k]? := by
  unfold overwrite at h
  split at h
  · rename_i hle
    cases h
    rw [getElem?_put]
    by_cases hk : start ≤ k ∧ k < start + bs.length
    · rw [if_pos hk, if_pos (by omega)]
    · rw [if_neg hk, if_neg (by omega)]
  · cases h

/-- Byte `k` of the memory belongs to node `i`. -/
def Blob.InSpan (b : Blob) (i k : Nat) : Prop := Within (b.offset i) (b.offset i + b.extent i) k

theorem Blob.InSpan.unique {b : Blob} {i j k : Nat} (hi : i < b.size) (hj : j < b.size)
    (h : b.InSpan i k) (h' : b.InSpan j k) : i = j := by
  refine Decidable.byContradiction fun hne => ?_
  have hd := Blob.spans_disjoint hi hj hne
  obtain ⟨h₁, h₂⟩ := h
  obtain ⟨h₃, h₄⟩ := h'
  omega

namespace Instance

variable {b : Blob} {s s' : Instance b} {i k start stop : Nat}

theorem getElem?_defaults (hk : k < b.regionSize) : (defaults b)[k]? = some (b.byteAt k) := by
  rw [Vector.getElem?_eq_getElem hk]
  simp [defaults]

theorem restoreSpan_data (h : s.restoreSpan start stop = .ok s') (k : Nat) :
    s'.data[k]? = if start ≤ k ∧ k < stop then (defaults b)[k]? else s.data[k]? := by
  unfold restoreSpan at h
  split at h
  · cases h
  rename_i hle
  simp only [Checked.pure_eq, Layout.slice] at h
  split at h
  · rename_i hstop
    simp only [Checked.ok_bind] at h
    obtain ⟨buf, hbuf, h⟩ := Checked.bind_eq_ok.mp h
    cases h
    rw [Buffer.getElem?_overwrite hbuf, List.length_map, List.length_range']
    by_cases hk : start ≤ k ∧ k < stop
    · rw [if_pos hk, if_pos (by omega), getElem?_defaults (by omega), List.getElem?_map,
        List.getElem?_range' (by omega), Option.map_some]
      congr 2
      omega
    · rw [if_neg hk, if_neg (by omega)]
  · cases h

theorem restore_data (hi : i < b.size) (h : s.restore i = .ok s') (k : Nat) : s'.data[k]? =
    if b.offset i ≤ k ∧ k < b.offset i + b.extent i then (defaults b)[k]? else s.data[k]? := by
  rw [restore, Blob.offsetOf_eq hi, Checked.ok_bind, Blob.sizeOf_eq hi, Checked.ok_bind] at h
  exact restoreSpan_data h k

theorem writeAt_data (hi : i < b.size) {t : ValueType} {o : Nat} {v : t.Value} {a : Address}
    (h : s.writeAt i o v a = .ok s') : o + t.size ≤ b.extent i ∧ ∀ k : Nat, s'.data[k]? =
      if b.offset i + o ≤ k ∧ k < b.offset i + o + t.size then v.1[k - (b.offset i + o)]?
      else s.data[k]? := by
  unfold writeAt at h
  obtain ⟨start, hstart, h⟩ := Checked.bind_eq_ok.mp h
  obtain ⟨buf, hbuf, h⟩ := Checked.bind_eq_ok.mp h
  cases h
  unfold place at hstart
  obtain ⟨start', hlocate, hstart⟩ := Checked.bind_eq_ok.mp hstart
  rw [locate_eq s hi, s.length_bytes_cell hi] at hlocate
  split at hlocate
  · cases hlocate
  split at hlocate
  · cases hlocate
  cases hlocate
  split at hstart
  · cases hstart
  split at hstart
  · cases hstart
  cases hstart
  refine ⟨by omega, fun k => ?_⟩
  rw [Buffer.getElem?_overwrite hbuf, v.2]

theorem fill_data (hi : i < b.size) {byte : UInt8} (h : s.fill i byte = .ok s') :
    ∀ k, ¬ b.InSpan i k → s'.data[k]? = s.data[k]? := by
  intro k hk
  rw [fill, Blob.sizeOf_eq hi, Checked.ok_bind, putBytes, Blob.offsetOf_eq hi, Checked.ok_bind,
    Blob.sizeOf_eq hi, Checked.ok_bind, if_pos List.length_replicate] at h
  obtain ⟨buf, hbuf, h⟩ := Checked.bind_eq_ok.mp h
  cases h
  rw [Buffer.getElem?_overwrite hbuf, if_neg (by rw [List.length_replicate]; exact hk)]

theorem setState_data {r : Status} (h : s.setState i r = .ok s') : s'.data = s.data := by
  unfold setState at h
  split at h
  · cases h
    rfl
  · cases h

theorem clearStates_data (h : s.clearStates start stop = .ok s') : s'.data = s.data := by
  unfold clearStates at h
  split at h
  · cases h
    rfl
  · cases h

theorem resetSubtree_data (hi : i < b.size) (h : s.resetSubtree i = .ok s') (k : Nat) : s'.data[k]? =
    if b.offset i ≤ k ∧ k < b.offset (b.stop i - 1) + b.extent (b.stop i - 1) then (defaults b)[k]?
    else s.data[k]? := by
  rw [resetSubtree, subtreeSpan_eq hi, Checked.ok_bind] at h
  obtain ⟨s₁, hs₁, h⟩ := Checked.bind_eq_ok.mp h
  obtain ⟨stop, -, h⟩ := Checked.bind_eq_ok.mp h
  rw [clearStates_data h]
  exact restoreSpan_data hs₁ k

/-! ## Counters -/

/-- The same memory and results with other counters. -/
def stamp (s : Instance b) (tick : UInt64) (depth : Nat) : Instance b := { s with tick, depth }

/-- A change of memory or results that has nothing to do with the counters. -/
def Untimed (f : Instance b → Checked (Instance b)) : Prop :=
  ∀ (s : Instance b) tick depth, f (s.stamp tick depth) = (·.stamp tick depth) <$> f s

namespace Untimed

variable {f : Instance b → Checked (Instance b)}

theorem counters (hf : Untimed f) (h : f s = .ok s') : s'.tick = s.tick ∧ s'.depth = s.depth := by
  have hs : f s = (·.stamp s.tick s.depth) <$> f s := hf s s.tick s.depth
  rw [h] at hs
  rw [Except.ok.inj hs]
  exact ⟨rfl, rfl⟩

theorem restoreSpan (start stop : Nat) : Untimed (b := b) (·.restoreSpan start stop) := by
  intro s tick depth
  unfold Instance.restoreSpan
  split
  · rfl
  · simp only [Checked.pure_eq, map_bind]
    rfl

theorem restore (i : Nat) : Untimed (b := b) (·.restore i) := by
  intro s tick depth
  simp only [Instance.restore, map_bind]
  exact bind_congr fun offset => bind_congr fun size => restoreSpan _ _ s tick depth

theorem fill (i : Nat) (byte : UInt8) : Untimed (b := b) (·.fill i byte) := by
  intro s tick depth
  simp only [Instance.fill, putBytes, map_bind]
  refine bind_congr fun size => bind_congr fun offset => bind_congr fun size' => ?_
  split
  · simp only [map_bind]
    rfl
  · rfl

theorem writeAt (i o : Nat) {t : ValueType} (v : t.Value) (a : Address) :
    Untimed (b := b) (·.writeAt i o v a) := by
  intro s tick depth
  simp only [Instance.writeAt, map_bind, map_pure]
  rfl

theorem setState (i : Nat) (r : Status) : Untimed (b := b) (·.setState i r) := by
  intro s tick depth
  unfold Instance.setState
  split <;> rfl

theorem clearStates (start stop : Nat) : Untimed (b := b) (·.clearStates start stop) := by
  intro s tick depth
  unfold Instance.clearStates
  split <;> rfl

theorem resetSubtree (i : Nat) : Untimed (b := b) (·.resetSubtree i) := by
  intro s tick depth
  simp only [Instance.resetSubtree, map_bind]
  refine bind_congr fun span => ?_
  have hspan : (s.stamp tick depth).restoreSpan span.1 span.2 = _ := restoreSpan span.1 span.2 s tick depth
  rw [hspan, bind_map_left]
  exact bind_congr fun s' => bind_congr fun stop => clearStates i stop s' tick depth

end Untimed

end Instance

end BehaviorTree
