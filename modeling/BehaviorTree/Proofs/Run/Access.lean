import BehaviorTree.Proofs.Instance.Frame
import BehaviorTree.Proofs.Run.Yields

/-!
# Access to the cell of a node

Reads of a node's data look at its cell only, and writes replace the cell.
-/

namespace BehaviorTree

namespace Cell

/-- Byte `k`, as a result. The index `i` of the node stands in the errors. -/
def status (c : Cell) (i k : Nat) : Except Error Status :=
  if c.bytes.length = 0 then .error (.unallocatedData i)
  else match c.bytes[k]? with
    | some byte => Status.ofBits byte
    | none => .error (.dataOutOfBounds i k 1 c.bytes.length)

variable {c c' : Cell} {i k : Nat} {st : Status}

theorem status_eq_ok : c.status i k = .ok st ↔ c.bytes[k]? = some st.bits := by
  unfold status Status.ofBits
  constructor
  · intro h
    split at h
    · cases h
    · split at h
      · rename_i hk
        split at h
        · rename_i hb
          cases h
          rw [hk, Status.ofBits?_eq_some.mp hb]
        · cases h
      · cases h
  · intro h
    obtain ⟨hk, -⟩ := List.getElem?_eq_some_iff.mp h
    rw [if_neg (by omega), h]
    simp

theorem u8_encode (v : UInt8) : (PlainData.u8.encode v).1 = [v] := by
  change [UInt8.ofNat v.toNat] = [v]
  simp

theorem u8_decode (bs : PlainData.u8.type.Value) (v : UInt8) (h : bs.1 = [v]) :
    PlainData.u8.decode bs = v := by
  rw [show bs = PlainData.u8.encode v from Subtype.ext (h.trans (u8_encode v).symm),
    PlainData.decode_encode]

theorem read_u8 (c : Cell) (i k : Nat) : (do
    let bs ← c.read PlainData.u8.type i k
    Status.ofBits (PlainData.u8.decode bs)) = c.status i k := by
  unfold read status
  by_cases h₀ : c.bytes.length = 0
  · rw [if_pos h₀, if_pos h₀]
    rfl
  rw [if_neg h₀, if_neg h₀]
  by_cases hk : k < c.bytes.length
  · have hle : k + PlainData.u8.type.size ≤ c.bytes.length := hk
    have hbyte : window c.bytes k 1 = [c.bytes[k]] := by
      rw [window, List.drop_eq_getElem_cons hk]
      rfl
    rw [dif_pos hle, List.getElem?_eq_getElem hk]
    exact congrArg Status.ofBits (u8_decode _ _ hbyte)
  · have hle : ¬ k + PlainData.u8.type.size ≤ c.bytes.length := hk
    rw [dif_neg hle, List.getElem?_eq_none (Nat.le_of_not_lt hk)]
    rfl

theorem write_u8 (hk : k < c.bytes.length) (i : Nat) (v : UInt8) :
    c.write i k (PlainData.u8.encode v) = .ok { c with bytes := c.bytes.set k v } := by
  have h₁ : ¬ c.bytes.length < k + PlainData.u8.type.size := Nat.not_lt.mpr hk
  have h₂ : ¬ k % PlainData.u8.type.align ≠ 0 := fun h => h (Nat.mod_one k)
  rw [write, if_neg (by omega), if_neg h₁, if_neg h₂, u8_encode, overlay_singleton hk]

end Cell

namespace Run

variable {b : Blob} {α : Type} {w : World b} {i k : Nat}

theorem children_yields (hi : i < b.size) {Q : Except Fault (List Nat) → World b → Prop} :
    (children i : Run b (List Nat)).Yields w Q ↔ Q (.ok (b.childList i)) w := by
  rw [children, yields_lift, Blob.children_eq hi]

theorem readHead_yields (hi : i < b.size) (p : PlainData α) {Q : Except Fault α → World b → Prop} :
    (readHead p i : Run b α).Yields w Q ↔
      Q (Checked.ofExcept (p.decode <$> (w.inst.cell i).read p.type i 0)) w := by
  simp only [readHead, yields_bind, yields_inst, yields_lift, yields_pure, Instance.readAt_eq _ hi]
  cases (w.inst.cell i).read p.type i 0 <;> rfl

theorem readStatus_yields (hi : i < b.size) {Q : Except Fault Status → World b → Prop} :
    (readStatus i k : Run b Status).Yields w Q ↔
      Q (Checked.ofExcept ((w.inst.cell i).status i k)) w := by
  simp only [readStatus, yields_bind, yields_inst, yields_lift, Instance.readAt_eq _ hi]
  rw [← Cell.read_u8]
  cases (w.inst.cell i).read PlainData.u8.type i k <;> rfl

/-- A change of the cell of node `i`: the world afterwards has the new cell, or is the old world if
there is none. -/
def Puts (w : World b) (i : Nat) (c : Except Error Cell) (r : Except Fault Unit) (w' : World b) : Prop :=
  match c with
  | .ok c => r = .ok () ∧ w.inst.Sets i c w'.inst ∧ w'.board = w.board
  | .error e => r = .error (.error e) ∧ w' = w

theorem writeAt_yields (hi : i < b.size) {t : ValueType} (ht : t.align ∣ dataAlign) (o : Nat) (v : t.Value)
    (a : Address) :
    (update fun s => s.writeAt i o v a : Run b Unit).Yields w (Puts w i ((w.inst.cell i).write i o v)) := by
  have h := w.inst.writeAt_eq hi ht o v a
  rw [yields_update]
  unfold Puts
  cases hc : (w.inst.cell i).write i o v with
  | ok c =>
      rw [hc] at h
      obtain ⟨s', hs', hset⟩ := h
      rw [hs']
      exact ⟨rfl, hset, rfl⟩
  | error e =>
      rw [hc] at h
      rw [h]
      exact ⟨rfl, rfl⟩

theorem writeHead_yields (hi : i < b.size) (p : PlainData α) (hp : p.type.align ∣ dataAlign) (a : α) :
    (writeHead p i a : Run b Unit).Yields w (Puts w i ((w.inst.cell i).write i 0 (p.encode a))) :=
  writeAt_yields hi hp 0 (p.encode a) default

theorem writeStatus_puts (hi : i < b.size) (st : Status) : (writeStatus i k st : Run b Unit).Yields w
    (Puts w i ((w.inst.cell i).write i k (PlainData.u8.encode st.bits))) :=
  writeAt_yields hi ⟨dataAlign, (Nat.one_mul _).symm⟩ k (PlainData.u8.encode st.bits) default

theorem writeStatus_yields (hi : i < b.size) (hk : k < (w.inst.cell i).bytes.length) (st : Status) :
    (writeStatus i k st : Run b Unit).Yields w (Puts w i
      (.ok { w.inst.cell i with bytes := (w.inst.cell i).bytes.set k st.bits })) := by
  have h := writeStatus_puts (w := w) (k := k) hi st
  rw [Cell.write_u8 hk] at h
  exact h

theorem clearSubtree_yields (hi : i < b.size) : (clearSubtree i : Run b Unit).Yields w fun r w' =>
    r = .ok () ∧ w.inst.Clears i (b.stop i) w'.inst ∧ w'.board = w.board := by
  obtain ⟨s', hs', hc⟩ := Instance.clearStates_clears w.inst (Nat.le_of_lt (Blob.lt_stop hi))
    (Blob.stop_le hi)
  simp only [clearSubtree, yields_bind, yields_lift, Blob.endOf_eq hi, yields_update, hs', true_and,
    and_true]
  exact hc

end Run

end BehaviorTree
