import BehaviorTree.Proofs.Layout.Preorder
import BehaviorTree.Wire.Blob

/-!
# Layouts as columns of numbers

A stored blob is five columns of numbers, each below the bound of its array. They say all of a layout, and
what was read of a valid one is this blob.
-/

namespace BehaviorTree

namespace Layout

variable {l : Layout}

theorem ofColumns?_columns (l : Layout) : ofColumns? l.columns = some l := by
  have hnat : ∀ xs : Array UInt32, ((xs.toList.map UInt32.toNat).map UInt32.ofNat).toArray = xs := by
    intro xs
    simp [Function.comp_def]
  have hword : ∀ xs : Array UInt64, ((xs.toList.map UInt64.toNat).map UInt64.ofNat).toArray = xs := by
    intro xs
    simp [Function.comp_def]
  have htype : ∀ xs : Array TypeId,
      ((xs.toList.map (·.val.toNat)).map fun n => (⟨UInt32.ofNat n⟩ : TypeId)).toArray = xs := by
    intro xs
    simp [Function.comp_def]
  rw [columns, ofColumns?, htype, hnat, hnat, hnat, hword]

theorem columns_injective {l l' : Layout} (h : l.columns = l'.columns) : l = l' := by
  have hl := ofColumns?_columns l
  rw [h, ofColumns?_columns] at hl
  exact (Option.some.inj hl).symm

/-- The numbers of a layout are below the bounds of their columns. -/
theorem columns_lt (l : Layout) : ∀ x ∈ columnBounds.zip l.columns, ∀ n ∈ x.2, n < x.1 := by
  have hnat : ∀ xs : Array UInt32, ∀ n ∈ xs.toList.map UInt32.toNat, n < UInt32.size := by
    intro xs n hn
    obtain ⟨x, -, rfl⟩ := List.mem_map.mp hn
    exact x.toNat_lt
  refine List.forall_mem_cons.mpr ⟨fun n hn => ?_, List.forall_mem_cons.mpr ⟨hnat _, List.forall_mem_cons.mpr
    ⟨hnat _, List.forall_mem_cons.mpr ⟨hnat _, List.forall_mem_cons.mpr ⟨fun n hn => ?_, nofun⟩⟩⟩⟩⟩
  · obtain ⟨x, -, rfl⟩ := List.mem_map.mp hn
    exact x.val.toNat_lt
  · obtain ⟨x, -, rfl⟩ := List.mem_map.mp hn
    exact x.toNat_lt

theorem columns_lt_word (l : Layout) : ∀ ns ∈ l.columns, ∀ n ∈ ns, n < UInt64.size := by
  intro ns hns n hn
  have hsnd : (columnBounds.zip l.columns).map Prod.snd = l.columns := List.map_snd_zip (Nat.le_refl 5)
  rw [← hsnd] at hns
  obtain ⟨x, hx, rfl⟩ := List.mem_map.mp hns
  have hbound : ∀ bound ∈ columnBounds, bound ≤ UInt64.size := by decide
  exact Nat.lt_of_lt_of_le (l.columns_lt x hx n hn) (hbound x.1 (List.of_mem_zip hx).1)

/-- Columns that are stored so that each is read back make up the layout again. -/
theorem readColumns?_columns {α : Type} {read : Nat → α → Option (List Nat)} {value : List Nat → α}
    (h : ∀ bound ns, (∀ n ∈ ns, n < bound) → read bound (value ns) = some ns) (l : Layout) :
    readColumns? read (l.columns.map value) = some l := by
  have hcolumns : (columnBounds.zip (l.columns.map value)).mapM (fun x => read x.1 x.2) = some l.columns := by
    rw [List.zip_map_right, List.mapM_map]
    exact (mapM_eq_some fun x hx => h x.1 x.2 (l.columns_lt x hx)).trans
      (congrArg some (List.map_snd_zip (Nat.le_refl 5)))
  rw [readColumns?, hcolumns]
  exact ofColumns?_columns l

end Layout

namespace Blob

variable {b : Blob} {error : WireError} {l : Option Layout}

/-- What is read of a layout is the blob of this layout. -/
theorem ofWire_eq_ok_iff : ofWire error l = .ok b ↔ l = some b.toLayout := by
  cases l with
  | none => simp [ofWire]
  | some l =>
      rw [Option.some.injEq, eq_comm (a := l), ← Layout.toBlob_eq_ok_iff, ofWire]
      cases l.toBlob with
      | ok b' => simp
      | error e => simp

end Blob

end BehaviorTree
