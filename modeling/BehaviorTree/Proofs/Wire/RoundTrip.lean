import BehaviorTree.Proofs.Json.Parse
import BehaviorTree.Proofs.Layout.Rebuild
import BehaviorTree.Proofs.MessagePack.Limits
import BehaviorTree.Proofs.MessagePack.Reads
import BehaviorTree.Proofs.Structure.Refinement
import BehaviorTree.Proofs.Wire.Layout

/-!
# Stored blobs are read back

A blob is read back from its JSON text, and from its MessagePack bytes, whatever follows these, if its words
are few enough for MessagePack. No two blobs have the same bytes, however many words they have.
-/

namespace BehaviorTree

/-! ## Layouts as values -/

namespace Layout

theorem plain_fieldNames : ∀ name ∈ fieldNames, Json.PlainText name.toList := by decide

theorem ofJson?_toJson (l : Layout) : ofJson? l.toJson = some l := by
  have hrecord : l.toJson.record? fieldNames = some (l.columns.map fun ns => .array (ns.map .ofNat)) :=
    Json.record?_ofFields_zip (by decide) plain_fieldNames rfl
  rw [ofJson?, hrecord, Option.bind_eq_bind, Option.bind_some]
  refine readColumns?_columns (fun bound ns hns => ?_) l
  change (ns.map Json.ofNat).mapM (·.nat? bound) = some ns
  rw [List.mapM_map]
  exact (mapM_eq_some fun n hn => Json.nat?_ofNat (hns n hn)).trans (congrArg some (List.map_id' ns))

theorem plain_toJson (l : Layout) : l.toJson.Plain := by
  refine Json.plain_ofFields_zip plain_fieldNames fun v hv => ?_
  obtain ⟨ns, -, rfl⟩ := List.mem_map.mp hv
  refine Json.plainItems_iff.mpr fun v hv => ?_
  obtain ⟨n, -, rfl⟩ := List.mem_map.mp hv
  exact ⟨n, rfl⟩

theorem ofMessagePack?_columns (l : Layout) :
    ofMessagePack? (.array (l.columns.map fun ns => .array (ns.map .unsigned))) = some l := by
  have hrecord : (MessagePack.array (l.columns.map fun ns => .array (ns.map .unsigned))).record? fieldNames =
      some (l.columns.map fun ns => .array (ns.map .unsigned)) := rfl
  rw [ofMessagePack?, hrecord, Option.bind_eq_bind, Option.bind_some]
  refine readColumns?_columns (fun bound ns hns => ?_) l
  change (ns.map MessagePack.unsigned).mapM (·.nat? bound) = some ns
  rw [List.mapM_map]
  exact (mapM_eq_some fun n hn => if_pos (hns n hn)).trans (congrArg some (List.map_id' ns))

/-- No MessagePack value is read as a layout with `2 ^ 32` words. -/
theorem size_words_lt {v : MessagePack} (hv : v.ShortFields) {l : Layout} (h : ofMessagePack? v = some l) :
    l.words.size < UInt32.size := by
  obtain ⟨vs, hvs, h⟩ := Option.bind_eq_some_iff.mp h
  obtain ⟨columns, hcolumns, h⟩ := Option.bind_eq_some_iff.mp h
  match columns, h with
  | [types, ends, offsets, sizes, words], h =>
    cases h
    obtain ⟨x, hx, hwords⟩ := mem_of_mapM hcolumns words (by simp)
    obtain ⟨items, hitems, hwords⟩ := Option.bind_eq_some_iff.mp hwords
    have hlen : words.length = items.length := length_of_mapM hwords
    have hshort := hv.2 _ vs hvs x.2 (List.of_mem_zip hx).2 items hitems
    simpa [hlen] using hshort

end Layout

/-! ## Blobs -/

namespace Blob

variable {b b' : Blob}

theorem ofJsonText_toJsonText (b : Blob) : ofJsonText b.toJsonText = .ok b := by
  refine ofWire_eq_ok_iff.mpr ?_
  rw [toJsonText, String.toList_ofList, Json.parse?_pretty b.plain_toJson]
  exact b.ofJson?_toJson

theorem columns_eq (b : Blob) : b.columns = b.columns.take 4 ++ [b.words.toList.map UInt64.toNat] := rfl

/-- The columns before the words have a number for each node, so they are never too long. -/
theorem length_of_mem_columns (b : Blob) : ∀ ns ∈ b.columns.take 4, ns.length < UInt32.size := by
  have hsize := b.size_lt
  simpa [Layout.columns, Layout.size, b.wellFormed.ends_size, b.wellFormed.offsets_size,
    b.wellFormed.sizes_size] using hsize

theorem ofMessagePack_toMessagePack (b : Blob) (hwords : b.words.size < UInt32.size) (rest : List UInt8) :
    ofMessagePack (b.toMessagePack ++ rest) = .ok b := by
  -- of the levels of nesting, the record takes one and each column another
  have hcolumns : ∀ ns ∈ b.columns, MessagePack.Reads (MessagePack.readWithin (1021 + 1)) (MessagePack.writeNats ns)
      (.array (ns.map .unsigned)) := by
    intro ns hns
    refine MessagePack.reads_writeNats 1021 (b.columns_lt_word ns hns) ?_
    rw [b.columns_eq, List.mem_append, List.mem_singleton] at hns
    rcases hns with hns | rfl
    · exact b.length_of_mem_columns ns hns
    · simpa using hwords
  have hread : MessagePack.read (b.toMessagePack ++ rest) = some (_, rest) :=
    MessagePack.reads_array hcolumns (show 5 < UInt32.size by decide) rest
  refine ofWire_eq_ok_iff.mpr ?_
  rw [hread]
  exact b.ofMessagePack?_columns

/-- No two blobs have the same bytes, however many words they have. -/
theorem toMessagePack_injective (h : b.toMessagePack = b'.toMessagePack) : b = b' := by
  have hbodies : b.columns.flatMap MessagePack.writeNats = b'.columns.flatMap MessagePack.writeNats :=
    List.append_cancel_left h
  have hcolumns : b.columns = b'.columns := by
    rw [b.columns_eq, b'.columns_eq] at hbodies ⊢
    exact MessagePack.flatMap_writeNats_injective rfl b.columns_lt_word b'.columns_lt_word b.length_of_mem_columns
      b'.length_of_mem_columns hbodies
  have hb := Layout.toBlob_eq_ok_iff.mpr (Layout.columns_injective hcolumns)
  rw [Layout.toBlob_eq_ok_iff.mpr rfl] at hb
  cases hb
  rfl

/-- MessagePack bytes hold a blob exactly if it has fewer than `2 ^ 32` words. -/
theorem exists_messagePack_iff : (∃ bytes, ofMessagePack bytes = .ok b) ↔ b.words.size < UInt32.size := by
  constructor
  · rintro ⟨bytes, h⟩
    obtain ⟨⟨v, rest⟩, hread, hl⟩ := Option.bind_eq_some_iff.mp (ofWire_eq_ok_iff.mp h)
    exact Layout.size_words_lt (MessagePack.gives_readWithin _ bytes v rest hread) hl
  · intro hwords
    exact ⟨b.toMessagePack ++ [], ofMessagePack_toMessagePack b hwords []⟩

/-- A stored blob is read back as it was, so trees of it are driven as before. MessagePack counts the
words in at most four bytes, and no bytes hold more of them (`exists_messagePack_iff`); JSON has no limit. -/
theorem stored_reloads (b : Blob) :
    (b.words.size < UInt32.size → ∀ rest, ofMessagePack (b.toMessagePack ++ rest) = .ok b) ∧
    ofJsonText b.toJsonText = .ok b ∧
    (∀ b', b.toMessagePack = b'.toMessagePack → b = b') ∧
    ∀ (m : Machine) (calls : List (Call × Blackboard)),
      (b.words.size < UInt32.size → ∀ rest, (ofMessagePack (b.toMessagePack ++ rest)).map
        (fun b' => (Tree.new b').trail m calls) = .ok ((Tree.new b).trail m calls)) ∧
      (ofJsonText b.toJsonText).map (fun b' => (Tree.new b').trail m calls) = .ok ((Tree.new b).trail m calls) := by
  have hbytes := b.ofMessagePack_toMessagePack
  have htext := b.ofJsonText_toJsonText
  refine ⟨hbytes, htext, fun b' => toMessagePack_injective, fun m calls => ⟨fun hwords rest => ?_, ?_⟩⟩
  · rw [hbytes hwords rest]
    rfl
  · rw [htext]
    rfl

theorem stored_reloads_busySequence : Blob.busySequence.words.size < UInt32.size ∧
    ofMessagePack (Blob.busySequence.toMessagePack ++ [0xc1]) = .ok .busySequence ∧
    (ofMessagePack (Blob.busySequence.toMessagePack ++ [0xc1])).map
      (fun b' => (Tree.new b').trail .ofLibrary [(.tick, .empty)]) =
      .ok ((Tree.new .busySequence).trail .ofLibrary [(.tick, .empty)]) ∧
    Blob.busySequence ≠ .busyLeaf ∧ Blob.busySequence.toMessagePack ≠ Blob.busyLeaf.toMessagePack := by
  have hwords : Blob.busySequence.words.size < UInt32.size := by decide
  obtain ⟨hbytes, -, hinjective, hruns⟩ := stored_reloads .busySequence
  have hne : Blob.busySequence ≠ .busyLeaf := by
    intro h
    exact absurd (congrArg (fun b => b.types.size) h) (by decide)
  exact ⟨hwords, hbytes hwords _, (hruns .ofLibrary _).1 hwords _, hne, fun h => hne (hinjective _ h)⟩

end Blob

/-- One node without data, and `n` words that belong to no node. -/
def Layout.spare (n : Nat) : Layout where
  types := #[⟨1⟩]
  ends := #[1]
  offsets := #[0]
  sizes := #[0]
  words := .replicate n 0

theorem Layout.wellFormed_spare (n : Nat) : (spare n).WellFormed := by
  have hroot : ∀ i < (spare n).size, i = 0 := fun i hi => Nat.lt_one_iff.mp hi
  exact {
    size_pos := Nat.one_pos
    ends_size := rfl
    offsets_size := rfl
    sizes_size := rfl
    stop_root := rfl
    lt_stop := fun i hi => hroot i hi ▸ Nat.one_pos
    stop_le := fun i hi => hroot i hi ▸ Nat.le_refl 1
    aligned := fun i hi => by rw [hroot i hi]; rfl
    within := fun i hi => hroot i hi ▸ Nat.zero_le _
    ordered := fun i hi => nomatch hroot (i + 1) hi
    tiled := fun i hi => hroot i hi ▸ ⟨[], rfl⟩ }

namespace Blob

def spare (n : Nat) : Blob := ⟨.spare n, Layout.validate_eq_ok_iff.mpr (Layout.wellFormed_spare n)⟩

theorem size_words_spare (n : Nat) : (spare n).words.size = n := Array.size_replicate

/-- Nothing keeps a valid blob from having more words than MessagePack counts, and such a blob is lost. -/
theorem spare_not_reloaded : (spare UInt32.size).validate = .ok () ∧
    ∀ rest, ofMessagePack ((spare UInt32.size).toMessagePack ++ rest) ≠ .ok (spare UInt32.size) := by
  refine ⟨(spare UInt32.size).valid, fun rest h => ?_⟩
  have hwords := exists_messagePack_iff.mp ⟨_, h⟩
  rw [size_words_spare] at hwords
  exact Nat.lt_irrefl _ hwords

end Blob

end BehaviorTree
