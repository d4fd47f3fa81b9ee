import BehaviorTree.MessagePack.Reader
import BehaviorTree.Proofs.Checked

/-!
# Limits of MessagePack

`Gives r P`: whatever the bytes, a value that the reader `r` returns satisfies `P`. No header announces
`2 ^ 32` items, so no list that is read is that long, at the top or as a field of a record.
-/

namespace BehaviorTree

namespace MessagePack

variable {α β : Type} {a : α}

def Gives (r : Reader α) (P : α → Prop) : Prop := ∀ bs a rest, r bs = some (a, rest) → P a

namespace Gives

variable {P Q : α → Prop} {r : Reader α}

theorem pure (h : P a) : Gives (pure a) P := by
  rintro bs _ _ ⟨⟩
  exact h

theorem failure : Gives (failure : Reader α) P := nofun

theorem mono (hr : Gives r Q) (h : ∀ a, Q a → P a) : Gives r P :=
  fun bs a rest ha => h a (hr bs a rest ha)

theorem bind {P : β → Prop} {f : α → Reader β} (hr : Gives r Q) (hf : ∀ a, Q a → Gives (f a) P) :
    Gives (r >>= f) P := by
  intro bs c rest h
  obtain ⟨⟨a, bs'⟩, ha, hc⟩ := Option.bind_eq_some_iff.mp h
  exact hf a (hr bs a bs' ha) bs' c rest hc

theorem map {P : β → Prop} {f : α → β} (hr : Gives r Q) (hf : ∀ a, Q a → P (f a)) : Gives (f <$> r) P := by
  rw [map_eq_pure_bind]
  exact hr.bind fun a ha => .pure (hf a ha)

theorem many (h : Gives r P) : ∀ n, Gives (readMany r n) fun xs => xs.length = n ∧ ∀ x ∈ xs, P x
  | 0 => .pure ⟨rfl, nofun⟩
  | n + 1 => h.bind fun _ hx => (many h n).bind fun _ hxs =>
      .pure ⟨congrArg Nat.succ hxs.1, List.forall_mem_cons.mpr ⟨hx, hxs.2⟩⟩

end Gives

theorem ofBigEndian_lt (bs : List UInt8) : ofBigEndian bs < Bytes.bound bs.length := by
  have hfold : ∀ (bs : List UInt8) (start : Nat), bs.foldl (fun m b => 256 * m + b.toNat) start <
      (start + 1) * Bytes.bound bs.length := by
    intro bs
    induction bs with
    | nil => simp [Bytes.bound]
    | cons b bs ih =>
        intro start
        have hb := b.toNat_lt
        calc (b :: bs).foldl (fun m b => 256 * m + b.toNat) start
            < (256 * start + b.toNat + 1) * Bytes.bound bs.length := ih _
          _ ≤ (start + 1) * 256 * Bytes.bound bs.length := Nat.mul_le_mul_right _ (by omega)
          _ = (start + 1) * Bytes.bound (b :: bs).length := Nat.mul_assoc _ _ _
  have h := hfold bs 0
  rwa [Nat.zero_add, Nat.one_mul] at h

theorem gives_bytes (n : Nat) : Gives (readBytes n) (·.length = n) := by
  intro bs a rest h
  rw [readBytes] at h
  split at h
  · cases h
    exact List.length_take_of_le ‹_›
  · cases h

theorem gives_nat (width : Nat) : Gives (readNat width) (· < Bytes.bound width) :=
  (gives_bytes width).map fun bs hbs => hbs ▸ ofBigEndian_lt bs

theorem gives_sized (width : Nat) : Gives (readSized width) (·.length < Bytes.bound width) :=
  (gives_nat width).bind fun n hn => (gives_bytes n).mono fun _ h => h ▸ hn

/-- A value that is read as no list of `2 ^ 32` items. -/
def Short (v : MessagePack) : Prop := ∀ items, v.items? = some items → items.length < UInt32.size

/-- A value with only short lists as the fields of a record, and short itself. -/
def ShortFields (v : MessagePack) : Prop :=
  v.Short ∧ ∀ names vs, v.record? names = some vs → ∀ x ∈ vs, x.Short

/-- The counts that a header announces, and those that it has room for, are below `2 ^ 32`. -/
def Header.Short : Header → Prop
  | .array n => n < UInt32.size
  | .sizedArray width | .sizedBinary width => Bytes.bound width ≤ UInt32.size
  | .value v => v.ShortFields
  | _ => True

theorem Header.short_ofByte? {byte : UInt8} {h : Header} (hb : Header.ofByte? byte = some h) : h.Short := by
  unfold Header.ofByte? at hb
  simp only at hb
  split at hb
  · cases hb
    exact ⟨nofun, nofun⟩
  split at hb
  · cases hb
    trivial
  split at hb
  · cases hb
    exact Nat.lt_of_lt_of_le (show byte.toNat - 0x90 < 16 by omega) (by decide)
  split at hb
  · cases hb
    trivial
  split at hb
  · cases hb
    exact ⟨nofun, nofun⟩
  split at hb
  all_goals cases hb
  all_goals first
    | trivial
    | exact ⟨nofun, nofun⟩
    | change Bytes.bound _ ≤ UInt32.size
      decide

theorem gives_flat {h : Header} (hs : h.Short) : Gives (readFlat h) ShortFields := by
  cases h with
  | value v => exact .pure hs
  | unsigned width => exact (gives_nat width).map fun _ _ => ⟨nofun, nofun⟩
  | signed width => exact (gives_nat width).map fun _ _ => ⟨nofun, nofun⟩
  | float width => exact (gives_bytes width).map fun _ _ => ⟨nofun, nofun⟩
  | string n => exact (gives_bytes n).map fun _ _ => ⟨nofun, nofun⟩
  | sizedString width => exact (gives_sized width).map fun _ _ => ⟨nofun, nofun⟩
  | sizedBinary width =>
      refine (gives_sized width).map fun bytes hbytes => ⟨?_, nofun⟩
      rintro _ ⟨⟩
      rw [List.length_map]
      exact Nat.lt_of_lt_of_le hbytes hs
  | _ => exact .failure

theorem shortFields_array {items : List MessagePack} (hlen : items.length < UInt32.size)
    (hitems : ∀ x ∈ items, x.Short) : (array items).ShortFields := by
  refine ⟨?_, fun names vs h => ?_⟩
  · rintro _ ⟨⟩
    exact hlen
  · rw [record?] at h
    split at h
    · cases h
      exact hitems
    · cases h

theorem shortFields_map {entries : List (MessagePack × MessagePack)} (hentries : ∀ e ∈ entries, e.2.Short) :
    (map entries).ShortFields := by
  refine ⟨nofun, fun names vs h x hx => ?_⟩
  obtain ⟨placed, hplaced, h⟩ := Option.bind_eq_some_iff.mp h
  obtain ⟨i, -, hi⟩ := mem_of_mapM h x hx
  split at hi
  · rename_i e hfilter
    cases hi
    have he : e ∈ placed.filter (·.1 = i) := by simp [hfilter]
    obtain ⟨e', he', hplace⟩ := mem_of_mapM hplaced e (List.mem_filter.mp he).1
    obtain ⟨k, -, hk⟩ := Option.bind_eq_some_iff.mp hplace
    cases hk
    exact hentries e' he'
  · cases hi

theorem gives_nested {read : Reader MessagePack} (hread : Gives read Short) {h : Header} (hs : h.Short) :
    Gives (readNested read h) ShortFields := by
  have hpair : Gives (readPair read) (·.2.Short) :=
    (hread.bind fun _ _ => hread.bind fun _ hv => .pure hv)
  cases h with
  | array n => exact (hread.many n).map fun _ hxs => shortFields_array (hxs.1 ▸ hs) hxs.2
  | sizedArray width =>
      refine (gives_nat width).bind fun n hn => (hread.many n).bind fun _ hxs => .pure (shortFields_array ?_ hxs.2)
      exact hxs.1 ▸ Nat.lt_of_lt_of_le hn hs
  | map n => exact (hpair.many n).map fun _ hxs => shortFields_map hxs.2
  | sizedMap width =>
      exact (gives_nat width).bind fun n _ => (hpair.many n).bind fun _ hxs => .pure (shortFields_map hxs.2)
  | extension n => exact (gives_bytes (n + 1)).map fun _ _ => ⟨nofun, nofun⟩
  | sizedExtension width =>
      exact (gives_nat width).bind fun n _ => (gives_bytes (n + 1)).bind fun _ _ => .pure ⟨nofun, nofun⟩
  | _ => exact .failure

theorem gives_header : Gives readHeader Header.Short := by
  intro bs h rest hh
  cases bs with
  | nil => cases hh
  | cons byte bs =>
      obtain ⟨h', hb, hh⟩ := Option.map_eq_some_iff.mp hh
      cases hh
      exact Header.short_ofByte? hb

/-- Whatever the bytes are, the fields of a record in them are short lists. -/
theorem gives_readWithin : ∀ room, Gives (readWithin room) ShortFields
  | 0 => gives_header.bind fun h hs => by
      split
      · exact .failure
      · exact gives_flat hs
  | room + 1 => gives_header.bind fun h hs => by
      split
      · exact gives_nested ((gives_readWithin room).mono fun _ h => h.1) hs
      · exact gives_flat hs

end MessagePack

end BehaviorTree
