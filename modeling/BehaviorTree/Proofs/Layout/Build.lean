import BehaviorTree.Proofs.Layout.Outline

/-!
# Building draws the tree

The blob built from a blueprint draws that blueprint: the arrays grow node by node, and what is written of
a finished subtree stays.
-/

namespace BehaviorTree

/-! ## Words and bytes -/

theorem LittleEndian.byte_decode : ∀ (bs : List UInt8) (j : Nat) (h : j < bs.length),
    UInt8.ofNat (decode bs / Bytes.bound j) = bs[j]
  | b :: bs, 0, _ => by
      apply UInt8.toNat_inj.mp
      have := b.toNat_lt
      simp only [decode, Bytes.bound, Nat.div_one, UInt8.toNat_ofNat', List.getElem_cons_zero]
      omega
  | b :: bs, j + 1, h => by
      have hb : (b.toNat + 256 * decode bs) / 256 = decode bs := by
        have := b.toNat_lt
        omega
      rw [decode, Bytes.bound, ← Nat.div_div_eq_div_mul, hb,
        byte_decode bs j (Nat.lt_of_succ_lt_succ h), List.getElem_cons_succ]

theorem alignUp_mod (n align : Nat) : alignUp n align % align = 0 := by
  rw [alignUp, Nat.mul_mod_left]

theorem Quantity.fit_of_lt (q : Quantity) {n : Nat} (h : n < UInt32.size) : ∃ v, q.fit n = .ok v :=
  ⟨UInt32.ofNat n, if_pos h⟩

theorem Quantity.fit_eq_ok {q : Quantity} {n : Nat} {v : UInt32} (h : q.fit n = .ok v) : v.toNat = n := by
  unfold fit at h
  split at h
  · rename_i hn
    cases h
    exact UInt32.toNat_ofNat_of_lt' hn
  · cases h

namespace Draft

variable {d d' d'' : Draft} {i j : Nat} {t : Blueprint}

theorem byteAt_toLayout {k : Nat} (h : k < d.bytes.size) : d.toLayout.byteAt k = d.bytes[k] := by
  have hw : k / dataAlign < (d.bytes.size + (dataAlign - 1)) / dataAlign := by
    rw [dataAlign]
    omega
  have hmod : k % dataAlign < dataAlign := Nat.mod_lt _ (by decide)
  have hlen : ((List.range' (dataAlign * (k / dataAlign)) dataAlign).map fun j => d.bytes.getD j 0).length =
      dataAlign := by simp
  have hlt := LittleEndian.decode_lt
    ((List.range' (dataAlign * (k / dataAlign)) dataAlign).map fun j => d.bytes.getD j 0)
  have hword : (d.toLayout.words.getD (k / dataAlign) 0).toNat = LittleEndian.decode
      ((List.range' (dataAlign * (k / dataAlign)) dataAlign).map fun j => d.bytes.getD j 0) := by
    rw [toLayout, Array.getD_eq_getD_getElem?, Array.getElem?_ofFn, dif_pos hw, Option.getD_some, wordAt]
    rw [hlen] at hlt
    exact UInt64.toNat_ofNat_of_lt' hlt
  rw [Layout.byteAt, hword, LittleEndian.byte_decode _ _ (by rw [hlen]; exact hmod), List.getElem_map,
    List.getElem_range', Nat.one_mul, Nat.div_add_mod, Array.getD_eq_getD_getElem?,
    Array.getElem?_eq_getElem h]
  rfl

/-! ## Growing arrays -/

/-- The arrays have an entry for each node. -/
structure Even (d : Draft) : Prop where
  ends : d.ends.size = d.types.size
  offsets : d.offsets.size = d.types.size
  sizes : d.sizes.size = d.types.size

/-- What is written in `d` is in `d'`, ends only at the nodes in `T`. -/
structure Keeps (T : Nat → Prop) (d d' : Draft) : Prop where
  types : ∀ {k : Nat} {x}, d.types[k]? = some x → d'.types[k]? = some x
  ends : ∀ {k : Nat} {x}, T k → d.ends[k]? = some x → d'.ends[k]? = some x
  offsets : ∀ {k : Nat} {x}, d.offsets[k]? = some x → d'.offsets[k]? = some x
  sizes : ∀ {k : Nat} {x}, d.sizes[k]? = some x → d'.sizes[k]? = some x
  bytes : ∀ {k : Nat} {x}, d.bytes[k]? = some x → d'.bytes[k]? = some x

theorem Keeps.refl (T : Nat → Prop) (d : Draft) : Keeps T d d := ⟨id, fun _ => id, id, id, id⟩

theorem Keeps.trans {T : Nat → Prop} (h : Keeps T d d') (h' : Keeps T d' d'') : Keeps T d d'' :=
  ⟨h'.types ∘ h.types, fun hk hx => h'.ends hk (h.ends hk hx), h'.offsets ∘ h.offsets,
    h'.sizes ∘ h.sizes, h'.bytes ∘ h.bytes⟩

mutual

/-- The tree `t` is written in the arrays from node `i` on. -/
def Has (d : Draft) : Nat → Blueprint → Prop
  | i, .node type data children => d.types[i]? = some type ∧
    (∃ stop, d.ends[i]? = some stop ∧ stop.toNat = i + 1 + Blueprint.sizeAll children) ∧
    (∃ offset size, d.offsets[i]? = some offset ∧ d.sizes[i]? = some size ∧ size.toNat = data.length ∧
      ∀ {k : Nat} {v}, data[k]? = some v → d.bytes[offset.toNat + k]? = some v) ∧
    HasAll d (i + 1) children

def HasAll (d : Draft) : Nat → List Blueprint → Prop
  | _, [] => True
  | i, t :: ts => Has d i t ∧ HasAll d (i + t.size) ts

end

mutual

theorem Has.keeps {T : Nat → Prop} (h : Keeps T d d') : ∀ {t : Blueprint} {i : Nat}, d.Has i t →
    (∀ k, i ≤ k → T k) → d'.Has i t
  | .node _ _ _, i, ⟨htype, ⟨stop, hstop, hn⟩, ⟨offset, size, ho, hs, hsize, hbytes⟩, hall⟩, hT =>
      ⟨h.types htype, ⟨stop, h.ends (hT i (Nat.le_refl i)) hstop, hn⟩,
        ⟨offset, size, h.offsets ho, h.sizes hs, hsize, fun hv => h.bytes (hbytes hv)⟩,
        HasAll.keeps h hall fun k hk => hT k (Nat.le_of_succ_le hk)⟩

theorem HasAll.keeps {T : Nat → Prop} (h : Keeps T d d') : ∀ {ts : List Blueprint} {i : Nat},
    d.HasAll i ts → (∀ k, i ≤ k → T k) → d'.HasAll i ts
  | [], _, _, _ => trivial
  | t :: _, _, hall, hT =>
      ⟨Has.keeps h hall.1 hT, HasAll.keeps h hall.2 fun k hk => hT k (by omega)⟩

end

theorem openNode_spec {type : TypeId} {data : List UInt8} (he : d.Even)
    (h : d.openNode type data = .ok d') : d'.Even ∧ Keeps (fun _ => True) d d' ∧
      d'.types.size = d.types.size + 1 ∧ d'.types[d.types.size]? = some type ∧
      ∃ offset size, d'.offsets[d.types.size]? = some offset ∧ d'.sizes[d.types.size]? = some size ∧
        size.toNat = data.length ∧ ∀ {k : Nat} {v}, data[k]? = some v → d'.bytes[offset.toNat + k]? = some v := by
  unfold openNode at h
  obtain ⟨offset, ho, h⟩ := Checked.bind_eq_ok.mp h
  obtain ⟨size, hs, h⟩ := Checked.bind_eq_ok.mp h
  cases h
  have hge := le_alignUp d.bytes.size (show 0 < dataAlign by decide)
  have hpush : ∀ {α : Type} {a : Array α} {v : α} {k : Nat} {x}, a[k]? = some x → (a.push v)[k]? = some x := by
    intro α a v k x hx
    obtain ⟨hk, -⟩ := Array.getElem?_eq_some_iff.mp hx
    rw [Array.getElem?_push_lt hk, ← hx, Array.getElem?_eq_getElem hk]
  refine ⟨⟨by simp [he.ends], by simp [he.offsets], by simp [he.sizes]⟩,
    ⟨hpush, fun _ => hpush, hpush, hpush, fun hx => ?_⟩, by simp, by simp, offset, size, ?_, ?_,
    Quantity.fit_eq_ok hs, ?_⟩
  · obtain ⟨hk, -⟩ := Array.getElem?_eq_some_iff.mp hx
    rw [Array.append_assoc, Array.getElem?_append_left hk, hx]
  · simp [← he.offsets]
  · simp [← he.sizes]
  · intro k v hv
    rw [Quantity.fit_eq_ok ho, Array.getElem?_append_right (by simp; omega)]
    simp only [Array.size_append, Array.size_replicate, List.getElem?_toArray]
    rw [show alignUp d.bytes.size dataAlign + k - (d.bytes.size + (alignUp d.bytes.size dataAlign -
      d.bytes.size)) = k by omega]
    exact hv

theorem closeNode_spec (he : d.Even) (hi : i < d.types.size) (h : d.closeNode i = .ok d') :
    d'.Even ∧ Keeps (· ≠ i) d d' ∧ d'.types.size = d.types.size ∧
      ∃ stop, d'.ends[i]? = some stop ∧ stop.toNat = d.types.size := by
  unfold closeNode at h
  obtain ⟨stop, hs, h⟩ := Checked.bind_eq_ok.mp h
  cases h
  refine ⟨⟨by simp [he.ends], he.offsets, he.sizes⟩, ⟨id, fun hk hx => ?_, id, id, id⟩, rfl, stop, ?_,
    Quantity.fit_eq_ok hs⟩
  · rw [Array.getElem?_setIfInBounds_ne (Ne.symm hk)]
    exact hx
  · rw [Array.getElem?_setIfInBounds_self_of_lt (by rw [he.ends]; exact hi)]

mutual

theorem add_spec : ∀ {t : Blueprint} {d d' : Draft}, d.Even → d.add t = .ok d' →
    d'.Even ∧ Keeps (fun _ => True) d d' ∧ d'.types.size = d.types.size + t.size ∧ d'.Has d.types.size t
  | .node type data children, d, d', he, h => by
      rw [add] at h
      obtain ⟨d₁, h₁, h⟩ := Checked.bind_eq_ok.mp h
      obtain ⟨d₂, h₂, h⟩ := Checked.bind_eq_ok.mp h
      obtain ⟨he₁, hk₁, hn₁, htype, offset, size, ho, hs, hsize, hbytes⟩ := openNode_spec he h₁
      obtain ⟨he₂, hk₂, hn₂, hall⟩ := addAll_spec he₁ h₂
      obtain ⟨he₃, hk₃, hn₃, stop, hstop, hend⟩ := closeNode_spec he₂ (by omega) h
      rw [hn₁] at hall hn₂
      refine ⟨he₃, ⟨?_, fun _ hx => ?_, ?_, ?_, ?_⟩, ?_, hk₃.types (hk₂.types htype), ⟨stop, hstop, ?_⟩,
        ⟨offset, size, hk₃.offsets (hk₂.offsets ho), hk₃.sizes (hk₂.sizes hs), hsize,
          fun hv => hk₃.bytes (hk₂.bytes (hbytes hv))⟩, ?_⟩
      · exact fun hx => hk₃.types (hk₂.types (hk₁.types hx))
      · -- the new node lies after all that were there
        refine hk₃.ends (fun hk => ?_) (hk₂.ends trivial (hk₁.ends trivial hx))
        obtain ⟨hlt, -⟩ := Array.getElem?_eq_some_iff.mp hx
        rw [hk, he.ends] at hlt
        exact Nat.lt_irrefl _ hlt
      · exact fun hx => hk₃.offsets (hk₂.offsets (hk₁.offsets hx))
      · exact fun hx => hk₃.sizes (hk₂.sizes (hk₁.sizes hx))
      · exact fun hx => hk₃.bytes (hk₂.bytes (hk₁.bytes hx))
      · rw [hn₃, hn₂, Blueprint.size, Nat.add_assoc]
      · rw [hend, hn₂]
      · exact hall.keeps hk₃ fun k hk => by omega

theorem addAll_spec : ∀ {ts : List Blueprint} {d d' : Draft}, d.Even → d.addAll ts = .ok d' →
    d'.Even ∧ Keeps (fun _ => True) d d' ∧ d'.types.size = d.types.size + Blueprint.sizeAll ts ∧
      d'.HasAll d.types.size ts
  | [], d, d', he, h => by
      rw [addAll] at h
      cases h
      exact ⟨he, Keeps.refl _ d, rfl, trivial⟩
  | t :: ts, d, d', he, h => by
      rw [addAll] at h
      obtain ⟨d₁, h₁, h⟩ := Checked.bind_eq_ok.mp h
      obtain ⟨he₁, hk₁, hn₁, hhas⟩ := add_spec he h₁
      obtain ⟨he₂, hk₂, hn₂, hall⟩ := addAll_spec he₁ h
      rw [hn₁] at hall hn₂
      exact ⟨he₂, hk₁.trans hk₂, by rw [hn₂, Blueprint.sizeAll, Nat.add_assoc],
        hhas.keeps hk₂ fun _ _ => trivial, hall⟩

end

/-! ## The blob of a draft -/

variable {b : Blob}

theorem defaults_toLayout (hb : b.toLayout = d.toLayout) {offset size : UInt32} {data : List UInt8}
    (ho : d.offsets[i]? = some offset) (hs : d.sizes[i]? = some size) (hsize : size.toNat = data.length)
    (hbytes : ∀ {k : Nat} {v}, data[k]? = some v → d.bytes[offset.toNat + k]? = some v) : b.defaults i = data := by
  have hoff : b.offset i = offset.toNat := by simp [Layout.offset, hb, toLayout, ho]
  have hext : b.extent i = data.length := by simp [Layout.extent, hb, toLayout, hs, hsize]
  apply List.ext_getElem?
  intro k
  rw [Blob.defaults, hoff, hext, hb, List.getElem?_map]
  rcases Nat.lt_or_ge k data.length with hk | hk
  · obtain ⟨hlt, hv⟩ := Array.getElem?_eq_some_iff.mp (hbytes (List.getElem?_eq_getElem hk))
    rw [List.getElem?_range' hk, Option.map_some, Nat.one_mul, byteAt_toLayout hlt, hv,
      List.getElem?_eq_getElem hk]
  · rw [List.getElem?_eq_none (by simpa using hk), List.getElem?_eq_none hk]
    rfl

mutual

theorem Has.draws (hb : b.toLayout = d.toLayout) : ∀ {t : Blueprint} {i : Nat}, d.Has i t → b.Draws i t
  | .node type data children, i, ⟨htype, ⟨stop, hstop, hn⟩, ⟨offset, size, ho, hs, hsize, hbytes⟩, hall⟩ => by
      refine ⟨?_, ?_, defaults_toLayout hb ho hs hsize hbytes, ?_, HasAll.draws hb hall⟩
      · obtain ⟨hi, -⟩ := Array.getElem?_eq_some_iff.mp htype
        rw [hb]
        exact hi
      · rw [hb, Layout.typeOf, toLayout, htype]
        rfl
      · rw [hb, ← hn, Layout.stop, toLayout, Array.getD_eq_getD_getElem?, hstop]
        rfl

theorem HasAll.draws (hb : b.toLayout = d.toLayout) : ∀ {ts : List Blueprint} {i : Nat}, d.HasAll i ts →
    b.DrawsAll i ts
  | [], _, _ => trivial
  | _ :: _, _, h => ⟨Has.draws hb h.1, HasAll.draws hb h.2⟩

end

end Draft

/-- A built blob draws its blueprint. -/
theorem Blueprint.build_draws {t : Blueprint} {b : Blob} (h : t.build = .ok b) : b.Draws 0 t := by
  obtain ⟨d, hd, h⟩ := Checked.bind_eq_ok.mp h
  cases hadd : Draft.empty.add t with
  | error e =>
      rw [hadd] at hd
      cases hd
  | ok d' =>
      rw [hadd] at hd
      cases hd
      obtain ⟨-, -, -, hhas⟩ := Draft.add_spec ⟨rfl, rfl, rfl⟩ hadd
      refine hhas.draws ?_
      unfold Layout.toBlob at h
      split at h
      · cases h
        rfl
      · cases h

end BehaviorTree
