import BehaviorTree.Proofs.Layout.Build
import BehaviorTree.Proofs.Layout.Preorder

/-!
# Building and reading back

A tree whose numbers fit in 32 bits is built into a valid blob, from which it is read back as it was. And
each valid blob is one tree, which is built again into a blob that differs in nothing but the places of
the data.
-/

namespace BehaviorTree

open Blueprint (EachFrom)

/-! ## Trees that fit -/

namespace Blueprint

mutual

/-- The bytes of all data, each node's padded to the alignment. -/
def dataTotal : Blueprint → Nat
  | node _ data children => alignUp data.length dataAlign + dataTotalAll children

def dataTotalAll : List Blueprint → Nat
  | [] => 0
  | t :: ts => t.dataTotal + dataTotalAll ts

end

mutual

/-- Laid out one after the other from `start`, each node's data starts and is of a length within 32 bits. -/
def Fits : Nat → Blueprint → Prop
  | start, node _ data children => start < UInt32.size ∧ data.length < UInt32.size ∧
    FitsAll (start + alignUp data.length dataAlign) children

def FitsAll : Nat → List Blueprint → Prop
  | _, [] => True
  | start, t :: ts => Fits start t ∧ FitsAll (start + t.dataTotal) ts

end

mutual

theorem fits_of_total : ∀ {t : Blueprint} {start : Nat}, start + t.dataTotal < UInt32.size → t.Fits start
  | node _ data _, start, h => by
      rw [dataTotal] at h
      have hle := le_alignUp data.length (show 0 < dataAlign by decide)
      exact ⟨by omega, by omega, fitsAll_of_total (by omega)⟩

theorem fitsAll_of_total : ∀ {ts : List Blueprint} {start : Nat}, start + dataTotalAll ts < UInt32.size →
    FitsAll start ts
  | [], _, _ => trivial
  | _ :: _, _, h => by
      rw [dataTotalAll] at h
      exact ⟨fits_of_total (by omega), fitsAll_of_total (by omega)⟩

end

end Blueprint

theorem alignUp_le {n m : Nat} (hm : m % dataAlign = 0) (h : n ≤ m) : alignUp n dataAlign ≤ m := by
  simp only [alignUp, dataAlign] at hm ⊢
  omega

theorem alignUp_add {n m : Nat} (hn : n % dataAlign = 0) : alignUp (n + m) dataAlign = n + alignUp m dataAlign := by
  simp only [alignUp, dataAlign] at hn ⊢
  omega

namespace Draft

variable {d d' : Draft} {i : Nat} {t : Blueprint} {ts : List Blueprint}

/-! ## Building succeeds -/

theorem openNode_ok (type : TypeId) {data : List UInt8} (hstart : alignUp d.bytes.size dataAlign < UInt32.size)
    (hdata : data.length < UInt32.size) : ∃ d', d.openNode type data = .ok d' ∧
      d'.types.size = d.types.size + 1 ∧ d'.bytes.size = alignUp d.bytes.size dataAlign + data.length := by
  obtain ⟨offset, ho⟩ := Quantity.dataRegion.fit_of_lt hstart
  obtain ⟨size, hs⟩ := Quantity.nodeData.fit_of_lt hdata
  have hle := le_alignUp d.bytes.size (show 0 < dataAlign by decide)
  refine ⟨_, by rw [openNode, ho, hs]; rfl, by simp, ?_⟩
  simp
  omega

theorem closeNode_ok (h : d.types.size < UInt32.size) (i : Nat) :
    ∃ d', d.closeNode i = .ok d' ∧ d'.types.size = d.types.size ∧ d'.bytes = d.bytes := by
  obtain ⟨stop, hs⟩ := Quantity.nodeCount.fit_of_lt h
  exact ⟨{ d with ends := d.ends.setIfInBounds i stop }, by rw [closeNode, hs]; rfl, rfl, rfl⟩

mutual

theorem add_ok : ∀ {t : Blueprint} {d : Draft} {start : Nat}, alignUp d.bytes.size dataAlign = start →
    d.types.size + t.size < UInt32.size → t.Fits start →
    ∃ d', d.add t = .ok d' ∧ d'.types.size = d.types.size + t.size ∧
      alignUp d'.bytes.size dataAlign = start + t.dataTotal
  | .node type data children, d, start, hstart, hsize, ⟨hfit, hdata, hrest⟩ => by
      rw [Blueprint.size] at hsize ⊢
      obtain ⟨d₁, h₁, hn₁, hb₁⟩ := openNode_ok type (hstart ▸ hfit) hdata
      have haligned : start % dataAlign = 0 := hstart ▸ alignUp_mod _ _
      obtain ⟨d₂, h₂, hn₂, hb₂⟩ := addAll_ok (d := d₁)
        (by rw [hb₁, hstart, alignUp_add haligned]) (by omega) hrest
      obtain ⟨d₃, h₃, hn₃, hb₃⟩ := closeNode_ok (d := d₂) (by omega) d.types.size
      refine ⟨d₃, ?_, by omega, ?_⟩
      · rw [add, h₁]
        exact Checked.bind_eq_ok.mpr ⟨d₁, rfl, Checked.bind_eq_ok.mpr ⟨d₂, h₂, h₃⟩⟩
      rw [hb₃, hb₂, Blueprint.dataTotal, Nat.add_assoc]

theorem addAll_ok : ∀ {ts : List Blueprint} {d : Draft} {start : Nat}, alignUp d.bytes.size dataAlign = start →
    d.types.size + Blueprint.sizeAll ts < UInt32.size → Blueprint.FitsAll start ts →
    ∃ d', d.addAll ts = .ok d' ∧ d'.types.size = d.types.size + Blueprint.sizeAll ts ∧
      alignUp d'.bytes.size dataAlign = start + Blueprint.dataTotalAll ts
  | [], d, start, hstart, _, _ => ⟨d, rfl, rfl, hstart⟩
  | t :: ts, d, start, hstart, hsize, ⟨hfit, hrest⟩ => by
      rw [Blueprint.sizeAll] at hsize ⊢
      obtain ⟨d₁, h₁, hn₁, hb₁⟩ := add_ok hstart (by omega) hfit
      obtain ⟨d₂, h₂, hn₂, hb₂⟩ := addAll_ok hb₁ (by omega) hrest
      refine ⟨d₂, by rw [addAll, h₁]; exact h₂, by omega, ?_⟩
      rw [hb₂, Blueprint.dataTotalAll, Nat.add_assoc]

end

/-! ## The spans of a draft -/

/-- Data spans are aligned, lie within the bytes, and each ends before the next begins. -/
structure Spaced (d : Draft) : Prop where
  aligned : ∀ {k : Nat} {offset}, d.offsets[k]? = some offset → offset.toNat % dataAlign = 0
  within : ∀ {k : Nat} {offset size}, d.offsets[k]? = some offset → d.sizes[k]? = some size →
    offset.toNat + size.toNat ≤ d.bytes.size
  ordered : ∀ {k : Nat} {offset size next}, d.offsets[k]? = some offset → d.sizes[k]? = some size →
    d.offsets[k + 1]? = some next → offset.toNat + size.toNat ≤ next.toNat

theorem spaced_empty : Spaced empty := ⟨nofun, nofun, nofun⟩

/-- An entry after a push is an old one or the new one. -/
theorem push_cases {α : Type} {xs : Array α} {k : Nat} {a x : α} (h : (xs.push a)[k]? = some x) :
    k < xs.size ∧ xs[k]? = some x ∨ k = xs.size ∧ x = a := by
  rw [Array.getElem?_push] at h
  split at h
  · exact .inr ⟨‹_›, (Option.some.inj h).symm⟩
  · exact .inl ⟨(Array.getElem?_eq_some_iff.mp h).1, h⟩

theorem openNode_spaced {type : TypeId} {data : List UInt8} (he : d.Even) (hd : d.Spaced)
    (h : d.openNode type data = .ok d') : d'.Spaced := by
  unfold openNode at h
  obtain ⟨offset, ho, h⟩ := Checked.bind_eq_ok.mp h
  obtain ⟨size, hs, h⟩ := Checked.bind_eq_ok.mp h
  cases h
  have hoffset := Quantity.fit_eq_ok ho
  have hsize := Quantity.fit_eq_ok hs
  have hle := le_alignUp d.bytes.size (show 0 < dataAlign by decide)
  have hn : d.sizes.size = d.offsets.size := he.sizes.trans he.offsets.symm
  -- the arrays grow together, so the new offset and the new size are at one index
  refine ⟨fun ho => ?_, fun ho hs => ?_, fun ho hs hnext => ?_⟩
  · rcases push_cases ho with ⟨-, hold⟩ | ⟨-, rfl⟩
    · exact hd.aligned hold
    · rw [hoffset]
      exact alignUp_mod _ _
  · simp only [Array.size_append, Array.size_replicate, List.size_toArray]
    rcases push_cases ho with ⟨hk, hold⟩ | ⟨hk, rfl⟩
    · rcases push_cases hs with ⟨-, hold'⟩ | ⟨hk', -⟩
      · have := hd.within hold hold'
        omega
      · omega
    · rcases push_cases hs with ⟨hk', -⟩ | ⟨-, rfl⟩
      · omega
      · omega
  · rcases push_cases ho with ⟨hk, hold⟩ | ⟨hk, -⟩
    · rcases push_cases hs with ⟨-, hold'⟩ | ⟨hk', -⟩
      · rcases push_cases hnext with ⟨-, hnext⟩ | ⟨-, rfl⟩
        · exact hd.ordered hold hold' hnext
        · have := hd.within hold hold'
          omega
      · omega
    · rcases push_cases hnext with ⟨hk', -⟩ | ⟨hk', -⟩
      · omega
      · omega

theorem closeNode_spaced (hd : d.Spaced) (h : d.closeNode i = .ok d') : d'.Spaced := by
  unfold closeNode at h
  obtain ⟨stop, -, h⟩ := Checked.bind_eq_ok.mp h
  cases h
  exact ⟨hd.aligned, hd.within, hd.ordered⟩

mutual

theorem add_spaced : ∀ {t : Blueprint} {d d' : Draft}, d.Even → d.Spaced → d.add t = .ok d' → d'.Spaced
  | .node type data children, d, d', he, hd, h => by
      rw [add] at h
      obtain ⟨d₁, h₁, h⟩ := Checked.bind_eq_ok.mp h
      obtain ⟨d₂, h₂, h⟩ := Checked.bind_eq_ok.mp h
      exact closeNode_spaced (addAll_spaced (openNode_spec he h₁).1 (openNode_spaced he hd h₁) h₂) h

theorem addAll_spaced : ∀ {ts : List Blueprint} {d d' : Draft}, d.Even → d.Spaced → d.addAll ts = .ok d' →
    d'.Spaced
  | [], _, _, _, hd, h => by
      cases h
      exact hd
  | t :: ts, d, d', he, hd, h => by
      rw [addAll] at h
      obtain ⟨d₁, h₁, h⟩ := Checked.bind_eq_ok.mp h
      exact addAll_spaced (add_spec he h₁).1 (add_spaced he hd h₁) h

end

/-! ## The layout of a draft is valid -/

mutual

theorem Has.ends : ∀ {t : Blueprint} {i : Nat}, d.Has i t → EachFrom d.toLayout.EndsWith i t.subtrees
  | .node type data children, i, ⟨_, ⟨stop, hstop, hn⟩, _, hall⟩ => by
      refine Blueprint.eachFrom_subtrees.mpr ⟨?_, HasAll.ends hall⟩
      simp only [Layout.EndsWith, Layout.stop, toLayout, Array.getD_eq_getD_getElem?, hstop, Option.getD_some]
      rw [hn, Blueprint.size, Nat.add_assoc]

theorem HasAll.ends : ∀ {ts : List Blueprint} {i : Nat}, d.HasAll i ts →
    EachFrom d.toLayout.EndsWith i (Blueprint.subtreesAll ts)
  | [], _, _ => Blueprint.eachFrom_nil
  | _ :: _, _, h => Blueprint.eachFrom_subtreesAll.mpr ⟨Has.ends h.1, HasAll.ends h.2⟩

end

theorem isPreorder_toLayout (he : d.Even) (hd : d.Spaced) (hsize : t.size = d.types.size) (ht : d.Has 0 t) :
    d.toLayout.IsPreorder := by
  have hoffset : ∀ {i}, i < d.types.size → ∃ offset, d.offsets[i]? = some offset ∧
      d.toLayout.offset i = offset.toNat := by
    intro i hi
    have hlt : i < d.offsets.size := he.offsets ▸ hi
    refine ⟨d.offsets[i], Array.getElem?_eq_getElem hlt, ?_⟩
    simp [Layout.offset, toLayout, he.offsets, hi]
  have hextent : ∀ {i}, i < d.types.size → ∃ size, d.sizes[i]? = some size ∧
      d.toLayout.extent i = size.toNat := by
    intro i hi
    have hlt : i < d.sizes.size := he.sizes ▸ hi
    refine ⟨d.sizes[i], Array.getElem?_eq_getElem hlt, ?_⟩
    simp [Layout.extent, toLayout, he.sizes, hi]
  have hregion : d.bytes.size ≤ d.toLayout.regionSize := by
    simp only [Layout.regionSize, toLayout, Array.size_ofFn, dataAlign]
    omega
  refine {
    size_pos := Nat.lt_of_lt_of_eq t.size_pos hsize
    ends_size := he.ends
    offsets_size := he.offsets
    sizes_size := he.sizes
    tree := ⟨t, hsize, (Layout.ends_eq_iff (he.ends.trans hsize.symm)).mpr ht.ends⟩
    aligned := fun i hi => ?_
    within := fun i hi => ?_
    ordered := fun i hi => ?_ }
  · obtain ⟨offset, ho, hoff⟩ := hoffset hi
    rw [hoff]
    exact hd.aligned ho
  · obtain ⟨offset, ho, hoff⟩ := hoffset hi
    obtain ⟨size, hs, hext⟩ := hextent hi
    rw [hoff, hext]
    exact Nat.le_trans (hd.within ho hs) hregion
  · obtain ⟨offset, ho, hoff⟩ := hoffset (Nat.lt_of_succ_lt hi)
    obtain ⟨size, hs, hext⟩ := hextent (Nat.lt_of_succ_lt hi)
    obtain ⟨next, hn, hnext⟩ := hoffset hi
    rw [hoff, hext, hnext]
    exact hd.ordered ho hs hn

/-- What building lays out always passes the check. -/
theorem valid_of_add {t : Blueprint} (h : empty.add t = .ok d) : d.toLayout.validate = .ok () := by
  have he : Even empty := ⟨rfl, rfl, rfl⟩
  obtain ⟨hed, -, hsize, hhas⟩ := add_spec he h
  refine Layout.validate_eq_ok_iff_isPreorder.mpr ?_
  exact isPreorder_toLayout hed (add_spaced he spaced_empty h) (by rw [hsize]; exact (Nat.zero_add _).symm) hhas

end Draft

/-! ## A blob draws one tree -/

namespace Blob

variable {b b' : Blob} {t : Blueprint}

mutual

theorem Draws.unique : ∀ {t t' : Blueprint} {i : Nat}, b.Draws i t → b.Draws i t' → t = t'
  | .node type data children, .node type' data' children', i, h, h' => by
      obtain ⟨-, htype, hdata, hstop, hall⟩ := h
      obtain ⟨-, htype', hdata', hstop', hall'⟩ := h'
      cases Except.ok.inj (htype.symm.trans htype')
      cases hdata.symm.trans hdata'
      rw [DrawsAll.unique hall hall' (by omega)]

theorem DrawsAll.unique : ∀ {ts ts' : List Blueprint} {i : Nat}, b.DrawsAll i ts → b.DrawsAll i ts' →
    Blueprint.sizeAll ts = Blueprint.sizeAll ts' → ts = ts'
  | [], [], _, _, _, _ => rfl
  | [], t' :: _, _, _, _, h => by
      have := t'.size_pos
      rw [Blueprint.sizeAll, Blueprint.sizeAll] at h
      omega
  | t :: _, [], _, _, _, h => by
      have := t.size_pos
      rw [Blueprint.sizeAll, Blueprint.sizeAll] at h
      omega
  | t :: ts, t' :: ts', i, ⟨ht, hts⟩, ⟨ht', hts'⟩, h => by
      cases Draws.unique ht ht'
      rw [Blueprint.sizeAll, Blueprint.sizeAll] at h
      rw [DrawsAll.unique hts hts' (by omega)]

end

theorem Draws.outline (h : b.Draws 0 t) : b.outline = .ok t := by
  obtain ⟨t', ht', hdraw⟩ := b.exists_outline
  rw [ht', hdraw.unique h]

theorem offset_step {i : Nat} (hi : i + 1 < b.size) {start len : Nat} (hstart : start ≤ b.offset i)
    (hlen : len = b.extent i) : start + alignUp len dataAlign ≤ b.offset (i + 1) := by
  have hordered := b.wellFormed.ordered i hi
  have hnext := b.wellFormed.aligned (i + 1) hi
  have hi' := b.wellFormed.aligned i (Nat.lt_of_succ_lt hi)
  have hle := alignUp_le hnext hordered
  rw [alignUp_add hi', ← hlen] at hle
  omega

mutual

/-- Data laid out without gaps starts no later than in the blob, so it fits. -/
theorem Draws.fits : ∀ {t : Blueprint} {i start : Nat}, b.Draws i t → start ≤ b.offset i → t.Fits start ∧
    (i + t.size < b.size → start + t.dataTotal ≤ b.offset (i + t.size))
  | .node type data children, i, start, ⟨hi, _, hdata, hstop, hall⟩, hstart => by
      have hlen : data.length = b.extent i := hdata ▸ length_defaults b i
      have hoffset : b.offset i < UInt32.size := UInt32.toNat_lt _
      have hextent : b.extent i < UInt32.size := UInt32.toNat_lt _
      have hall := DrawsAll.fits hall fun hnext => offset_step hnext hstart hlen
      rw [Blueprint.size, Blueprint.dataTotal, ← Nat.add_assoc, ← Nat.add_assoc]
      exact ⟨⟨by omega, by omega, hall.1⟩, hall.2⟩

theorem DrawsAll.fits : ∀ {ts : List Blueprint} {i start : Nat}, b.DrawsAll i ts →
    (i < b.size → start ≤ b.offset i) → Blueprint.FitsAll start ts ∧
    (i + Blueprint.sizeAll ts < b.size → start + Blueprint.dataTotalAll ts ≤ b.offset (i + Blueprint.sizeAll ts))
  | [], _, _, _, hstart => ⟨trivial, hstart⟩
  | t :: ts, i, start, ⟨ht, hts⟩, hstart => by
      have hfirst := Draws.fits ht (hstart ht.lt)
      have hrest := DrawsAll.fits hts hfirst.2
      rw [Blueprint.sizeAll, Blueprint.dataTotalAll, ← Nat.add_assoc, ← Nat.add_assoc]
      exact ⟨⟨hfirst.1, hrest.1⟩, hrest.2⟩

end

theorem size_lt (b : Blob) : b.size < UInt32.size := b.stop_root ▸ UInt32.toNat_lt _

end Blob

/-- Building succeeds exactly if the numbers fit in 32 bits. -/
theorem Blueprint.build_eq_ok_iff {t : Blueprint} :
    (∃ b, t.build = .ok b) ↔ t.size < UInt32.size ∧ t.Fits 0 := by
  constructor
  · rintro ⟨b, hb⟩
    have hdraw := build_draws hb
    exact ⟨hdraw.size ▸ b.size_lt, (hdraw.fits (Nat.zero_le _)).1⟩
  · rintro ⟨hsize, hfits⟩
    obtain ⟨d, hd, -⟩ := Draft.add_ok (d := Draft.empty) rfl
      (by rw [show Draft.empty.types.size = 0 from rfl]; omega) hfits
    refine ⟨⟨d.toLayout, Draft.valid_of_add hd⟩, ?_⟩
    rw [build, hd]
    exact Layout.toBlob_eq_ok_iff.mpr rfl

namespace Blob

variable {b b' : Blob} {t : Blueprint}

/-! ## Blobs of one tree -/

theorem defaultBytes_past {i : Nat} (hi : b.size ≤ i) : b.defaultBytes i = .error .outOfBounds := by
  have hoff : b.offsetOf i = .error .outOfBounds := by
    rw [Layout.offsetOf, Array.getElem?_eq_none (by rw [b.wellFormed.offsets_size]; exact hi)]
    rfl
  rw [Layout.defaultBytes, hoff]
  rfl

theorem ext_getD_toNat {xs ys : Array UInt32} {n : Nat} (hx : xs.size = n) (hy : ys.size = n)
    (h : ∀ i < n, (xs.getD i 0).toNat = (ys.getD i 0).toNat) : xs = ys := by
  refine Array.ext (hx.trans hy.symm) fun i hi hi' => UInt32.toNat_inj.mp ?_
  have hat := h i (hx ▸ hi)
  rwa [Array.getD_eq_getD_getElem?, Array.getD_eq_getD_getElem?, Array.getElem?_eq_getElem hi,
    Array.getElem?_eq_getElem hi', Option.getD_some, Option.getD_some] at hat

/-- Blobs that draw one tree have everything in common but the places of the data. -/
theorem Draws.same (h : b.Draws 0 t) (h' : b'.Draws 0 t) :
    b'.types = b.types ∧ b'.ends = b.ends ∧ b'.sizes = b.sizes ∧
      ∀ i, b'.defaultBytes i = b.defaultBytes i := by
  have hsize : b'.size = b.size := h'.size.symm.trans h.size
  have hat : ∀ i < b.size, ∃ s, b.Draws i s ∧ b'.Draws i s := by
    intro i hi
    rw [← h.size, ← Blueprint.length_subtrees] at hi
    have hs := List.getElem?_eq_getElem hi
    refine ⟨t.subtrees[i], ?_, ?_⟩
    · simpa using h.subtrees i _ hs
    · simpa using h'.subtrees i _ hs
  -- at each node both draw one subtree, and past the last node neither has anything
  refine ⟨Array.ext_getElem? fun i => ?_, ?_, ?_, fun i => ?_⟩
  · rcases Nat.lt_or_ge i b.size with hi | hi
    · obtain ⟨s, hs, hs'⟩ := hat i hi
      rw [typeOf_eq_ok_iff.mp hs.type, typeOf_eq_ok_iff.mp hs'.type]
    · rw [Array.getElem?_eq_none hi, Array.getElem?_eq_none (by rw [← hsize] at hi; exact hi)]
  · refine ext_getD_toNat (b'.wellFormed.ends_size.trans hsize) b.wellFormed.ends_size fun i hi => ?_
    obtain ⟨s, hs, hs'⟩ := hat i hi
    exact hs'.stop.trans hs.stop.symm
  · refine ext_getD_toNat (b'.wellFormed.sizes_size.trans hsize) b.wellFormed.sizes_size fun i hi => ?_
    obtain ⟨s, hs, hs'⟩ := hat i hi
    have hlen := congrArg List.length (hs'.data.trans hs.data.symm)
    rwa [length_defaults, length_defaults] at hlen
  · rcases Nat.lt_or_ge i b.size with hi | hi
    · obtain ⟨s, hs, hs'⟩ := hat i hi
      rw [defaultBytes_eq hi, defaultBytes_eq (hsize ▸ hi), hs.data, hs'.data]
    · rw [defaultBytes_past hi, defaultBytes_past (hsize ▸ hi)]

end Blob

/-- Building loses nothing: a tree whose node count and padded data fit in 32 bits becomes a blob that
reads back as this tree. And every valid blob reads as a tree that is built again, to the same nodes. -/
theorem Blueprint.build_outline :
    (∀ t : Blueprint, t.size < UInt32.size → t.dataTotal < UInt32.size →
      ∃ b : Blob, t.build = .ok b ∧ b.size = t.size ∧ b.outline = .ok t) ∧
    (∀ b : Blob, ∃ t : Blueprint, b.outline = .ok t ∧ ∃ b' : Blob, t.build = .ok b' ∧
      b'.types = b.types ∧ b'.ends = b.ends ∧ b'.sizes = b.sizes ∧
      ∀ i, b'.defaultBytes i = b.defaultBytes i) := by
  constructor
  · intro t hsize htotal
    obtain ⟨b, hb⟩ := build_eq_ok_iff.mpr ⟨hsize, fits_of_total (by rw [Nat.zero_add]; exact htotal)⟩
    have hdraw := build_draws hb
    exact ⟨b, hb, hdraw.size.symm, hdraw.outline⟩
  · intro b
    obtain ⟨t, ht, hdraw⟩ := b.exists_outline
    obtain ⟨b', hb'⟩ := build_eq_ok_iff.mpr ⟨hdraw.size ▸ b.size_lt, (hdraw.fits (Nat.zero_le _)).1⟩
    exact ⟨t, ht, b', hb', hdraw.same (build_draws hb')⟩

theorem Blueprint.build_outline_pair : ∃ b : Blob, (node ⟨1⟩ [7, 0, 9] [leaf ⟨2⟩]).build = .ok b ∧
    b.size = 2 ∧ b.outline = .ok (node ⟨1⟩ [7, 0, 9] [leaf ⟨2⟩]) :=
  build_outline.1 (node ⟨1⟩ [7, 0, 9] [leaf ⟨2⟩]) (by decide) (by decide)

end BehaviorTree
