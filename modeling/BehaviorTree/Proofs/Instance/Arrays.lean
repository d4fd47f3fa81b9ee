import BehaviorTree.Proofs.Run.Bounds

/-!
# The common memory as one array for each node

All nodes share one memory, in which the layout gives each its span. Through the calls on the data of nodes
it cannot be told from separate arrays, also where spans touch, leave gaps or are empty.
-/

namespace BehaviorTree

/-- For each node an array of its own, as long as the node's data. -/
abbrev Arrays (b : Blob) := (i : Fin b.size) → Bytes (b.extent i)

namespace Arrays

variable {b : Blob}

def defaults (b : Blob) : Arrays b := fun i => ⟨b.defaults i, b.length_defaults i⟩

/-- The value of type `t` at offset `o` of array `i`. -/
def read (a : Arrays b) (t : ValueType) (i o : Nat) : Except Error t.Value :=
  if hi : i < b.size then
    if b.extent i = 0 then .error (.unallocatedData i)
    else if h : o + t.size ≤ b.extent i then
      .ok ⟨window (a ⟨i, hi⟩).1 o t.size, length_window (by rw [(a ⟨i, hi⟩).2]; exact h)⟩
    else .error (.dataOutOfBounds i o t.size (b.extent i))
  else .error (.nodeOutOfRange i b.size)

/-- Like `read`, for a value that may be changed in place. -/
def view (a : Arrays b) (t : ValueType) (i o : Nat) : Except Error t.Value :=
  match a.read t i o with
  | .ok v => if o % t.align = 0 then .ok v else .error (.misaligned i o t.name)
  | .error e => .error e

/-- Puts bytes that fit there at offset `o` of array `i`. -/
def put (a : Arrays b) (i o : Nat) (bs : List UInt8) : Arrays b := fun j =>
  if h : j.val = i ∧ o + bs.length ≤ b.extent j then
    ⟨overlay (a j).1 o bs, by rw [length_overlay (by rw [(a j).2]; exact h.2), (a j).2]⟩
  else a j

/-- Changes a value in place. -/
def modify (a : Arrays b) (t : ValueType) (i o : Nat) (f : t.Value → t.Value) : Except Error (Arrays b) :=
  match a.view t i o with
  | .ok v => .ok (a.put i o (f v).1)
  | .error e => .error e

theorem read_of_view {a : Arrays b} {t : ValueType} {i o : Nat} {v : t.Value} (h : a.view t i o = .ok v) :
    a.read t i o = .ok v := by
  unfold view at h
  split at h
  · rename_i hr
    split at h
    · cases h
      exact hr
    · cases h
  · cases h

theorem fits_of_read {a : Arrays b} {t : ValueType} {i o : Nat} {v : t.Value} (h : a.read t i o = .ok v) :
    i < b.size ∧ o + t.size ≤ b.extent i := by
  unfold read at h
  split at h
  · rename_i hi
    split at h
    · cases h
    split at h
    · rename_i hle
      exact ⟨hi, hle⟩
    · cases h
  · cases h

theorem exists_read {a : Arrays b} {t : ValueType} {i o : Nat} (hi : i < b.size) (hpos : b.extent i ≠ 0)
    (hle : o + t.size ≤ b.extent i) : ∃ v, a.read t i o = .ok v := by
  rw [read, dif_pos hi, if_neg hpos, dif_pos hle]
  exact ⟨_, rfl⟩

/-- A value that was put is read back. -/
theorem read_put {a : Arrays b} {t : ValueType} {i o : Nat} {v : t.Value} (h : a.read t i o = .ok v)
    (x : t.Value) : (a.put i o x.1).read t i o = .ok x := by
  obtain ⟨hi, hle⟩ := fits_of_read h
  have hput : (a.put i o x.1 ⟨i, hi⟩).1 = overlay (a ⟨i, hi⟩).1 o x.1 := by
    rw [put, dif_pos ⟨rfl, by rw [x.2]; exact hle⟩]
  unfold read at h ⊢
  rw [dif_pos hi] at h ⊢
  split at h
  · cases h
  · rename_i hpos
    rw [if_neg hpos, dif_pos hle]
    refine congrArg Except.ok (Subtype.ext ?_)
    show window (a.put i o x.1 ⟨i, hi⟩).1 o t.size = x.1
    rw [hput, window_overlay_self (by rw [(a ⟨i, hi⟩).2]; exact Nat.le_of_add_right_le hle) x.2]

/-- Puts the default data back into the arrays from `lo` to before `hi`. -/
def restore (a : Arrays b) (lo hi : Nat) : Arrays b := fun j =>
  if lo ≤ j ∧ j < hi then defaults b j else a j

end Arrays

namespace Instance

variable {b : Blob} {s s' : Instance b} {t : ValueType} {i o : Nat}

def arrays (s : Instance b) : Arrays b := fun i => ⟨(s.cell i).bytes, s.length_bytes_cell i.2⟩

theorem arrays_new : (new b).arrays = Arrays.defaults b :=
  funext fun i => Subtype.ext (congrArg Cell.bytes (cell_new i.2))

/-! ## Reading -/

theorem readAt_arrays (s : Instance b) (t : ValueType) (i o : Nat) :
    s.readAt t i o = Checked.ofExcept (s.arrays.read t i o) := by
  rcases Nat.lt_or_ge i b.size with hi | hi
  · simp only [readAt_eq s hi, Cell.read, Arrays.read, arrays, dif_pos hi, length_bytes_cell s hi]
  · rw [readAt_of_le s hi, Arrays.read, dif_neg (Nat.not_lt.mpr hi)]
    rfl

theorem slice_of_read {v : t.Value} (h : s.arrays.read t i o = .ok v) :
    s.data.slice (b.offset i + o) t.size = .ok v := by
  have hread : s.readAt t i o = .ok v := by rw [readAt_arrays, h, Checked.ofExcept_ok]
  obtain ⟨start, hlocate, hslice⟩ := Checked.bind_eq_ok.mp hread
  rw [← eq_of_locate hlocate]
  exact hslice

theorem place_arrays (s : Instance b) (ht : t.align ∣ dataAlign) (i o : Nat) (a : Address) : s.place t i o a =
    match s.arrays.view t i o with
    | .ok _ => .ok (b.offset i + o)
    | .error e => .error (.error e) := by
  unfold Arrays.view Arrays.read
  rcases Nat.lt_or_ge i b.size with hi | hi
  · rw [place_eq s hi ht, length_bytes_cell s hi, dif_pos hi]
    by_cases h₀ : b.extent i = 0
    · simp only [if_pos h₀]
      rfl
    by_cases h₁ : o + t.size ≤ b.extent i
    · by_cases h₂ : o % t.align = 0
      · simp [h₀, h₁, h₂, Nat.not_lt.mpr h₁]
      · simp [h₀, h₁, h₂, Checked.fail]
    · simp [h₀, h₁, Checked.fail]
  · rw [place, locate_of_le s hi, dif_neg (Nat.not_lt.mpr hi)]
    rfl

/-- What a view shows is the value in the array. -/
theorem view_arrays (s : Instance b) (ht : t.align ∣ dataAlign) (i o : Nat) (a : Address) :
    (s.place t i o a >>= fun start => s.data.slice start t.size) = Checked.ofExcept (s.arrays.view t i o) := by
  rw [place_arrays s ht]
  cases hv : s.arrays.view t i o with
  | error e => rfl
  | ok v => exact slice_of_read (Arrays.read_of_view hv)

/-! ## Changes -/

theorem Sets.arrays {c : Cell} {bs : List UInt8} (h : s.Sets i c s')
    (hc : c.bytes = overlay (s.cell i).bytes o bs) (hle : o + bs.length ≤ b.extent i) :
    s'.arrays = s.arrays.put i o bs := by
  funext ⟨j, hj⟩
  refine Subtype.ext ?_
  unfold Arrays.put
  by_cases hij : j = i
  · subst hij
    rw [dif_pos ⟨rfl, hle⟩]
    simp only [Instance.arrays, h.self, hc]
  · rw [dif_neg fun hk => hij hk.1]
    simp only [Instance.arrays, h.other j hij]

theorem modifyAt_arrays (s : Instance b) (ht : t.align ∣ dataAlign) (i o : Nat) (f : t.Value → t.Value)
    (a : Address) : arrays <$> s.modifyAt t i o f a = Checked.ofExcept (s.arrays.modify t i o f) := by
  rw [modifyAt, place_arrays s ht, Arrays.modify]
  cases hv : s.arrays.view t i o with
  | error e => rfl
  | ok v =>
      obtain ⟨hi, hle⟩ := Arrays.fits_of_read (Arrays.read_of_view hv)
      obtain ⟨buf, hbuf, hset⟩ := overwrite_sets s hi (o := o) (f v).1 (by rw [(f v).2]; exact hle)
      simp only [Checked.ok_bind, slice_of_read (Arrays.read_of_view hv), hbuf, Checked.pure_eq]
      exact congrArg Except.ok (hset.arrays rfl (by rw [(f v).2]; exact hle))

/-- Where an aligned value lies, it can be changed, and the changed value is read back. -/
theorem exists_modifyAt (s : Instance b) (ht : t.align ∣ dataAlign) (hi : i < b.size)
    (hpos : b.extent i ≠ 0) (hle : o + t.size ≤ b.extent i) (ho : o % t.align = 0) (f : t.Value → t.Value)
    (a : Address) :
    ∃ v s', s.readAt t i o = .ok v ∧ s.modifyAt t i o f a = .ok s' ∧ s'.readAt t i o = .ok (f v) := by
  obtain ⟨v, hv⟩ := Arrays.exists_read (a := s.arrays) hi hpos hle
  have hmodify := s.modifyAt_arrays ht i o f a
  rw [Arrays.modify, Arrays.view, hv] at hmodify
  simp only [ho, ↓reduceIte, Checked.ofExcept_ok] at hmodify
  cases hs : s.modifyAt t i o f a with
  | error e =>
      rw [hs] at hmodify
      cases hmodify
  | ok s' =>
      rw [hs] at hmodify
      refine ⟨v, s', by rw [readAt_arrays, hv, Checked.ofExcept_ok], rfl, ?_⟩
      rw [readAt_arrays, show s'.arrays = _ from Except.ok.inj hmodify, Arrays.read_put hv, Checked.ofExcept_ok]

/-- An assignment is a change that does not look at the old value. -/
theorem writeAt_eq_modifyAt (s : Instance b) (ht : t.align ∣ dataAlign) (i o : Nat) (v : t.Value)
    (a : Address) : s.writeAt i o v a = s.modifyAt t i o (fun _ => v) a := by
  rw [writeAt, modifyAt, place_arrays s ht]
  cases hv : s.arrays.view t i o with
  | error e => rfl
  | ok old => simp only [Checked.ok_bind, slice_of_read (Arrays.read_of_view hv)]

theorem putBytes_arrays (s : Instance b) (hi : i < b.size) {bs : List UInt8} (h : bs.length = b.extent i) :
    arrays <$> s.putBytes i bs = .ok (s.arrays.put i 0 bs) := by
  obtain ⟨s', hs', hset⟩ := s.putBytes_sets hi h
  rw [hs']
  refine congrArg Except.ok (hset.arrays ?_ (by omega))
  rw [overlay_all (by rw [h, s.length_bytes_cell hi])]

/-- Where the cells of some nodes get their default data and the other cells stay. -/
theorem arrays_restore {lo hi : Nat} (hin : ∀ j, lo ≤ j → j < hi → (s'.cell j).bytes = b.defaults j)
    (hout : ∀ j, ¬ (lo ≤ j ∧ j < hi) → s'.cell j = s.cell j) : s'.arrays = s.arrays.restore lo hi := by
  funext ⟨j, hj⟩
  refine Subtype.ext ?_
  unfold Arrays.restore
  by_cases h : lo ≤ j ∧ j < hi
  · rw [if_pos h]
    exact hin j h.1 h.2
  · rw [if_neg h]
    simp only [arrays, hout j h]

theorem restore_arrays (s : Instance b) (hi : i < b.size) :
    arrays <$> s.restore i = .ok (s.arrays.restore i (i + 1)) := by
  obtain ⟨s', hs', hset⟩ := s.restore_sets hi
  rw [hs']
  refine congrArg Except.ok (arrays_restore (fun j h₁ h₂ => ?_) fun j hj => hset.other j (by omega))
  obtain rfl : j = i := by omega
  rw [hset.self]

theorem resetSubtree_arrays (s : Instance b) (hi : i < b.size) :
    arrays <$> s.resetSubtree i = .ok (s.arrays.restore i (b.stop i)) := by
  obtain ⟨s', hs', hnew⟩ := s.resetSubtree_renews hi
  rw [hs']
  exact congrArg Except.ok (arrays_restore (fun j h₁ h₂ => by rw [hnew.inside j h₁ h₂]) hnew.outside)

end Instance

/-! ## Sequences of calls -/

/-- A call on the data of nodes. The alignment of a value divides that of the data; a call on all bytes of a
node names a node of the tree. -/
inductive DataCall (b : Blob) where
  | assign (t : ValueType) (ht : t.align ∣ dataAlign) (i o : Nat) (v : t.Value)
  | modify (t : ValueType) (ht : t.align ∣ dataAlign) (i o : Nat) (f : t.Value → t.Value)
  | putBytes (i : Fin b.size) (bs : Bytes (b.extent i))
  | restore (i : Fin b.size)
  | resetSubtree (i : Fin b.size)
  | resetAll

/-- Makes calls one after another. A call that fails changes nothing. -/
def serve {γ σ : Type} (step : γ → σ → Checked σ) : List γ → σ → List (Checked Unit) × σ
  | [], s => ([], s)
  | c :: cs, s =>
    match step c s with
    | .ok s' => let (rs, s'') := serve step cs s'; (.ok () :: rs, s'')
    | .error e => let (rs, s') := serve step cs s; (.error e :: rs, s')

/-- If a map of states takes each step to a step, it takes sequences to sequences. -/
theorem serve_map {γ σ τ : Type} {step : γ → σ → Checked σ} {step' : γ → τ → Checked τ} {f : σ → τ}
    (h : ∀ c s, f <$> step c s = step' c (f s)) : ∀ (cs : List γ) (s : σ),
    serve step' cs (f s) = ((serve step cs s).1, f (serve step cs s).2)
  | [], _ => rfl
  | c :: cs, s => by
      unfold serve
      rw [← h c s]
      cases step c s with
      | ok s' => simp only [Functor.map, Except.map, serve_map h cs s']
      | error e => simp only [Functor.map, Except.map, serve_map h cs s]

namespace DataCall

variable {b : Blob}

/-- What a call does to an instance whose memory starts at `a`. -/
def run (a : Address) : DataCall b → Instance b → Checked (Instance b)
  | assign _ _ i o v, s => s.writeAt i o v a
  | modify t _ i o f, s => s.modifyAt t i o f a
  | putBytes i bs, s => s.putBytes i bs.1
  | restore i, s => s.restore i
  | resetSubtree i, s => s.resetSubtree i
  | resetAll, s => .ok s.resetAll

def apply : DataCall b → Arrays b → Checked (Arrays b)
  | assign t _ i o v, a => Checked.ofExcept (a.modify t i o fun _ => v)
  | modify t _ i o f, a => Checked.ofExcept (a.modify t i o f)
  | putBytes i bs, a => .ok (a.put i 0 bs.1)
  | restore i, a => .ok (a.restore i (i + 1))
  | resetSubtree i, a => .ok (a.restore i (b.stop i))
  | resetAll, _ => .ok (Arrays.defaults b)

theorem run_arrays (a : Address) (c : DataCall b) (s : Instance b) :
    Instance.arrays <$> c.run a s = c.apply s.arrays := by
  cases c with
  | assign t ht i o v =>
      rw [run, s.writeAt_eq_modifyAt ht]
      exact s.modifyAt_arrays ht i o _ a
  | modify t ht i o f => exact s.modifyAt_arrays ht i o f a
  | putBytes i bs => exact s.putBytes_arrays i.2 bs.2
  | restore i => exact s.restore_arrays i.2
  | resetSubtree i => exact s.resetSubtree_arrays i.2
  | resetAll => exact congrArg Except.ok Instance.arrays_new

end DataCall

/-- What can be read of the instance is what is in the arrays. -/
structure Instance.Shows {b : Blob} (s : Instance b) (a : Arrays b) : Prop where
  bytes : ∀ i : Fin b.size, s.bytes i = .ok (a i).1
  read : ∀ t i o, s.readAt t i o = Checked.ofExcept (a.read t i o)
  view : ∀ t, t.align ∣ dataAlign → ∀ i o address,
    (s.place t i o address >>= fun start => s.data.slice start t.size) = Checked.ofExcept (a.view t i o)

theorem Instance.shows_arrays {b : Blob} (s : Instance b) : s.Shows s.arrays where
  bytes i := s.bytes_eq i.2
  read := s.readAt_arrays
  view _ ht := s.view_arrays ht

/-- Whatever calls are made, they have the outcomes that they have on separate arrays, and what can be read
afterwards is what the arrays hold, wherever the memory starts. A new instance starts with the default data. -/
theorem data_isolated (b : Blob) :
    (∀ i : Fin b.size, b.sizeOf i = .ok (b.extent i) ∧ b.endOf i = .ok (b.stop i) ∧
      b.defaultBytes i = .ok (Arrays.defaults b i).1) ∧
    (Instance.new b).arrays = Arrays.defaults b ∧
    ∀ (s : Instance b) (address : Address) (calls : List (DataCall b)),
      let s' := serve (DataCall.run address) calls s
      let a := serve DataCall.apply calls s.arrays
      s'.1 = a.1 ∧ s.Shows s.arrays ∧ s'.2.Shows a.2 := by
  refine ⟨fun i => ⟨Blob.sizeOf_eq i.2, Blob.endOf_eq i.2, Blob.defaultBytes_eq i.2⟩, Instance.arrays_new,
    fun s address calls => ?_⟩
  simp only [serve_map (DataCall.run_arrays address) calls s]
  exact ⟨trivial, s.shows_arrays, Instance.shows_arrays _⟩

end BehaviorTree
