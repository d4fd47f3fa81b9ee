import BehaviorTree.Proofs.Blackboard
import BehaviorTree.Proofs.Run.Bounds

/-!
# Reading a variable and changing it in place

A handle names a location: a span of node data, a key of the blackboard or a field of a component. The read
path and the write path look for it in the same way, so a change in place sees the value that a read
returns, and fails in one more case only, when the span is not aligned for the type.
-/

namespace BehaviorTree

/-! ## Spans of node data -/

namespace Instance

variable {b : Blob} {s s' : Instance b} {i o : Nat} {t : ValueType}

theorem le_of_readAt {x : t.Value} (h : s.readAt t i o = .ok x) : b.offset i + o + t.size ≤ b.regionSize := by
  obtain ⟨start, hstart, -⟩ := Checked.bind_eq_ok.mp h
  rw [← eq_of_locate hstart]
  exact le_of_locate hstart

/-- A change in place is a read, a check that the span is aligned, and a write of the changed value. -/
theorem modifyAt_eq (s : Instance b) (t : ValueType) (i o : Nat) (f : t.Value → t.Value) (a : Address) :
    s.modifyAt t i o f a = (do
      let x ← s.readAt t i o
      if (b.offset i + o) % t.align ≠ 0 then Checked.fail (.misaligned i o t.name)
      else if (a.toNat + (b.offset i + o)) % t.align ≠ 0 then Checked.fail (.misaligned i o t.name)
      else return { s with data := s.data.put (b.offset i + o) (f x).1 }) := by
  unfold modifyAt place readAt
  cases hlocate : s.locate i o t.size with
  | error e => rfl
  | ok start =>
      have hle := le_of_locate hlocate
      obtain ⟨hl, hslice⟩ := Buffer.slice_eq s.data hle
      rw [← eq_of_locate hlocate]
      simp only [Checked.ok_bind, hslice]
      split
      · rfl
      split
      · rfl
      · have hput : start + (f ⟨_, hl⟩).1.length ≤ b.regionSize := by rw [(f _).2]; exact hle
        simp only [Checked.pure_eq, Checked.ok_bind, hslice, Buffer.overwrite, if_pos hput]

/-- A read looks at the bytes of its span only. -/
theorem readAt_congr (h : ∀ k, Within (b.offset i + o) (b.offset i + o + t.size) k →
    s'.data[k]? = s.data[k]?) : s'.readAt t i o = s.readAt t i o := by
  have hlocate : s'.locate i o t.size = s.locate i o t.size := rfl
  rw [readAt, readAt, hlocate]
  cases hstart : s.locate i o t.size with
  | error e => rfl
  | ok start =>
      obtain ⟨hl, hslice⟩ := Buffer.slice_eq s.data (le_of_locate hstart)
      obtain ⟨hl', hslice'⟩ := Buffer.slice_eq s'.data (le_of_locate hstart)
      rw [Checked.ok_bind, Checked.ok_bind, hslice, hslice']
      refine congrArg Except.ok (Subtype.ext (List.ext_getElem? fun k => ?_))
      simp only [getElem?_window, Vector.getElem?_toList]
      split
      · rw [eq_of_locate hstart]
        exact h _ ⟨by omega, by omega⟩
      · rfl

/-- A value is read back from where it was put. -/
theorem readAt_put {x : t.Value} (h : s.readAt t i o = .ok x) (w : t.Value) :
    { s with data := s.data.put (b.offset i + o) w.1 }.readAt t i o = .ok w := by
  have hle := le_of_readAt h
  obtain ⟨start, hstart, -⟩ := Checked.bind_eq_ok.mp h
  obtain rfl := eq_of_locate hstart
  have hafter : { s with data := s.data.put (b.offset i + o) w.1 }.locate i o t.size = _ := hstart
  obtain ⟨hl, hslice⟩ := Buffer.slice_eq (s.data.put (b.offset i + o) w.1) hle
  rw [readAt, hafter, Checked.ok_bind, hslice]
  refine congrArg Except.ok (Subtype.ext (List.ext_getElem? fun k => ?_))
  have hw := w.2
  simp only [getElem?_window, Vector.getElem?_toList, Buffer.getElem?_put]
  by_cases hk : k < t.size
  · rw [if_pos hk, if_pos (by omega), Nat.add_sub_cancel_left]
  · rw [if_neg hk, List.getElem?_eq_none (by omega)]

end Instance

/-! ## Locations -/

/-- Where the value of a variable of type `t` lies. -/
inductive Location (t : ValueType) where
  | data (node offset : Nat)
  | board (key : UInt64)
  | component (c : ValueType) (field : Field c t)

namespace Location

variable {b : Blob} {t : ValueType} {s s' : Instance b} {bb bb' : Blackboard} {l : Location t} {w x : t.Value}
  {a : Address}

def read (l : Location t) (s : Instance b) (bb : Blackboard) : Checked t.Value :=
  match l with
  | data j o => s.readAt t j o
  | board key => Checked.ofBoard (bb.get (.plain t) key)
  | component c field => do return field.read (← Checked.ofBoard (bb.component c))

def assign (l : Location t) (w : t.Value) (s : Instance b) (a : Address) (bb : Blackboard) :
    Checked (Instance b × Blackboard) :=
  match l with
  | data j o => do return (← s.modifyAt t j o (fun _ => w) a, bb)
  | board key => do return (s, ← Checked.ofBoard (bb.modify (.plain t) key fun _ => w))
  | component c field => do return (s, ← Checked.ofBoard (bb.modifyComponent c fun y => field.write y w))

/-- In a memory that starts at `a`, the location is aligned for its type, counted from there and as an address.
Values outside node data are where their type wants them. -/
def Aligned (b : Blob) (a : Address) : Location t → Prop
  | data j o => (b.offset j + o) % t.align = 0 ∧ (a.toNat + (b.offset j + o)) % t.align = 0
  | _ => True

/-- The value at `l` is now `w`, and nothing else has changed. -/
structure Assigned (l : Location t) (w : t.Value) (s : Instance b) (bb : Blackboard) (s' : Instance b)
    (bb' : Blackboard) : Prop where
  value : l.read s' bb' = .ok w
  bytes : ∀ k : Nat, (∀ j o, l = data j o → ¬ Within (b.offset j + o) (b.offset j + o + t.size) k) →
    s'.data[k]? = s.data[k]?
  states : s'.states = s.states
  tick : s'.tick = s.tick
  depth : s'.depth = s.depth
  values : ∀ key, l ≠ board key → bb'.values.find? key = bb.values.find? key
  components : ∀ c, (∀ field, l ≠ component c field) → bb'.components.find? c = bb.components.find? c
  others : ∀ c field, l = component c field →
    ∃ y, bb.component c = .ok y ∧ bb'.component c = .ok (field.write y w)
  answer : bb'.answer = bb.answer
  stream : bb'.stream = bb.stream

theorem modify_data (s : Instance b) (a : Address) (bb : Blackboard) (j o : Nat) (f : t.Value → t.Value) :
    (do return (← s.modifyAt t j o f a, bb)) =
      (data j o : Location t).read s bb >>= fun x => (data j o : Location t).assign (f x) s a bb := by
  simp only [read, assign, Instance.modifyAt_eq s t j o]
  cases s.readAt t j o <;> rfl

theorem modify_board (s : Instance b) (a : Address) (bb : Blackboard) (key : UInt64) (f : t.Value → t.Value) :
    (do return (s, ← Checked.ofBoard (bb.modify (.plain t) key f))) =
      (board key : Location t).read s bb >>= fun x => (board key : Location t).assign (f x) s a bb := by
  simp only [read, assign, Blackboard.modify]
  cases bb.get (.plain t) key <;> rfl

theorem modify_component (s : Instance b) (a : Address) (bb : Blackboard) (c : ValueType) (field : Field c t)
    (f : t.Value → t.Value) :
    (do return (s, ← Checked.ofBoard (bb.modifyComponent c fun y => field.write y (f (field.read y))))) =
      (component c field).read s bb >>= fun x => (component c field).assign (f x) s a bb := by
  simp only [read, assign, Blackboard.modifyComponent]
  cases bb.component c <;> rfl

theorem assign_data {j o : Nat} (h : (data j o : Location t).read s bb = .ok x) (w : t.Value) :
    ((data j o : Location t).Aligned b a ∧
      ∃ s' bb', (data j o).assign w s a bb = .ok (s', bb') ∧ (data j o).Assigned w s bb s' bb') ∨
    (¬ (data j o : Location t).Aligned b a ∧
      (data j o).assign w s a bb = Checked.fail (.misaligned j o t.name)) := by
  have hmodify : s.modifyAt t j o (fun _ => w) a = _ := Instance.modifyAt_eq s t j o _ a
  rw [show s.readAt t j o = .ok x from h, Checked.ok_bind] at hmodify
  by_cases hal : (b.offset j + o) % t.align = 0
  case neg =>
    rw [if_pos hal] at hmodify
    exact .inr ⟨fun h => hal h.1, by rw [assign, hmodify]; rfl⟩
  rw [if_neg (fun hne => hne hal)] at hmodify
  by_cases hadr : (a.toNat + (b.offset j + o)) % t.align = 0
  · rw [if_neg (fun hne => hne hadr)] at hmodify
    refine .inl ⟨⟨hal, hadr⟩, _, bb, by rw [assign, hmodify]; rfl, ?_⟩
    exact {
      value := Instance.readAt_put h w
      bytes := fun k hk => by
        have hw := w.2
        have hout := hk j o rfl
        rw [Buffer.getElem?_put, if_neg]
        rintro ⟨h₁, h₂, -⟩
        exact hout ⟨h₁, by omega⟩
      states := rfl
      tick := rfl
      depth := rfl
      values := fun _ _ => rfl
      components := fun _ _ => rfl
      others := nofun
      answer := rfl
      stream := rfl }
  · rw [if_pos hadr] at hmodify
    exact .inr ⟨fun h => hadr h.2, by rw [assign, hmodify]; rfl⟩

theorem assign_board {key : UInt64} (h : (board key : Location t).read s bb = .ok x) (w : t.Value) :
    ∃ s' bb', (board key).assign w s a bb = .ok (s', bb') ∧ (board key).Assigned w s bb s' bb' := by
  have hget : bb.get (.plain t) key = .ok x := Checked.ofBoard_eq_ok.mp h
  refine ⟨s, bb.set (.plain t) key w, by rw [assign, Blackboard.modify, hget]; rfl, ?_⟩
  exact {
    value := Checked.ofBoard_eq_ok.mpr (bb.get_set (.plain t) key w)
    bytes := fun _ _ => rfl
    states := rfl
    tick := rfl
    depth := rfl
    values := fun key' hne => Dict.find?_insert_of_ne _ _ fun hkey => hne (hkey ▸ rfl)
    components := fun _ _ => rfl
    others := nofun
    answer := rfl
    stream := rfl }

theorem assign_component {c : ValueType} {field : Field c t}
    (h : (component c field : Location t).read s bb = .ok x) (w : t.Value) :
    ∃ s' bb', (component c field).assign w s a bb = .ok (s', bb') ∧
      (component c field).Assigned w s bb s' bb' := by
  obtain ⟨y, hy, -⟩ := Checked.bind_eq_ok.mp h
  have hget : bb.component c = .ok y := Checked.ofBoard_eq_ok.mp hy
  have hafter := Blackboard.component_insertComponent hget (field.write y w)
  refine ⟨s, bb.insertComponent (field.write y w), by rw [assign, Blackboard.modifyComponent, hget]; rfl, ?_⟩
  exact {
    value := by rw [read, hafter]; exact congrArg Except.ok (field.read_write y w)
    bytes := fun _ _ => rfl
    states := rfl
    tick := rfl
    depth := rfl
    values := fun _ _ => rfl
    components := fun c' hne => Dict.find?_insert_of_ne _ _ fun hc => hne (hc ▸ field) (by subst hc; rfl)
    others := by
      rintro c' field' heq
      cases heq
      exact ⟨y, hget, hafter⟩
    answer := rfl
    stream := rfl }

/-- What can be read can be assigned, but for a span that is not aligned. -/
theorem assign_cases (h : l.read s bb = .ok x) (w : t.Value) :
    (l.Aligned b a ∧ ∃ s' bb', l.assign w s a bb = .ok (s', bb') ∧ l.Assigned w s bb s' bb') ∨
    (¬ l.Aligned b a ∧ ∃ j o, l = data j o ∧ l.assign w s a bb = Checked.fail (.misaligned j o t.name)) := by
  cases l with
  | data j o => exact (assign_data h w).imp_right fun ⟨hal, he⟩ => ⟨hal, j, o, rfl, he⟩
  | board key => exact .inl ⟨trivial, assign_board h w⟩
  | component c field => exact .inl ⟨trivial, assign_component h w⟩

/-- In a memory that starts where the type may lie, addresses are aligned as the spans are. -/
theorem aligned_of_dvd {j o : Nat} (ht : t.align ∣ a.toNat) :
    (data j o : Location t).Aligned b a ↔ (b.offset j + o) % t.align = 0 := by
  rw [Aligned, Nat.add_mod a.toNat, Nat.mod_eq_zero_of_dvd ht, Nat.zero_add, Nat.mod_mod, and_self]

/-- Node data starts where every type of at most that alignment may lie. -/
theorem aligned_data {j o : Nat} (hj : j < b.size) (ht : t.align ∣ dataAlign) :
    (data j o : Location t).Aligned b a ↔ o % t.align = 0 := by
  have hoffset : b.offset j % t.align = 0 :=
    Nat.mod_eq_zero_of_dvd (Nat.dvd_trans ht (Nat.dvd_of_mod_eq_zero (b.wellFormed.aligned j hj)))
  rw [aligned_of_dvd (Nat.dvd_trans ht a.aligned), Nat.add_mod, hoffset, Nat.zero_add, Nat.mod_mod]

end Location

/-! ## The two paths -/

namespace Strategy

variable {b : Blob} {t : ValueType}

/-- Where the value for the handle `v` of node `i` lies. -/
def location (st : Strategy t) (v : Variable) (i : Nat) (s : Instance b) : Checked (Location t) :=
  match st with
  | constant => do return .data i (← Checked.ofExcept (v.payloadOffset i))
  | blackboard => do return .board (← payload v i s PlainData.u64)
  | node => do
    let ref ← payload v i s PlainData.nodeRef
    return .data ref.node.toNat ref.offset.toNat
  | component c field _ => return .component c field

theorem read_eq (st : Strategy t) (v : Variable) (i : Nat) (s : Instance b) (bb : Blackboard) :
    st.read v i s bb = st.location v i s >>= fun l => l.read s bb := by
  cases st with
  | constant => simp only [read, location, bind_assoc, Checked.pure_eq, Checked.ok_bind, Location.read]
  | blackboard => simp only [read, location, bind_assoc, Checked.pure_eq, Checked.ok_bind, Location.read]
  | node => simp only [read, location, bind_assoc, Checked.pure_eq, Checked.ok_bind, Location.read]
  | component c field mode => rfl

theorem modify_eq (st : Strategy t) (v : Variable) (i : Nat) (f : t.Value → t.Value) (s : Instance b)
    (a : Address) (bb : Blackboard) :
    st.modify v i f s a bb = st.location v i s >>= fun l => l.read s bb >>= fun x => l.assign (f x) s a bb := by
  cases st with
  | constant =>
      simp only [modify, location, bind_assoc, Checked.pure_eq, Checked.ok_bind]
      exact bind_congr fun o => Location.modify_data s a bb i o f
  | blackboard =>
      simp only [modify, location, bind_assoc, Checked.pure_eq, Checked.ok_bind]
      exact bind_congr fun key => Location.modify_board s a bb key f
  | node =>
      simp only [modify, location, bind_assoc, Checked.pure_eq, Checked.ok_bind]
      exact bind_congr fun ref => Location.modify_data s a bb ref.node.toNat ref.offset.toNat f
  | component c field mode => exact Location.modify_component s a bb c field f

/-- Without its payload changed, a handle means the same location. -/
theorem location_congr {st : Strategy t} {v : Variable} {i : Nat} {s s' : Instance b} (h : ∀ k,
    Within (b.offset i + v.offset.toNat) (b.offset i + v.offset.toNat + 8) k → s'.data[k]? = s.data[k]?) :
    st.location v i s' = st.location v i s := by
  have hpayload : ∀ {α : Type} (p : PlainData α), p.type.size = 8 → payload v i s' p = payload v i s p := by
    intro α p hp
    unfold payload Variable.payloadOffset
    split
    · have hread : s'.readAt p.type i v.offset.toNat = _ := Instance.readAt_congr (by rwa [hp])
      simp only [Checked.ofExcept_ok, Checked.ok_bind, hread]
    · rfl
  cases st with
  | constant => rfl
  | blackboard => simp only [location, hpayload PlainData.u64 rfl]
  | node => simp only [location, hpayload PlainData.nodeRef rfl]
  | component c field mode => rfl

end Strategy

namespace Variable

variable {b : Blob}

/-- Where the value for the handle `v` of node `i` lies, by the strategy for its id. -/
def location (v : Variable) (rs : Registries) (t : ValueType) (i : Nat) (s : Instance b) :
    Checked (Location t) := do
  (← Checked.ofExcept (rs.strategy t v.id)).location v i s

theorem read_eq_location (v : Variable) (rs : Registries) (t : ValueType) (i : Nat) (s : Instance b)
    (bb : Blackboard) : v.read rs t i s bb = v.location rs t i s >>= fun l => l.read s bb := by
  rw [read, location, bind_assoc]
  exact bind_congr fun st => st.read_eq v i s bb

theorem modify_eq_location (v : Variable) (rs : Registries) (t : ValueType) (i : Nat) (f : t.Value → t.Value)
    (s : Instance b) (a : Address) (bb : Blackboard) : v.modify rs t i f s a bb =
      v.location rs t i s >>= fun l => l.read s bb >>= fun x => l.assign (f x) s a bb := by
  rw [modify, location, bind_assoc]
  exact bind_congr fun st => st.modify_eq v i f s a bb

/-- What a change in place comes to, once the variable can be read. -/
theorem modify_cases {v : Variable} {rs : Registries} {t : ValueType} {i : Nat} {s : Instance b} {bb : Blackboard}
    {x : t.Value} (h : v.read rs t i s bb = .ok x) (f : t.Value → t.Value) (a : Address) :
    ∃ l, v.location rs t i s = .ok l ∧
      ((l.Aligned b a ∧ ∃ s' bb', v.modify rs t i f s a bb = .ok (s', bb') ∧ l.Assigned (f x) s bb s' bb') ∨
      (¬ l.Aligned b a ∧ ∃ j o, l = .data j o ∧
        v.modify rs t i f s a bb = Checked.fail (.misaligned j o t.name))) := by
  rw [read_eq_location] at h
  obtain ⟨l, hl, hx⟩ := Checked.bind_eq_ok.mp h
  refine ⟨l, hl, ?_⟩
  rw [modify_eq_location, hl, Checked.ok_bind, hx, Checked.ok_bind]
  exact Location.assign_cases hx (f x)

theorem modify_error {v : Variable} {rs : Registries} {t : ValueType} {i : Nat} {s : Instance b} {bb : Blackboard}
    {e : Fault} (h : v.read rs t i s bb = .error e) (f : t.Value → t.Value) (a : Address) :
    v.modify rs t i f s a bb = .error e := by
  rw [read_eq_location] at h
  rw [modify_eq_location]
  cases hl : v.location rs t i s with
  | error e' =>
      rw [hl] at h
      cases h
      rfl
  | ok l =>
      rw [hl, Checked.ok_bind] at h
      rw [Checked.ok_bind, h]
      rfl

/-- A value that was assigned is read through the handle, unless it was written over the handle's payload. -/
theorem read_of_assigned {v : Variable} {rs : Registries} {t : ValueType} {i : Nat} {s s' : Instance b}
    {bb bb' : Blackboard} {l : Location t} {w : t.Value} (hl : v.location rs t i s = .ok l)
    (hw : l.Assigned w s bb s' bb') (hclear : rs.strategy t v.id = .ok .node → ∀ j o, l = .data j o → ∀ k,
      Within (b.offset i + v.offset.toNat) (b.offset i + v.offset.toNat + 8) k →
        ¬ Within (b.offset j + o) (b.offset j + o + t.size) k) :
    v.read rs t i s' bb' = .ok w := by
  suffices hsame : v.location rs t i s' = v.location rs t i s by
    rw [read_eq_location, hsame, hl]
    exact hw.value
  cases hst : rs.strategy t v.id with
  | error e =>
      simp only [location, hst]
      rfl
  | ok st =>
      simp only [location, hst, Checked.ofExcept_ok, Checked.ok_bind] at hl ⊢
      cases st with
      | constant => rfl
      | blackboard =>
          -- A key of the blackboard was assigned: no byte of node data is another one.
          obtain ⟨key, -, hkey⟩ := Checked.bind_eq_ok.mp hl
          cases hkey
          exact Strategy.location_congr fun k _ => hw.bytes k nofun
      | node => exact Strategy.location_congr fun k hk => hw.bytes k fun j o hdata => hclear hst j o hdata k hk
      | component c field mode => rfl

/-- Reading a variable and changing it in place agree on where its value lies. The change succeeds where the
read does and the location is aligned; otherwise it fails like the read, or because of the alignment. It
changes the value that was read. All else stays, and the handle gives the changed value afterwards, unless a
node variable had its own payload written over. Where the memory starts matters only for types that need more
than the alignment of words. -/
theorem modify_agrees_with_read (v : Variable) (rs : Registries) (t : ValueType) (i : Nat)
    (f : t.Value → t.Value) (s : Instance b) (a : Address) (bb : Blackboard) :
    ((∃ r, v.modify rs t i f s a bb = .ok r) ↔
      ∃ x l, v.read rs t i s bb = .ok x ∧ v.location rs t i s = .ok l ∧ l.Aligned b a) ∧
    (∀ e, v.read rs t i s bb = .error e → v.modify rs t i f s a bb = .error e) ∧
    (∀ e, v.modify rs t i f s a bb = .error e → v.read rs t i s bb = .error e ∨
      ∃ j o, v.location rs t i s = .ok (.data j o) ∧ e = .error (.misaligned j o t.name)) ∧
    (∀ x s' bb', v.read rs t i s bb = .ok x → v.modify rs t i f s a bb = .ok (s', bb') →
      ∃ l, v.location rs t i s = .ok l ∧ l.Assigned (f x) s bb s' bb' ∧
        ((rs.strategy t v.id = .ok .node → ∀ j o, l = .data j o → ∀ k,
            Within (b.offset i + v.offset.toNat) (b.offset i + v.offset.toNat + 8) k →
              ¬ Within (b.offset j + o) (b.offset j + o + t.size) k) →
          v.read rs t i s' bb' = .ok (f x))) ∧
    (t.align ∣ a.toNat → ∀ j o,
      ((Location.data j o : Location t).Aligned b a ↔ (b.offset j + o) % t.align = 0)) ∧
    (t.align ∣ dataAlign → ∀ j o, j < b.size →
      ((Location.data j o : Location t).Aligned b a ↔ o % t.align = 0)) := by
  refine ⟨⟨?_, ?_⟩, fun e he => modify_error he f a, ?_, ?_, fun ht j o => Location.aligned_of_dvd ht,
    fun ht j o hj => Location.aligned_data hj ht⟩
  · rintro ⟨r, hr⟩
    cases hread : v.read rs t i s bb with
    | error e =>
        rw [modify_error hread f] at hr
        cases hr
    | ok x =>
        obtain ⟨l, hl, ⟨hal, -⟩ | ⟨-, j, o, -, he⟩⟩ := modify_cases hread f a
        · exact ⟨x, l, rfl, hl, hal⟩
        · rw [he] at hr
          cases hr
  · rintro ⟨x, l, hread, hl, hal⟩
    obtain ⟨l', hl', ⟨-, s', bb', hok, -⟩ | ⟨hal', -⟩⟩ := modify_cases hread f a
    · exact ⟨_, hok⟩
    · cases hl.symm.trans hl'
      exact absurd hal hal'
  · intro e he
    cases hread : v.read rs t i s bb with
    | error e' =>
        rw [modify_error hread f] at he
        cases he
        exact .inl rfl
    | ok x =>
        obtain ⟨l, hl, ⟨-, s', bb', hok, -⟩ | ⟨-, j, o, rfl, hfail⟩⟩ := modify_cases hread f a
        · rw [hok] at he
          cases he
        · rw [hfail] at he
          cases he
          exact .inr ⟨j, o, hl, rfl⟩
  · intro x s' bb' hread hok
    obtain ⟨l, hl, ⟨-, s₁, bb₁, hok₁, hw⟩ | ⟨-, j, o, -, hfail⟩⟩ := modify_cases hread f a
    · cases hok.symm.trans hok₁
      exact ⟨l, hl, hw, read_of_assigned hl hw⟩
    · rw [hfail] at hok
      cases hok

end Variable

end BehaviorTree
