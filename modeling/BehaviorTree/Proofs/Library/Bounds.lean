import BehaviorTree.Proofs.Library.Running
import BehaviorTree.Proofs.Library.Steps
import BehaviorTree.Proofs.Wire.Layout

/-!
# What decodes can be inspected and run

A blob that was read from bytes or text was checked on the way, so its accessors stay inside its arrays.
So does a machine with the behaviors of the library, on every instance of the blob: data and recorded
results that fit no node type end in errors at worst.
-/

namespace BehaviorTree

open Checked (InBounds)

/-! ## Behaviors -/

/-- A behavior that stays inside the arrays on every node if the ticks and resets of other nodes do. -/
structure Behavior.InBounds (bh : Behavior) : Prop where
  reset : ∀ {b : Blob} {i : Nat}, i < b.size → (bh.reset i : Run b Unit).InBounds
  tick : ∀ {b : Blob} {rs : Registries} {cb : Callbacks b} {i : Nat}, i < b.size →
    (∀ c, (cb.tick c).InBounds) → (∀ c, (cb.reset c).InBounds) → (bh.tick rs cb i).InBounds
  access : ∀ {f}, bh.access = some f → ∀ (rs : Registries) {b : Blob} {i : Nat}, i < b.size →
    (f rs b i).InBounds

variable {b : Blob} {m : Machine} {i : Nat}

theorem Machine.abort_inBounds (b : Blob) (i : Nat) : (abort i : Run b Unit).InBounds :=
  .ite (fun _ => Run.fail_inBounds _) fun hi => Run.clearSubtree_inBounds (by omega)

namespace Library

open Run (FailsBy)

/-- No step of a composite leaves the arrays. -/
theorem ownSteps_inBounds (hi : i < b.size) : OwnSteps (fun x : Run b _ => x.InBounds) i where
  pure := .pure
  abort c hc := .ofInst fun s => FailsBy.bind
    (.lift (s.state_inBounds (Blob.lt_size_of_mem_childList hi hc))) fun _ =>
      .ite (fun _ => Machine.abort_inBounds b c) fun _ => .pure ()
  readStatus := Run.readStatus_inBounds i
  writeStatus := Run.writeStatus_inBounds i
  readHead := Run.readHead_inBounds _ i
  writeHead := Run.writeHead_inBounds _ i
  noRunningChild := Run.fail_inBounds _
  missingChild := Run.fail_inBounds _

theorem readSingle_inBounds (rs : Registries) (v : Variable) (i : Nat) : (readSingle rs v i : Run b Single).InBounds :=
  .ofInst fun s => .ofBoard fun bb => .bind (.lift (v.read_inBounds rs _ i s bb)) fun _ => .pure _

theorem delayAccess_inBounds (rs : Registries) (hi : i < b.size) : (delayAccess rs b i).InBounds :=
  (Blob.defaultValue_inBounds hi _).bind fun _ _ => (InBounds.ofExcept _).bind fun _ _ =>
    (InBounds.ofExcept _).bind fun _ _ => .ok _

theorem delay_tick_inBounds (rs : Registries) (cb : Callbacks b) (i : Nat) :
    (delay.tick rs cb i).InBounds :=
  (Run.readHead_inBounds _ i).bind fun _ => (readSingle_inBounds rs _ i).bind fun _ =>
    (readSingle_inBounds rs _ i).bind fun _ => (Run.writeHead_inBounds _ i _).bind fun _ => .pure _

theorem inBounds {x : TypeId × Behavior} (hx : x ∈ Library.behaviors) : x.2.InBounds where
  reset {b i} hi := by
    by_cases hp : x.2 = parallel
    · rw [hp]
      exact .update fun s => s.fill_inBounds hi _
    · rw [reset_of_ne hx hp]
      exact .pure ()
  tick {b rs cb i} hi htick _ := by
    by_cases hc : x.2 ∈ composites
    · exact ((ownSteps_inBounds hi).composite hi hc rs).inBounds (fun c _ => htick c) fun _ => False.elim
    · rcases leaf_cases hx hc with rfl | rfl
      · exact Run.readStatus_inBounds i 0
      · exact delay_tick_inBounds rs cb i
  access {f} hf rs b i hi := by
    simp only [Library.behaviors, List.mem_cons, List.not_mem_nil, or_false] at hx
    rcases hx with rfl | rfl | rfl | rfl | rfl | rfl | rfl | rfl <;> cases hf
    exact delayAccess_inBounds rs hi

end Library

/-! ## Machines -/

namespace Machine

open Run (FailsBy)

/-- Every behavior stays inside the arrays. -/
def InBounds (m : Machine) : Prop := ∀ id bh, m.behavior? id = some bh → bh.InBounds

theorem behaviorAt_inBounds (m : Machine) (b : Blob) (i : Nat) : (m.behaviorAt b i).InBounds := by
  refine .ite (fun _ => Checked.InBounds.fail _) fun hi => ?_
  obtain ⟨id, hid⟩ := Blob.typeOf_eq (b := b) (i := i) (by omega)
  rw [hid, Checked.ok_bind]
  cases m.behavior? id with
  | none => exact Checked.InBounds.fail _
  | some bh => exact .ok bh

theorem trace_inBounds (m : Machine) (i : Nat) (event : NodeEvent) : (m.trace i event : Run b Unit).InBounds :=
  .ite (fun _ => Run.emit_inBounds i event) fun _ => .pure ()

theorem perform_inBounds (m : Machine) (hi : i < b.size) {x : Run b Status} (hx : x.InBounds) :
    (m.perform i x).InBounds := by
  refine .ofInst fun s => .bind (.setInst _) fun _ => .attempt hx fun r hr => .ofInst fun s => ?_
  refine FailsBy.bind (.setInst _) fun _ => ?_
  cases r with
  | error e => exact (Run.clearSubtree_inBounds hi).bind fun _ => .lift (c := .error e) hr
  | ok st => exact .bind (.update fun s => s.setState_inBounds hi st) fun _ =>
      (m.trace_inBounds i _).bind fun _ => .pure st

namespace InBounds

variable (hm : m.InBounds)
include hm

theorem behaviorAt {bh : Behavior} (h : m.behaviorAt b i = .ok bh) : bh.InBounds :=
  let ⟨id, _, hid⟩ := behaviorAt_eq_ok h
  hm id bh hid

theorem activate {bh : Behavior} (h : m.behaviorAt b i = .ok bh) : (m.activate bh i : Run b Unit).InBounds := by
  have hi := lt_of_behaviorAt h
  refine FailsBy.bind (.update fun s => s.restore_inBounds hi) fun _ => ?_
  exact ((hm.behaviorAt h).reset hi).bind fun _ => m.trace_inBounds i _

/-- What follows the preparation of a node runs on a node of the tree with its behavior. -/
theorem prepare_bind {α : Type} {f : Behavior → Run b α}
    (hf : ∀ bh, m.behaviorAt b i = .ok bh → (f bh).InBounds) : (m.prepare i >>= f).InBounds := by
  rw [prepare, bind_assoc]
  refine FailsBy.lift_bind (m.behaviorAt_inBounds b i) fun bh hbh => ?_
  rw [bind_assoc]
  refine .ofInst fun s => ?_
  rw [bind_assoc]
  refine FailsBy.bind (.lift (s.state_inBounds (lt_of_behaviorAt hbh))) fun st => ?_
  split
  · rw [bind_assoc]
    exact (hm.activate hbh).bind fun _ => hf bh hbh
  · exact hf bh hbh

theorem resetNode (i : Nat) : (m.resetNode i : Run b Unit).InBounds :=
  .lift_bind (m.behaviorAt_inBounds b i) fun _ hbh => (hm.behaviorAt hbh).reset (lt_of_behaviorAt hbh)

theorem reset (i : Nat) : (m.reset i : Run b Unit).InBounds := by
  refine .lift_bind (m.behaviorAt_inBounds b i) fun bh hbh => ?_
  have hi := lt_of_behaviorAt hbh
  refine FailsBy.bind (.update fun s => s.resetSubtree_inBounds hi) fun _ => ?_
  refine FailsBy.bind (.lift (Checked.InBounds.of_eq_ok (Blob.endOf_eq hi))) fun stop => ?_
  exact (FailsBy.forM fun j _ => hm.resetNode j).bind fun _ => m.trace_inBounds i _

theorem tickWithin : ∀ room i, (m.tickWithin room i : Run b Status).InBounds
  | 0, _ => hm.prepare_bind fun _ _ => Run.fail_inBounds _
  | room + 1, _ => hm.prepare_bind fun _ hbh => m.perform_inBounds (lt_of_behaviorAt hbh)
      ((hm.behaviorAt hbh).tick (lt_of_behaviorAt hbh) (tickWithin room) hm.reset)

theorem tick (i : Nat) : (m.tick i : Run b Status).InBounds := .ofInst fun _ => hm.tickWithin _ i

theorem componentAccess (b : Blob) : (m.componentAccess b).InBounds := by
  refine Checked.FailsBy.foldlM fun l i hi => ?_
  rw [List.mem_range] at hi
  refine (m.behaviorAt_inBounds b i).bind fun bh hbh => ?_
  cases hf : bh.access with
  | none => exact .ok l
  | some f => exact ((hm.behaviorAt hbh).access hf m.registries hi).bind fun _ _ => .ok _

end InBounds

/-- The behaviors of the machine are those of the library, at whatever types. -/
def Builtin (m : Machine) : Prop := ∀ id bh, m.behavior? id = some bh → bh ∈ Library.behaviors.map (·.2)

theorem Builtin.inBounds (hm : m.Builtin) : m.InBounds := fun id bh h => by
  obtain ⟨x, hx, rfl⟩ := List.mem_map.mp (hm id bh h)
  exact Library.inBounds hx

/-- Variables and configuration of such a machine are arbitrary. -/
theorem Builtin.registerLibrary (hm : ∀ id, m.behavior? id = none) : m.registerLibrary.1.Builtin :=
  registerLibrary_induction (fun id bh h => by cases (hm id).symm.trans h) fun _ hx => List.mem_map_of_mem hx

theorem Builtin.ofLibrary : Machine.ofLibrary.Builtin := registerLibrary fun _ => behavior?_empty

end Machine

/-! ## Blobs that were read -/

/-- The accessors of a blob stay inside its arrays on every node, and their slices are ranges of these. -/
structure Blob.Inspectable (b : Blob) : Prop where
  depths : ∃ ds, b.depths = .ok ds ∧ ds.length = b.size
  stop : ∀ i < b.size, ∃ stop, b.endOf i = .ok stop ∧ i < stop ∧ stop ≤ b.size
  children : ∀ i < b.size, ∃ cs, b.children i = .ok cs ∧ b.childCount i = .ok cs.length ∧
    ∀ c ∈ cs, i < c ∧ c < b.size
  span : ∀ i < b.size, ∃ start stop, b.subtreeSpan i = .ok (start, stop) ∧ start ≤ stop ∧ stop ≤ b.regionSize
  bytes : ∀ i < b.size, ∃ start len bs, b.offsetOf i = .ok start ∧ b.sizeOf i = .ok len ∧
    start + len ≤ b.regionSize ∧ b.defaultBytes i = .ok bs ∧ bs.length = len
  value : ∀ i < b.size, ∀ t, b.defaultValue t i ≠ .error .outOfBounds

theorem Blob.inspectable (b : Blob) : b.Inspectable where
  depths := b.depthsFrom_eq [] (by omega)
  stop i hi := ⟨b.stop i, endOf_eq hi, lt_stop hi, stop_le hi⟩
  children i hi := by
    refine ⟨b.childList i, children_eq hi, ?_, fun c hc => ?_⟩
    · rw [Layout.childCount, children_eq hi]
      rfl
    · exact ⟨(lt_of_mem_childList hi hc).1, lt_size_of_mem_childList hi hc⟩
  span i hi := by
    have hlt := lt_stop hi
    have hle := stop_le hi
    have hlast := offset_add_extent_le (b := b) (i := b.stop i - 1) (by omega)
    have hfirst := Instance.offset_mem_span hi (Nat.le_refl i) hlt
    exact ⟨_, _, Instance.subtreeSpan_eq hi, by omega, hlast⟩
  bytes i hi := ⟨b.offset i, b.extent i, b.defaults i, offsetOf_eq hi, sizeOf_eq hi, offset_add_extent_le hi,
    defaultBytes_eq hi, b.length_defaults i⟩
  value i hi t := Checked.inBounds_iff.mp (defaultValue_inBounds hi t)

/-- Inspecting the blob and running its instances stays inside the arrays, whatever an instance holds. -/
structure Blob.Safe (b : Blob) : Prop extends b.Inspectable where
  validate : b.validate = .ok ()
  componentAccess : ∀ m : Machine, m.Builtin → m.componentAccess b ≠ .error .outOfBounds
  tick : ∀ m : Machine, m.Builtin → ∀ (s : Instance b) (bb : Blackboard) (i : Nat),
    ((m.tick i).exec ⟨s, bb⟩).1 ≠ .error .outOfBounds
  reset : ∀ m : Machine, m.Builtin → ∀ (s : Instance b) (bb : Blackboard) (i : Nat),
    ((m.reset i).exec ⟨s, bb⟩).1 ≠ .error .outOfBounds
  abort : ∀ (s : Instance b) (bb : Blackboard) (i : Nat),
    ((Machine.abort i).exec ⟨s, bb⟩).1 ≠ .error .outOfBounds

theorem Blob.safe (b : Blob) : b.Safe where
  toInspectable := b.inspectable
  validate := b.valid
  componentAccess _ hm := Checked.inBounds_iff.mp (hm.inBounds.componentAccess b)
  tick _ hm s bb i := (hm.inBounds.tick i).exec ⟨s, bb⟩
  reset _ hm s bb i := (hm.inBounds.reset i).exec ⟨s, bb⟩
  abort s bb i := (Machine.abort_inBounds b i).exec ⟨s, bb⟩

/-- What decodes is the stored layout, and passed the check. So it can be inspected, and a machine with the
behaviors of the library runs it, without an access outside an array. -/
theorem decoded_safe (b : Blob) :
    (∀ bytes, Blob.ofMessagePack bytes = .ok b → b.Safe ∧
      ∃ v rest, MessagePack.read bytes = some (v, rest) ∧ Layout.ofMessagePack? v = some b.toLayout) ∧
    (∀ text, Blob.ofJsonText text = .ok b → b.Safe ∧
      ∃ v, Json.parse? text.toList = some v ∧ Layout.ofJson? v = some b.toLayout) := by
  constructor
  · intro bytes h
    obtain ⟨⟨v, rest⟩, hread, hl⟩ := Option.bind_eq_some_iff.mp (Blob.ofWire_eq_ok_iff.mp h)
    exact ⟨b.safe, v, rest, hread, hl⟩
  · intro text h
    obtain ⟨v, hparse, hl⟩ := Option.bind_eq_some_iff.mp (Blob.ofWire_eq_ok_iff.mp h)
    exact ⟨b.safe, v, hparse, hl⟩

theorem decoded_safe_busyLeaf : Blob.ofMessagePack Blob.busyLeaf.toMessagePack = .ok .busyLeaf ∧
    Machine.ofLibrary.Builtin ∧ ∀ (s : Instance .busyLeaf) (bb : Blackboard) (i : Nat),
      ((Machine.ofLibrary.tick i).exec ⟨s, bb⟩).1 ≠ .error .outOfBounds := by
  have hread : Blob.ofMessagePack Blob.busyLeaf.toMessagePack = .ok .busyLeaf := by rfl
  exact ⟨hread, .ofLibrary, ((decoded_safe .busyLeaf).1 _ hread).1.tick _ .ofLibrary⟩

end BehaviorTree
