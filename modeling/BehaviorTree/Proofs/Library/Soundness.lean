import BehaviorTree.Proofs.Library.Supervision
import BehaviorTree.Proofs.Library.Timer
import BehaviorTree.Proofs.Machine.Runs
import BehaviorTree.Proofs.Machine.Table
import BehaviorTree.Proofs.Variable.Registry

/-!
# Composed trees do not go wrong

A blob whose nodes have the data that the library needs is typed: through every run the data stays so, and
calls fail only for the depth limit, for the key of a timer, or for the trace.
-/

namespace BehaviorTree

open Library

namespace Library

theorem id_unique : ∀ x ∈ Library.behaviors, ∀ y ∈ Library.behaviors, x.2 = y.2 → x.1 = y.1 := by
  have h : ∀ x ∈ Library.behaviors.map (fun x => (x.1, x.2.name)),
      ∀ y ∈ Library.behaviors.map (fun x => (x.1, x.2.name)), x.2 = y.2 → x.1 = y.1 := by decide
  intro x hx y hy hxy
  exact h (x.1, x.2.name) (List.mem_map_of_mem (f := fun x : TypeId × Behavior => (x.1, x.2.name)) hx)
    (y.1, y.2.name) (List.mem_map_of_mem (f := fun x : TypeId × Behavior => (x.1, x.2.name)) hy)
    (congrArg Behavior.name hxy)

end Library

/-- The behaviors of the library and its strategies for numbers are in their places. -/
structure Machine.HasLibrary (m : Machine) : Prop where
  behaviors : ∀ x ∈ Library.behaviors, m.behavior? x.1 = some x.2
  singles : m.registries.BuiltinSingles

/-- A machine to which the library was added has it, unless the host had put strategies of its own under
the ids of the library. -/
theorem Machine.HasLibrary.of_registerLibrary {m m' : Machine} (h : m.registerLibrary = (m', .ok ()))
    (hconst : ∀ s, m.registries.strategy PlainData.f32.type Variable.constantId = .ok s → s = .constant)
    (hboard : ∀ s, m.registries.strategy PlainData.f32.type Variable.blackboardId = .ok s → s = .blackboard) :
    m'.HasLibrary := by
  unfold Machine.registerLibrary at h
  split at h
  · rename_i m₁ hall
    cases h
    obtain ⟨hbehaviors, -, hreg⟩ := Machine.registerAll_ok hall
    obtain ⟨h₁, h₂⟩ := m.registries.strategy_ensureBuiltin hconst hboard
    refine ⟨hbehaviors, ?_, ?_⟩
    · rw [hreg]
      exact h₁
    · rw [hreg]
      exact h₂
  · cases h

theorem Machine.HasLibrary.ofLibrary : Machine.ofLibrary.HasLibrary :=
  .of_registerLibrary (m := .empty) rfl (fun _ h => by cases h) fun _ h => by cases h

/-- Every node has data as the constructors of the library make it. -/
def Blob.Fitted (b : Blob) : Prop :=
  ∀ i < b.size, ∃ type, b.typeOf i = .ok type ∧
    Blueprint.Fitted type (b.defaults i) (b.childList i).length

variable {b : Blob} {m : Machine} {i : Nat}

theorem Machine.HasLibrary.behaviorAt (hm : m.HasLibrary) (hi : i < b.size) {x : TypeId × Behavior}
    (hx : x ∈ Library.behaviors) (ht : b.typeOf i = .ok x.1) : m.behaviorAt b i = .ok x.2 := by
  rw [Machine.behaviorAt, if_neg (Nat.not_le.mpr hi), ht, Checked.ok_bind, hm.behaviors x hx]
  rfl

theorem Machine.HasLibrary.parallelAt (hm : m.HasLibrary) (ht : b.typeOf i = .ok parallelId) :
    m.behaviorAt b i = .ok Library.parallel := by
  have hi : i < b.size := by
    refine Nat.lt_of_not_le fun hle => ?_
    rw [Layout.typeOf, Array.getElem?_eq_none hle] at ht
    cases ht
  exact hm.behaviorAt hi (x := (parallelId, Library.parallel)) (by simp [Library.behaviors]) ht

namespace Blob.Fitted

theorem typeOf (hb : b.Fitted) (hm : m.HasLibrary) (hi : i < b.size) {x : TypeId × Behavior}
    (hx : x ∈ Library.behaviors) (hbh : m.behaviorAt b i = .ok x.2) : b.typeOf i = .ok x.1 := by
  obtain ⟨type, htype, hfit⟩ := hb i hi
  obtain ⟨y, hy, rfl⟩ := hfit.mem_behaviors
  rw [hm.behaviorAt hi hy htype] at hbh
  rw [htype, id_unique y hy x hx (Except.ok.inj hbh)]

theorem at_type (hb : b.Fitted) (hi : i < b.size) {type : TypeId} (ht : b.typeOf i = .ok type) :
    Blueprint.Fitted type (b.defaults i) (b.childList i).length := by
  obtain ⟨type', htype, hfit⟩ := hb i hi
  rw [htype] at ht
  cases ht
  exact hfit

theorem exists_behavior (hb : b.Fitted) (hm : m.HasLibrary) (hi : i < b.size) {bh : Behavior}
    (hbh : m.behaviorAt b i = .ok bh) : ∃ x ∈ Library.behaviors, x.2 = bh := by
  obtain ⟨type, htype, hfit⟩ := hb i hi
  obtain ⟨x, hx, rfl⟩ := hfit.mem_behaviors
  rw [hm.behaviorAt hi hx htype] at hbh
  exact ⟨x, hx, Except.ok.inj hbh⟩

theorem parallel (hb : b.Fitted) (hm : m.HasLibrary) (hi : i < b.size)
    (hbh : m.behaviorAt b i = .ok Library.parallel) : b.typeOf i = .ok parallelId ∧
      0 < (b.childList i).length ∧ b.extent i = (b.childList i).length := by
  have ht := hb.typeOf hm hi (x := (parallelId, Library.parallel)) (by simp [Library.behaviors]) hbh
  obtain ⟨hn, hds⟩ := (hb.at_type hi ht).inv_parallel
  refine ⟨ht, hn, ?_⟩
  rw [← b.length_defaults, hds, List.length_replicate]

theorem repetition (hb : b.Fitted) (hm : m.HasLibrary) (hi : i < b.size)
    (hbh : m.behaviorAt b i = .ok Library.repetition) : b.typeOf i = .ok repetitionId ∧ b.extent i = 12 := by
  have ht := hb.typeOf hm hi (x := (repetitionId, Library.repetition)) (by simp [Library.behaviors]) hbh
  exact ⟨ht, (b.length_defaults i).symm.trans (hb.at_type hi ht).inv_repetition.1⟩

theorem has_child (hb : b.Fitted) (hm : m.HasLibrary) (hi : i < b.size) {bh : Behavior}
    (hmem : bh ∈ [Library.repetition, Library.inverter, Library.force]) (hbh : m.behaviorAt b i = .ok bh) :
    0 < (b.childList i).length := by
  simp only [List.mem_cons, List.not_mem_nil, or_false] at hmem
  rcases hmem with rfl | rfl | rfl
  · have ht := hb.typeOf hm hi (x := (repetitionId, Library.repetition)) (by simp [Library.behaviors]) hbh
    exact (hb.at_type hi ht).inv_repetition.2
  · have ht := hb.typeOf hm hi (x := (inverterId, Library.inverter)) (by simp [Library.behaviors]) hbh
    exact (hb.at_type hi ht).inv_inverter
  · have ht := hb.typeOf hm hi (x := (forceId, Library.force)) (by simp [Library.behaviors]) hbh
    exact (hb.at_type hi ht).inv_force.2

end Blob.Fitted

/-! ## The typing -/

/-- What is known of the data of a node at all times. -/
structure Sound (b : Blob) (i : Nat) (bs : List UInt8) : Prop where
  length : bs.length = b.extent i
  parallel : b.typeOf i = .ok parallelId → ∀ v ∈ bs, ∃ st : Status, v = st.bits
  result : b.typeOf i = .ok forceId ∨ b.typeOf i = .ok fixedId → bs = b.defaults i
  delay : b.typeOf i = .ok delayId → SameTimer (b.defaults i) bs

/-- The faults of a composed tree: the depth limit, the key of a timer, or the trace. -/
inductive Allowed (b : Blob) (m : Machine) : Fault → Prop
  | tooDeep {i : Nat} : i < b.size → Allowed b m (.error (.depthExceeded i m.config.maxTickDepth))
  | timer {i : Nat} {bs : List UInt8} {e : Fault} : b.typeOf i = .ok delayId → b.defaultBytes i = .ok bs →
      TimerFault bs e → Allowed b m e
  | log : m.config.trace = true →
      Allowed b m (.error (.board (.typeMismatch Blackboard.traceLog "TraceLog")))
  | sink : m.config.trace = true →
      Allowed b m (.error (.board (.typeMismatch Blackboard.traceSink "Box<dyn TraceSink + Send>")))

namespace Sound

variable {bs bs' : List UInt8}

theorem typeOf_ne {type type' : TypeId} (ht : b.typeOf i = .ok type) (h : type ≠ type') :
    b.typeOf i ≠ .ok type' := fun h' => h (Except.ok.inj (ht.symm.trans h'))

theorem of_length (hl : bs.length = b.extent i) {type : TypeId} (ht : b.typeOf i = .ok type)
    (htype : type ∉ [parallelId, forceId, fixedId, delayId]) : Sound b i bs := by
  simp only [List.mem_cons, List.not_mem_nil, or_false, not_or] at htype
  exact ⟨hl, fun h => absurd h (typeOf_ne ht htype.1),
    fun h => h.elim (fun h => absurd h (typeOf_ne ht htype.2.1)) fun h => absurd h (typeOf_ne ht htype.2.2.1),
    fun h => absurd h (typeOf_ne ht htype.2.2.2)⟩

theorem of_parallel (ht : b.typeOf i = .ok parallelId) (hl : bs.length = b.extent i)
    (hbs : ∀ v ∈ bs, ∃ st : Status, v = st.bits) : Sound b i bs := by
  exact ⟨hl, fun _ => hbs, fun h => h.elim (fun h => absurd h (typeOf_ne ht (by decide)))
    fun h => absurd h (typeOf_ne ht (by decide)), fun h => absurd h (typeOf_ne ht (by decide))⟩

theorem of_delay (ht : b.typeOf i = .ok delayId) (h : SameTimer (b.defaults i) bs) : Sound b i bs := by
  exact ⟨h.length.trans (b.length_defaults i), fun h => absurd h (typeOf_ne ht (by decide)),
    fun h => h.elim (fun h => absurd h (typeOf_ne ht (by decide))) fun h => absurd h (typeOf_ne ht (by decide)),
    fun _ => h⟩

theorem of_defaults (hb : b.Fitted) (hi : i < b.size) : Sound b i (b.defaults i) := by
  refine ⟨b.length_defaults i, fun ht v hv => ?_, fun _ => rfl, fun _ => SameTimer.refl _⟩
  rw [(hb.at_type hi ht).inv_parallel.2] at hv
  exact ⟨.running, List.eq_of_mem_replicate hv⟩

theorem status_ok {c : Cell} {k : Nat} (hk : k < c.bytes.length) (h : ∀ v ∈ c.bytes, ∃ st : Status, v = st.bits) :
    ∃ st, c.status i k = .ok st := by
  obtain ⟨st, hst⟩ := h _ (List.getElem_mem hk)
  exact ⟨st, Cell.status_eq_ok.mpr (by rw [List.getElem?_eq_getElem hk, hst])⟩

end Sound

def Typing.library (hb : b.Fitted) (hm : m.HasLibrary) : Typing b m where
  data := Sound b
  live i bs := b.typeOf i = .ok parallelId → Status.running.bits ∈ bs
  fault := Allowed b m
  data_defaults _ hi := .of_defaults hb hi
  live_of_ne _ _ hne ht := absurd (hm.parallelAt ht) hne
  unknown i hi e he := by
    obtain ⟨type, htype, hfit⟩ := hb i hi
    obtain ⟨x, hx, rfl⟩ := hfit.mem_behaviors
    rw [hm.behaviorAt hi hx htype] at he
    cases he
  tooDeep i hi := .tooDeep hi
  untraced ht bb ev e he := by
    rcases Blackboard.emit_error he with rfl | rfl
    · exact .log ht
    · exact .sink ht
  reset i hi bh hbh w hw := by
    by_cases hp : bh = Library.parallel
    · subst hp
      obtain ⟨ht, hn, hext⟩ := hb.parallel hm hi hbh
      obtain ⟨s', hs', hset⟩ := Instance.fill_sets w.inst hi Status.running.bits
      simp only [Library.parallel, Run.yields_update, hs']
      refine ⟨hset.ownData rfl, ?_, fun _ => ?_⟩
      · rw [hset.self]
        exact .of_parallel ht List.length_replicate fun v hv => ⟨.running, List.eq_of_mem_replicate hv⟩
      · rw [hset.self]
        exact List.mem_replicate.mpr ⟨by omega, rfl⟩
    · obtain ⟨x, hx, rfl⟩ := hb.exists_behavior hm hi hbh
      rw [reset_of_ne hx hp, Run.yields_pure, hw]
      exact ⟨Instance.OwnData.refl i _, Sound.of_defaults hb hi,
        fun ht => absurd (Except.ok.inj (hbh.symm.trans (hm.parallelAt ht))) hp⟩
  relabel i hi hbh bs bs' hs hr := by
    obtain ⟨ht, -, -⟩ := hb.parallel hm hi hbh
    refine .of_parallel ht (hr.length.trans hs.length) fun v hv => ?_
    obtain ⟨k, hk⟩ := List.mem_iff_getElem?.mp hv
    rcases hr.byte k with h | ⟨st, h⟩
    · exact hs.parallel ht v (List.mem_of_getElem? (h ▸ hk))
    · rw [h] at hk
      exact ⟨st, (Option.some.inj hk).symm⟩
  illegible i hi hbh c hs k hk e he := by
    obtain ⟨ht, -, hext⟩ := hb.parallel hm hi hbh
    obtain ⟨st, hst⟩ := Sound.status_ok (i := i) (by rw [hs.length, hext]; exact hk) (hs.parallel ht)
    rw [hst] at he
    cases he
  idle i hi hbh bs hs hlive hnone := by
    obtain ⟨ht, -, hext⟩ := hb.parallel hm hi hbh
    obtain ⟨k, hk⟩ := List.mem_iff_getElem?.mp (hlive ht)
    obtain ⟨hlt, -⟩ := List.getElem?_eq_some_iff.mp hk
    exact absurd hk (hnone k (by rw [← hext, ← hs.length]; exact hlt))
  live_of_mem i hi hbh bs k hk hbyte _ := List.mem_of_getElem? hbyte
  childless i hi bh hmem hbh hnil := by
    have hpos := hb.has_child hm hi hmem hbh
    rw [hnil] at hpos
    exact absurd hpos (Nat.lt_irrefl 0)
  unforced i hi hbh c hs e he := by
    have ht := hb.typeOf hm hi (x := (forceId, Library.force)) (by simp [Library.behaviors]) hbh
    obtain ⟨⟨st, hds⟩, -⟩ := (hb.at_type hi ht).inv_force
    have hok : c.status i 0 = .ok st := Cell.status_eq_ok.mpr (by rw [hs.result (Or.inl ht), hds]; rfl)
    rw [hok] at he
    cases he
  uncounted i hi hbh c hs e he := by
    obtain ⟨-, hext⟩ := hb.repetition hm hi hbh
    rw [Cell.read_eq_ok (by decide) (by rw [hs.length, hext]; decide)] at he
    cases he
  count i hi hbh c hs d := by
    obtain ⟨ht, hext⟩ := hb.repetition hm hi hbh
    have hlen : 0 + PlainData.repeatData.type.size ≤ c.bytes.length := by rw [hs.length, hext]; decide
    rw [Cell.write_eq_ok (by decide) hlen (Nat.zero_mod _)]
    refine .of_length ?_ ht (by decide)
    rw [length_overlay (by rw [(PlainData.repeatData.encode d).2]; exact hlen), hs.length]
  leaf i hi bh hbh hleaf cb w hs := by
    obtain ⟨x, hx, rfl⟩ := hb.exists_behavior hm hi hbh
    have ht := hb.typeOf hm hi hx hbh
    rcases leaf_cases hx hleaf with rfl | rfl
    · obtain ⟨st, hds⟩ := (hb.at_type hi ht).inv_fixed
      have hok : (w.inst.cell i).status i 0 = .ok st :=
        Cell.status_eq_ok.mpr (by rw [hs.result (Or.inr ht), hds]; rfl)
      simp only [fixed, Run.readStatus_yields hi, hok]
      exact ⟨Instance.OwnData.refl i _, hs, fun e he => by cases he⟩
    · refine ((delay_isLeaf.tick m.registries cb i w).and (delay_yields hm.singles hi
        (hb.at_type hi ht).inv_delay (hs.delay ht) cb)).mono ?_
      rintro r w' ⟨hown, hsame, he⟩
      refine ⟨hown, .of_delay ht hsame, fun e hr => .timer ht (Blob.defaultBytes_eq hi) (he e hr)⟩

/-! ## Runs -/

/-- The calls through which a host drives a tree, with indices of its nodes. -/
def Act.Drives (b : Blob) : Act → Prop
  | .tick | .reset => True
  | .resetAt i | .abortAt i => i < b.size
  | _ => False

instance (b : Blob) : DecidablePred (Act.Drives b)
  | .tick | .reset => isTrue trivial
  | .resetAt i | .abortAt i => inferInstanceAs (Decidable (i < b.size))
  | .tickAt _ | .restoreAt _ | .restoreAll => isFalse id

theorem Act.Drives.ticksRoot {a : Act} (h : a.Drives b) : a.TicksRoot := by
  cases a with
  | tickAt i => exact h
  | _ => trivial

theorem Act.Drives.names {a : Act} (h : a.Drives b) : a.Names b := by
  cases a with
  | resetAt i => exact h
  | abortAt i => exact h
  | tick => trivial
  | reset => trivial
  | _ => exact h.elim

/-- In any run of a tree built from the constructors of the library, every call succeeds or fails for the
depth limit, the key of a timer, or the trace. -/
theorem composed_call_allowed (hm : m.HasLibrary) {t : Blueprint} (ht : t.Composed) (hb : t.build = .ok b)
    (acts : List (Act × Blackboard)) (hacts : ∀ x ∈ acts, x.1.Drives b) (a : Act) (ha : a.Drives b)
    (bb : Blackboard) (e : Fault) (he : (((Tree.new b).after m acts).call m bb a).1 = .error e) :
    Allowed b m e := by
  have hfit : b.Fitted := fun i hi => Blob.fitted ht hb hi
  have hup := (Typing.library hfit hm).upheld
  have hbetween := hup.after_between acts (fun x hx => (hacts x hx).ticksRoot) Contract.between_new
  exact (hup.call_between hbetween ha.ticksRoot bb).2 e he ha.names

def Blob.timer : Blob :=
  ⟨⟨#[delayId], #[1], #[0], #[32],
    #[0x0000001400000001, 0x0000001800000002, 0x3f00000000000000, 0x00000000000000d7]⟩, by decide⟩

theorem composed_call_allowed_timer : ∃ t, Blueprint.delay ⟨0x3f000000⟩ deltaTimeKey = .ok t ∧
    t.build = .ok .timer ∧
    ((Tree.new .timer).call .ofLibrary .empty .tick).1 = .error (.error (.board (.missingKey deltaTimeKey))) ∧
    Allowed .timer .ofLibrary (.error (.board (.missingKey deltaTimeKey))) := by
  have ht : Blueprint.delay ⟨0x3f000000⟩ deltaTimeKey = .ok (.node delayId
      [1, 0, 0, 0, 20, 0, 0, 0, 2, 0, 0, 0, 24, 0, 0, 0, 0, 0, 0, 0, 0, 0, 0, 63, 0xd7, 0, 0, 0, 0, 0, 0, 0]
      []) := by rfl
  have hb : (Blueprint.node delayId
      [1, 0, 0, 0, 20, 0, 0, 0, 2, 0, 0, 0, 24, 0, 0, 0, 0, 0, 0, 0, 0, 0, 0, 63, 0xd7, 0, 0, 0, 0, 0, 0, 0]
      []).build = .ok .timer := by decide +kernel
  have he : ((Tree.new .timer).call .ofLibrary .empty .tick).1 =
      .error (.error (.board (.missingKey deltaTimeKey))) := by decide +kernel
  exact ⟨_, ht, hb, he, composed_call_allowed .ofLibrary (.delay ht) hb [] (by decide) .tick trivial .empty _ he⟩

end BehaviorTree
