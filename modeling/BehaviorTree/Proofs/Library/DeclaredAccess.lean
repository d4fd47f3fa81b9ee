import BehaviorTree.Proofs.Library.Access
import BehaviorTree.Proofs.Library.Coupled
import BehaviorTree.Proofs.Library.Soundness
import BehaviorTree.Proofs.Trace.Matches

/-!
# Ticks depend on the listed components only

A scheduler may run a tree while components change that the tree does not list. Two blackboards that hold the
same values and agree on the listed components are the same to every tick, and a tick changes no component.
-/

namespace BehaviorTree

open Library Run

variable {b : Blob} {m : Machine} {l : AccessList}

/-- The blackboards hold the same values, what their sinks received included, answer for components the same
way, and have the same components of the types in the list. -/
structure Blackboard.AgreesOn (l : AccessList) (bb bb' : Blackboard) : Prop where
  values : ∀ key, bb'.values.find? key = bb.values.find? key
  stream : bb'.stream = bb.stream
  answer : bb'.answer = bb.answer
  components : ∀ c, l.Lists c → bb'.components.find? c = bb.components.find? c

/-- The results and the trees are the same, and the blackboards agree. -/
def AccessList.SameOutcome {α : Type} (l : AccessList) (x y : α × Tree b × Blackboard) : Prop :=
  y.1 = x.1 ∧ y.2.1 = x.2.1 ∧ x.2.2.AgreesOn l y.2.2

namespace Blackboard

variable {bb bb' : Blackboard}

theorem AgreesOn.matches (h : bb.AgreesOn l bb') : bb.Matches Eq l.Lists bb' where
  value key := .inl (h.values key)
  component c hc := by rw [component, component, h.answer, h.components c hc]
  stream := h.stream.symm

end Blackboard

/-! ## Ticks -/

/-- Ticks at one time, on blackboards that match on the listed components. The hosts that offer the components
stay as they were. -/
def AccessList.Compares (l : AccessList) (host host' : Blackboard) (x y : UInt64 × Blackboard) : Prop :=
  y.1 = x.1 ∧ x.2.Matches Eq l.Lists y.2 ∧ host.SameHost x.2 ∧ host'.SameHost y.2

section

variable (hlib : ∀ x ∈ Library.behaviors, m.behavior? x.1 = some x.2) (hb : b.OfLibrary)
  (h : m.componentAccess b = .ok l)

include hlib hb h

theorem compares_upheld (host host' : Blackboard) :
    (Coupling.ofBoards m b (l.Compares host host')).Upheld m m := by
  refine Coupling.ofBoards_upheld hlib hb (fun i hbh v hv s x y hxy => ?_) (fun n n' bb bb' hn => ?_)
    m.config.trace fun depth i ev => Coupling.relates_trace (fun n n' bb bb' ev hn => ?_) (fun _ => trivial) ev
  · obtain ⟨st, hst, hlists⟩ := (Machine.timer_of_componentAccess h hbh).2 v hv
    refine Variable.read_of_matches hxy.2.1 (fun st' hst' => ?_) i s
    cases hst.symm.trans hst'
    exact hlists
  · exact ⟨congrArg (· + 1) hn.1, hn.2⟩
  · obtain ⟨rfl, hmatch, hhost, hhost'⟩ := hn
    obtain ⟨hr, hmatch'⟩ : (bb'.emit ⟨n', i, ev⟩).2 = (bb.emit ⟨n', i, ev⟩).2 ∧
        (bb.emit ⟨n', i, ev⟩).1.Matches Eq l.Lists (bb'.emit ⟨n', i, ev⟩).1 :=
      hmatch.emit (fun _ => rfl) fun l l' he => he ▸ rfl
    exact ⟨hr, rfl, hmatch', hhost.trans (Blackboard.emit_sameHost bb _),
      hhost'.trans (Blackboard.emit_sameHost bb' _)⟩

theorem Tree.tick_of_agreesOn {t : Tree b} (ht : t.Settled m) {bb bb' : Blackboard} (hbb : bb.AgreesOn l bb') :
    l.SameOutcome (t.tick m bb) (t.tick m bb') ∧ (t.tick m bb).2.2.components = bb.components ∧
      (t.tick m bb').2.2.components = bb'.components ∧ (t.tick m bb).2.1.Settled m := by
  have hpairs := ht.pairs (l.Compares bb bb') bb bb' ⟨rfl, hbb.matches, ⟨rfl, rfl⟩, ⟨rfl, rfl⟩⟩
  obtain ⟨hr, ⟨hholds, hlast⟩, -⟩ := (compares_upheld hlib hb h bb bb').tree_tick hpairs
  obtain ⟨htick, hmatch, hhost, hhost'⟩ := hholds.board
  refine ⟨⟨hr, ?_, fun key => ?_, hmatch.stream.symm, ?_, fun c hc => ?_⟩, hhost.1, hhost'.1,
    ⟨hholds.depth, hholds.data⟩⟩
  · have hinst := hholds.inst_eq htick
    generalize (t.tick m bb').2.1 = t₁ at hinst hlast ⊢
    generalize (t.tick m bb).2.1 = t₂ at hinst hlast ⊢
    cases t₁
    cases t₂
    cases hinst
    cases hlast
    rfl
  · rcases hmatch.value key with hv | ⟨lg, lg', hv, hv', he⟩
    · exact hv
    · obtain ⟨evs⟩ := lg
      cases he
      exact hv'.trans hv.symm
  · rw [hhost'.2, hhost.2, hbb.answer]
  · rw [hhost'.1, hhost.1, hbb.components c hc]

end

/-! ## Runs -/

namespace Tree

/-- Ticks a tree, its host changing the blackboard before every tick. -/
def driven (t : Tree b) (m : Machine) (bb : Blackboard) :
    List (Blackboard → Blackboard) → List (Except Fault Status) × Tree b × Blackboard
  | [] => ([], t, bb)
  | edit :: edits => match t.tick m (edit bb) with
    | (r, t, bb) => match t.driven m bb edits with
      | (rs, last) => (r :: rs, last)

section

variable (hlib : ∀ x ∈ Library.behaviors, m.behavior? x.1 = some x.2) (hb : b.OfLibrary)
  (h : m.componentAccess b = .ok l)

include hlib hb h

theorem driven_of_agreesOn : ∀ (edits : List ((Blackboard → Blackboard) × (Blackboard → Blackboard))),
    (∀ e ∈ edits, ∀ bb bb', bb.AgreesOn l bb' → (e.1 bb).AgreesOn l (e.2 bb')) →
    ∀ {t : Tree b}, t.Settled m → ∀ {bb bb' : Blackboard}, bb.AgreesOn l bb' →
      l.SameOutcome (t.driven m bb (edits.map (·.1))) (t.driven m bb' (edits.map (·.2)))
  | [], _, _, _, _, _, hbb => ⟨rfl, rfl, hbb⟩
  | e :: edits, hedits, t, ht, bb, bb', hbb => by
      rw [List.forall_mem_cons] at hedits
      obtain ⟨⟨hr, htree, hbb₁⟩, -, -, ht₁⟩ := tick_of_agreesOn hlib hb h ht (hedits.1 bb bb' hbb)
      obtain ⟨hrs, hlast, hbb₂⟩ := driven_of_agreesOn edits hedits.2 ht₁ hbb₁
      simp only [List.map_cons, driven, hr, htree]
      exact ⟨congrArg (List.cons _) hrs, hlast, hbb₂⟩

/-- In any reachable state, blackboards that agree on the listed components are the same to a tick, and so
they are to a run whose hosts let them agree. No tick changes a component. -/
theorem ticks_of_agreesOn (acts : List (Act × Blackboard)) (bb bb' : Blackboard) (hbb : bb.AgreesOn l bb') :
    let t := (Tree.new b).after m acts
    (l.SameOutcome (t.tick m bb) (t.tick m bb') ∧ (t.tick m bb).2.2.components = bb.components ∧
      (t.tick m bb').2.2.components = bb'.components) ∧
    ∀ edits : List ((Blackboard → Blackboard) × (Blackboard → Blackboard)),
      (∀ e ∈ edits, ∀ bb bb', bb.AgreesOn l bb' → (e.1 bb).AgreesOn l (e.2 bb')) →
      l.SameOutcome (t.driven m bb (edits.map (·.1))) (t.driven m bb' (edits.map (·.2))) := by
  intro t
  have ht : t.Settled m := settled_after hlib hb acts
  obtain ⟨hsame, hhost, hhost', -⟩ := tick_of_agreesOn hlib hb h ht hbb
  exact ⟨⟨hsame, hhost, hhost'⟩, fun edits hedits => driven_of_agreesOn hlib hb h edits hedits ht hbb⟩

end

/-- A component with the time since the last tick. -/
def clock : ValueType := ⟨"Clock", 4, 4⟩

/-- A timer of half a second that reads the clock. -/
def clockTimer : Blob :=
  ⟨⟨#[delayId], #[1], #[0], #[24], #[0x0000001400000001, 0x0000000000000064, 0x3f00000000000000]⟩, by decide⟩

/-- The library with the clock under the id 100. -/
def clocked : Machine :=
  { Machine.ofLibrary with registries := (Machine.ofLibrary.registries.registerComponent 100
      (Field.whole rfl : Field clock PlainData.f32.type) .readOnly).1 }

/-- A quarter of a second has passed. -/
def quarter : Blackboard := Blackboard.empty.insertComponent (c := clock) ⟨[0, 0, 0x80, 0x3e], rfl⟩

/-- The same with a component that no timer reads. -/
def quarterAndMore : Blackboard := quarter.insertComponent (c := ValueType.u8) ⟨[7], rfl⟩

theorem ticks_of_agreesOn_clockTimer : clocked.componentAccess clockTimer = .ok ⟨[⟨clock, .readOnly⟩]⟩ ∧
    quarter.AgreesOn ⟨[⟨clock, .readOnly⟩]⟩ quarterAndMore ∧
    ((Tree.new clockTimer).driven clocked quarter [id, id]).1 = [.ok .running, .ok .success] ∧
    ((Tree.new clockTimer).driven clocked quarterAndMore [id, id]).1 = [.ok .running, .ok .success] := by
  have haccess : clocked.componentAccess clockTimer = .ok ⟨[⟨clock, .readOnly⟩]⟩ := by decide +kernel
  have hagree : quarter.AgreesOn ⟨[⟨clock, .readOnly⟩]⟩ quarterAndMore := by
    refine ⟨fun _ => rfl, rfl, rfl, fun c hc => ?_⟩
    obtain rfl : c = clock := List.mem_singleton.mp hc
    exact Dict.find?_insert_of_ne _ _ (by decide)
  have htypes : clockTimer.OfLibrary := by decide +kernel
  have hrun : ((Tree.new clockTimer).driven clocked quarter [id, id]).1 = [.ok .running, .ok .success] := by
    decide +kernel
  have hsame := (ticks_of_agreesOn (m := clocked) Machine.HasLibrary.ofLibrary.behaviors htypes haccess [] _ _
    hagree).2 [(id, id), (id, id)] (by simp)
  exact ⟨haccess, hagree, hrun, hsame.1.trans hrun⟩

end Tree

end BehaviorTree
