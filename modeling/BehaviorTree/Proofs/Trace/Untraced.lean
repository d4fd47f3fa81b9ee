import BehaviorTree.Proofs.Library.Access
import BehaviorTree.Proofs.Library.Coupled

/-!
# Ticks with and without a trace

Tracing adds failures to a tick, those of a blackboard that takes no events, and changes nothing else.
-/

namespace BehaviorTree

open Run

variable {b : Blob} {m : Machine}

/-- The machine with tracing switched off. -/
def Machine.untraced (m : Machine) : Machine := { m with config := { m.config with trace := false } }

/-- Events of the machine reach the blackboard. -/
def Machine.Records (m : Machine) (bb : Blackboard) : Prop := m.config.trace = true → bb.Traceable

theorem Machine.untraced_records (m : Machine) (bb : Blackboard) : m.untraced.Records bb :=
  fun h => absurd h Bool.false_ne_true

/-- The blackboards of two runs of which only the first is traced. -/
def Machine.Traced (m : Machine) (x y : UInt64 × Blackboard) : Prop :=
  y.1 = x.1 ∧ y.2.SameButTrace x.2 ∧ m.Records x.2

theorem Machine.trace_fails (htrace : m.config.trace = true) {w : World b} (hw : ¬ w.board.Traceable) (i : Nat)
    (ev : NodeEvent) : (m.trace i ev).Yields w fun r _ => ∃ e, r = .error e := by
  have hemit := (Blackboard.emit_eq_ok ⟨w.inst.tick, i, ev⟩).not.mpr hw
  unfold Machine.trace
  simp only [htrace, ↓reduceIte, emit, yields_bind, yields_board, yields_inst, yields_setBoard, yields_lift]
  cases hr : (w.board.emit ⟨w.inst.tick, i, ev⟩).2 with
  | ok u => exact absurd hr hemit
  | error err => exact ⟨_, rfl⟩

section

variable (hlib : ∀ x ∈ Library.behaviors, m.behavior? x.1 = some x.2) (hb : b.OfLibrary)

include hlib hb

theorem traced_upheld : (Coupling.ofBoards m b m.Traced).Upheld m m.untraced := by
  refine Coupling.ofBoards_upheld hlib hb (fun i _ v _ s x y hxy => ?_) (fun n n' bb bb' hn => ?_) false
    fun depth i ev w v hw => ?_
  · exact (Variable.read_of_matches hxy.2.1 (fun _ _ _ _ => trivial) i s).symm
  · exact ⟨congrArg (· + 1) hn.1, hn.2⟩
  · obtain ⟨htick, hsame, hrec⟩ := hw.board
    change (m.trace i ev).Agrees w (m.untraced.trace i ev) v _
    rw [m.untraced.trace_off rfl]
    by_cases htrace : m.config.trace = true
    · have hok := (Blackboard.emit_eq_ok ⟨w.inst.tick, i, ev⟩).mpr (hrec htrace)
      have hemit := Blackboard.emit_sameButTrace w.board ⟨w.inst.tick, i, ev⟩
      unfold Machine.trace
      simp only [Agrees, htrace, ↓reduceIte, emit, yields_bind, yields_board, yields_inst, yields_setBoard,
        yields_lift, yields_pure, hok]
      refine ⟨rfl, ⟨hw.inst, hw.depth, hw.data, htick, hsame.trans hemit, fun _ => ?_⟩, .ok _⟩
      exact hemit.traceable_iff.mpr (hrec htrace)
    · rw [m.trace_off (Bool.eq_false_iff.mpr htrace)]
      exact ⟨rfl, hw, .ok _⟩

namespace Tree

variable {t : Tree b} {bb : Blackboard}

theorem tick_untraced (ht : t.Settled m) (hbb : m.Records bb) :
    (t.tick m.untraced bb).1 = (t.tick m bb).1 ∧ (t.tick m.untraced bb).2.1 = (t.tick m bb).2.1 := by
  obtain ⟨hr, ⟨hholds, hlast⟩, -⟩ := (traced_upheld hlib hb).tree_tick
    (ht.pairs m.Traced bb bb ⟨rfl, .refl bb, hbb⟩)
  refine ⟨hr, ?_⟩
  have hinst := hholds.inst_eq hholds.board.1
  generalize (t.tick m.untraced bb).2.1 = t' at hinst hlast ⊢
  obtain ⟨inst, last⟩ := t'
  cases hinst
  cases hlast
  rfl

/-- A tick ends with an event, so it fails on a blackboard that takes none. -/
theorem tick_fails (ht : t.Settled m) (htrace : m.config.trace = true) (hbb : ¬ bb.Traceable) :
    (m.tick 0).Yields ⟨t.inst.advance, bb⟩ fun r _ => ∃ e, r = .error e := by
  have hup := Coupling.keeping_upheld hlib hb (fun bb => ¬ bb.Traceable) fun bb ev hbb =>
    (Blackboard.emit_sameButTrace bb ev).traceable_iff.not.mpr hbb
  have hholds := (ht.pairs (fun x y => y = x ∧ ¬ x.2.Traceable) bb bb ⟨rfl, hbb⟩).holds
  rw [Machine.tick, yields_bind, yields_inst]
  change (m.tickWithin (m.config.maxTickDepth - t.inst.advance.depth) 0).Yields _ _
  cases m.config.maxTickDepth - t.inst.advance.depth with
  | zero =>
      rw [Machine.tickWithin, yields_bind]
      refine (yields_exec _ _).mono fun r w _ => ?_
      cases r with
      | error e => exact ⟨e, rfl⟩
      | ok bh => exact ⟨_, rfl⟩
  | succ room =>
      rw [Machine.tickWithin_succ, yields_bind]
      have hsettle := hup.settle (fun c => hup.tickWithin room c 1) 0 ⟨t.inst.advance, bb⟩ ⟨t.inst.advance, bb⟩
        ⟨congrArg Instance.advance hholds.inst, hholds.depth, hholds.data, rfl, hbb⟩
      have hkept : (m.settle room 0).Yields ⟨t.inst.advance, bb⟩ fun _ w => ¬ w.board.Traceable := hsettle.2.1.board.2
      refine hkept.mono fun r w hw => ?_
      cases r with
      | error e => exact ⟨e, rfl⟩
      | ok s =>
          simp only [yields_bind]
          refine (m.trace_fails htrace hw 0 (.tick s)).mono fun r _ hr => ?_
          obtain ⟨e, rfl⟩ := hr
          exact ⟨e, rfl⟩

theorem records_of_tick (ht : t.Settled m) {s : Status} (hok : (t.tick m bb).1 = .ok s) : m.Records bb := by
  intro htrace
  by_contra hbb
  obtain ⟨e, he⟩ := t.tick_yields bb (tick_fails hlib hb ht htrace hbb)
  rw [hok] at he
  cases he

end Tree

end

end BehaviorTree
