import BehaviorTree.Proofs.Library.Access
import BehaviorTree.Proofs.Library.Reentrance
import BehaviorTree.Proofs.Trace.Untraced

/-!
# Traces go unnoticed

A run that is traced and one that is not stay side by side, call by call, also where calls fail and where
tick functions tick and reset whatever nodes. Their instances are the same, and their blackboards differ in what was
traced only. Hosts may do what they like, as long as they keep away from the trace and from the depth counter.
-/

namespace BehaviorTree

open Library Run

variable {b : Blob} {m : Machine} {i : Nat} {α β : Type}

/-! ## Blackboards -/

namespace Blackboard

variable {bb bb' bb'' : Blackboard}

/-- The same values under all keys but the two of the trace, and the same components. -/
structure SameOffTrace (bb bb' : Blackboard) : Prop where
  value : ∀ key, key ≠ traceLog → key ≠ traceSink → bb'.values.find? key = bb.values.find? key
  host : bb.SameHost bb'

/-- One blackboard takes events, and the other is the same but for the events taken. -/
structure Counterparts (bb bb' : Blackboard) : Prop where
  offTrace : bb'.SameOffTrace bb
  onTrace : bb'.SameButTrace bb
  traceable : bb.Traceable

theorem SameOffTrace.trans (h : bb.SameOffTrace bb') (h' : bb'.SameOffTrace bb'') : bb.SameOffTrace bb'' where
  value key hlog hsink := (h'.value key hlog hsink).trans (h.value key hlog hsink)
  host := h.host.trans h'.host

theorem emit_find? (bb : Blackboard) (ev : TraceEvent) {key : UInt64} (hkey : traceLog ≠ key) :
    (bb.emit ev).1.values.find? key = bb.values.find? key := by
  unfold emit
  split
  · rfl
  · rename_i x hx
    have hlog : x.values.find? key = bb.values.find? key := by
      rcases logEvent_cases hx with rfl | ⟨l, -, rfl⟩
      · rfl
      · exact Dict.find?_insert_of_ne _ _ hkey
    split
    · exact hlog
    · rename_i y hy
      rcases sendEvent_cases hy with rfl | rfl <;> exact hlog

theorem emit_sameOffTrace (bb : Blackboard) (ev : TraceEvent) : bb.SameOffTrace (bb.emit ev).1 :=
  ⟨fun _ hlog _ => emit_find? bb ev hlog.symm, emit_sameHost bb ev⟩

/-- An event that only the one takes. -/
theorem Counterparts.emit (h : bb.Counterparts bb') (ev : TraceEvent) : (bb.emit ev).1.Counterparts bb' where
  offTrace := h.offTrace.trans (emit_sameOffTrace bb ev)
  onTrace := h.onTrace.trans (emit_sameButTrace bb ev)
  traceable := (emit_sameButTrace bb ev).traceable_iff.mpr h.traceable

theorem traceable_of_spares (h : bb.SparesTrace bb') (hbb : bb.Traceable) : bb'.Traceable := by
  unfold Traceable Logging at *
  rw [contains_congr h.log, get_congr h.log, streaming_congr h.sink]
  exact hbb

/-- Blackboards whose traces are left alone are counterparts still if they are the same off the trace. -/
theorem Counterparts.spared {cc cc' : Blackboard} (h : bb.Counterparts bb') (hspare : bb.SparesTrace cc)
    (hspare' : bb'.SparesTrace cc') (hoff : cc'.SameOffTrace cc) : cc.Counterparts cc' where
  offTrace := hoff
  traceable := traceable_of_spares hspare h.traceable
  onTrace := by
    refine ⟨fun key => ?_, fun c _ => ?_, trivial⟩
    · by_cases hlog : key = traceLog
      · rw [hlog, hspare.log, hspare'.log]
        exact h.onTrace.value traceLog
      by_cases hsink : key = traceSink
      · rw [hsink, hspare.sink, hspare'.sink]
        exact h.onTrace.value traceSink
      · exact .inl (hoff.value key hlog hsink)
    · unfold component
      rw [hoff.host.1, hoff.host.2]

end Blackboard

open Blackboard

/-! ## Computations that keep away from the trace -/

/-- Neither reads nor writes what lies under the trace keys: it leaves that alone, and all it does depends on
the rest only. -/
structure Run.IgnoresTrace (x : Run b α) : Prop where
  writes : x.Obeys fun w w' => w.board.SparesTrace w'.board
  reads : ∀ w v : World b, v.inst = w.inst → v.board.SameOffTrace w.board →
    x.Agrees w x v fun _ w' v' => v'.inst = w'.inst ∧ v'.board.SameOffTrace w'.board

/-- The same instance, traced and not. -/
structure Run.Unnoticed (w v : World b) : Prop where
  inst : v.inst = w.inst
  boards : w.board.Counterparts v.board

/-- The computations do the same, the one traced and the other not. -/
abbrev Run.Twins (x y : Run b α) : Prop := Relates Unnoticed (fun _ => True) x y

namespace Run.IgnoresTrace

theorem twins {x : Run b α} (h : x.IgnoresTrace) : x.Twins x := by
  intro w v hwv
  obtain ⟨hr, hinst, hoff⟩ := h.reads w v hwv.inst hwv.boards.offTrace
  exact ⟨hr, ⟨hinst, hwv.boards.spared (h.writes w) (h.writes v) hoff⟩, fun _ _ => trivial⟩

theorem lift (c : Checked α) : (Run.lift c : Run b α).IgnoresTrace where
  writes := .lift (fun _ => .refl _) c
  reads _ _ hinst hoff := agrees_lift.mpr ⟨hinst, hoff⟩

theorem update (f : Instance b → Checked (Instance b)) : (Run.update f).IgnoresTrace where
  writes := .update (fun _ => .refl _) fun _ _ _ => .refl _
  reads w v hinst hoff := by
    simp only [Agrees, yields_update, hinst]
    cases f w.inst with
    | error e => exact ⟨rfl, trivial, hoff⟩
    | ok s => exact ⟨trivial, rfl, hoff⟩

theorem bind {x : Run b α} {f : α → Run b β} (hx : x.IgnoresTrace) (hf : ∀ a, (f a).IgnoresTrace) :
    (x >>= f).IgnoresTrace where
  writes := .bind (fun _ _ _ h h' => h.trans h') hx.writes fun a => (hf a).writes
  reads w v hinst hoff := (hx.reads w v hinst hoff).bind
    (fun a w' v' h => (hf a).reads w' v' h.1 h.2) fun _ _ _ h => h

theorem inst : (Run.inst : Run b (Instance b)).IgnoresTrace where
  writes w := SparesTrace.refl w.board
  reads _ _ hinst hoff := ⟨congrArg Except.ok hinst, hinst, hoff⟩

theorem readHead (p : PlainData α) (i : Nat) : (Run.readHead p i : Run b α).IgnoresTrace :=
  inst.bind fun _ => (lift _).bind fun bs => lift (.ok (p.decode bs))

theorem readStatus (i k : Nat) : (Run.readStatus i k : Run b Status).IgnoresTrace :=
  inst.bind fun _ => (lift _).bind fun _ => lift _

theorem abort (i : Nat) : (Machine.abort i : Run b Unit).IgnoresTrace := by
  unfold Machine.abort
  split
  · exact lift (.error _)
  · exact (lift (b.endOf i)).bind fun stop => update _

theorem abortOne (c : Nat) : (Library.abortOne c : Run b Unit).IgnoresTrace := by
  refine inst.bind fun s => (lift (s.state c)).bind fun st => ?_
  split
  · exact abort c
  · exact lift (.ok ())

end Run.IgnoresTrace

/-! ## Behaviors -/

/-- A behavior made of steps that keep away from the trace and leave the depth counter alone, and of ticks and
resets of whatever nodes. -/
structure Behavior.IgnoresTrace (bh : Behavior) : Prop where
  reset : ∀ {b : Blob} (i : Nat), (bh.reset i : Run b Unit).IgnoresTrace ∧ (bh.reset i : Run b Unit).Steady
  tick : ∀ {b : Blob} {i : Nat}, i < b.size → ∀ rs : Registries,
    MadeOf (fun x : Run b _ => x.IgnoresTrace ∧ x.Steady) (fun _ => True) (fun _ => True) fun cb => bh.tick rs cb i

/-- The behaviors of the machine are those of the library and of hosts that keep away from the trace. -/
def Machine.IgnoresTrace (m : Machine) : Prop :=
  ∀ id bh, m.behavior? id = some bh → bh ∈ Library.behaviors.map (·.2) ∨ bh.IgnoresTrace

namespace Library

theorem reset_ignoresTrace {x : TypeId × Behavior} (hx : x ∈ Library.behaviors) (i : Nat) :
    (x.2.reset i : Run b Unit).IgnoresTrace := by
  by_cases hp : x.2 = parallel
  · rw [hp]
    exact .update _
  · rw [reset_of_ne hx hp]
    exact .lift (.ok ())

theorem ownSteps_ignoreTrace (i : Nat) : OwnSteps (fun x : Run b _ => x.IgnoresTrace) i where
  pure a := .lift (.ok a)
  abort c _ := .abortOne c
  readStatus k := .readStatus i k
  writeStatus _ _ := .update _
  readHead := .readHead _ i
  writeHead _ := .update _
  noRunningChild := .lift (.error _)
  missingChild := .lift (.error _)

/-- A timer may have a handle on a trace key, but what lies there is never a number. -/
theorem readSingle_twins (rs : Registries) (u : Variable) (i : Nat) :
    (readSingle rs u i : Run b Single).Twins (readSingle rs u i) := by
  intro w v h
  have hread : u.read rs PlainData.f32.type i v.inst v.board = u.read rs PlainData.f32.type i w.inst w.board := by
    rw [h.inst]
    exact (Variable.read_of_matches h.boards.onTrace (fun _ _ _ _ => trivial) i w.inst).symm
  simp only [Agrees, readSingle, yields_bind, yields_inst, yields_board, yields_lift, yields_pure, hread]
  cases u.read rs PlainData.f32.type i w.inst w.board with
  | error e => exact ⟨rfl, h, fun _ _ => trivial⟩
  | ok x => exact ⟨rfl, h, fun _ _ => trivial⟩

theorem tick_twins {x : TypeId × Behavior} (hx : x ∈ Library.behaviors) (hi : i < b.size) (rs : Registries)
    {cb cb' : Callbacks b} (htick : ∀ c, (cb.tick c).Twins (cb'.tick c)) :
    (x.2.tick rs cb i).Twins (x.2.tick rs cb' i) := by
  by_cases hc : x.2 ∈ composites
  · have hsteps := ((ownSteps_ignoreTrace i).mono fun _ h => h.twins).composite hi hc rs
    exact hsteps.relates (fun c _ => htick c) fun _ => False.elim
  · rcases leaf_cases hx hc with rfl | rfl
    · exact (IgnoresTrace.readStatus i 0).twins
    · refine (IgnoresTrace.readHead _ i).twins.bind fun d => (readSingle_twins rs _ i).bind fun duration =>
        (readSingle_twins rs _ i).bind fun delta => (IgnoresTrace.update _).twins.bind fun _ => .pure _

end Library

namespace Machine

/-! ## Calls -/

theorem trace_twins (i : Nat) (ev : NodeEvent) : (m.trace i ev : Run b Unit).Twins (m.untraced.trace i ev) := by
  intro w v h
  rw [m.untraced.trace_off rfl]
  by_cases htrace : m.config.trace = true
  · have hok := (emit_eq_ok ⟨w.inst.tick, i, ev⟩).mpr h.boards.traceable
    unfold Machine.trace
    simp only [Agrees, htrace, ↓reduceIte, Run.emit, yields_bind, yields_board, yields_inst, yields_setBoard,
      yields_lift, yields_pure, hok]
    exact ⟨rfl, ⟨h.inst, h.boards.emit _⟩, fun _ _ => trivial⟩
  · rw [m.trace_off (Bool.eq_false_iff.mpr htrace)]
    exact ⟨rfl, h, fun _ _ => trivial⟩

namespace IgnoresTrace

variable (hm : m.IgnoresTrace)

include hm

theorem reset_twins {bh : Behavior} (hbh : m.behaviorAt b i = .ok bh) (j : Nat) :
    (bh.reset j : Run b Unit).Twins (bh.reset j) := by
  obtain ⟨id, -, hid⟩ := behaviorAt_eq_ok hbh
  rcases hm id bh hid with hlib | hhost
  · obtain ⟨x, hx, rfl⟩ := List.mem_map.mp hlib
    exact (reset_ignoresTrace hx j).twins
  · exact (hhost.reset j).1.twins

theorem tick_twins {bh : Behavior} (hbh : m.behaviorAt b i = .ok bh) {cb cb' : Callbacks b}
    (htick : ∀ c, (cb.tick c).Twins (cb'.tick c)) (hreset : ∀ c, (cb.reset c).Twins (cb'.reset c)) :
    (bh.tick m.registries cb i).Twins (bh.tick m.registries cb' i) := by
  have hi := lt_of_behaviorAt hbh
  obtain ⟨id, -, hid⟩ := behaviorAt_eq_ok hbh
  rcases hm id bh hid with hlib | hhost
  · obtain ⟨x, hx, rfl⟩ := List.mem_map.mp hlib
    exact Library.tick_twins hx hi m.registries htick
  · exact ((hhost.tick hi m.registries).mono (fun _ h => h.1.twins) (fun _ h => h) fun _ h => h).relates
      (fun c _ => htick c) fun c _ => hreset c

theorem prepare_bind {f f' : Behavior → Run b α}
    (hf : ∀ bh, m.behaviorAt b i = .ok bh → (f bh).Twins (f' bh)) :
    (m.prepare i >>= f).Twins (m.untraced.prepare i >>= f') := by
  simp only [Machine.prepare, bind_assoc]
  refine Relates.lift_bind (fun _ _ => trivial) fun bh hbh => ?_
  refine IgnoresTrace.inst.twins.bind fun s => (IgnoresTrace.lift (s.state i)).twins.bind fun st => ?_
  split
  · simp only [bind_assoc, Machine.activate]
    exact (IgnoresTrace.update _).twins.bind fun _ => (hm.reset_twins hbh i).bind fun _ =>
      (trace_twins i .reset).bind fun _ => hf bh hbh
  · exact hf bh hbh

theorem resetAt_twins (i : Nat) : (m.reset i : Run b Unit).Twins (m.untraced.reset i) := by
  refine Relates.lift_bind (fun _ _ => trivial) fun bh _ => (IgnoresTrace.update _).twins.bind fun _ => ?_
  refine (IgnoresTrace.lift (b.endOf i)).twins.bind fun stop => Relates.bind (.forM fun j _ => ?_) fun _ =>
    trace_twins i .reset
  exact Relates.lift_bind (fun _ _ => trivial) fun bh hbh => hm.reset_twins hbh j

theorem settle_twins {room : Nat}
    (hroom : ∀ c, (m.tickWithin room c : Run b Status).Twins (m.untraced.tickWithin room c)) (i : Nat) :
    (m.settle room i : Run b Status).Twins (m.untraced.settle room i) := by
  refine hm.prepare_bind fun bh hbh => ?_
  refine IgnoresTrace.inst.twins.bind fun s => (IgnoresTrace.update fun _ => .ok s.enter).twins.bind fun _ => ?_
  refine (hm.tick_twins hbh hroom hm.resetAt_twins).attempt.bind fun r => ?_
  refine IgnoresTrace.inst.twins.bind fun s => (IgnoresTrace.update fun _ => .ok s.leave).twins.bind fun _ => ?_
  cases r with
  | error e => exact ((IgnoresTrace.lift (b.endOf i)).bind fun _ => .update _).twins.bind fun _ => .throw trivial
  | ok s => exact (IgnoresTrace.update _).twins.bind fun _ => .pure s

theorem tickWithin_twins : ∀ room i, (m.tickWithin room i : Run b Status).Twins (m.untraced.tickWithin room i)
  | 0, _ => hm.prepare_bind fun _ _ => .fail trivial
  | room + 1, i => by
      rw [m.tickWithin_succ, m.untraced.tickWithin_succ]
      exact (hm.settle_twins (tickWithin_twins room) i).bind fun s => (trace_twins i (.tick s)).bind fun _ => .pure s

theorem tickAt_twins (i : Nat) : (m.tick i : Run b Status).Twins (m.untraced.tick i) :=
  IgnoresTrace.inst.twins.bind fun _ => hm.tickWithin_twins _ i

end IgnoresTrace

end Machine

namespace Tree

/-- Two trees in the same state, and their blackboards. -/
theorem run_twins {t : Tree b} {bb bb' : Blackboard} (hbb : bb.Counterparts bb') {x y : Run b α} (hxy : x.Twins y) :
    (t.run bb' y).1 = (t.run bb x).1 ∧ (t.run bb' y).2.1 = (t.run bb x).2.1 ∧
      (t.run bb x).2.2.Counterparts (t.run bb' y).2.2 := by
  obtain ⟨hr, hw, -⟩ := hxy ⟨t.inst, bb⟩ ⟨t.inst, bb'⟩ ⟨rfl, hbb⟩
  exact ⟨hr, congrArg (fun s => ({ t with inst := s } : Tree b)) hw.inst, hw.boards⟩

variable (hm : m.IgnoresTrace)

include hm

theorem tick_twins (t : Tree b) {bb bb' : Blackboard} (hbb : bb.Counterparts bb') :
    (t.tick m.untraced bb').1 = (t.tick m bb).1 ∧ (t.tick m.untraced bb').2.1 = (t.tick m bb).2.1 ∧
      (t.tick m bb).2.2.Counterparts (t.tick m.untraced bb').2.2 := by
  have h := run_twins (t := { t with inst := t.inst.advance }) hbb (hm.tickAt_twins 0)
  unfold tick
  generalize ({ t with inst := t.inst.advance } : Tree b).run bb (m.tick 0) = x at h ⊢
  generalize ({ t with inst := t.inst.advance } : Tree b).run bb' (m.untraced.tick 0) = y at h ⊢
  obtain ⟨r, t₁, bb₁⟩ := x
  obtain ⟨r', t₁', bb₁'⟩ := y
  obtain ⟨rfl, rfl, hboards⟩ := h
  cases r' with
  | ok s => exact ⟨rfl, rfl, hboards⟩
  | error e => exact ⟨rfl, rfl, hboards⟩

end Tree

/-- A blackboard with a log that is still empty. -/
def Blackboard.logging : Blackboard := .set .empty .log traceLog .empty

end BehaviorTree
