import BehaviorTree.Proofs.Machine.Counter
import BehaviorTree.Proofs.Trace.Tick

/-!
# The trace of a tick

The events that a successful tick of the root adds to the log say exactly which nodes were activated, which
came to which result and which are running now.
-/

namespace BehaviorTree

open Run

variable {b : Blob} {m : Machine}

/-! ## Histories in a log -/

section

variable {x : Nat} {evs : List TraceEvent}

theorem mem_history {ev : NodeEvent} : ev ∈ history x evs ↔ ∃ e ∈ evs, e.node = x ∧ e.event = ev := by
  simp [history, and_assoc]

theorem mem_resets : x ∈ TraceLog.resets ⟨evs⟩ ↔ .reset ∈ history x evs := by
  simp only [TraceLog.resets, List.mem_map, List.mem_filter, decide_eq_true_eq, mem_history, and_assoc]
  exact exists_congr fun e => and_congr_right fun _ => and_comm

theorem mem_ticks {st : Status} : (x, st) ∈ TraceLog.ticks ⟨evs⟩ ↔ .tick st ∈ history x evs := by
  simp only [TraceLog.ticks, List.mem_filterMap, Option.map_eq_some_iff, Prod.mk.injEq, mem_history]
  refine exists_congr fun e => and_congr_right fun _ => ?_
  unfold TraceEvent.result?
  cases e.event <;> simp [and_comm]

theorem mem_tickedNodes : x ∈ TraceLog.tickedNodes ⟨evs⟩ ↔ ∃ st, .tick st ∈ history x evs := by
  simp only [TraceLog.tickedNodes, List.mem_map, Prod.exists, exists_and_right, exists_eq_right, mem_ticks]

end

/-- What the events of a tick say of the instance before and after it. -/
structure TickTrace (s s' : Instance b) (log : TraceLog) : Prop where
  reset_once : log.resets.Nodup
  tick_once : log.tickedNodes.Nodup
  reset_iff : ∀ x, x ∈ log.resets ↔ x ∈ log.tickedNodes ∧ ¬ s.Running x
  recorded : ∀ x st, (x, st) ∈ log.ticks → (s'.cell x).state = some st
  running_iff : ∀ x, s'.Running x ↔ (x, .running) ∈ log.ticks
  unticked : ∀ x, x ∉ log.tickedNodes → s'.cell x = s.cell x ∨ (s'.cell x).state = none
  bracketed : log.events.Pairwise b.Precedes

namespace Episode

variable {c c' : Cell} {h : List NodeEvent}

theorem reset_iff (he : Episode True c c' h) : .reset ∈ h ↔ (∃ st, .tick st ∈ h) ∧ c.state ≠ some .running := by
  cases he with
  | skipped => simp
  | activated _ _ hw => exact absurd trivial hw
  | resumed st hc => simp [hc]
  | entered st hc => simp [hc]

theorem recorded (he : Episode True c c' h) {st : Status} (hst : .tick st ∈ h) : c'.state = some st := by
  cases he with
  | skipped => cases hst
  | activated _ _ hw => exact absurd trivial hw
  | resumed st' _ _ hw =>
      cases List.mem_singleton.mp hst
      exact hw trivial
  | entered st' _ _ hw =>
      cases List.mem_singleton.mp ((List.mem_cons.mp hst).resolve_left nofun)
      exact hw trivial

theorem running_iff (he : Episode True c c' h) : c'.state = some .running ↔ .tick .running ∈ h := by
  cases he with
  | skipped _ hw => simp [(hw trivial).1]
  | activated _ _ hw => exact absurd trivial hw
  | resumed st _ _ hw => simp [hw trivial, eq_comm]
  | entered st _ _ hw => simp [hw trivial, eq_comm]

theorem unticked (he : Episode True c c' h) (hnone : ¬ ∃ st, .tick st ∈ h) : c' = c ∨ c'.state = none := by
  cases he with
  | skipped _ hw => exact (hw trivial).2
  | activated _ _ hw => exact absurd trivial hw
  | resumed st => exact absurd ⟨st, by simp⟩ hnone
  | entered st => exact absurd ⟨st, by simp⟩ hnone

end Episode

/-- Beyond the nodes of the tree nothing happens. -/
theorem Account.all {whole : Prop} {s s' : Instance b} {evs : List TraceEvent}
    (h : Account whole 0 b.size s s' evs) (hf : s.Frame (Within 0 b.size) s') (x : Nat) :
    Episode whole (s.cell x) (s'.cell x) (history x evs) := by
  by_cases hx : Within 0 b.size x
  · exact h.episode x hx
  · rw [h.history_outside hx, hf.cell x hx]
    refine .skipped (Or.inl rfl) fun _ => ⟨fun hrun => hx ⟨Nat.zero_le x, ?_⟩, Or.inl rfl⟩
    exact Instance.Running.lt hrun

/-- No event of a node comes twice: of two, the first is a reset and the second a result. -/
theorem Account.twice {whole : Prop} {s s' : Instance b} {evs : List TraceEvent}
    (h : Account whole 0 b.size s s' evs) :
    evs.Pairwise fun e e' => e.node = e'.node → e.event = .reset ∧ ∃ st, e'.event = .tick st := by
  refine h.order.imp_of_mem fun {e e'} he _ hp hnode => ?_
  have hself : Within e.node (b.stop e.node) e.node := ⟨Nat.le_refl _, Blob.lt_stop (h.node e he).2⟩
  have hboth := And.intro hp.below hp.above
  rw [← hnode] at hboth
  exact ⟨hboth.1 hself, hboth.2 hself⟩

theorem TickTrace.of_account {s s' : Instance b} {evs : List TraceEvent} (h : Account True 0 b.size s s' evs)
    (hf : s.Frame (Within 0 b.size) s') : TickTrace s s' ⟨evs⟩ where
  reset_once := by
    refine List.pairwise_map.mpr (List.pairwise_filter.mpr (h.twice.imp fun htwice _ hreset hnode => ?_))
    obtain ⟨st, hst⟩ := (htwice hnode).2
    rw [hst] at hreset
    cases of_decide_eq_true hreset
  tick_once := by
    refine List.pairwise_map.mpr (List.pairwise_filterMap.mpr (h.twice.imp ?_))
    intro e e' htwice y hy y' hy' hnode
    obtain ⟨st, hst, rfl⟩ := Option.map_eq_some_iff.mp hy
    obtain ⟨st', -, rfl⟩ := Option.map_eq_some_iff.mp hy'
    rw [TraceEvent.result?, (htwice hnode).1] at hst
    cases hst
  reset_iff x := by
    rw [mem_resets, mem_tickedNodes]
    exact (h.all hf x).reset_iff
  recorded x st hst := (h.all hf x).recorded (mem_ticks.mp hst)
  running_iff x := by
    rw [mem_ticks]
    exact (h.all hf x).running_iff
  unticked x hx := (h.all hf x).unticked fun hst => hx (mem_tickedNodes.mpr hst)
  bracketed := h.order

/-- A tick of the root records an account of the tree. -/
theorem Tree.tick_told (hm : m.Discreet) (htrace : m.config.trace = true) {t : Tree b}
    (ht : (hm.contract b).Between t) {bb : Blackboard} (hlog : bb.Logging) :
    t.inst.advance.Frame (Within 0 b.size) (t.tick m bb).2.1.inst ∧ ∃ evs,
      bb.Records (t.tick m bb).2.2 evs ∧
      Account (∃ st, (t.tick m bb).1 = .ok st) 0 b.size t.inst.advance (t.tick m bb).2.1.inst evs := by
  have hup : (hm.contract b).Upheld m := (Typing.any b hm.standard).upheld
  refine t.tick_yields bb (Q := fun r w' => t.inst.advance.Frame (Within 0 b.size) w'.inst ∧ ∃ evs,
    bb.Records w'.board evs ∧ Account (∃ st, r = .ok st) 0 b.size t.inst.advance w'.inst evs) ?_
  rw [Machine.tick, yields_bind, yields_inst]
  refine ((hup.tickWithin_kept _ 0 b.size_pos ⟨t.inst.advance, bb⟩ ht.advance).and
    (Machine.tickWithin_told hm htrace _ 0 b.size_pos ⟨t.inst.advance, bb⟩ hlog ht.advance)).mono ?_
  rintro r w' ⟨⟨hf, -, -⟩, htold⟩
  rw [b.stop_root] at hf htold
  exact ⟨hf, htold⟩

/-- The trace of a successful tick is exact, and its events have the number of the tick. -/
theorem tick_trace (hm : m.Discreet) (htrace : m.config.trace = true) (acts : List (Act × Blackboard))
    (hacts : ∀ x ∈ acts, x.1.TicksRoot) (hcount : acts.countP (·.1 = .tick) + 1 < UInt64.size) (bb : Blackboard)
    (l : TraceLog) (hlog : bb.get .log Blackboard.traceLog = .ok l) (hsink : bb.Streaming) (st : Status)
    (hok : (((Tree.new b).after m acts).tick m bb).1 = .ok st) : ∃ evs,
    (((Tree.new b).after m acts).tick m bb).2.2.get .log Blackboard.traceLog = .ok ⟨l.events ++ evs⟩ ∧
    (((Tree.new b).after m acts).tick m bb).2.2.stream =
      bb.stream ++ (if bb.contains Blackboard.traceSink then evs else []) ∧
    (∀ e ∈ evs, e.tick.toNat = acts.countP (·.1 = .tick) + 1) ∧
    TickTrace ((Tree.new b).after m acts).inst (((Tree.new b).after m acts).tick m bb).2.1.inst ⟨evs⟩ := by
  have hup : (hm.contract b).Upheld m := (Typing.any b hm.standard).upheld
  have hbetween := hup.after_between acts hacts Contract.between_new
  have hnumber := hup.after_counts acts hacts (Contract.between_new (C := hm.contract b))
  obtain ⟨hf, evs, hrec, hacc⟩ := Tree.tick_told hm htrace hbetween ⟨l, hlog⟩
  refine ⟨evs, ?_, hrec.stream hsink, fun e he => ?_, ?_⟩
  · obtain ⟨l', hl', hafter⟩ := hrec.log
    rw [hlog] at hl'
    cases hl'
    exact hafter
  · rw [hacc.stamp e he, Instance.advance, hnumber]
    change (0 + UInt64.ofNat _ + 1).toNat = _
    rw [UInt64.zero_add, ← UInt64.ofNat_one, ← UInt64.ofNat_add, UInt64.toNat_ofNat', Nat.mod_eq_of_lt hcount]
  · have h := TickTrace.of_account (hacc.mono fun _ => ⟨st, hok⟩) hf
    exact ⟨h.reset_once, h.tick_once, h.reset_iff, h.recorded, h.running_iff, h.unticked, h.bracketed⟩

/-- A blackboard with an empty log and a sink. -/
def Blackboard.watched : Blackboard := (Blackboard.empty.set .log traceLog .empty).set .sink traceSink ()

theorem tick_trace_busySequence : ∃ evs,
    evs = [⟨2, 1, .tick .running⟩, ⟨2, 0, .tick .running⟩] ∧
    (((Tree.new .busySequence).after .tracing [(.tick, .empty)]).tick .tracing .watched).2.2.stream = evs ∧
    TickTrace ((Tree.new .busySequence).after .tracing [(.tick, .empty)]).inst
      (((Tree.new .busySequence).after .tracing [(.tick, .empty)]).tick .tracing .watched).2.1.inst ⟨evs⟩ := by
  have hok : (((Tree.new .busySequence).after .tracing [(.tick, .empty)]).tick .tracing .watched).1 =
      .ok .running := by decide +kernel
  have hsent : (((Tree.new .busySequence).after .tracing [(.tick, .empty)]).tick .tracing .watched).2.2.stream =
      [⟨2, 1, .tick .running⟩, ⟨2, 0, .tick .running⟩] := by decide +kernel
  obtain ⟨evs, -, hstream, -, htrace⟩ := tick_trace (b := .busySequence) (m := .tracing) Machine.Discreet.ofLibrary
    rfl [(.tick, .empty)] (by decide) (by decide) .watched .empty rfl (fun _ => rfl) .running hok
  have hall : Blackboard.watched.stream ++ (if Blackboard.watched.contains Blackboard.traceSink then evs else []) =
      evs := rfl
  exact ⟨evs, hall.symm.trans (hstream.symm.trans hsent), hstream.trans hall, htrace⟩

end BehaviorTree
