import BehaviorTree.Proofs.Blackboard

/-!
# Events on a blackboard

A blackboard with a trace log receives events in order. Its sink, if it has one of the right type, receives
the same events.
-/

namespace BehaviorTree

namespace Blackboard

variable {bb bb' bb'' : Blackboard} {evs evs' : List TraceEvent} {ev : TraceEvent} {l : TraceLog}

/-- A trace log lies under its key. -/
def Logging (bb : Blackboard) : Prop := ∃ l, bb.get .log traceLog = .ok l

/-- The sink, if there is one, takes events. -/
def Streaming (bb : Blackboard) : Prop := bb.contains traceSink = true → bb.get .sink traceSink = .ok ()

/-- What lies under the trace keys is the same, and the sinks received nothing. -/
structure SparesTrace (bb bb' : Blackboard) : Prop where
  log : bb'.values.find? traceLog = bb.values.find? traceLog
  sink : bb'.values.find? traceSink = bb.values.find? traceSink
  stream : bb'.stream = bb.stream

/-- `bb'` is `bb` with these events in its log, and in its stream if there is a sink. -/
structure Records (bb bb' : Blackboard) (evs : List TraceEvent) : Prop where
  log : ∃ l, bb.get .log traceLog = .ok l ∧ bb'.get .log traceLog = .ok ⟨l.events ++ evs⟩
  sink : bb'.values.find? traceSink = bb.values.find? traceSink
  stream : bb.Streaming → bb'.stream = bb.stream ++ if bb.contains traceSink then evs else []

theorem SparesTrace.refl (bb : Blackboard) : SparesTrace bb bb := ⟨rfl, rfl, rfl⟩

theorem SparesTrace.trans (h : SparesTrace bb bb') (h' : SparesTrace bb' bb'') : SparesTrace bb bb'' :=
  ⟨h'.log.trans h.log, h'.sink.trans h.sink, h'.stream.trans h.stream⟩

theorem get_congr {t : BoardType} {key : UInt64} (h : bb'.values.find? key = bb.values.find? key) :
    bb'.get t key = bb.get t key := by
  unfold get get?
  rw [h]

theorem contains_congr {key : UInt64} (h : bb'.values.find? key = bb.values.find? key) :
    bb'.contains key = bb.contains key := by
  unfold contains Dict.contains
  rw [h]

theorem contains_of_get {t : BoardType} {key : UInt64} {v : t.Carrier} (h : bb.get t key = .ok v) :
    bb.contains key = true := by
  unfold get get? at h
  unfold contains Dict.contains
  cases hv : bb.values.find? key with
  | none =>
      rw [hv] at h
      cases h
  | some v => rfl

theorem streaming_congr (h : bb'.values.find? traceSink = bb.values.find? traceSink) :
    bb'.Streaming ↔ bb.Streaming := by
  unfold Streaming
  rw [contains_congr h, get_congr h]

namespace Records

theorem logging (h : Records bb bb' evs) : bb'.Logging := by
  obtain ⟨l, -, hl⟩ := h.log
  exact ⟨_, hl⟩

theorem of_spares (h : bb.SparesTrace bb') (hlog : bb.Logging) : Records bb bb' [] where
  log := by
    obtain ⟨l, hl⟩ := hlog
    exact ⟨l, hl, by rw [get_congr h.log, hl, List.append_nil]⟩
  sink := h.sink
  stream _ := by simp [h.stream]

theorem refl (h : bb.Logging) : Records bb bb [] := of_spares (.refl bb) h

theorem trans (h : Records bb bb' evs) (h' : Records bb' bb'' evs') : Records bb bb'' (evs ++ evs') where
  log := by
    obtain ⟨l, hl, hmid⟩ := h.log
    obtain ⟨l', hl', hend⟩ := h'.log
    rw [hmid] at hl'
    cases hl'
    exact ⟨l, hl, by rw [hend, List.append_assoc]⟩
  sink := h'.sink.trans h.sink
  stream hs := by
    rw [h'.stream ((streaming_congr h.sink).mpr hs), h.stream hs, contains_congr h.sink]
    split <;> simp

end Records

/-- An event that is emitted is in the log, even if the sink fails. -/
theorem emit_records (h : bb.Logging) (ev : TraceEvent) : Records bb (bb.emit ev).1 [ev] := by
  obtain ⟨l, hl⟩ := h
  have hlogged : bb.logEvent ev = .ok (bb.set .log traceLog (l.push ev)) := by
    rw [logEvent, if_pos (contains_of_get hl), modify, hl]
    rfl
  have hsink : (bb.set .log traceLog (l.push ev)).values.find? traceSink = bb.values.find? traceSink :=
    Dict.find?_insert_of_ne _ _ (by decide)
  have hget : (bb.set .log traceLog (l.push ev)).get .log traceLog = .ok ⟨l.events ++ [ev]⟩ := get_set _ _ _ _
  unfold emit
  rw [hlogged]
  simp only [sendEvent, contains_congr hsink, get_congr hsink]
  by_cases hc : bb.contains traceSink = true
  · rw [if_pos hc]
    cases hs : bb.get .sink traceSink with
    | error e =>
        refine ⟨⟨l, hl, hget⟩, hsink, fun hstream => ?_⟩
        cases hs.symm.trans (hstream hc)
    | ok u =>
        refine ⟨⟨l, hl, hget⟩, hsink, fun _ => ?_⟩
        rw [if_pos hc]
        rfl
  · rw [if_neg hc]
    refine ⟨⟨l, hl, hget⟩, hsink, fun _ => ?_⟩
    rw [if_neg hc, List.append_nil]
    rfl

end Blackboard

end BehaviorTree
