import BehaviorTree.Proofs.Checked
import BehaviorTree.Proofs.Trace.Records

/-!
# Blackboards that differ in their traces

Two blackboards with the same values and the same components of some types, where logs and streams hold
events that some relation allows. Nodes read the same from both, and events that go to both keep them so.
-/

namespace BehaviorTree

namespace Blackboard

variable {E : List TraceEvent → List TraceEvent → Prop} {T : ValueType → Prop} {bb bb' : Blackboard}
  {ev ev' : TraceEvent}

structure Matches (E : List TraceEvent → List TraceEvent → Prop) (T : ValueType → Prop) (bb bb' : Blackboard) :
    Prop where
  value : ∀ key, bb'.values.find? key = bb.values.find? key ∨ ∃ l l' : TraceLog,
    bb.values.find? key = some ⟨.log, l⟩ ∧ bb'.values.find? key = some ⟨.log, l'⟩ ∧ E l.events l'.events
  component : ∀ c, T c → bb'.component c = bb.component c
  stream : E bb.stream bb'.stream

namespace Matches

theorem contains_eq (h : Matches E T bb bb') (key : UInt64) : bb'.contains key = bb.contains key := by
  rcases h.value key with hv | ⟨l, l', hv, hv', -⟩
  · exact contains_congr hv
  · rw [contains, contains, Dict.contains, Dict.contains, hv, hv']
    rfl

/-- No value but a log tells the two apart. -/
theorem get_eq (h : Matches E T bb bb') {t : BoardType} (ht : t ≠ .log) (key : UInt64) :
    bb'.get t key = bb.get t key := by
  rcases h.value key with hv | ⟨l, l', hv, hv', -⟩
  · exact get_congr hv
  · have hnone : ∀ l : TraceLog, (⟨.log, l⟩ : BoardValue).as? t = none := fun l =>
      BoardValue.as?_eq_none.mpr (Ne.symm ht)
    simp only [get, get?, hv, hv', hnone]

/-- Logs to which an event is added are set anew. -/
theorem set_log (h : Matches E T bb bb') {l l' : TraceLog} (hl : E l.events l'.events) (key : UInt64) :
    Matches E T (bb.set .log key l) (bb'.set .log key l') where
  value key' := by
    by_cases hkey : key = key'
    · subst hkey
      exact .inr ⟨l, l', Dict.find?_insert_self _ _ _, Dict.find?_insert_self _ _ _, hl⟩
    · simp only [set, Dict.find?_insert_of_ne _ _ hkey]
      exact h.value key'
  component := h.component
  stream := h.stream

section Events

variable (hrefl : ∀ evs, E evs evs) (hpush : ∀ l l', E l l' → E (l ++ [ev]) (l' ++ [ev']))

include hrefl hpush

theorem modify_log (h : Matches E T bb bb') (key : UInt64) :
    (∃ e, bb.modify .log key (·.push ev) = .error e ∧ bb'.modify .log key (·.push ev') = .error e) ∨
      ∃ x x', bb.modify .log key (·.push ev) = .ok x ∧ bb'.modify .log key (·.push ev') = .ok x' ∧
        Matches E T x x' := by
  have hok : ∀ l l' : TraceLog, bb.get .log key = .ok l → bb'.get .log key = .ok l' → E l.events l'.events →
      ∃ x x', bb.modify .log key (·.push ev) = .ok x ∧ bb'.modify .log key (·.push ev') = .ok x' ∧
        Matches E T x x' := by
    intro l l' hl hl' he
    refine ⟨_, _, ?_, ?_, h.set_log (hpush l.events l'.events he) key⟩
    · rw [modify, hl]
      rfl
    · rw [modify, hl']
      rfl
  rcases h.value key with hv | ⟨l, l', hv, hv', he⟩
  · have hget : bb'.get .log key = bb.get .log key := get_congr hv
    cases hl : bb.get .log key with
    | error e =>
        refine .inl ⟨e, ?_, ?_⟩
        · rw [modify, hl]
          rfl
        · rw [modify, hget, hl]
          rfl
    | ok l => exact .inr (hok l l hl (hget.trans hl) (hrefl _))
  · refine .inr (hok l l' ?_ ?_ he)
    · rw [get, get?, hv]
      simp
    · rw [get, get?, hv']
      simp

theorem logEvent (h : Matches E T bb bb') :
    (∃ e, bb.logEvent ev = .error e ∧ bb'.logEvent ev' = .error e) ∨
      ∃ x x', bb.logEvent ev = .ok x ∧ bb'.logEvent ev' = .ok x' ∧ Matches E T x x' := by
  unfold Blackboard.logEvent
  rw [h.contains_eq]
  split
  · exact h.modify_log hrefl hpush traceLog
  · exact .inr ⟨bb, bb', rfl, rfl, h⟩

omit hrefl in
theorem sendEvent (h : Matches E T bb bb') :
    (∃ e, bb.sendEvent ev = .error e ∧ bb'.sendEvent ev' = .error e) ∨
      ∃ x x', bb.sendEvent ev = .ok x ∧ bb'.sendEvent ev' = .ok x' ∧ Matches E T x x' := by
  unfold Blackboard.sendEvent
  rw [h.contains_eq, h.get_eq (by decide)]
  split
  · cases bb.get .sink traceSink with
    | error e => exact .inl ⟨e, rfl, rfl⟩
    | ok u => exact .inr ⟨_, _, rfl, rfl, h.value, h.component, hpush _ _ h.stream⟩
  · exact .inr ⟨bb, bb', rfl, rfl, h⟩

/-- Two events, one for each, end alike. -/
theorem emit (h : Matches E T bb bb') : (bb'.emit ev').2 = (bb.emit ev).2 ∧
    Matches E T (bb.emit ev).1 (bb'.emit ev').1 := by
  unfold Blackboard.emit
  rcases h.logEvent hrefl hpush with ⟨e, hl, hl'⟩ | ⟨x, x', hl, hl', hx⟩
  · rw [hl, hl']
    exact ⟨rfl, h⟩
  rw [hl, hl']
  rcases hx.sendEvent hpush with ⟨e, hs, hs'⟩ | ⟨y, y', hs, hs', hy⟩
  · simp only [hs, hs']
    exact ⟨trivial, hx⟩
  · simp only [hs, hs']
    exact ⟨trivial, hy⟩

end Events

end Matches

/-! ## What events leave alone -/

/-- The host offers the same components, in the same way. -/
def SameHost (bb bb' : Blackboard) : Prop := bb'.components = bb.components ∧ bb'.answer = bb.answer

theorem SameHost.trans {bb'' : Blackboard} (h : bb.SameHost bb') (h' : bb'.SameHost bb'') : bb.SameHost bb'' :=
  ⟨h'.1.trans h.1, h'.2.trans h.2⟩

theorem logEvent_cases (h : bb.logEvent ev = .ok bb') :
    bb' = bb ∨ ∃ l, bb.get .log traceLog = .ok l ∧ bb' = bb.set .log traceLog (l.push ev) := by
  unfold logEvent at h
  split at h
  · obtain ⟨l, hl, h⟩ := Checked.bind_eq_ok.mp h
    cases h
    exact .inr ⟨l, hl, rfl⟩
  · cases h
    exact .inl rfl

theorem sendEvent_cases (h : bb.sendEvent ev = .ok bb') :
    bb' = bb ∨ bb' = { bb with stream := bb.stream ++ [ev] } := by
  unfold sendEvent at h
  split at h
  · obtain ⟨_, -, h⟩ := Checked.bind_eq_ok.mp h
    cases h
    exact .inr rfl
  · cases h
    exact .inl rfl

theorem emit_sameHost (bb : Blackboard) (ev : TraceEvent) : bb.SameHost (bb.emit ev).1 := by
  unfold emit
  split
  · exact ⟨rfl, rfl⟩
  · rename_i x hx
    have hlog : bb.SameHost x := by
      rcases logEvent_cases hx with rfl | ⟨l, -, rfl⟩ <;> exact ⟨rfl, rfl⟩
    split
    · exact hlog
    · rename_i y hy
      rcases sendEvent_cases hy with rfl | rfl <;> exact hlog

/-! ## Blackboards that nodes cannot tell apart -/

/-- The same values and components, but for what was traced. -/
abbrev SameButTrace : Blackboard → Blackboard → Prop := Matches (fun _ _ => True) fun _ => True

theorem SameButTrace.refl (bb : Blackboard) : bb.SameButTrace bb := ⟨fun _ => .inl rfl, fun _ _ => rfl, trivial⟩

theorem SameButTrace.trans {bb'' : Blackboard} (h : bb.SameButTrace bb') (h' : bb'.SameButTrace bb'') :
    bb.SameButTrace bb'' where
  value key := by
    rcases h.value key with hv | ⟨l, l', hv, hv', -⟩
    · rw [← hv]
      exact h'.value key
    · rcases h'.value key with hw | ⟨-, l'', -, hw, -⟩
      · exact .inr ⟨l, l', hv, hw.trans hv', trivial⟩
      · exact .inr ⟨l, l'', hv, hw, trivial⟩
  component c hc := (h'.component c hc).trans (h.component c hc)
  stream := trivial

theorem find?_of_get {t : BoardType} {key : UInt64} {v : t.Carrier} (h : bb.get t key = .ok v) :
    bb.values.find? key = some ⟨t, v⟩ := by
  unfold get get? at h
  cases hv : bb.values.find? key with
  | none =>
      rw [hv] at h
      cases h
  | some x =>
      rw [hv] at h
      cases hx : x.as? t with
      | none =>
          simp only [hx] at h
          cases h
      | some y =>
          simp only [hx] at h
          cases h
          rw [BoardValue.eq_of_as? hx]

theorem logEvent_sameButTrace (h : bb.logEvent ev = .ok bb') : bb.SameButTrace bb' := by
  rcases logEvent_cases h with rfl | ⟨l, hl, rfl⟩
  · exact .refl bb'
  · refine ⟨fun key => ?_, fun _ _ => rfl, trivial⟩
    by_cases hkey : traceLog = key
    · subst hkey
      exact .inr ⟨l, l.push ev, find?_of_get hl, Dict.find?_insert_self _ _ _, trivial⟩
    · exact .inl (Dict.find?_insert_of_ne _ _ hkey)

theorem sendEvent_sameButTrace (h : bb.sendEvent ev = .ok bb') : bb.SameButTrace bb' := by
  rcases sendEvent_cases h with rfl | rfl
  · exact .refl bb'
  · exact ⟨fun _ => .inl rfl, fun _ _ => rfl, trivial⟩

theorem emit_sameButTrace (bb : Blackboard) (ev : TraceEvent) : bb.SameButTrace (bb.emit ev).1 := by
  unfold emit
  split
  · exact .refl bb
  · rename_i x hx
    have hlog := logEvent_sameButTrace hx
    split
    · exact hlog
    · rename_i y hy
      exact hlog.trans (sendEvent_sameButTrace hy)

/-- The log and the sink, if there are any, take events. -/
def Traceable (bb : Blackboard) : Prop := (bb.contains traceLog = true → bb.Logging) ∧ bb.Streaming

theorem SameButTrace.traceable_iff (h : bb.SameButTrace bb') : bb'.Traceable ↔ bb.Traceable := by
  have hlog : bb'.Logging ↔ bb.Logging := by
    rcases h.value traceLog with hv | ⟨l, l', hv, hv', -⟩
    · unfold Logging
      rw [get_congr hv]
    · exact iff_of_true ⟨l', by simp [get, get?, hv']⟩ ⟨l, by simp [get, get?, hv]⟩
  unfold Traceable Streaming
  rw [h.contains_eq, h.contains_eq, h.get_eq (by decide), hlog]

theorem logEvent_eq_ok (ev : TraceEvent) :
    (∃ x, bb.logEvent ev = .ok x) ↔ (bb.contains traceLog = true → bb.Logging) := by
  unfold logEvent Logging modify
  split
  · rename_i hk
    cases bb.get .log traceLog with
    | error e => simp [hk, bind, Except.bind]
    | ok l => simp [bind, Except.bind, pure, Except.pure]
  · rename_i hk
    simp [hk]

theorem sendEvent_eq_ok (ev : TraceEvent) : (∃ x, bb.sendEvent ev = .ok x) ↔ bb.Streaming := by
  unfold sendEvent Streaming
  split
  · rename_i hk
    cases bb.get .sink traceSink with
    | error e => simp [hk, bind, Except.bind]
    | ok u => simp [bind, Except.bind, pure, Except.pure]
  · rename_i hk
    simp [hk]

theorem emit_eq_ok (ev : TraceEvent) : (bb.emit ev).2 = .ok () ↔ bb.Traceable := by
  unfold emit Traceable
  rw [← logEvent_eq_ok ev]
  cases hx : bb.logEvent ev with
  | error e => simp
  | ok x =>
      have hstream : x.Streaming ↔ bb.Streaming := by
        have h := logEvent_sameButTrace hx
        unfold Streaming
        rw [h.contains_eq, h.get_eq (by decide)]
      rw [← hstream, ← sendEvent_eq_ok ev]
      cases hy : x.sendEvent ev with
      | error e => simp [hy]
      | ok y => simp [hy]

end Blackboard

end BehaviorTree
