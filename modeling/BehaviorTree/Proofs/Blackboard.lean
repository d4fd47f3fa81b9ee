import BehaviorTree.Blackboard

/-!
# What blackboard accesses give and how they fail

A read fails because the key is missing or holds a value of another type. A trace event is recorded only
under keys that hold something, so only the type can be wrong there.
-/

namespace BehaviorTree

namespace Blackboard

variable {bb bb' : Blackboard} {t : BoardType} {key : UInt64} {ev : TraceEvent} {e : BoardError}

theorem get_set (bb : Blackboard) (t : BoardType) (key : UInt64) (x : t.Carrier) :
    (bb.set t key x).get t key = .ok x := by
  simp [get, get?, set]

/-- A component that can be read can be replaced. -/
theorem component_insertComponent {c : ValueType} {y : c.Value} (h : bb.component c = .ok y) (x : c.Value) :
    (bb.insertComponent x).component c = .ok x := by
  unfold component at h ⊢
  cases ha : bb.answer with
  | stored => simp [insertComponent, ha]
  | withheld => simp [ha] at h
  | foreign => simp [ha] at h

theorem get_error (h : bb.get t key = .error e) : e = .missingKey key ∨ e = .typeMismatch key t.name := by
  unfold get get? at h
  cases hv : bb.values.find? key with
  | none =>
      rw [hv] at h
      cases h
      exact Or.inl rfl
  | some v =>
      rw [hv] at h
      simp only [] at h
      cases ha : v.as? t with
      | some x =>
          rw [ha] at h
          cases h
      | none =>
          rw [ha] at h
          cases h
          exact Or.inr rfl

theorem get_of_contains (hk : bb.contains key = true) (h : bb.get t key = .error e) :
    e = .typeMismatch key t.name := by
  rcases get_error h with rfl | rfl
  · unfold contains Dict.contains at hk
    unfold get get? at h
    cases hv : bb.values.find? key with
    | none => simp [hv] at hk
    | some v =>
        rw [hv] at h
        simp only [] at h
        cases ha : v.as? t <;> rw [ha] at h <;> cases h
  · rfl

theorem logEvent_error (h : bb.logEvent ev = .error e) : e = .typeMismatch traceLog "TraceLog" := by
  unfold logEvent at h
  split at h
  · rename_i hk
    unfold modify at h
    cases hget : bb.get .log traceLog with
    | ok l =>
        rw [hget] at h
        cases h
    | error err =>
        rw [hget] at h
        cases h
        exact get_of_contains hk hget
  · cases h

theorem sendEvent_error (h : bb.sendEvent ev = .error e) :
    e = .typeMismatch traceSink "Box<dyn TraceSink + Send>" := by
  unfold sendEvent at h
  split at h
  · rename_i hk
    cases hget : bb.get .sink traceSink with
    | ok u =>
        rw [hget] at h
        cases h
    | error err =>
        rw [hget] at h
        cases h
        exact get_of_contains hk hget
  · cases h

theorem emit_error (h : (bb.emit ev).2 = .error e) : e = .typeMismatch traceLog "TraceLog" ∨
    e = .typeMismatch traceSink "Box<dyn TraceSink + Send>" := by
  unfold emit at h
  split at h
  · rename_i err hlog
    cases h
    exact Or.inl (logEvent_error hlog)
  · split at h
    · rename_i err hsend
      cases h
      exact Or.inr (sendEvent_error hsend)
    · cases h

end Blackboard

end BehaviorTree
