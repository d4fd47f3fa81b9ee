import BehaviorTree.Proofs.Library.Leaves
import BehaviorTree.Proofs.Library.Loops
import BehaviorTree.Proofs.Machine.Table
import BehaviorTree.Proofs.Run.Bounds

/-!
# Who says that no child is running or that ticks are nested too deep

Reads, writes and variables fail for many reasons, but only the tick function of a parallel says that none
of its children is running, and only a tick that too many ticks are nested.
-/

namespace BehaviorTree

/-- A cause that is neither an idle parallel nor a tick that is nested too deep. -/
def Error.IsPlain : Error → Prop
  | .noRunningChild _ | .depthExceeded _ _ => False
  | _ => True

def Fault.IsPlain : Fault → Prop
  | .error e => e.IsPlain
  | .outOfBounds => True

/-- A failure, if there is one, has a plain cause. -/
def Checked.Plain {α : Type} (x : Checked α) : Prop := x.FailsBy Fault.IsPlain

namespace Checked.Plain

variable {α β : Type}

theorem ok (a : α) : Plain (.ok a : Checked α) := FailsBy.ok a

theorem bind {x : Checked α} {f : α → Checked β} (hx : x.Plain) (hf : ∀ a, (f a).Plain) : (x >>= f).Plain :=
  FailsBy.bind hx fun a _ => hf a

theorem fail {e : Error} (h : e.IsPlain) : (Checked.fail e : Checked α).Plain := FailsBy.error h

theorem ofExcept {x : Except Error α} (h : ∀ e, x = .error e → e.IsPlain) : (Checked.ofExcept x).Plain :=
  FailsBy.ofExcept h

theorem ofOption (x : Option α) : (Checked.ofOption x).Plain := by
  rintro e h
  cases x with
  | none =>
      cases h
      trivial
  | some a => cases h

theorem ofBoard (x : Except BoardError α) : (Checked.ofBoard x).Plain := FailsBy.ofBoard fun _ _ => trivial

end Checked.Plain

namespace Cell

variable {c : Cell} {i k o : Nat} {e : Error}

theorem read_error {t : ValueType} (h : c.read t i o = .error e) : e.IsPlain := by
  unfold read at h
  split at h
  · cases h
    trivial
  · split at h
    · cases h
    · cases h
      trivial

theorem write_error {t : ValueType} {v : t.Value} (h : c.write i o v = .error e) : e.IsPlain := by
  unfold write at h
  split at h
  · cases h
    trivial
  split at h
  · cases h
    trivial
  split at h
  · cases h
    trivial
  · cases h

theorem status_error (h : c.status i k = .error e) : e.IsPlain := by
  unfold status at h
  split at h
  · cases h
    trivial
  · split at h
    · unfold Status.ofBits at h
      split at h
      · cases h
      · cases h
        trivial
    · cases h
      trivial

end Cell

variable {b : Blob} {m : Machine} {i : Nat}

namespace Instance

theorem readAt_plain (s : Instance b) (t : ValueType) (i o : Nat) : (s.readAt t i o).Plain := by
  rcases Nat.lt_or_ge i b.size with hi | hi
  · rw [readAt_eq s hi]
    exact .ofExcept fun _ h => Cell.read_error h
  · rw [readAt_of_le s hi]
    exact .fail trivial

end Instance

namespace Variable

theorem payloadOffset_plain (v : Variable) (i : Nat) : (Checked.ofExcept (v.payloadOffset i)).Plain := by
  unfold payloadOffset
  split
  · exact .ok _
  · exact .fail trivial

theorem payload_plain {α : Type} (v : Variable) (i : Nat) (s : Instance b) (p : PlainData α) :
    (Strategy.payload v i s p).Plain :=
  (v.payloadOffset_plain i).bind fun _ => (s.readAt_plain _ _ _).bind fun _ => .ok _

theorem strategy_plain (rs : Registries) (t : ValueType) (id : UInt32) :
    (Checked.ofExcept (rs.strategy t id)).Plain := by
  unfold Registries.strategy Registries.registry
  cases rs.byType.find? t with
  | none => exact .fail trivial
  | some r =>
      change (Checked.ofExcept (r.strategy id)).Plain
      unfold Registry.strategy
      cases r.find? id with
      | none => exact .fail trivial
      | some st => exact .ok st

theorem read_plain (v : Variable) (rs : Registries) (t : ValueType) (i : Nat) (s : Instance b)
    (bb : Blackboard) : (v.read rs t i s bb).Plain := by
  refine (strategy_plain rs t v.id).bind fun st => ?_
  cases st with
  | constant => exact (v.payloadOffset_plain i).bind fun _ => s.readAt_plain _ _ _
  | blackboard => exact (v.payload_plain i s _).bind fun _ => .ofBoard _
  | node => exact (v.payload_plain i s _).bind fun _ => s.readAt_plain _ _ _
  | component c field mode => exact (Checked.Plain.ofBoard _).bind fun _ => .ok _

end Variable

theorem Machine.behaviorAt_plain (m : Machine) (b : Blob) (i : Nat) : (m.behaviorAt b i).Plain := by
  unfold behaviorAt
  split
  · exact .fail trivial
  · refine Checked.Plain.bind (.ofOption _) fun id => ?_
    cases m.behavior? id with
    | none => exact .fail trivial
    | some bh => exact .ok bh

namespace Run

variable {α β : Type}

/-- Wherever it starts, a failure has a plain cause. -/
def Plain (x : Run b α) : Prop := x.FailsBy Fault.IsPlain

theorem Plain.pure (a : α) : Plain (pure a : Run b α) := FailsBy.pure a

theorem Plain.bind {x : Run b α} {f : α → Run b β} (hx : x.Plain) (hf : ∀ a, (f a).Plain) : (x >>= f).Plain :=
  FailsBy.bind hx hf

theorem Plain.lift {c : Checked α} (h : c.Plain) : Plain (lift c : Run b α) := FailsBy.lift h

theorem readHead_plain (p : PlainData α) (i : Nat) : Plain (readHead p i : Run b α) := fun w =>
  (Plain.lift (w.inst.readAt_plain p.type i 0)).bind (fun _ => .pure _) w

theorem readStatus_plain (i k : Nat) : Plain (readStatus i k : Run b Status) := fun w => by
  refine (Plain.lift (w.inst.readAt_plain PlainData.u8.type i k)).bind (fun bs => .lift (.ofExcept fun e h => ?_)) w
  unfold Status.ofBits at h
  split at h
  · cases h
  · cases h
    trivial

theorem writeAt_plain (hi : i < b.size) {t : ValueType} (ht : t.align ∣ dataAlign) (o : Nat) (v : t.Value)
    (a : Address) : Plain (update fun s => s.writeAt i o v a : Run b Unit) := fun w => by
  refine (writeAt_yields hi ht o v a).mono fun r w' hput => ?_
  unfold Puts at hput
  split at hput
  · rw [hput.1]
    exact .ok ()
  · rename_i e hc
    rw [hput.1]
    exact .error (Cell.write_error hc)

theorem writeHead_plain (hi : i < b.size) (p : PlainData α) (hp : p.type.align ∣ dataAlign) (a : α) :
    Plain (writeHead p i a : Run b Unit) := writeAt_plain hi hp 0 (p.encode a) default

theorem writeStatus_plain (hi : i < b.size) (k : Nat) (st : Status) : Plain (writeStatus i k st : Run b Unit) :=
  writeAt_plain hi ⟨dataAlign, (Nat.one_mul _).symm⟩ k (PlainData.u8.encode st.bits) default

end Run

namespace Library

open Run

/-- The leaves of the library fail for plain causes only. -/
theorem fixed_plain (rs : Registries) (cb : Callbacks b) (i : Nat) : (fixed.tick rs cb i).Plain :=
  readStatus_plain i 0

theorem delay_plain (rs : Registries) (cb : Callbacks b) (hi : i < b.size) :
    (delay.tick rs cb i).Plain := by
  have hsingle : ∀ v, (readSingle rs v i : Run b Single).Plain := fun v w =>
    (Plain.lift (v.read_plain rs _ i w.inst w.board)).bind (fun _ => .pure _) w
  exact (readHead_plain _ i).bind fun d => (hsingle _).bind fun _ => (hsingle _).bind fun _ =>
    (writeHead_plain hi .delayData ⟨2, rfl⟩ _).bind fun _ => .pure _

theorem countResult_plain (hi : i < b.size) (s : Status) : (countResult i s : Run b Status).Plain :=
  (readHead_plain _ i).bind fun _ => (writeHead_plain hi .repeatData ⟨2, rfl⟩ _).bind fun _ => .pure _

theorem countResult_own (i : Nat) (st : Status) (w : World b) :
    (countResult i st).Yields w fun _ w' => w.inst.OwnData i w'.inst := by
  simp only [countResult, readHead, yields_bind, yields_inst, yields_lift, yields_pure]
  cases w.inst.readAt PlainData.repeatData.type i 0 with
  | error e => exact Instance.OwnData.refl i _
  | ok bs =>
      refine (writeHead_own .repeatData ⟨2, rfl⟩ i _ w).mono fun r w' h => ?_
      cases r <;> exact h

end Library

end BehaviorTree
