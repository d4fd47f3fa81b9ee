import BehaviorTree.Proofs.Machine.Table
import BehaviorTree.Proofs.Registration

/-!
# The dispatch table while a machine is set up

A machine is set up by calls in any order. Its table finds, for every node type, the behavior that was
accepted first, and a registration fails exactly for a type out of range or one that is taken.
-/

namespace BehaviorTree

/-- How a registration of the type `id` ends while `held` is registered for it. -/
structure TypeId.Verdict (id : TypeId) (held : Option Behavior) (answer : Except Error Unit) : Prop where
  outOfRange : answer = .error (.nodeTypeOutOfRange id 65535) ↔ 65535 < id.val.toNat
  taken (name : String) : answer = .error (.duplicateNodeType id name) ↔
    id.val.toNat ≤ 65535 ∧ ∃ old, held = some old ∧ old.name = name
  accepted : answer = .ok () ↔ id.val.toNat ≤ 65535 ∧ held = none

namespace Machine

/-- A call that sets up a machine. A behavior comes with or without the components that it touches. -/
inductive Setup where
  | register (id : TypeId) (bh : Behavior)
  | library
  | configure (config : Config)
  | registries (change : Registries → Registries)

def setUp (m : Machine) : Setup → Machine × Except Error Unit
  | .register id bh => m.registerAll [(id, bh)]
  | .library => m.registerLibrary
  | .configure config => ({ m with config }, .ok ())
  | .registries change => ({ m with registries := change m.registries }, .ok ())

def afterSetup (m : Machine) : List Setup → Machine
  | [] => m
  | c :: calls => (m.setUp c).1.afterSetup calls

/-- The single registrations of several behaviors, up to the first one that fails. -/
def attempts (m : Machine) : List (TypeId × Behavior) → List (Attempt TypeId fun _ => Behavior)
  | [] => []
  | (id, bh) :: rest =>
    match m.register id bh with
    | .ok m => ⟨id, bh, .ok ()⟩ :: m.attempts rest
    | .error e => [⟨id, bh, .error e⟩]

/-- The single registrations that a call makes: the library registers its behaviors in order, as types 1 to 8. -/
def attemptsOf (m : Machine) : Setup → List (Attempt TypeId fun _ => Behavior)
  | .register id bh => m.attempts [(id, bh)]
  | .library => m.attempts Library.behaviors
  | .configure _ | .registries _ => []

/-- All single registrations that were attempted, with their answers. -/
def history (m : Machine) : List Setup → List (Attempt TypeId fun _ => Behavior)
  | [] => []
  | c :: calls => m.attemptsOf c ++ (m.setUp c).1.history calls

variable {m m' : Machine} {id : TypeId} {bh : Behavior}

/-! ## One registration -/

theorem register_cases (m : Machine) (id : TypeId) (bh : Behavior) :
    (65535 < id.val.toNat ∧ m.register id bh = .error (.nodeTypeOutOfRange id 65535)) ∨
    (id.val.toNat ≤ 65535 ∧ ∃ old, m.behavior? id = some old ∧
      m.register id bh = .error (.duplicateNodeType id old.name)) ∨
    (id.val.toNat ≤ 65535 ∧ m.behavior? id = none ∧ ∃ m', m.register id bh = .ok m') := by
  unfold register
  by_cases hid : maxTypeId < id.val.toNat
  · exact .inl ⟨hid, if_pos hid⟩
  · rw [if_neg hid]
    have hle : id.val.toNat ≤ 65535 := Nat.le_of_not_lt hid
    cases hold : m.behavior? id with
    | some old => exact .inr (.inl ⟨hle, old, rfl, rfl⟩)
    | none => exact .inr (.inr ⟨hle, rfl, _, rfl⟩)

theorem verdict_of_error {e : Error} (h : m.register id bh = .error e) :
    id.Verdict (m.behavior? id) (.error e) := by
  obtain ⟨hid, heq⟩ | ⟨hid, old, hold, heq⟩ | ⟨-, -, m', heq⟩ := m.register_cases id bh
  · cases h.symm.trans heq
    exact ⟨iff_of_true rfl hid, fun _ => iff_of_false nofun fun h => absurd h.1 (by omega),
      iff_of_false nofun fun h => absurd h.1 (by omega)⟩
  · cases h.symm.trans heq
    refine ⟨iff_of_false nofun (by omega), fun name => ?_, iff_of_false nofun fun h => by simp [hold] at h⟩
    simp [hold, hid]
  · cases h.symm.trans heq

theorem verdict_of_ok (h : m.register id bh = .ok m') :
    id.Verdict (m.behavior? id) (.ok ()) ∧ m.behavior? id = none := by
  obtain ⟨-, heq⟩ | ⟨-, old, -, heq⟩ | ⟨hid, hnone, m', -⟩ := m.register_cases id bh
  · cases h.symm.trans heq
  · cases h.symm.trans heq
  · refine ⟨⟨iff_of_false nofun (by omega), fun name => iff_of_false nofun ?_, iff_of_true rfl ⟨hid, hnone⟩⟩, hnone⟩
    simp [hnone]

theorem behavior?_accepted (h : m.register id bh = .ok m') (id' : TypeId) :
    m'.behavior? id' = (m.behavior? id').or (firstAccepted (β := fun _ => Behavior) id' [⟨id, bh, .ok ()⟩]) := by
  rw [behavior?_register h]
  by_cases hid : id = id'
  · subst hid
    rw [if_pos rfl, (verdict_of_ok h).2, firstAccepted_accepted]
    rfl
  · rw [if_neg (Ne.symm hid), firstAccepted_of_ne hid, firstAccepted_nil, Option.or_none]

/-! ## Several registrations -/

theorem behavior?_registerAll : ∀ (xs : List (TypeId × Behavior)) (m : Machine) (id : TypeId),
    (m.registerAll xs).1.behavior? id = (m.behavior? id).or (firstAccepted id (m.attempts xs))
  | [], m, id => by simp [registerAll, attempts]
  | (id', bh) :: rest, m, id => by
      unfold registerAll attempts
      cases hr : m.register id' bh with
      | error e =>
          simp only []
          rw [firstAccepted_refused, firstAccepted_nil, Option.or_none]
      | ok m' =>
          simp only []
          rw [behavior?_registerAll rest m' id, behavior?_accepted hr, Option.or_assoc, ← firstAccepted_cons]

theorem attempts_verdict : ∀ (xs : List (TypeId × Behavior)) (m : Machine),
    Verdicts TypeId.Verdict m.behavior? (m.attempts xs)
  | [], _ => .nil
  | (id, bh) :: rest, m => by
      unfold attempts
      cases hr : m.register id bh with
      | error e => exact .singleton (verdict_of_error hr)
      | ok m' =>
          exact (Verdicts.singleton (verdict_of_ok hr).1).append (behavior?_accepted hr) (attempts_verdict rest m')

/-! ## Calls -/

theorem behavior?_registerLibrary (m : Machine) (id : TypeId) :
    m.registerLibrary.1.behavior? id = (m.registerAll Library.behaviors).1.behavior? id := by
  unfold registerLibrary
  split
  · rename_i heq
    rw [heq]
    rfl
  · rename_i heq
    rw [heq]

theorem behavior?_setUp (m : Machine) (c : Setup) (id : TypeId) :
    (m.setUp c).1.behavior? id = (m.behavior? id).or (firstAccepted id (m.attemptsOf c)) := by
  cases c with
  | register id' bh => exact behavior?_registerAll _ m id
  | library => rw [setUp, behavior?_registerLibrary, behavior?_registerAll, attemptsOf]
  | configure config => exact (Option.or_none).symm
  | registries change => exact (Option.or_none).symm

theorem attemptsOf_verdict (m : Machine) (c : Setup) : Verdicts TypeId.Verdict m.behavior? (m.attemptsOf c) := by
  cases c with
  | register id bh => exact attempts_verdict _ m
  | library => exact attempts_verdict _ m
  | configure config => exact .nil
  | registries change => exact .nil

theorem behavior?_afterSetup : ∀ (calls : List Setup) (m : Machine) (id : TypeId),
    (m.afterSetup calls).behavior? id = (m.behavior? id).or (firstAccepted id (m.history calls))
  | [], _, _ => (Option.or_none).symm
  | c :: calls, m, id => by
      rw [afterSetup, history, behavior?_afterSetup calls, behavior?_setUp, firstAccepted_append, Option.or_assoc]

theorem history_verdict : ∀ (calls : List Setup) (m : Machine),
    Verdicts TypeId.Verdict m.behavior? (m.history calls)
  | [], _ => .nil
  | c :: calls, m => (m.attemptsOf_verdict c).append (m.behavior?_setUp c) (history_verdict calls (m.setUp c).1)

theorem setUp_register_cases (m : Machine) (id : TypeId) (bh : Behavior) :
    id.Verdict (m.behavior? id) (m.setUp (.register id bh)).2 ∧
      ((m.setUp (.register id bh)).2 ≠ .ok () → (m.setUp (.register id bh)).1 = m) := by
  simp only [setUp, registerAll]
  cases hr : m.register id bh with
  | error e => exact ⟨verdict_of_error hr, fun _ => rfl⟩
  | ok m' => exact ⟨(verdict_of_ok hr).1, fun h => absurd rfl h⟩

/-- The table is a map in which the first registration stays, whatever calls set up the machine and however many
of them failed. A single registration fails exactly if its type is out of range or taken, and leaves the machine
as it was then. Every type finds the behavior that was first accepted for it. -/
theorem first_registration_stays (calls : List Setup) :
    let m := empty.afterSetup calls
    let past := empty.history calls
    (∀ (n : Nat) (a : Attempt TypeId fun _ => Behavior), past[n]? = some a →
      a.key.Verdict (firstAccepted a.key (past.take n)) a.answer) ∧
    (∀ id bh, id.Verdict (firstAccepted id past) (m.setUp (.register id bh)).2 ∧
      ((m.setUp (.register id bh)).2 ≠ .ok () → (m.setUp (.register id bh)).1 = m)) ∧
    ∀ id, m.behavior? id = firstAccepted id past ∧ m.nameOf? id = (firstAccepted id past).map (·.name) ∧
      m.isRegistered id = (firstAccepted id past).isSome := by
  have hfind (id : TypeId) : (empty.afterSetup calls).behavior? id = firstAccepted id (empty.history calls) := by
    rw [behavior?_afterSetup, behavior?_empty, Option.none_or]
  refine ⟨fun n a ha => ?_, fun id bh => ?_, fun id => ⟨hfind id, ?_, ?_⟩⟩
  · simpa [behavior?_empty] using history_verdict calls empty n a ha
  · rw [← hfind]
    exact setUp_register_cases _ id bh
  · rw [nameOf?, hfind]
  · rw [isRegistered, hfind]

example : Library.behaviors.map (·.1.val) = [1, 2, 3, 4, 5, 6, 7, 8] := rfl

end Machine

end BehaviorTree
