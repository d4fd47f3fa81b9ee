import BehaviorTree.Proofs.Library.Slots
import BehaviorTree.Proofs.Library.Supervision
import BehaviorTree.Proofs.Run.Ticking

/-!
# Composites, step by step

A composite works on its own data and its children: its tick is made of accesses to this data, ticks of the
children and aborts. So what holds of these steps holds of the tick, and two of its ticks are coupled by
every relation that couples the steps.
-/

namespace BehaviorTree

namespace Library

open Run

variable {b : Blob} {i : Nat}

/-- The steps that a composite of the library takes at node `i`, but for the ticks of its children. -/
structure OwnSteps (P : {α : Type} → Run b α → Prop) (i : Nat) : Prop where
  pure : ∀ {α : Type} (a : α), P (Pure.pure a : Run b α)
  abort : ∀ c ∈ b.childList i, P (abortOne c)
  readStatus : ∀ k, P (Run.readStatus i k)
  writeStatus : ∀ k st, P (Run.writeStatus i k st)
  readHead : P (Run.readHead .repeatData i)
  writeHead : ∀ d, P (Run.writeHead .repeatData i d)
  noRunningChild : ∀ {α : Type}, P (Run.fail (.noRunningChild i) : Run b α)
  missingChild : ∀ {α : Type}, P (Run.fail (.missingChild i) : Run b α)

/-- What a composite does at node `i`, as made of its steps and of ticks of its children. It resets no node. -/
abbrev OfSteps (P : {α : Type} → Run b α → Prop) (i : Nat) {α : Type} (F : Ticking b α) : Prop :=
  MadeOf P (· ∈ b.childList i) (fun _ => False) F

namespace OwnSteps

variable {P P' : {α : Type} → Run b α → Prop}

theorem mono (h : OwnSteps P i) (hP : ∀ {α : Type} (x : Run b α), P x → P' x) : OwnSteps P' i where
  pure a := hP _ (h.pure a)
  abort c hc := hP _ (h.abort c hc)
  readStatus k := hP _ (h.readStatus k)
  writeStatus k st := hP _ (h.writeStatus k st)
  readHead := hP _ h.readHead
  writeHead d := hP _ (h.writeHead d)
  noRunningChild := hP _ h.noRunningChild
  missingChild := hP _ h.missingChild

variable (h : OwnSteps P i)
include h

theorem abortRunning : ∀ {cs : List Nat}, (∀ c ∈ cs, c ∈ b.childList i) →
    OfSteps P i fun _ => Library.abortRunning cs
  | [], _ => .own (h.pure ())
  | c :: cs, hcs => by
      rw [List.forall_mem_cons] at hcs
      rw [abortRunning_cons]
      exact .bind (.own (h.abort c hcs.1)) fun _ => abortRunning hcs.2

theorem tickWhile (keep : Status) : ∀ {cs : List Nat}, (∀ c ∈ cs, c ∈ b.childList i) →
    OfSteps P i fun cb => Library.tickWhile keep cb.tick cs
  | [], _ => .own (h.pure keep)
  | c :: cs, hcs => by
      rw [List.forall_mem_cons] at hcs
      refine .bind (.tick hcs.1) fun s => ?_
      by_cases hs : s = keep
      · simp only [if_pos hs]
        exact tickWhile keep hcs.2
      · simp only [if_neg hs]
        exact .bind (h.abortRunning hcs.2) fun _ => .own (h.pure s)

theorem anyRunning : ∀ ks, OfSteps P i fun _ => Library.anyRunning i ks
  | [] => .own (h.pure false)
  | k :: ks => .bind (.own (h.readStatus k)) fun _ => .bind (anyRunning ks) fun _ => .own (h.pure _)

theorem tickSlot {c : Nat} (hc : c ∈ b.childList i) (k : Nat) :
    OfSteps P i fun cb => Library.tickSlot cb.tick i c k := by
  refine .bind (.own (h.readStatus k)) fun s => ?_
  by_cases hs : s.isRunning
  · simp only [if_pos hs]
    exact .bind (.tick hc) fun s => .bind (.own (h.writeStatus k s)) fun _ => .own (h.pure s)
  · simp only [if_neg hs]
    exact .own (h.pure s)

theorem tickSlots : ∀ {slots : List (Nat × Nat)}, (∀ x ∈ slots, x.1 ∈ b.childList i) →
    OfSteps P i fun cb => Library.tickSlots cb.tick i slots
  | [], _ => .own (h.pure [])
  | (c, k) :: rest, hs => by
      rw [List.forall_mem_cons] at hs
      simp only [tickSlots_cons]
      exact .bind (h.tickSlot hs.1 k) fun s => .bind (tickSlots hs.2) fun _ => .own (h.pure _)

theorem countResult (s : Status) : OfSteps P i fun _ => Library.countResult i s :=
  .bind (.own h.readHead) fun d => .bind (.own (h.writeHead (d.step s).1)) fun _ => .own (h.pure _)

variable (hi : i < b.size)
include hi

omit h in
theorem children_eq : (Run.children i : Run b (List Nat)) = Pure.pure (b.childList i) := by
  rw [children, Blob.children_eq hi]
  rfl

omit h in
theorem children_bind {α : Type} {G : List Nat → Ticking b α} (hG : OfSteps P i (G (b.childList i))) :
    OfSteps P i fun cb => Run.children i >>= fun cs => G cs cb := by
  simpa only [children_eq hi, pure_bind] using hG

theorem onlyChild_bind {α : Type} {G : Nat → Ticking b α} (hG : ∀ c ∈ b.childList i, OfSteps P i (G c)) :
    OfSteps P i fun cb => Library.onlyChild i >>= fun c => G c cb := by
  simp only [Library.onlyChild, bind_assoc]
  refine children_bind hi ?_
  cases hcs : b.childList i with
  | nil => exact .own h.missingChild
  | cons c cs =>
      simp only [pure_bind]
      exact hG c (hcs ▸ List.mem_cons_self)

theorem composite {bh : Behavior} (hbh : bh ∈ composites) (rs : Registries) :
    OfSteps P i fun cb => bh.tick rs cb i := by
  simp only [composites, List.mem_cons, List.not_mem_nil, or_false] at hbh
  rcases hbh with rfl | rfl | rfl | rfl | rfl | rfl
  · exact children_bind hi (h.tickWhile .success fun _ hc => hc)
  · exact children_bind hi (h.tickWhile .failure fun _ hc => hc)
  · refine children_bind hi (.bind (h.anyRunning _) fun any => ?_)
    have hslots : ∀ x ∈ (b.childList i).zipIdx, x.1 ∈ b.childList i := fun x hx => List.fst_mem_of_mem_zipIdx hx
    have hrest := MadeOf.bind (h.tickSlots hslots) fun rs => .own (h.pure (combine rs))
    by_cases hany : any
    · simp only [if_pos hany]
      exact hrest
    · simp only [if_neg hany]
      exact .bind (.own h.noRunningChild) fun _ => hrest
  · exact h.onlyChild_bind hi fun c hc => .bind (.tick hc) h.countResult
  · exact h.onlyChild_bind hi fun c hc => .bind (.tick hc) fun s => .own (h.pure _)
  · exact h.onlyChild_bind hi fun c hc => .bind (.own (h.readStatus 0)) fun _ => .bind (.tick hc) fun s =>
      .own (h.pure _)

omit h hi in
/-- Composites do not look at the machine's variables. -/
theorem tick_registries {bh : Behavior} (hbh : bh ∈ composites) (rs rs' : Registries)
    (cb : Callbacks b) : bh.tick rs cb i = bh.tick rs' cb i := by
  simp only [composites, List.mem_cons, List.not_mem_nil, or_false] at hbh
  rcases hbh with rfl | rfl | rfl | rfl | rfl | rfl <;> rfl

end OwnSteps

variable {R : World b → World b → Prop} {F : Fault → Prop} {cb cb' : Callbacks b}

/-- What a composite of the library does at node `i`, with `cb` or `cb'` for the machine, is coupled by `R`, step by
step. -/
structure StepsRelate (R : World b → World b → Prop) (F : Fault → Prop) (cb cb' : Callbacks b)
    (i : Nat) : Prop where
  tick : ∀ c, Relates R F (cb.tick c) (cb'.tick c)
  abort : ∀ c, Relates R F (abortOne c) (abortOne c)
  children : Relates R F (Run.children i) (Run.children i)
  readStatus : ∀ k, Relates R F (Run.readStatus i k) (Run.readStatus i k)
  writeStatus : ∀ k st, Relates R F (Run.writeStatus i k st) (Run.writeStatus i k st)
  readHead : Relates R F (Run.readHead .repeatData i) (Run.readHead .repeatData i)
  writeHead : ∀ d, Relates R F (Run.writeHead .repeatData i d) (Run.writeHead .repeatData i d)
  noRunningChild : F (.error (.noRunningChild i))
  missingChild : F (.error (.missingChild i))

namespace StepsRelate

theorem ownSteps (h : StepsRelate R F cb cb' i) : OwnSteps (fun x : Run b _ => Relates R F x x) i where
  pure := .pure
  abort c _ := h.abort c
  readStatus := h.readStatus
  writeStatus := h.writeStatus
  readHead := h.readHead
  writeHead := h.writeHead
  noRunningChild := .fail h.noRunningChild
  missingChild := .fail h.missingChild

theorem composite (h : StepsRelate R F cb cb' i) (hi : i < b.size) {bh : Behavior} (hbh : bh ∈ composites)
    (rs rs' : Registries) : Relates R F (bh.tick rs cb i) (bh.tick rs' cb' i) := by
  rw [OwnSteps.tick_registries hbh rs' rs]
  exact (h.ownSteps.composite hi hbh rs).relates (fun c _ => h.tick c) fun _ => False.elim

end StepsRelate

end Library

end BehaviorTree
