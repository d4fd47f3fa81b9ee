import BehaviorTree.Proofs.Structure.Renumbering

/-!
# A tree behaves alike wherever it stands

Where a tree stands among others shows in the texts of its errors only, unless one of its timers has a handle
for another node. And what is kept for a node that is not running is gone once it becomes active. So two trees
with the same running nodes do the same, in whatever contexts and at whatever depths that leave room for them.
-/

namespace BehaviorTree

open Library

/-! ## Computations that end alike -/

/-- Both end with results that `R` relates, or both fail. -/
inductive EndAlike {α β : Type} (R : α → β → Prop) : Except Error α → Except Error β → Prop
  | ok {a : α} {a' : β} : R a a' → EndAlike R (.ok a) (.ok a')
  | error {e e' : Error} : EndAlike R (.error e) (.error e')

theorem EndAlike.ok_iff {α : Type} {x x' : Except Error α} (h : EndAlike Eq x x') (a : α) : x' = .ok a ↔ x = .ok a := by
  cases h with
  | ok ha => rw [ha]
  | error => simp

theorem EndsAs.alike {ρ : Nat → Nat} {α β : Type} {R : α → β → Prop} {x : Except Error α} {x' : Except Error β}
    (h : EndsAs ρ R x x') : EndAlike R x x' := by
  cases h with
  | ok ha => exact .ok ha
  | error e => exact .error

namespace LiveTree

variable {rs : Registries} {t t' : LiveTree}

/-- The trees are laid out alike and have the same running nodes, whose data is the same and refers to no
other node. -/
inductive Alike (rs : Registries) : LiveTree → LiveTree → Prop
  | node {type : TypeId} {defaults : List UInt8} {c c' : Cell} {ts ts' : List LiveTree} :
      (c.state = some .running ∨ c'.state = some .running → c' = c ∧ rs.SelfContained type c.bytes) →
      List.Forall₂ (Alike rs) ts ts' → Alike rs (.node type defaults c ts) (.node type defaults c' ts')

/-- Whatever the records of nodes that are not running. -/
theorem alike_iff (t : LiveTree) : ∀ {t' : LiveTree}, Alike rs t t' ↔ Corresponds rs (fun _ _ => True) t t' := by
  induction t with
  | node type defaults c ts ih =>
      intro t'
      constructor
      · rintro (⟨hc, hts⟩)
        exact .node hc trivial (forall₂_of_mem hts fun t ht _ h => (ih t ht).mp h)
      · rintro (⟨hc, -, hts⟩)
        exact .node hc (forall₂_of_mem hts fun t ht _ h => (ih t ht).mpr h)

namespace Alike

theorem of_quiet (t : LiveTree) {t' : LiveTree} (hq : t.Quiet) (hq' : t'.Quiet) (hshape : t'.shape = t.shape) :
    Alike rs t t' :=
  (alike_iff t).mpr (.of_quiet t hq hq' hshape fun _ _ _ _ => trivial)

theorem shape_eq (t : LiveTree) {t' : LiveTree} (h : Alike rs t t') : t'.shape = t.shape :=
  Corresponds.shape_eq t ((alike_iff t).mp h)

theorem running_iff (h : Alike rs t t') : t'.cell.state = some .running ↔ t.cell.state = some .running :=
  ((alike_iff t).mp h).running_iff

theorem quiet (t : LiveTree) : ∀ {t' : LiveTree}, Alike rs t t' → t'.Quiet → t.Quiet := by
  induction t with
  | node type defaults c ts ih =>
      rintro _ (⟨hc, hts⟩) hq
      rw [quiet_node] at hq ⊢
      refine ⟨fun hr => hq.1 ((hc (.inl hr)).1 ▸ hr), ?_⟩
      clear hc
      induction hts with
      | nil => exact fun _ ht => absurd ht List.not_mem_nil
      | cons ht _ ihs =>
          rw [List.forall_mem_cons] at ih hq ⊢
          exact ⟨ih.1 ht hq.2.1, ihs ih.2 ⟨hq.1, hq.2.2⟩⟩

end Alike

end LiveTree

/-! ## Ticks -/

/-- Two turns on the same blackboard end alike, with parts that `R` relates; neither changes the blackboard. -/
structure Turn.Alike {α τ : Type} (R : τ → τ → Prop) (bb : Blackboard) (o o' : Turn α τ) : Prop where
  answer : EndAlike Eq o.answer o'.answer
  part : R o.part o'.part
  board : o.board = bb
  board' : o'.board = bb

namespace LiveTree

variable {rs : Registries} {limit depth depth' : Nat}

/-- A tick of `t` below `depth` others and one of `t'` below `depth'` others go alike in all contexts. -/
def Moves (rs : Registries) (limit depth depth' : Nat) (t t' : LiveTree) : Prop :=
  ∀ cx cx' bb, Turn.Alike (Alike rs) bb (t.tick rs limit depth cx bb) (t'.tick rs limit depth' cx' bb)

theorem tick_alike (t : LiveTree) {t' : LiveTree} (h : Alike rs t t') (hself : t.shape.SelfContained rs)
    (hdepth : depth + t.shape.height ≤ limit) (hdepth' : depth' + t.shape.height ≤ limit) :
    Moves rs limit depth depth' t t' := by
  intro cx cx' bb
  have hplace : Rigid (fun i => i - cx.index + cx'.index) cx.index cx'.index t.shape.size := fun j _ => by
    change cx.index + j - cx.index + cx'.index = cx'.index + j
    omega
  obtain ⟨hans, hpart, hboard, hboard'⟩ := tick_corresponds (fun _ => trivial) t ((alike_iff t).mp h) hself
    (.inr ⟨hdepth, hdepth'⟩) cx cx' bb hplace
  exact ⟨hans.alike, (alike_iff _).mpr hpart, hboard, hboard'⟩

/-- A tree in its place and the same tree on its own tick to the same result, or both fail. -/
theorem tick_apart {t u : LiveTree} (h : Alike rs t u) (hself : u.shape.SelfContained rs)
    (hroom : depth + u.shape.height ≤ limit) (cx : Context) (bb : Blackboard) :
    let o := t.tick rs limit depth cx bb
    let p := u.tick rs limit 0 .top bb
    o.board = bb ∧ ((∃ s, o.answer = .ok s ∧ p.answer = .ok s ∧ Alike rs o.part p.part) ∨
      (∃ e, o.answer = .error e) ∧ ∃ e, p.answer = .error e) := by
  intro o p
  have hshape : t.shape = u.shape := (Alike.shape_eq t h).symm
  obtain ⟨hans, hpart, hboard, -⟩ := tick_alike t h (by rw [hshape]; exact hself)
    (by rw [hshape]; exact hroom : depth + t.shape.height ≤ limit)
    (by rw [hshape]; omega : 0 + t.shape.height ≤ limit) cx .top bb
  refine ⟨hboard, ?_⟩
  change EndAlike Eq o.answer p.answer at hans
  revert hans
  cases o.answer with
  | ok s =>
      intro hans
      exact .inl ⟨s, rfl, (hans.ok_iff s).mpr rfl, hpart⟩
  | error e =>
      cases p.answer with
      | ok s => rintro ⟨⟩
      | error e' => exact fun _ => .inr ⟨⟨e, rfl⟩, e', rfl⟩

end LiveTree

end BehaviorTree
