import BehaviorTree.Proofs.Structure.Independence

/-!
# Two trees driven alongside

Two trees of different blobs go through the same calls on the same blackboards. What the interpreter keeps
between the two shows in what they answer and in what they hold for their nodes.
-/

namespace BehaviorTree

open Library LiveTree

/-- The results are the same, or the errors are the same up to the numbers of nodes. -/
def Checked.EndsAs (ρ : Nat → Nat) {α : Type} (x y : Checked α) : Prop :=
  (∃ a, x = .ok a ∧ y = .ok a) ∨ ∃ e, x = .error (.error e) ∧ y = .error (.error (e.renumber ρ))

theorem EndsAs.ofExcept {ρ : Nat → Nat} {α : Type} {x y : Except Error α} (h : EndsAs ρ Eq x y) :
    Checked.EndsAs ρ (Checked.ofExcept x) (Checked.ofExcept y) := by
  cases h with
  | ok ha => exact .inl ⟨_, rfl, congrArg Except.ok ha.symm⟩
  | error e => exact .inr ⟨e, rfl, rfl⟩

/-! ## Cells side by side -/

/-- The records are related, and if one of the nodes is running, all is the same. -/
structure Cell.Agree (S : Option Status → Option Status → Prop) (c c' : Cell) : Prop where
  records : S c.state c'.state
  running : c.state = some .running ∨ c'.state = some .running → c' = c

namespace LiveTree

variable {rs : Registries} {S : Option Status → Option Status → Prop} {ts ts' : List LiveTree}

theorem cellsAll_agree {R : LiveTree → LiveTree → Prop} (h : List.Forall₂ R ts ts')
    (hR : ∀ t ∈ ts, ∀ t', R t t' → List.Forall₂ (Cell.Agree S) t.cells t'.cells) :
    List.Forall₂ (Cell.Agree S) (cellsAll ts) (cellsAll ts') := by
  induction h with
  | nil => exact .nil
  | cons ht _ ih =>
      rw [List.forall_mem_cons] at hR
      exact List.rel_append (hR.1 _ ht) (ih hR.2)

theorem Corresponds.cells_agree (t : LiveTree) : ∀ {t' : LiveTree}, Corresponds rs S t t' →
    List.Forall₂ (Cell.Agree S) t.cells t'.cells := by
  induction t with
  | node type defaults c ts ih =>
      rintro _ (⟨hc, hs, hts⟩)
      exact .cons ⟨hs, fun hrun => (hc hrun).1⟩ (cellsAll_agree hts fun t ht _ h => ih t ht h)

/-- Lists related in place, with more before and after them. -/
theorem forall₂_getElem?_at {α β : Type} {R : α → β → Prop} {ρ : Nat → Nat} {as : List α} {bs : List β}
    (h : List.Forall₂ R as bs) (pre : List α) (pre' : List β) {post : List α} {post' : List β}
    (hplace : Rigid ρ pre.length pre'.length as.length) {i : Nat} (hi : pre.length ≤ i)
    (hi' : i < pre.length + as.length) :
    ∃ a b, (pre ++ (as ++ post))[i]? = some a ∧ (pre' ++ (bs ++ post'))[ρ i]? = some b ∧ R a b := by
  obtain ⟨j, rfl⟩ := Nat.exists_eq_add_of_le hi
  have hj : j < as.length := by omega
  obtain ⟨b, hb, hR⟩ := forall₂_getElem? h (List.getElem?_eq_getElem hj)
  refine ⟨as[j], b, ?_, ?_, hR⟩
  · rw [List.getElem?_append_right (Nat.le_add_right _ _), Nat.add_sub_cancel_left, List.getElem?_append_left hj,
      List.getElem?_eq_getElem hj]
  · rw [hplace j hj, List.getElem?_append_right (Nat.le_add_right _ _), Nat.add_sub_cancel_left,
      List.getElem?_append_left (by rw [← h.length_eq]; exact hj), hb]

end LiveTree

/-! ## Runs -/

variable {b b' : Blob} {m : Machine}

/-- A tree after ticks and resets of its root. -/
def Tree.called (t : Tree b) (m : Machine) (calls : List (Call × Blackboard)) : Tree b :=
  t.after m (calls.map fun x => (x.1.act, x.2))

/-- What node `i` of one tree and node `j` of another have recorded is related. If one of the nodes is running,
they hold the same bytes. -/
def Tree.Agrees (S : Option Status → Option Status → Prop) (t : Tree b) (i : Nat) (t' : Tree b') (j : Nat) : Prop :=
  ∃ r r', t.inst.state i = .ok r ∧ t'.inst.state j = .ok r' ∧ S r r' ∧
    (r = some .running ∨ r' = some .running → ∃ bs, t.inst.bytes i = .ok bs ∧ t'.inst.bytes j = .ok bs)

namespace LiveTree

variable {rs : Registries} {limit : Nat}

/-- The tree after ticks and resets. -/
def called (rs : Registries) (limit : Nat) (t : LiveTree) : List (Call × Blackboard) → LiveTree
  | [] => t
  | (a, bb) :: rest => called rs limit (t.call rs limit bb a).part rest

theorem called_append (xs ys : List (Call × Blackboard)) (t : LiveTree) :
    t.called rs limit (xs ++ ys) = (t.called rs limit xs).called rs limit ys := by
  induction xs generalizing t with
  | nil => rfl
  | cons x xs ih => exact ih _

theorem shape_called : ∀ (calls : List (Call × Blackboard)) (t : LiveTree),
    (t.called rs limit calls).shape = t.shape
  | [], _ => rfl
  | (.tick, bb) :: rest, t => (shape_called rest _).trans (shape_tick rs limit 0 .top bb t)
  | (.reset, _) :: rest, t => (shape_called rest _).trans (shape_reset t)

end LiveTree

theorem Mirrors.agrees {S : Option Status → Option Status → Prop} {t : Tree b} {t' : Tree b'} {lt lt' : LiveTree}
    (h : Mirrors t lt) (h' : Mirrors t' lt') {i j : Nat} {c c' : Cell} (hc : lt.cells[i]? = some c)
    (hc' : lt'.cells[j]? = some c') (hagree : Cell.Agree S c c') : t.Agrees S i t' j := by
  obtain ⟨hi, rfl⟩ := h.cell_eq hc
  obtain ⟨hj, rfl⟩ := h'.cell_eq hc'
  refine ⟨_, _, t.inst.state_eq hi, t'.inst.state_eq hj, hagree.records, fun hrun => ?_⟩
  exact ⟨_, t.inst.bytes_eq hi, by rw [t'.inst.bytes_eq hj, hagree.running hrun]⟩

/-! ## Children that are not running -/

/-- Below a node that is not running, no node is, wherever the node stands. -/
theorem quiet_of_draws {T : Typing b m} {s : Instance b} (hs : T.contract.Everywhere s) {u : LiveTree}
    {pre post : List Cell} (hdraw : b.Draws pre.length u.shape) (hcells : s.cells = pre ++ (u.cells ++ post))
    (hu : u.cell.state ≠ some .running) : u.Quiet := by
  have hi := hdraw.lt
  have hroot : s.cell pre.length = u.cell := by
    obtain ⟨cs, hcs⟩ := u.cells_eq_cons
    exact Instance.cell_of_cells (r := cs ++ post) (by rw [hcells, hcs]; rfl)
  have hon : T.contract.On s pre.length (b.stop pre.length) :=
    hs.mono (Nat.zero_le _) (Blob.stop_le hi)
  have hquiet := Typing.quiet_below hi hon (by rw [Instance.Running, hroot]; exact hu)
  intro c hc hrun
  obtain ⟨l, r, hlr⟩ := List.append_of_mem hc
  have hlen := congrArg List.length hlr
  rw [length_cells, List.length_append, List.length_cons] at hlen
  have hc : s.cell (pre ++ l).length = c :=
    Instance.cell_of_cells (r := r ++ post) (by rw [hcells, hlr]; simp only [List.append_assoc, List.cons_append])
  rw [List.length_append] at hc
  refine hquiet (pre.length + l.length) ⟨Nat.le_add_right _ _, ?_⟩ (by rw [Instance.Running, hc]; exact hrun)
  rw [hdraw.stop]
  omega

theorem quiet_of_drawsAll {T : Typing b m} {s : Instance b} (hs : T.contract.Everywhere s) (post : List Cell) :
    ∀ (us : List LiveTree) (pre : List Cell), b.DrawsAll pre.length (shapeAll us) →
      s.cells = pre ++ (cellsAll us ++ post) → ∀ u ∈ us, u.cell.state ≠ some .running → u.Quiet
  | [], _, _, _ => fun _ hu => absurd hu List.not_mem_nil
  | u :: us, pre, hdraw, hcells => by
      rw [cellsAll, List.append_assoc] at hcells
      refine List.forall_mem_cons.mpr ⟨quiet_of_draws hs hdraw.1 hcells, ?_⟩
      exact quiet_of_drawsAll hs post us (pre ++ u.cells) (by rw [List.length_append, length_cells]; exact hdraw.2)
        (by rw [hcells, List.append_assoc])

/-- Below a child of the root that is not running, no node is. -/
def LiveTree.Orderly (t : LiveTree) : Prop := ∀ u ∈ t.children, u.cell.state ≠ some .running → u.Quiet

theorem Mirrors.orderly {T : Typing b m} {t : Tree b} (hs : T.contract.Everywhere t.inst) {lt : LiveTree}
    (h : Mirrors t lt) : lt.Orderly := by
  obtain ⟨type, defaults, c, ts⟩ := lt
  have hdraw := h.draws
  rw [shape] at hdraw
  exact quiet_of_drawsAll hs [] ts [c] hdraw.2.2.2.2 (by rw [h.cells, List.append_nil, LiveTree.cells]; rfl)

/-- After ticks and resets the root supervises its children. -/
theorem Tree.called_everywhere (hlib : ∀ x ∈ Library.behaviors, m.behavior? x.1 = some x.2) (hb : b.OfLibrary)
    (calls : List (Call × Blackboard)) :
    (hb.typing hlib).contract.Everywhere ((Tree.new b).called m calls).inst := by
  refine ((hb.typing hlib).upheld.after_between _ (fun x hx => ?_) Contract.between_new).everywhere
  obtain ⟨⟨a, bb⟩, -, rfl⟩ := List.mem_map.mp hx
  cases a <;> trivial

section

variable (htrace : m.config.trace = false)

include htrace

theorem called_mirrors (hm : m.OnlyLibrary b) : ∀ (calls : List (Call × Blackboard)) {t : Tree b} {lt : LiveTree},
    Mirrors t lt → Mirrors (t.called m calls) (lt.called m.registries m.config.maxTickDepth calls)
  | [], _, _, h => h
  | (a, bb) :: rest, _, _, h => called_mirrors hm rest (call_mirrors htrace hm h a bb).2.2

/-- A new tree and the next tick of it, with the interpreter. -/
theorem called_tick_mirrors (hlib : ∀ x ∈ Library.behaviors, m.behavior? x.1 = some x.2) {s : Blueprint}
    (hself : s.SelfContained m.registries) (hbuild : s.build = .ok b) (calls : List (Call × Blackboard))
    (bb : Blackboard) :
    let t := (Tree.new b).called m calls
    let lt := (fresh s).called m.registries m.config.maxTickDepth calls
    let o := lt.tick m.registries m.config.maxTickDepth 0 .top bb
    Mirrors t lt ∧ (t.tick m bb).1 = Checked.ofExcept o.answer ∧ Mirrors (t.tick m bb).2.1 o.part := by
  have hdraw := Blueprint.build_draws hbuild
  have hm : m.OnlyLibrary b := (hself.ofLibrary hdraw).onlyLibrary hlib
  have h := called_mirrors htrace hm calls (mirrors_new hdraw)
  obtain ⟨hanswer, -, hnext⟩ := tick_mirrors htrace hm h bb
  exact ⟨h, hanswer, hnext⟩

end

end BehaviorTree
