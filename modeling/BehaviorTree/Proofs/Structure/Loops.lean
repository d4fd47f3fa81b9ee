import BehaviorTree.Proofs.Structure.SelfContained

/-!
# Loops over lists of children in two parts

A sequence or a selector of two lists of children ticks the second list after the first one, unless it stops
there. Then it aborts the whole second list.
-/

namespace BehaviorTree

open Library

theorem Context.focus_focus (cx : Context) (l r l' r' : List Cell) :
    (cx.focus l r).focus l' r' = cx.focus (l ++ l') (r' ++ r) := by
  simp only [focus, List.append_assoc]

theorem Context.focus_nil (cx : Context) : cx.focus [] [] = cx := by
  simp only [focus, List.append_nil, List.nil_append]

/-- A sequence goes on while its children succeed, a selector while they fail. -/
inductive NodeKind.GoesOn : NodeKind → Status → Prop
  | sequence : GoesOn .sequence .success
  | selector : GoesOn .selector .failure

namespace LiveTree

variable {rs : Registries} {limit depth : Nat} {keep s : Status} {bb : Blackboard}

theorem tickWhile_append (xs ys : List LiveTree) : ∀ (cx : Context) (bb : Blackboard),
    tickWhile rs limit depth keep cx bb (xs ++ ys) =
      let o := tickWhile rs limit depth keep (cx.focus [] (cellsAll ys)) bb xs
      match o.answer with
      | .error e => ⟨.error e, o.part ++ ys, o.board⟩
      | .ok s =>
        if s = keep then
          let os := tickWhile rs limit depth keep (cx.focus (cellsAll o.part) []) o.board ys
          ⟨os.answer, o.part ++ os.part, os.board⟩
        else ⟨.ok s, o.part ++ ys.map abort, o.board⟩ := by
  induction xs with
  | nil =>
      intro cx bb
      simp only [tickWhile, ↓reduceIte, cellsAll, cx.focus_nil, List.nil_append]
  | cons x xs ih =>
      intro cx bb
      have hhead : (cx.focus [] (cellsAll ys)).focus [] (cellsAll xs) = cx.focus [] (cellsAll (xs ++ ys)) := by
        rw [cx.focus_focus, cellsAll_append, List.append_nil]
      rw [List.cons_append, tickWhile, tickWhile, hhead]
      generalize x.tick rs limit depth (cx.focus [] (cellsAll (xs ++ ys))) bb = o
      obtain ⟨answer, part, board⟩ := o
      cases answer with
      | error e => rfl
      | ok s =>
          by_cases hs : s = keep
          · have hrest : (cx.focus [] (cellsAll ys)).focus part.cells [] =
                (cx.focus part.cells []).focus [] (cellsAll ys) := by
              rw [cx.focus_focus, cx.focus_focus, List.append_nil, List.nil_append, List.nil_append, List.append_nil]
            simp only [if_pos hs, ih, hrest]
            generalize tickWhile rs limit depth keep ((cx.focus part.cells []).focus [] (cellsAll ys)) board xs = os
            obtain ⟨answer', part', board'⟩ := os
            cases answer' with
            | error e => rfl
            | ok s' =>
                simp only [cx.focus_focus, cellsAll, List.append_nil]
                split <;> rfl
          · simp only [if_neg hs, List.map_append, List.cons_append]

section Composite

variable {kind : NodeKind} (hkind : kind.GoesOn keep) (hroom : depth < limit) (cx : Context) (defaults : List UInt8)
  (c : Cell) (ts : List LiveTree)

include hkind hroom

/-- The tick of a sequence or a selector is the loop over its children. -/
theorem tick_composite : (node kind.typeId defaults c ts).tick rs limit depth cx bb =
    let a := kind.activate defaults c
    let o := tickWhile rs limit (depth + 1) keep (cx.focus [a] []) bb ts
    ((o.under a fun s => .ok (s, a)).conclude kind.typeId defaults) := by
  have hroom := Nat.not_le.mpr hroom
  rw [tick, NodeKind.ofType?_typeId]
  cases hkind with
  | sequence => simp only [if_neg hroom]
  | selector => simp only [if_neg hroom]

/-- A loop ticks the children of an inner composite of the same kind and goes on as after the last one of them. -/
theorem tickWhile_composite (bb : Blackboard) (us : List LiveTree) :
    tickWhile rs limit depth keep cx bb (node kind.typeId defaults c ts :: us) =
      let a := kind.activate defaults c
      let o := tickWhile rs limit (depth + 1) keep (cx.focus [a] (cellsAll us)) bb ts
      match o.answer with
      | .error e => ⟨.error e, (node kind.typeId defaults a o.part).clear :: us, o.board⟩
      | .ok s =>
        let t := node kind.typeId defaults { a with state := some s } o.part
        if s = keep then
          let os := tickWhile rs limit depth keep (cx.focus t.cells []) o.board us
          ⟨os.answer, t :: os.part, os.board⟩
        else ⟨.ok s, t :: us.map abort, o.board⟩ := by
  rw [tickWhile, tick_composite hkind hroom]
  simp only [cx.focus_focus, List.nil_append]
  generalize tickWhile rs limit (depth + 1) keep (cx.focus [kind.activate defaults c] (cellsAll us)) bb ts = o
  obtain ⟨answer, part, board⟩ := o
  cases answer with
  | error e => rfl
  | ok s => rfl

variable {cx defaults c ts} {a : Cell}

theorem composite_ok (ha : kind.activate defaults c = a)
    (h : (tickWhile rs limit (depth + 1) keep (cx.focus [a] []) bb ts).answer = .ok s) :
    (node kind.typeId defaults c ts).tick rs limit depth cx bb =
      let o := tickWhile rs limit (depth + 1) keep (cx.focus [a] []) bb ts
      ⟨.ok s, node kind.typeId defaults { a with state := some s } o.part, o.board⟩ := by
  rw [tick_composite hkind hroom]
  simp only [ha, Turn.under, h, Turn.own, Turn.conclude]

theorem composite_error (ha : kind.activate defaults c = a) {e : Error}
    (h : (tickWhile rs limit (depth + 1) keep (cx.focus [a] []) bb ts).answer = .error e) :
    ((node kind.typeId defaults c ts).tick rs limit depth cx bb).answer = .error e := by
  rw [tick_composite hkind hroom]
  simp only [ha, Turn.under, h, Turn.conclude]

end Composite

end LiveTree

end BehaviorTree
