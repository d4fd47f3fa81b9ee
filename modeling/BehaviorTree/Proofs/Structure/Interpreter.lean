import BehaviorTree.Proofs.Library.Slots
import BehaviorTree.Proofs.Structure.LiveTree
import BehaviorTree.Proofs.Structure.Lookup

/-!
# Ticks by recursion over the tree

An interpreter of the library's node types that follows the tree: a node ticks the trees in its list of
children and gets them back changed. Where a node stands in pre-order matters to the texts of errors and to
variables that lie in other nodes only.
-/

namespace BehaviorTree

open Library

inductive NodeKind where
  | sequence
  | selector
  | parallel
  | repetition
  | inverter
  | force
  | fixed
  | delay
  deriving DecidableEq, Repr

namespace NodeKind

def typeId : NodeKind → TypeId
  | sequence => sequenceId
  | selector => selectorId
  | parallel => parallelId
  | repetition => repetitionId
  | inverter => inverterId
  | force => forceId
  | fixed => fixedId
  | delay => delayId

def behavior : NodeKind → Behavior
  | sequence => Library.sequence
  | selector => Library.selector
  | parallel => Library.parallel
  | repetition => Library.repetition
  | inverter => Library.inverter
  | force => Library.force
  | fixed => Library.fixed
  | delay => Library.delay

def all : List NodeKind := [sequence, selector, parallel, repetition, inverter, force, fixed, delay]

theorem behaviors_eq : Library.behaviors = all.map fun k => (k.typeId, k.behavior) := rfl

def ofType? (id : TypeId) : Option NodeKind := all.find? fun k => k.typeId = id

theorem ofType?_typeId (k : NodeKind) : ofType? k.typeId = some k := by
  cases k <;> rfl

theorem ofType?_eq_some {id : TypeId} {k : NodeKind} (h : ofType? id = some k) :
    k.typeId = id ∧ (k.typeId, k.behavior) ∈ Library.behaviors := by
  obtain ⟨hid, -⟩ := List.find?_eq_some_iff_append.mp h
  refine ⟨of_decide_eq_true hid, ?_⟩
  rw [behaviors_eq]
  exact List.mem_map_of_mem (List.mem_of_find?_eq_some h)

/-- The data of a node after its reset: a parallel marks all its children as running. -/
def reset (k : NodeKind) (c : Cell) : Cell :=
  match k with
  | parallel => { c with bytes := List.replicate c.bytes.length Status.running.bits }
  | _ => c

/-- A node on entry to its tick: unless it is running, its default data comes back and is reset. -/
def activate (k : NodeKind) (defaults : List UInt8) (c : Cell) : Cell :=
  if c.state = some .running then c else k.reset { c with bytes := defaults }

end NodeKind

namespace Cell

variable (c : Cell) (i : Nat)

/-- What a repetition makes of the result of its child. -/
def count (s : Status) : Except Error (Status × Cell) := do
  let d := PlainData.repeatData.decode (← c.read PlainData.repeatData.type i 0)
  let c ← c.write i 0 (PlainData.repeatData.encode (d.step s).1)
  return ((d.step s).2, c)

/-- What a forced result makes of the result of its child. -/
def override (s : Status) : Except Error (Status × Cell) := do
  let forced ← c.status i 0
  return (if s.isRunning then s else forced, c)

/-- The tick of a timer, among all the cells of the tree. -/
def elapse (rs : Registries) (cells : List Cell) (bb : Blackboard) : Except Error (Status × Cell) := do
  let d := PlainData.delayData.decode (← c.read PlainData.delayData.type i 0)
  let duration ← d.duration.lookup rs PlainData.f32.type i cells bb
  let delta ← d.delta.lookup rs PlainData.f32.type i cells bb
  let elapsed := d.elapsed + PlainData.f32.decode delta
  let c ← c.write i 0 (PlainData.delayData.encode { d with elapsed })
  return (if elapsed.atLeast (PlainData.f32.decode duration) then .success else .running, c)

end Cell

/-- The cells of the nodes around a part of the tree, before it and after it in pre-order. -/
structure Context where
  before : List Cell
  after : List Cell

namespace Context

def top : Context := ⟨[], []⟩

/-- The position of the part in pre-order. -/
def index (cx : Context) : Nat := cx.before.length

/-- All cells, with those of the part in their place. -/
def plug (cx : Context) (cs : List Cell) : List Cell := cx.before ++ (cs ++ cx.after)

/-- The context of what lies between two lists of cells of the part. -/
def focus (cx : Context) (l r : List Cell) : Context := ⟨cx.before ++ l, r ++ cx.after⟩

@[simp] theorem plug_top (cs : List Cell) : top.plug cs = cs := List.append_nil cs

@[simp] theorem index_focus (cx : Context) (l r : List Cell) :
    (cx.focus l r).index = cx.index + l.length := List.length_append

@[simp] theorem plug_focus (cx : Context) (l cs r : List Cell) :
    (cx.focus l r).plug cs = cx.plug (l ++ (cs ++ r)) := by
  simp only [plug, focus, List.append_assoc]

theorem plug_head (cx : Context) (l r : List Cell) : (cx.focus [] r).plug l = cx.plug (l ++ r) :=
  cx.plug_focus [] l r

theorem plug_rest (cx : Context) (l r : List Cell) : (cx.focus l []).plug r = cx.plug (l ++ r) := by
  rw [plug_focus, List.append_nil]

end Context

/-- A turn of the interpreter: its answer, what became of its part of the tree, and the blackboard. -/
structure Turn (α τ : Type) where
  answer : Except Error α
  part : τ
  board : Blackboard

namespace Turn

variable {α : Type}

/-- Work of a node on its own cell `c`, which stays if the work fails. -/
def own (c : Cell) (ts : List LiveTree) (bb : Blackboard) :
    Except Error (Status × Cell) → Turn Status (Cell × List LiveTree)
  | .error e => ⟨.error e, (c, ts), bb⟩
  | .ok (s, c) => ⟨.ok s, (c, ts), bb⟩

/-- The turn of the children as one of their parent, which makes of their answer what `f` says. -/
def under (o : Turn α (List LiveTree)) (c : Cell) (f : α → Except Error (Status × Cell)) :
    Turn Status (Cell × List LiveTree) :=
  match o.answer with
  | .error e => ⟨.error e, (c, o.part), o.board⟩
  | .ok a => own c o.part o.board (f a)

/-- A node after its tick function: the result is recorded, or the whole subtree becomes inactive. -/
def conclude (type : TypeId) (defaults : List UInt8) (o : Turn Status (Cell × List LiveTree)) :
    Turn Status LiveTree :=
  match o.answer with
  | .ok s => ⟨.ok s, .node type defaults { o.part.1 with state := some s } o.part.2, o.board⟩
  | .error e => ⟨.error e, (LiveTree.node type defaults o.part.1 o.part.2).clear, o.board⟩

end Turn

namespace LiveTree

variable (rs : Registries) (limit : Nat)

mutual

/-- Ticks a tree below `depth` others. -/
def tick (depth : Nat) (cx : Context) (bb : Blackboard) : LiveTree → Turn Status LiveTree
  | node type defaults cell children =>
    match NodeKind.ofType? type with
    | none => ⟨.error (.unknownNodeType type cx.index), node type defaults cell children, bb⟩
    | some kind =>
      let c := kind.activate defaults cell
      let i := cx.index
      if limit ≤ depth then ⟨.error (.depthExceeded i limit), node type defaults c children, bb⟩
      else
        Turn.conclude type defaults <|
          match kind with
          | .sequence =>
            (tickWhile (depth + 1) .success (cx.focus [c] []) bb children).under c fun s => .ok (s, c)
          | .selector =>
            (tickWhile (depth + 1) .failure (cx.focus [c] []) bb children).under c fun s => .ok (s, c)
          | .parallel =>
            match c.statuses i (List.range children.length) with
            | .error e => ⟨.error e, (c, children), bb⟩
            | .ok ss =>
              if .running ∈ ss then
                let o := tickSlots (depth + 1) cx c [] 0 bb children
                ⟨o.answer.map combine, o.part, o.board⟩
              else ⟨.error (.noRunningChild i), (c, children), bb⟩
          | .repetition =>
            (tickFirst (depth + 1) i (.ok ()) (cx.focus [c] []) bb children).under c (c.count i)
          | .inverter =>
            (tickFirst (depth + 1) i (.ok ()) (cx.focus [c] []) bb children).under c fun s =>
              .ok (s.invert, c)
          | .force =>
            (tickFirst (depth + 1) i ((c.status i 0).map fun _ => ()) (cx.focus [c] []) bb
              children).under c (c.override i)
          | .fixed => ⟨c.status i 0, (c, children), bb⟩
          | .delay =>
            Turn.own c children bb (c.elapse i rs (cx.plug (c :: cellsAll children)) bb)

/-- Ticks the trees in order while they return `keep`; the trees after the first other result are aborted. -/
def tickWhile (depth : Nat) (keep : Status) (cx : Context) (bb : Blackboard) :
    List LiveTree → Turn Status (List LiveTree)
  | [] => ⟨.ok keep, [], bb⟩
  | t :: ts =>
    let o := tick depth (cx.focus [] (cellsAll ts)) bb t
    match o.answer with
    | .error e => ⟨.error e, o.part :: ts, o.board⟩
    | .ok s =>
      if s = keep then
        let os := tickWhile depth keep (cx.focus o.part.cells []) o.board ts
        ⟨os.answer, o.part :: os.part, os.board⟩
      else ⟨.ok s, o.part :: ts.map abort, o.board⟩

/-- Ticks the trees whose byte from `k` on in the parallel's cell `c` is `running`, and records their results
there. The trees that already had their turn left the cells `done`. -/
def tickSlots (depth : Nat) (cx : Context) (c : Cell) (done : List Cell) (k : Nat) (bb : Blackboard) :
    List LiveTree → Turn (List Status) (Cell × List LiveTree)
  | [] => ⟨.ok [], (c, []), bb⟩
  | t :: ts =>
    match c.status cx.index k with
    | .error e => ⟨.error e, (c, t :: ts), bb⟩
    | .ok s =>
      if s.isRunning then
        let o := tick depth (cx.focus (c :: done) (cellsAll ts)) bb t
        match o.answer with
        | .error e => ⟨.error e, (c, o.part :: ts), o.board⟩
        | .ok s =>
          let c := { c with bytes := c.bytes.set k s.bits }
          let os := tickSlots depth cx c (done ++ o.part.cells) (k + 1) o.board ts
          ⟨os.answer.map (s :: ·), (os.part.1, o.part :: os.part.2), os.board⟩
      else
        let os := tickSlots depth cx c (done ++ t.cells) (k + 1) bb ts
        ⟨os.answer.map (s :: ·), (os.part.1, t :: os.part.2), os.board⟩

/-- Ticks the only child of node `i` once `ready` says that the node can use its result. -/
def tickFirst (depth : Nat) (i : Nat) (ready : Except Error Unit) (cx : Context) (bb : Blackboard) :
    List LiveTree → Turn Status (List LiveTree)
  | [] => ⟨.error (.missingChild i), [], bb⟩
  | t :: ts =>
    match ready with
    | .error e => ⟨.error e, t :: ts, bb⟩
    | .ok _ =>
      let o := tick depth (cx.focus [] (cellsAll ts)) bb t
      ⟨o.answer, o.part :: ts, o.board⟩

end

/-! ## Resets -/

mutual

/-- Runs the reset functions in pre-order, up to the first node of unknown type. The tree starts with node `i`. -/
def start (i : Nat) : LiveTree → Except Error Unit × LiveTree
  | node type defaults cell children =>
    match NodeKind.ofType? type with
    | none => (.error (.unknownNodeType type i), node type defaults cell children)
    | some kind =>
      let x := startAll (i + 1) children
      (x.1, node type defaults (kind.reset cell) x.2)

def startAll (i : Nat) : List LiveTree → Except Error Unit × List LiveTree
  | [] => (.ok (), [])
  | t :: ts =>
    let x := start i t
    match x.1 with
    | .error e => (.error e, x.2 :: ts)
    | .ok () =>
      let xs := startAll (i + x.2.cells.length) ts
      (xs.1, x.2 :: xs.2)

end

/-- Puts default data back everywhere, makes all nodes inactive and runs their reset functions. -/
def reset (t : LiveTree) : Except Error Unit × LiveTree :=
  match NodeKind.ofType? t.type with
  | none => (.error (.unknownNodeType t.type 0), t)
  | some _ => start 0 (fresh t.shape)

/-! ## The shape stays -/

theorem shape_conclude (type : TypeId) (defaults : List UInt8) (o : Turn Status (Cell × List LiveTree)) :
    (Turn.conclude type defaults o).part.shape = .node type defaults (shapeAll o.part.2) := by
  unfold Turn.conclude
  cases o.answer with
  | ok s => rw [shape]
  | error e => rw [shape_clear, shape]

theorem part_own (c : Cell) (ts : List LiveTree) (bb : Blackboard) (x : Except Error (Status × Cell)) :
    (Turn.own c ts bb x).part.2 = ts := by
  cases x with
  | error e => rfl
  | ok x => rfl

theorem part_under {α : Type} (o : Turn α (List LiveTree)) (c : Cell)
    (f : α → Except Error (Status × Cell)) : (o.under c f).part.2 = o.part := by
  unfold Turn.under
  cases o.answer with
  | error e => rfl
  | ok a => exact part_own c o.part o.board (f a)

mutual

theorem shape_tick (depth : Nat) (cx : Context) (bb : Blackboard) (t : LiveTree) :
    (t.tick rs limit depth cx bb).part.shape = t.shape := by
  match t with
  | node type defaults cell children =>
      rw [tick, shape]
      cases NodeKind.ofType? type with
      | none => rw [shape]
      | some kind =>
          simp only
          split
          · rw [shape]
          · rw [shape_conclude]
            cases kind with
            | sequence => rw [part_under, shapeAll_tickWhile]
            | selector => rw [part_under, shapeAll_tickWhile]
            | parallel =>
                simp only
                split
                · rfl
                · split
                  · rw [shapeAll_tickSlots]
                  · rfl
            | repetition => rw [part_under, shapeAll_tickFirst]
            | inverter => rw [part_under, shapeAll_tickFirst]
            | force => rw [part_under, shapeAll_tickFirst]
            | fixed => rfl
            | delay => rw [part_own]

theorem shapeAll_tickWhile (depth : Nat) (keep : Status) (cx : Context) (bb : Blackboard)
    (ts : List LiveTree) : shapeAll (tickWhile rs limit depth keep cx bb ts).part = shapeAll ts := by
  match ts with
  | [] => rw [tickWhile]
  | t :: ts =>
      rw [tickWhile]
      simp only
      split
      · rw [shapeAll, shapeAll, shape_tick]
      · split
        · rw [shapeAll, shapeAll, shape_tick, shapeAll_tickWhile]
        · rw [shapeAll, shapeAll, shape_tick, shapeAll_map_abort]

theorem shapeAll_tickSlots (depth : Nat) (cx : Context) (c : Cell) (done : List Cell) (k : Nat)
    (bb : Blackboard) (ts : List LiveTree) :
    shapeAll (tickSlots rs limit depth cx c done k bb ts).part.2 = shapeAll ts := by
  match ts with
  | [] => rw [tickSlots]
  | t :: ts =>
      rw [tickSlots]
      split
      · rfl
      · split
        · simp only
          split
          · rw [shapeAll, shapeAll, shape_tick]
          · rw [shapeAll, shapeAll, shape_tick, shapeAll_tickSlots]
        · rw [shapeAll, shapeAll, shapeAll_tickSlots]

theorem shapeAll_tickFirst (depth : Nat) (i : Nat) (ready : Except Error Unit) (cx : Context)
    (bb : Blackboard) (ts : List LiveTree) :
    shapeAll (tickFirst rs limit depth i ready cx bb ts).part = shapeAll ts := by
  match ts with
  | [] => rw [tickFirst]
  | t :: ts =>
      cases ready with
      | error e => rw [tickFirst]
      | ok u => rw [tickFirst, shapeAll, shapeAll, shape_tick]

end

mutual

theorem shape_start (i : Nat) (t : LiveTree) : (t.start i).2.shape = t.shape := by
  match t with
  | node type defaults cell children =>
      rw [start]
      split
      · rfl
      · rw [shape, shape, shapeAll_startAll]

theorem shapeAll_startAll (i : Nat) (ts : List LiveTree) : shapeAll (startAll i ts).2 = shapeAll ts := by
  match ts with
  | [] => rw [startAll]
  | t :: ts =>
      rw [startAll]
      simp only
      split
      · rw [shapeAll, shapeAll, shape_start]
      · rw [shapeAll, shapeAll, shape_start, shapeAll_startAll]

end

theorem shape_reset (t : LiveTree) : t.reset.2.shape = t.shape := by
  unfold reset
  split
  · rfl
  · rw [shape_start, shape_fresh]

end LiveTree

end BehaviorTree
