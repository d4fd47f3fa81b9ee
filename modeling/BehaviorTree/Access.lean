import BehaviorTree.PlainData

/-!
Which host components a tree touches, for schedulers: one entry per component type, sorted by name; an
entry that is written stays so.
-/
namespace BehaviorTree

inductive AccessMode where
  | readOnly
  | readWrite
  deriving DecidableEq, Repr

/-- The stronger of two modes. -/
def AccessMode.max : AccessMode → AccessMode → AccessMode
  | readOnly, m => m
  | readWrite, _ => readWrite

structure ComponentUse where
  component : ValueType
  mode : AccessMode
  deriving DecidableEq, Repr

structure AccessList where
  uses : List ComponentUse
  deriving DecidableEq, Repr

namespace AccessList

def empty : AccessList := ⟨[]⟩

/-- Strengthens the entry of a component that is listed. -/
def strengthen (c : ComponentUse) : List ComponentUse → List ComponentUse
  | [] => []
  | e :: es =>
    if e.component = c.component then ⟨e.component, e.mode.max c.mode⟩ :: es
    else e :: strengthen c es

/-- Puts a new entry before the first whose name is not smaller. -/
def place (c : ComponentUse) : List ComponentUse → List ComponentUse
  | [] => [c]
  | e :: es => if e.component.name < c.component.name then e :: place c es else c :: e :: es

def insert (l : AccessList) (c : ComponentUse) : AccessList :=
  if l.uses.any (·.component = c.component) then ⟨strengthen c l.uses⟩ else ⟨place c l.uses⟩

def extend (l : AccessList) (cs : List ComponentUse) : AccessList := cs.foldl insert l

def merge (l m : AccessList) : AccessList := l.extend m.uses

def ofList (cs : List ComponentUse) : AccessList := empty.extend cs

def modeOf (l : AccessList) (c : ValueType) : Option AccessMode :=
  (l.uses.find? (·.component = c)).map (·.mode)

def size (l : AccessList) : Nat := l.uses.length

def isEmpty (l : AccessList) : Bool := l.uses.isEmpty

end AccessList
end BehaviorTree
