import BehaviorTree.Yaml.Token

/-! YAML values and how one document of them is read off tokens. -/
namespace BehaviorTree

/-- A YAML value. A missing value is the empty plain scalar. -/
inductive Yaml where
  | plain (text : List Char)
  | quoted (text : List Char)
  | sequence (items : List Yaml)
  | mapping (entries : List (Yaml × Yaml))

namespace Yaml

def absent : Yaml := .plain []

/-- Where a value stands. -/
inductive Position where
  /-- In a flow collection, where there are no blocks. -/
  | flow
  /-- An item of a block sequence or a whole document. -/
  | item
  /-- A key or a value of a block mapping, where a sequence needs no indentation. -/
  | field
  deriving DecidableEq, Repr

/-- Whether a token shows, where a value may stand, that it is missing. -/
def Token.isInstead (p : Position) (t : Token) : Bool :=
  match p with
  | .flow => t ∈ [.colon, .comma, .closeSequence, .closeMapping]
  | .item => t ∈ [.dash, .key, .colon, .closeBlock]
  | .field => t ∈ [.key, .colon, .closeBlock]

mutual

/-- A value that is not missing. Between one token and the next are at most four steps. -/
def value? : (steps : Nat) → Position → List Token → Option (Yaml × List Token)
  | steps + 1, p, t :: ts =>
    match t with
    | .plain text => some (.plain text, ts)
    | .quoted text => some (.quoted text, ts)
    | .openSequence => flowItems? steps [] ts
    | .openMapping => flowEntries? steps [] ts
    | .openBlockSequence => if p = .flow then none else blockItems? steps true [] ts
    | .openBlockMapping => if p = .flow then none else blockEntries? steps [] ts
    | .dash => if p = .field then blockItems? steps false [] (t :: ts) else none
    | _ => none
  | _, _, _ => none

def part? : (steps : Nat) → Position → List Token → Option (Yaml × List Token)
  | steps + 1, p, t :: ts =>
    if t.isInstead p then some (absent, t :: ts) else value? steps p (t :: ts)
  | _, _, _ => none

def field? : (steps : Nat) → Position → List Token → Option (Yaml × List Token)
  | steps + 1, p, .colon :: ts => part? steps p ts
  | _, _, ts => some (absent, ts)

/-- The items up to the end of a block sequence; `items` are those before, newest first. The end of one
that is not indented has no mark. -/
def blockItems? : (steps : Nat) → (indented : Bool) → (items : List Yaml) → List Token →
    Option (Yaml × List Token)
  | steps + 1, indented, items, .dash :: ts => do
    let (v, ts) ← part? steps .item ts
    blockItems? steps indented (v :: items) ts
  | _ + 1, true, items, .closeBlock :: ts => some (.sequence items.reverse, ts)
  | _ + 1, false, items, ts => some (.sequence items.reverse, ts)
  | _, _, _, _ => none

/-- The entries up to the end of a block mapping. -/
def blockEntries? : (steps : Nat) → (entries : List (Yaml × Yaml)) → List Token →
    Option (Yaml × List Token)
  | steps + 1, entries, .key :: ts => do
    let (k, ts) ← part? steps .field ts
    let (v, ts) ← field? steps .field ts
    blockEntries? steps ((k, v) :: entries) ts
  | _ + 1, entries, .closeBlock :: ts => some (.mapping entries.reverse, ts)
  | _, _, _ => none

/-- The items up to the end of a flow sequence. An item with a key is a mapping of its own; a mark in
the place of its key counts as the key. -/
def flowItems? : (steps : Nat) → (items : List Yaml) → List Token → Option (Yaml × List Token)
  | _ + 1, items, .closeSequence :: ts => some (.sequence items.reverse, ts)
  | steps + 1, items, ts => do
    let (v, ts) ← match ts with
      | .key :: t :: ts => do
        let (k, ts) ←
          if t ∈ [.colon, .comma, .closeSequence] then some (absent, ts) else value? steps .flow (t :: ts)
        let (v, ts) ← field? steps .flow ts
        pure (.mapping [(k, v)], ts)
      | ts => value? steps .flow ts
    match ts with
    | .comma :: ts => flowItems? steps (v :: items) ts
    | .closeSequence :: ts => return (.sequence (v :: items).reverse, ts)
    | _ => none
  | _, _, _ => none

/-- The entries up to the end of a flow mapping. Without a colon the value is missing. -/
def flowEntries? : (steps : Nat) → (entries : List (Yaml × Yaml)) → List Token →
    Option (Yaml × List Token)
  | _ + 1, entries, .closeMapping :: ts => some (.mapping entries.reverse, ts)
  | steps + 1, entries, ts => do
    let (k, v, ts) ← match ts with
      | .key :: ts => do
        let (k, ts) ← part? steps .flow ts
        let (v, ts) ← field? steps .flow ts
        pure (k, v, ts)
      | ts => do
        let (k, ts) ← value? steps .flow ts
        pure (k, absent, ts)
    match ts with
    | .comma :: ts => flowEntries? steps ((k, v) :: entries) ts
    | .closeMapping :: ts => return (.mapping ((k, v) :: entries).reverse, ts)
    | _ => none
  | _, _, _ => none

end

/-- The one value of a document. One without tokens has the missing value, and so has one with nothing
between its mark and the next. -/
def document? (ts : List Token) : Option Yaml := do
  let steps := 4 * ts.length + 4
  let (v, rest) ← match ts with
    | [] | [.documentStart] => some (absent, [])
    | .documentStart :: .documentEnd :: ts => some (absent, ts)
    | .documentStart :: ts => value? steps .item ts
    | ts => value? steps .item ts
  if rest.all (· = .documentEnd) then return v else none

def parse? (cs : List Char) : Option Yaml := do document? (← scan? cs)

def text? : Yaml → Option (List Char)
  | .plain text => some text
  | .quoted text => some text
  | _ => none

end Yaml
end BehaviorTree
