import BehaviorTree.Json.Value

/-! The two written forms of JSON values: compact, and spread over lines with an indentation of two. -/
namespace BehaviorTree
namespace Json

def ofNat (n : Nat) : Json := .number (Nat.toDigits 10 n)

/-- A string whose characters need no escapes. -/
def ofText (s : String) : Json := .string s.toList

/-- An object with fields whose names need no escapes. -/
def ofFields (fields : List (String × Json)) : Json :=
  .object (fields.map fun f => (f.1.toList, f.2))

def quoted (raw : List Char) : List Char := '"' :: raw ++ ['"']

def boolText : Bool → List Char
  | true => ['t', 'r', 'u', 'e']
  | false => ['f', 'a', 'l', 's', 'e']

mutual

/-- The written form without blanks. -/
def compact : Json → List Char
  | .null => ['n', 'u', 'l', 'l']
  | .bool b => boolText b
  | .number n => n
  | .string raw => quoted raw
  | .array [] => ['[', ']']
  | .array (v :: vs) => '[' :: compact v ++ compactItems vs ++ [']']
  | .object [] => ['\x7b', '\x7d']
  | .object (f :: fs) =>
    '\x7b' :: quoted f.1 ++ ':' :: compact f.2 ++ compactFields fs ++ ['\x7d']

def compactItems : List Json → List Char
  | [] => []
  | v :: vs => ',' :: compact v ++ compactItems vs

def compactFields : List (List Char × Json) → List Char
  | [] => []
  | f :: fs => ',' :: quoted f.1 ++ ':' :: compact f.2 ++ compactFields fs

end

theorem compactItems_eq (v : Json) (vs : List Json) :
    compact v ++ compactItems vs = [','].intercalate (compact v :: vs.map compact) := by
  induction vs generalizing v with
  | nil => simp [compactItems]
  | cons w vs ih =>
    rw [compactItems, List.map_cons, List.intercalate_cons_cons, ← ih]
    simp

/-- The items of an array stand between brackets, with commas between them. -/
theorem compact_array (vs : List Json) :
    compact (.array vs) = '[' :: [','].intercalate (vs.map compact) ++ [']'] := by
  cases vs with
  | nil => rfl
  | cons v vs => rw [compact, List.map_cons, ← compactItems_eq, List.cons_append, List.cons_append]

def newLine (level : Nat) : List Char := '\n' :: List.replicate (2 * level) ' '

mutual

/-- The written form with an item to a line. -/
def pretty (level : Nat) : Json → List Char
  | .null => ['n', 'u', 'l', 'l']
  | .bool b => boolText b
  | .number n => n
  | .string raw => quoted raw
  | .array [] => ['[', ']']
  | .array (v :: vs) =>
    '[' :: newLine (level + 1) ++ pretty (level + 1) v ++ prettyItems (level + 1) vs ++
      newLine level ++ [']']
  | .object [] => ['\x7b', '\x7d']
  | .object (f :: fs) =>
    '\x7b' :: newLine (level + 1) ++ quoted f.1 ++ ':' :: ' ' :: pretty (level + 1) f.2 ++
      prettyFields (level + 1) fs ++ newLine level ++ ['\x7d']

def prettyItems (level : Nat) : List Json → List Char
  | [] => []
  | v :: vs => ',' :: newLine level ++ pretty level v ++ prettyItems level vs

def prettyFields (level : Nat) : List (List Char × Json) → List Char
  | [] => []
  | f :: fs =>
    ',' :: newLine level ++ quoted f.1 ++ ':' :: ' ' :: pretty level f.2 ++ prettyFields level fs

end

end Json
end BehaviorTree
