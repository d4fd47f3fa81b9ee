import BehaviorTree.Yaml.Character

/-! The text of a scalar while it is read, folded over its lines. -/
namespace BehaviorTree
namespace Yaml

/-- What separates two words of a scalar; the newest character comes first. -/
inductive Gap where
  | blanks (read : List Char)
  /-- A line break, written by `first`, and the breaks of the empty lines after it. -/
  | lines (first : List Char) (more : List Char)
  deriving DecidableEq, Repr

/-- What a gap stands for: a line feed alone is a blank, and one before empty lines is nothing. -/
def Gap.text : Gap → List Char
  | .blanks read => read
  | .lines ['\n'] [] => [' ']
  | .lines ['\n'] more => more
  | .lines first more => more ++ first

def Gap.isLines : Gap → Bool
  | .blanks _ => false
  | .lines _ _ => true

/-- The words of a scalar, newest character first, and the gap after them. -/
structure Folded where
  read : List Char
  gap : Gap
  deriving DecidableEq, Repr

namespace Folded

def empty : Folded := ⟨[], .blanks []⟩

/-- The whole text, with the gap at its end. -/
def text (f : Folded) : List Char := (f.gap.text ++ f.read).reverse

def push (f : Folded) (c : Char) : Folded := ⟨c :: (f.gap.text ++ f.read), .blanks []⟩

/-- Blanks at the start of a line do not count. -/
def pushBlank (f : Folded) (c : Char) : Folded :=
  match f.gap with
  | .blanks read => { f with gap := .blanks (c :: read) }
  | .lines _ _ => f

/-- Blanks at the end of a line do not count. -/
def pushBreak (f : Folded) (c : Char) : Folded :=
  match f.gap with
  | .blanks _ => { f with gap := .lines [c] [] }
  | .lines first more => { f with gap := .lines first (c :: more) }

/-- A line break that stands for nothing. -/
def skipBreak (f : Folded) : Folded := ⟨f.gap.text ++ f.read, .lines [] []⟩

end Folded

end Yaml
end BehaviorTree
