import BehaviorTree.Text.Word

/-! Texts with qualified names, whose parts are words joined by double colons. -/
namespace BehaviorTree.Text

/-- The rest `cs` of a text without qualifiers, after the characters `read`, newest first. A double
colon goes with the word right before it, if there is one. -/
def dropQualifiers (read : List Char) : List Char → List Char
  | ':' :: ':' :: cs => dropQualifiers (read.dropWhile isWordChar) cs
  | c :: cs => dropQualifiers (c :: read) cs
  | [] => read.reverse

/-- A text in which only the last part of a qualified name is left. -/
def unqualified (s : String) : String := .ofList (dropQualifiers [] s.toList)

end BehaviorTree.Text
