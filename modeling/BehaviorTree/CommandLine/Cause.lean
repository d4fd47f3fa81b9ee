import BehaviorTree.Config.Reader
import BehaviorTree.Wire.Blob

/-! Why a command fails: a chain of causes from the outermost one. -/
namespace BehaviorTree

/-- One link of a chain of causes. -/
inductive Cause where
  /-- A cause that the program itself reports. -/
  | reported (text : String)
  /-- A refusal by a data format. -/
  | format (text : String)
  /-- A refusal by the system. -/
  | system (text : String)
  deriving DecidableEq, Repr

def Cause.text : Cause → String
  | reported text => text
  | format text => text
  | system text => text

def Cause.unreadable : Cause := .system "the file cannot be read"

def ConfigError.causes : ConfigError → List Cause
  | yaml => [.format yaml.message]
  | zeroDepth => [.reported zeroDepth.message]

def WireError.causes : WireError → List Cause
  | invalid cause => [.reported (invalid cause).message, .reported cause.message]
  | e => [.format e.message]

/-- The content of a file, if it can be read. -/
abbrev FileContent := Option (List UInt8)

def FileContent.text? (content : FileContent) : Option String := do
  String.fromUTF8? (← content).toByteArray

def Config.load (path : String) (content : FileContent) : Except (List Cause) Config :=
  match content.text? with
  | none => .error [.reported s!"Failed to read VM config from {path}", .unreadable]
  | some text =>
    match Config.ofText text with
    | .ok c => .ok c
    | .error e => .error (.reported s!"Failed to parse VM config from {path}" :: e.causes)

/-- Like `load`; without a file the default. -/
def Config.loadOrDefault (path : String) (content : FileContent) : Except (List Cause) Config :=
  if content.isSome then load path content else .ok .default

end BehaviorTree
