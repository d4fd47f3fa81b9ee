import BehaviorTree.Single.Decimal

/-! What the command line asks for. -/
namespace BehaviorTree

structure RunOptions where
  ticks : Nat
  delta : Single
  config : Option String
  trace : Bool

inductive Command where
  /-- Show the nodes of the blob in a file. -/
  | inspect (path : String)
  /-- Tick the blob in a file. -/
  | run (path : String) (options : RunOptions)
  /-- Write a sample blob to a file. -/
  | demo (path : String)

namespace Command

/-- An argument after the name of the command. -/
inductive Argument where
  | positional (text : String)
  | switch (name : String)
  | option (name value : String)

/-- The switches and the options with a value of a command. -/
structure Grammar where
  switches : List String
  options : List String

def Grammar.plain : Grammar := ⟨["verbose"], []⟩

def Grammar.run : Grammar := ⟨["verbose", "trace"], ["ticks", "dt", "config"]⟩

def looksLikeOption (text : String) : Bool :=
  match text.toList with
  | '-' :: _ :: _ => true
  | _ => false

/-- The name and the value, if there is one, of what follows two dashes. -/
def splitOption (cs : List Char) : String × Option String :=
  let (name, rest) := cs.span (· ≠ '=')
  match rest with
  | [] => (.ofList name, none)
  | _ :: value => (.ofList name, some (.ofList value))

/-- The arguments of a command; an option takes its value from the next text unless it has one. -/
def arguments? (g : Grammar) : List String → Option (List Argument)
  | [] => some []
  | text :: rest =>
    match text.toList with
    | ['-', '-'] => some (rest.map .positional)
    | '-' :: '-' :: cs =>
      match splitOption cs with
      | (name, some value) =>
        if name ∈ g.options then (arguments? g rest).map (.option name value :: ·) else none
      | (name, none) =>
        if name ∈ g.switches then (arguments? g rest).map (.switch name :: ·)
        else if name ∈ g.options then
          match rest with
          | [] => none
          | value :: rest =>
            if looksLikeOption value then none
            else (arguments? g rest).map (.option name value :: ·)
        else none
    | ['-', 'v'] => (arguments? g rest).map (.switch "verbose" :: ·)
    | '-' :: _ :: _ => none
    | _ => (arguments? g rest).map (.positional text :: ·)

def positionals (as : List Argument) : List String :=
  as.filterMap fun
    | .positional text => some text
    | _ => none

def countSwitch (name : String) (as : List Argument) : Nat :=
  as.countP fun
    | .switch n => n == name
    | _ => false

def values (name : String) (as : List Argument) : List String :=
  as.filterMap fun
    | .option n value => if n == name then some value else none
    | _ => none

/-- The value of an option, read by `read`, or its default; none may be given twice. -/
def value? {α : Type} (name : String) (as : List Argument) (read : String → Option α) (default : α) :
    Option α :=
  match values name as with
  | [] => some default
  | [v] => read v
  | _ => none

/-- A number of ticks. It may have a sign, but only zero may have a minus. -/
def ticks? (text : String) : Option Nat :=
  let (bound, cs) := match text.toList with
    | '+' :: cs => (UInt32.size, cs)
    | '-' :: cs => (1, cs)
    | cs => (UInt32.size, cs)
  let n := Single.natOf cs
  if !cs.isEmpty && cs.all Char.isDigit && n < bound then some n else none

def path? (text : String) : Option String := if text.isEmpty then none else some text

def defaultDelta : Single := ⟨0x3dcccccd⟩

/-- The command `name` with its arguments. -/
def ofArguments? (name : String) (as : List Argument) : Option Command := do
  let path ← match positionals as with
    | [path] => path? path
    | _ => none
  if 1 < countSwitch "verbose" as ∨ 1 < countSwitch "trace" as then none
  else
    match name with
    | "inspect" => some (.inspect path)
    | "demo" => some (.demo path)
    | "run" => do
      let ticks ← value? "ticks" as ticks? 10
      let delta ← value? "dt" as Single.ofText? defaultDelta
      let config ← value? "config" as (fun v => (path? v).map some) none
      let trace := 0 < countSwitch "trace" as
      return .run path { ticks, delta, config, trace }
    | _ => none

/-- The command that the texts spell; the switch for verbosity may come first. -/
def parse? : List String → Option Command
  | [] => none
  | text :: rest =>
    if text = "-v" ∨ text = "--verbose" then
      match rest with
      | name :: rest => command? name rest
      | [] => none
    else command? text rest
where
  command? (name : String) (rest : List String) : Option Command := do
    ofArguments? name (← arguments? (if name = "run" then .run else .plain) rest)

end Command
end BehaviorTree
