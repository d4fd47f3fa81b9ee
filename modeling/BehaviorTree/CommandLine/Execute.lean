import BehaviorTree.CommandLine.Arguments
import BehaviorTree.CommandLine.Cause
import BehaviorTree.Library
import BehaviorTree.Trace.Json
import BehaviorTree.Tree

/-! What each command prints and writes, given the contents of the files that it reads. -/
namespace BehaviorTree

structure Outcome where
  output : String
  /-- Why it fails; nothing for success. -/
  causes : List Cause
  /-- What it writes to its file. -/
  written : Option (List UInt8)

/-- The number by which the command reports success or failure. -/
def Outcome.exitCode (o : Outcome) : Nat := if o.causes.isEmpty then 0 else 1

/-- The exit code for a command line that spells no command. -/
def usageExitCode : Nat := 2

namespace Command

abbrev Files := String → FileContent

def succeed (output : String) : Outcome := ⟨output, [], none⟩

def failWith (output : String) (causes : List Cause) : Outcome := ⟨output, causes, none⟩

/-- Whether the last part of a path has the extension `json`, in any case. A name that starts with its
only dot has no extension. -/
def isJsonPath (path : String) : Bool :=
  let parts := (path.splitOn "/").filter fun part => part ≠ "" ∧ part ≠ "."
  match ((parts.getLast?.getD "").splitOn ".").reverse with
  | extension :: stem => extension.map Char.toLower = "json" ∧ stem ≠ [] ∧ stem ≠ [""]
  | [] => false

def readBlob (files : Files) (path : String) : Except (List Cause) Blob :=
  let unreadable := [.reported s!"Failed to read blob from {path}", .unreadable]
  let checked (r : Except WireError Blob) : Except (List Cause) Blob :=
    match r with
    | .ok b => .ok b
    | .error e => .error (.reported s!"Invalid blob {path}" :: e.causes)
  if isJsonPath path then
    match (files path).text? with
    | some text => checked (Blob.ofJsonText text)
    | none => .error unreadable
  else
    match files path with
    | some bytes => checked (Blob.ofMessagePack bytes)
    | none => .error unreadable

/-- The stored form of a blob in a file. -/
def storedBlob (path : String) (b : Blob) : List UInt8 :=
  if isJsonPath path then b.toJsonText.toUTF8.toList else b.toMessagePack

def padLeft (width : Nat) (text : String) : String :=
  "".pushn ' ' (width - text.length) ++ text

def hash16 (n : UInt64) : String :=
  let digits := hexText n.toNat
  "".pushn '0' (16 - digits.length) ++ digits

/-! ## inspect -/

/-- A line of four columns and a name. -/
def row (index type stop data name : String) : String :=
  s!"{padLeft 5 index}  {padLeft 5 type}  {padLeft 5 stop}  {padLeft 5 data}  {name}\n"

def nodeRow (m : Machine) (b : Blob) (i depth : Nat) : Checked String := do
  let id ← b.typeOf i
  let name := "".pushn ' ' (2 * depth) ++ (m.nameOf? id).getD "?"
  return row (toString i) (toString id.val) (toString (← b.endOf i)) (toString (← b.sizeOf i)) name

def nodeRows (m : Machine) (b : Blob) : Checked String := do
  let rows ← (← b.depths).zipIdx.mapM fun x => nodeRow m b x.2 x.1
  return String.join rows

def inspectBlob (b : Blob) : Outcome :=
  match nodeRows .ofLibrary b with
  | .error e => failWith "" [.reported e.message]
  | .ok rows =>
    succeed (s!"nodes: {b.size}\nhash:  {hash16 b.hash}\n\n" ++
      row "INDEX" "TYPE" "END" "DATA" "NODE" ++ rows)

/-! ## run -/

/-- Ticks a tree `left` times, the next tick being number `n`; `output` was printed before. -/
def tickTimes {b : Blob} (m : Machine) (delta : Single) :
    (left n : Nat) → Tree b → Blackboard → (output : String) → Outcome × Blackboard
  | 0, _, _, bb, output => (succeed output, bb)
  | left + 1, n, t, bb, output =>
    let bb := bb.set (.plain PlainData.f32.type) Library.deltaTimeKey (PlainData.f32.encode delta)
    match t.tick m bb with
    | (.ok s, t, bb) =>
      tickTimes m delta left (n + 1) t bb (output ++ s!"{padLeft 5 (toString n)}  {s.label}\n")
    | (.error e, _, bb) =>
      (failWith output [.reported s!"tick {n} failed", .reported e.message], bb)

def traceLines (bb : Blackboard) : String :=
  match bb.get .log Blackboard.traceLog with
  | .ok log => String.join (log.events.map fun e => e.text ++ "\n")
  | .error _ => ""

def runBlob (config : Config) (options : RunOptions) (b : Blob) : Outcome :=
  let m := { Machine.ofLibrary with config }
  match m.componentAccess b with
  | .error e => failWith "" [.reported e.message]
  | .ok _ =>
    let bb := if config.trace then Blackboard.empty.set .log Blackboard.traceLog .empty else .empty
    let (o, bb) := tickTimes m options.delta options.ticks 1 (.new b) bb ""
    if o.causes.isEmpty && config.trace then { o with output := o.output ++ traceLines bb } else o

def runConfig (files : Files) (options : RunOptions) : Except (List Cause) Config := do
  let c ← match options.config with
    | some path => Config.load path (files path)
    | none => .ok .default
  return { c with trace := c.trace || options.trace }

/-! ## demo -/

/-- The sample: a parallel of a repetition, a timer and a sequence. -/
def sampleTree : Except Error Blueprint := do
  return .parallel [.repetition 3 0 (.fixed .success), ← Blueprint.delay ⟨0x3f000000⟩ Library.deltaTimeKey,
    .sequence [.fixed .success, .inverter (.fixed .failure)]]

def sampleBlob : Checked Blob := do (← Checked.ofExcept sampleTree).build

/-! ## Commands -/

def inputs : Command → List String
  | .inspect path => [path]
  | .run path options => options.config.toList ++ [path]
  | .demo _ => []

def output? : Command → Option String
  | .demo path => some path
  | _ => none

def execute (files : Files) : Command → Outcome
  | .inspect path =>
    match readBlob files path with
    | .ok b => inspectBlob b
    | .error causes => failWith "" causes
  | .run path options =>
    let prepared := do
      let config ← runConfig files options
      return (config, ← readBlob files path)
    match prepared with
    | .ok (config, b) => runBlob config options b
    | .error causes => failWith "" causes
  | .demo path =>
    match sampleBlob with
    | .ok b => ⟨s!"wrote {b.size} nodes to {path}\n", [], some (storedBlob path b)⟩
    | .error e => failWith "" [.reported e.message]

end Command
end BehaviorTree
