import BehaviorTree.CommandLine.Execute

/-! The command line: reads files, runs the command, prints and writes. -/
namespace BehaviorTree

/-- The content of a file, or nothing if it cannot be read. -/
def readFile? (path : String) : IO FileContent := do
  try
    return some (← IO.FS.readBinFile path).toList
  catch _ => return none

def printCauses (causes : List Cause) : IO Unit := do
  match causes with
  | [] => return
  | c :: cs =>
    IO.eprintln s!"Error: {c.text}"
    unless cs.isEmpty do
      IO.eprintln "\nCaused by:"
      for c in cs do IO.eprintln s!"    {c.text}"

/-- Writes what a command leaves behind; says whether that worked. -/
def writeOutput (command : Command) (o : Outcome) : IO Bool := do
  match command.output?, o.written with
  | some path, some bytes =>
    try
      IO.FS.writeBinFile path bytes.toByteArray
      return true
    catch e =>
      printCauses [.reported s!"Failed to write blob to {path}", .system (toString e)]
      return false
  | _, _ => return true

def runCommand (command : Command) : IO Nat := do
  let contents ← command.inputs.mapM fun path => return (path, ← readFile? path)
  let o := command.execute fun path => (contents.lookup path).join
  if ← writeOutput command o then
    IO.print o.output
    printCauses o.causes
    return o.exitCode
  else return 1

end BehaviorTree

def main (args : List String) : IO UInt32 := do
  match BehaviorTree.Command.parse? args with
  | some command => return UInt32.ofNat (← BehaviorTree.runCommand command)
  | none =>
    IO.eprintln "usage: btvm [-v] (inspect BLOB | run BLOB [OPTIONS] | demo OUT)"
    return UInt32.ofNat BehaviorTree.usageExitCode
