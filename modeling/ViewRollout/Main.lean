import ViewRollout.Command.Run

/-!
# The program

A host made of the real machine, and the program that runs on it.
-/

namespace ViewRollout.Main

open Files (Fault)

def faultOf : IO.Error → Fault
  | .noFileOrDirectory .. => .missing
  | .inappropriateType .. => .notDirectory
  | error => .system (toString error)

def guarded {α : Type} (action : IO α) : IO (Except Fault α) := do
  try
    return .ok (← action)
  catch error =>
    return .error (faultOf error)

def kind? (path : String) : IO (Option Bool) := do
  try
    let here ← IO.currentDir
    let metadata ← (here / path).metadata
    return some (metadata.type == .file)
  catch _ =>
    return none

/-- The content of a file; a directory is told apart from what cannot be opened. -/
def readFile (path : String) : IO (Except Fault Bytes) := do
  if path.toList.contains '\x00' then return .error .nulInPath
  match ← kind? path with
  | some false => return .error .isDirectory
  | _ => guarded do return (← IO.FS.readBinFile path).toList

def listDirectory (path : String) : IO (List (String × Bool)) := do
  let here ← IO.currentDir
  let directory := here / path
  let entries ← directory.readDir
  let named ← entries.toList.mapM fun entry => do
    let metadata ← (directory / entry.fileName).metadata
    return (entry.fileName, metadata.type == .file)
  return named.mergeSort fun a b => !decide (b.1 < a.1)

partial def ask {α : Type} (cue : String) (decision : String → Option α) : IO (Option α) := do
  let output ← IO.getStdout
  output.putStr cue
  output.flush
  let line ← (← IO.getStdin).getLine
  if line.isEmpty then return none
  match decision line with
  | some a => return some a
  | none => ask cue decision

instance : Host IO where
  readBytes := readFile
  isFile path := do return (← kind? path) == some true
  isThere path := do return (← kind? path).isSome
  list path := guarded (listDirectory path)
  writeBytes path content := guarded (IO.FS.writeBinFile path ⟨content.toArray⟩)
  print text := guarded do
    let output ← IO.getStdout
    output.putStr text
    output.flush
  report text := IO.eprint text
  query cue decision := guarded (ask cue decision)
  valueOf? name := IO.getEnv name

end ViewRollout.Main

def main (arguments : List String) : IO UInt32 := do
  return UInt32.ofNat (← ViewRollout.Command.run arguments)
