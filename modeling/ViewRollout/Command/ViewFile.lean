import ViewRollout.Command.Failure
import ViewRollout.Files.Path
import ViewRollout.Host
import ViewRollout.View.Dependencies

/-!
# Files of views

The files that views are read from: those named, or all of a directory whose names end in `.sql`.
-/

namespace ViewRollout.Command

open View (Dependencies)

variable {m : Type → Type} [Monad m] [Host m]

def sqlFiles (directory : String) : ExceptT Failure m (List String) := do
  let names ← attempt (.unlisted directory) (Host.list directory)
  return names.filterMap fun (name, isFile) =>
    if isFile && Files.Path.extension? name = some "sql" then
      some (Files.Path.join directory name)
    else none

def withoutFile : List String → m (List String)
  | [] => pure []
  | path :: rest => do
    let isFile ← Host.isFile path
    let others ← withoutFile rest
    return if isFile then others else path :: others

def requireFiles (paths : List String) : ExceptT Failure m Unit := do
  match ← ExceptT.lift (withoutFile paths) with
  -- That no path is a stray does not mean that there is one.
  | [] => if paths.isEmpty then throw .noFiles
  | others => throw (.notFiles others)

def loadView (path : String) : ExceptT Failure m View := do
  let text ← attempt (.unreadable path) (readText path)
  match View.parse text with
  | .ok view => return view
  | .error defect => throw (.malformed path defect)

def readDependencies (held : Dependencies) : List String → ExceptT Failure m Dependencies
  | [] => pure held
  | path :: rest => do
    let view ← loadView path
    match held.insert view with
    | .ok held => readDependencies held rest
    | .error defect => throw (.uninlined path defect)

end ViewRollout.Command
