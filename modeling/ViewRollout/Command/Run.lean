import ViewRollout.Command.Cat
import ViewRollout.Command.Inspect
import ViewRollout.Files.Variables

/-!
# Runs

A run carries out a command line on a host and ends with an exit code: 0 when all went well, 1
after a failure, 2 when the command line is refused.
-/

namespace ViewRollout.Command

variable {m : Type → Type} [Monad m] [Host m]

def configVariable : String :=
  "VIEWDEPLOY_CONFIG"

/-- The files of variables: one in the working directory, or else in the next one above it. -/
def variableFiles : List String :=
  (List.range 64).map fun n => String.join (List.replicate n "../") ++ ".env"

def perform (invocation : Invocation) : ExceptT Failure m Unit := do
  match invocation.request with
  | .deploy options =>
    let named ← ExceptT.lift (Files.Variables.valueOf? variableFiles configVariable)
    let config ← configuration invocation.config named invocation.verbose
    deploy config options invocation.verbose
  | .inspect path json => inspect path json
  | .cat options => cat options invocation.verbose

def usage : String :=
  "Usage: viewdeploy [OPTIONS] <COMMAND>\n\nCommands:\n" ++
    "  deploy   Render view files for an environment into a deployment script\n" ++
    "  inspect  Show how a view file is split into header, CTEs and body\n" ++
    "  cat      Concatenate patches listed in a sequence file\n" ++
    "  help     Print this message\n"

def version : String :=
  "viewdeploy 0.1.0\n"

def run (arguments : List String) : m Nat := do
  match Invocation.parse arguments with
  | .error .usage => do Host.report usage; return 2
  | .error .help => do let _ ← Host.print usage; return 0
  | .error .version => do let _ ← Host.print version; return 0
  | .ok invocation =>
    match ← (perform invocation).run with
    | .ok () => return 0
    | .error failure => do Host.report failure.message; return 1

end ViewRollout.Command
