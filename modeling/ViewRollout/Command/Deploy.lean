import ViewRollout.Command.Invocation
import ViewRollout.Command.Question
import ViewRollout.Command.Script
import ViewRollout.Command.ViewFile
import ViewRollout.Config.Load

/-!
# Rolling views out

The statements of the views are made for an environment: each view takes in the dependencies it
reads, and the placeholders of schemas become the schemas of the environment. The statements are
shown, or put into a script once the environment's check is passed. Secrets may stand in a file of
their own beside the configuration; they lie over it.
-/

namespace ViewRollout.Command

open Config (Environment)
open View (Dependencies)

variable {m : Type → Type} [Monad m] [Host m]

def say (text : String) : ExceptT Failure m Unit :=
  attempt .silent (Host.print text)

def note (verbose : Bool) (text : String) : ExceptT Failure m Unit :=
  if verbose then ExceptT.lift (Host.report text) else pure ()

def configFile : String :=
  "viewdeploy.toml"

def secretsFile : String :=
  "passwords.toml"

/-- The file that the configuration is read from, if there is one: the one that is asked for, the
one that the environment's variable names, or the default one where it is there. -/
def configPath (asked named : Option String) : ExceptT Failure m (Option String) := do
  match asked.or named with
  | some path => return some path
  | none =>
    return if ← ExceptT.lift (Host.isThere configFile) then some configFile else none

def configuration (asked named : Option String) (verbose : Bool) : ExceptT Failure m Config := do
  match ← configPath asked named with
  | none =>
    note verbose "No config file found, using defaults\n"
    return .default
  | some path =>
    let directory := (Files.Path.parent? path).getD ""
    let secrets := Files.Path.join directory secretsFile
    let config ← ExceptT.adapt (.unconfigured path) (Config.load [path, secrets])
    note verbose ("Loaded config from: " ++ path ++ "\n")
    return config

def statementOf (held : Dependencies) (substitution : Substitution) (verbose : Bool)
    (path : String) : ExceptT Failure m String := do
  let view ← loadView path
  match held.expand view with
  | .error defect => throw (.uninlined path defect)
  | .ok view =>
    note verbose ("  Rendered " ++ path ++ " (" ++ toString view.ctes.length ++ " CTEs)\n")
    return substitution.apply view.render

def statementsOf (held : Dependencies) (substitution : Substitution) (verbose : Bool) :
    List String → ExceptT Failure m (List String)
  | [] => pure []
  | path :: rest => do
    let statement ← statementOf held substitution verbose path
    return statement :: (← statementsOf held substitution verbose rest)

def showAll : List String → ExceptT Failure m Unit
  | [] => pure ()
  | statement :: rest => do
    say (statement ++ "\n\n")
    showAll rest

def defaultOutput (environment : Environment) : String :=
  "deploy-" ++ environment.name ++ ".sql"

def writeScript (path : String) (statements : List String) : ExceptT Failure m Unit := do
  attempt (.unwritten path) (Host.writeBytes path (Text.bytes (script statements)))
  say ("Deployment script written to: " ++ path ++ " (" ++ toString statements.length ++
    " views)\n")

def statements (substitution : Substitution) (options : DeployRequest) (verbose : Bool) :
    ExceptT Failure m (List String) := do
  let paths ← if options.files.isEmpty then sqlFiles "." else pure options.files
  requireFiles paths
  let held ← readDependencies .empty options.inline
  note (verbose && !held.isEmpty) ("Loaded " ++ toString held.size ++ " dependency views\n")
  statementsOf held substitution verbose paths

def deploy (config : Config) (options : DeployRequest) (verbose : Bool) :
    ExceptT Failure m Unit := do
  let environment := options.environment
  let settings ← ExceptT.adapt .unserved (ExceptT.mk (pure (config.settings environment)))
  let substitution ← ExceptT.adapt .unserved (ExceptT.mk (pure (config.substitution environment)))
  -- Every statement is there before a person is asked, so a failure writes nothing.
  let made ← statements substitution options verbose
  if options.preview then
    showAll made
  else
    let question := "Are you ready to update " ++ environment.label ++ "?"
    let agreed ←
      if settings.check then ExceptT.adapt .silent (agrees question) else pure true
    if agreed then
      writeScript (options.output.getD (defaultOutput environment)) made
    else
      say "Aborted\n"

end ViewRollout.Command
