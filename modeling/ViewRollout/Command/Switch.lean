/-!
# Switches

The options of the command line: how each is spelled, where it may stand, and how many values it
takes.
-/

namespace ViewRollout.Command

inductive Switch where
  | config | verbose | help | version
  | uat | prod | local
  | preview | inline | output
  | json
  | file | patches | start | stop | limit | listing | nocheck
  deriving DecidableEq, Repr

inductive Level where
  | top | deploy | inspect | cat
  deriving DecidableEq, Repr

inductive Arity where
  | none
  | one
  /-- All arguments up to the next switch, at least one. -/
  | many
  deriving DecidableEq, Repr

namespace Switch

def arity : Switch → Arity
  | .config | .inline | .output | .file | .start | .stop | .limit => .one
  | .patches => .many
  | _ => .none

/-- Whether the switch's values are paths, which may not be empty. -/
def isPath : Switch → Bool
  | .config | .inline | .output | .file => true
  | _ => false

def repeats : Switch → Bool
  | .inline | .patches => true
  | _ => false

end Switch

namespace Level

def common (name : String) : Option Switch :=
  match name with
  | "config" => some .config
  | "verbose" => some .verbose
  | "help" => some .help
  | _ => none

def long? (level : Level) (name : String) : Option Switch :=
  match level, name with
  | .top, "version" => some .version
  | .deploy, "uat" => some .uat
  | .deploy, "test" => some .uat
  | .deploy, "prod" => some .prod
  | .deploy, "production" => some .prod
  | .deploy, "local" => some .local
  | .deploy, "show" => some .preview
  | .deploy, "inline" => some .inline
  | .deploy, "output" => some .output
  | .inspect, "json" => some .json
  | .cat, "file" => some .file
  | .cat, "patches" => some .patches
  | .cat, "from" => some .start
  | .cat, "to" => some .stop
  | .cat, "limit" => some .limit
  | .cat, "list" => some .listing
  | .cat, "nocheck" => some .nocheck
  | _, name => common name

def short? (level : Level) (letter : Char) : Option Switch :=
  match level, letter with
  | _, 'c' => some .config
  | _, 'v' => some .verbose
  | _, 'h' => some .help
  | .top, 'V' => some .version
  | .deploy, 'o' => some .output
  | .cat, 'f' => some .file
  | .cat, 'n' => some .limit
  | _, _ => none

end Level

end ViewRollout.Command
