import ViewRollout.Command.Argument
import ViewRollout.Config.Environment
import ViewRollout.Table

/-!
# Invocations

What a command line asks for. Arguments are taken in from left to right; the first that is wrong,
or that asks for help, decides. What is missing or excludes something else is found at the end. So
is a wrong value in an argument of its own right before a command: the command's own come first.
-/

namespace ViewRollout.Command

open Config (Environment)

structure DeployRequest where
  environment : Environment
  preview : Bool
  inline : List String
  output : Option String
  files : List String
  deriving DecidableEq, Repr

structure CatRequest where
  file : String
  patches : List String
  categories : List String
  start : Option String
  stop : Option String
  limit : Option Nat
  listing : Bool
  check : Bool
  deriving DecidableEq, Repr

inductive Request where
  | deploy (options : DeployRequest)
  | inspect (file : String) (json : Bool)
  | cat (options : CatRequest)
  deriving DecidableEq, Repr

structure Invocation where
  config : Option String
  verbose : Bool
  request : Request
  deriving DecidableEq, Repr

inductive Refusal where
  | usage
  | help
  | version
  deriving DecidableEq, Repr

def defaultSequence : String :=
  "sequence.txt"

/-- The number that decimal digits, after a plus sign or not, write in 64 bits. -/
def number? (text : String) : Option Nat :=
  let digits := match text.toList with
    | '+' :: digits => digits
    | digits => digits
  if digits ≠ [] ∧ digits.all Char.isDigit then
    let n := digits.foldl (fun n c => n * 10 + (c.toNat - '0'.toNat)) 0
    if n < 0x10000000000000000 then some n else none
  else none

structure Given where
  switches : Table Switch (List String)
  words : List String
  command : Option (String × List String)
  /-- A switch and its value that have not been looked at yet. -/
  waiting : Option (Switch × String)
  deriving DecidableEq, Repr

namespace Given

def nothing : Given :=
  ⟨[], [], none, none⟩

def has (given : Given) (switch : Switch) : Bool :=
  given.switches.contains switch

def values (given : Given) (switch : Switch) : List String :=
  (given.switches.get? switch).getD []

def value? (given : Given) (switch : Switch) : Option String :=
  (given.values switch).head?

def takesWord (given : Given) (level : Level) (word : String) : Bool :=
  match level with
  | .top => false
  | .deploy => word != ""
  | .inspect => word != "" && given.words.isEmpty
  | .cat => true

def takesValue (switch : Switch) (value : String) : Bool :=
  !(switch.isPath && value = "") && !(switch = .limit && (number? value).isNone)

def takePair (given : Given) (switch : Switch) (value : String) : Except Refusal Given :=
  if (given.has switch && !switch.repeats) || !takesValue switch value then .error .usage
  else .ok { given with switches := given.switches.put switch (given.values switch ++ [value]) }

def take (given : Given) (level : Level) : Argument → Except Refusal Given
  | .wrong => .error .usage
  | .flag .help => .error .help
  | .flag .version => .error .version
  | .flag switch =>
    if given.has switch then .error .usage
    else .ok { given with switches := given.switches.put switch [] }
  | .value switch value => given.takePair switch value
  | .apart switch value => given.takePair switch value
  | .word word =>
    if given.takesWord level word then .ok { given with words := given.words ++ [word] }
    else .error .usage
  | .command name rest => .ok { given with command := some (name, rest) }

/-- Takes in arguments one after the other. A value that stands apart directly before the name of a
command waits until the command's own arguments have been taken in. -/
def takeAll (given : Given) (level : Level) : List Argument → Except Refusal Given
  | [] => .ok given
  | [.apart switch value, .command name rest] =>
    .ok { given with command := some (name, rest), waiting := some (switch, value) }
  | argument :: rest =>
    match given.take level argument with
    | .ok given => given.takeAll level rest
    | .error refusal => .error refusal

def settle (given : Given) : Except Refusal Given :=
  match given.waiting with
  | none => .ok given
  | some (switch, value) => { given with waiting := none }.takePair switch value

def read (level : Level) (arguments : List String) : Except Refusal Given :=
  nothing.takeAll level (readArguments level none arguments)

def environment? (given : Given) : Option Environment :=
  match given.has .uat, given.has .prod, given.has .local with
  | true, false, false => some .uat
  | false, true, false => some .prod
  | false, false, true => some .local
  | _, _, _ => none

def deploy (given : Given) : Except Refusal Request :=
  match given.environment? with
  | none => .error .usage
  | some environment => .ok (.deploy {
      environment := environment
      preview := given.has .preview
      inline := given.values .inline
      output := given.value? .output
      files := given.words })

def inspect (given : Given) : Except Refusal Request :=
  match given.words with
  | [file] => .ok (.inspect file (given.has .json))
  | _ => .error .usage

def cat (given : Given) : Except Refusal Request :=
  if given.has .file && given.has .patches then .error .usage
  else .ok (.cat {
    file := (given.value? .file).getD defaultSequence
    patches := given.values .patches
    categories := given.words
    start := given.value? .start
    stop := given.value? .stop
    limit := (given.value? .limit).bind number?
    listing := given.has .listing
    check := !given.has .nocheck })

def help (names : List String) : Refusal :=
  match names with
  | [] => .help
  | [name] => if name ∈ ["deploy", "inspect", "cat", "help"] then .help else .usage
  | _ => .usage

end Given

/-- The invocation that the arguments spell. The switches that may stand before and after the
command's name count after it first. -/
def Invocation.parse (arguments : List String) : Except Refusal Invocation := do
  let top ← Given.read .top arguments
  let finish (level : Level) (rest : List String) (request : Given → Except Refusal Request) := do
    let given ← Given.read level rest
    let request ← request given
    let top ← top.settle
    return {
      config := (given.value? .config).or (top.value? .config)
      verbose := given.has .verbose || top.has .verbose
      request := request }
  match top.command with
  | some ("deploy", rest) => finish .deploy rest Given.deploy
  | some ("inspect", rest) => finish .inspect rest Given.inspect
  | some ("cat", rest) => finish .cat rest Given.cat
  | some ("help", names) => .error (Given.help names)
  | _ => .error .usage

end ViewRollout.Command
