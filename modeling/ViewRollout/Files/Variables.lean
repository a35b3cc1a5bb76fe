import ViewRollout.Files.World
import ViewRollout.Text.Alphanumeric
import ViewRollout.Text.Blank
import ViewRollout.Text.Lines

/-!
# Files of variables

A file of variables assigns values to names, a line each: `NAME=value`, with `export` before it or
not. Values may be quoted, refer to other variables, and be followed by a comment; a quoted value
may go on over several lines. Reading ends at the first line that is not as it should be. The
environment's own values win over those of a file, earlier lines over later ones.
-/

namespace ViewRollout.Files.Variables

open Text

inductive Piece where
  | char (c : Char)
  | value (name : String)
  deriving DecidableEq, Repr

structure Assignment where
  name : String
  value : List Piece
  deriving DecidableEq, Repr

inductive Scan where
  | plain
  | blank
  | escaped
  | single | singleEscaped
  | double | doubleEscaped
  deriving DecidableEq, Repr

def Scan.step (scan : Scan) (c : Char) : Option Scan :=
  match scan with
  | .plain =>
    if isBlank c && c != '\n' && c != '\r' then some .blank
    else if c = '\\' then some .escaped
    else if c = '"' then some .double
    else if c = '\'' then some .single
    else some .plain
  -- Only behind blank space does `#` begin a comment.
  | .blank =>
    if c = '#' then none
    else if c = '\\' then some .escaped
    else if c = '"' then some .double
    else if c = '\'' then some .single
    else some .plain
  | .escaped => some .plain
  | .single => some (if c = '\\' then .singleEscaped else if c = '\'' then .plain else .single)
  | .singleEscaped => some .single
  | .double => some (if c = '\\' then .doubleEscaped else if c = '"' then .plain else .double)
  | .doubleEscaped => some .double

/-- The characters of a line before a comment, and the state at their end; none for the state when
there is a comment. -/
def Scan.line (scan : Scan) : List Char → List Char × Option Scan
  | [] => ([], some scan)
  | c :: rest =>
    match scan.step c with
    | none => ([], none)
    | some next =>
      let (kept, last) := next.line rest
      (c :: kept, last)

def dropNewline (line : List Char) : List Char :=
  if line.getLast? = some '\n' then dropReturn line.dropLast else line

/-- The lines of which each assigns one value, made of the lines of the file; `begun` is what came
before in the current one. None stands for a line that ends the reading. -/
def joined (begun : List Char) (scan : Scan) : List Bytes → List (Option (List Char))
  | [] => if scan = .plain then [] else [none]
  | line :: rest =>
    match decode? line with
    | none => [none]
    | some text =>
      let whole := begun ++ text.toList
      if (trimStart whole).head? = some '#' then joined [] .plain rest
      else
        match scan.line text.toList with
        | (kept, none) => some (begun ++ kept) :: joined [] .plain rest
        | (_, some .plain) => some (dropNewline whole) :: joined [] .plain rest
        | (_, some next) => joined whole next rest

inductive Reading where
  | plain
  | escaped (quoted : Bool)
  | single
  | double
  | name (quoted : Bool) (begun : List Char)
  | braced (quoted : Bool) (begun : List Char)
  | done
  deriving DecidableEq, Repr

def Reading.within (quoted : Bool) : Reading :=
  if quoted then .double else .plain

def named (begun : List Char) : Piece :=
  .value (String.ofList begun.reverse)

def pieces? (reading : Reading) : List Char → Option (List Piece)
  | [] =>
    match reading with
    | .plain | .escaped false | .done => some []
    | .name false begun => some [named begun]
    -- A quote or a brace stands open.
    | _ => none
  | c :: rest =>
    match reading with
    | .done =>
      if c = ' ' || c = '\t' then pieces? .done rest else if c = '#' then some [] else none
    | .escaped quoted =>
      if c ∈ ['\\', '\'', '"', '$', ' '] then
        (pieces? (.within quoted) rest).map (.char c :: ·)
      else if c = 'n' then (pieces? (.within quoted) rest).map (.char '\n' :: ·)
      else none
    | .single =>
      if c = '\'' then pieces? .plain rest else (pieces? .single rest).map (.char c :: ·)
    | .name quoted begun =>
      if isAlphanumeric c then pieces? (.name quoted (c :: begun)) rest
      else if c = '\x7b' && begun = [] then pieces? (.braced quoted []) rest
      else if c = '$' then (pieces? (.name quoted []) rest).map (named begun :: ·)
      else (pieces? (.within quoted) rest).map (named begun :: .char c :: ·)
    | .braced quoted begun =>
      if c = '\x7d' then (pieces? (.within quoted) rest).map (named begun :: ·)
      else pieces? (.braced quoted (c :: begun)) rest
    | .double =>
      if c = '$' then pieces? (.name true []) rest
      else if c = '"' then pieces? .plain rest
      else if c = '\\' then pieces? (.escaped true) rest
      else (pieces? .double rest).map (.char c :: ·)
    | .plain =>
      if c = '$' then pieces? (.name false []) rest
      else if c = '\'' then pieces? .single rest
      else if c = '"' then pieces? .double rest
      else if c = '\\' then pieces? (.escaped false) rest
      else if c = ' ' || c = '\t' then pieces? .done rest
      else (pieces? .plain rest).map (.char c :: ·)

def name? (text : List Char) : Option (List Char × List Char) :=
  let isPart (c : Char) := c.isAlphanum || c == '_' || c == '.'
  match text with
  | [] => none
  | c :: _ =>
    if c.isAlpha || c == '_' then
      some (text.takeWhile isPart, trimStart (text.dropWhile isPart))
    else none

/-- What a line assigns, if it assigns anything; none for a line that ends the reading. -/
def assignment? (line : List Char) : Option (Option Assignment) :=
  let text := trim line
  if text = [] || text.head? = some '#' then some none
  else do
    let (first, rest) ← name? text
    -- A variable may itself be called `export`.
    let (name, rest) ←
      if first = ['e', 'x', 'p', 'o', 'r', 't'] && rest.head? ≠ some '=' then name? rest
      else some (first, rest)
    match rest with
    | '=' :: rest =>
      let value := trimStart rest
      let pieces ← if value.head? = some '#' then some [] else pieces? .plain value
      return some ⟨String.ofList name, pieces⟩
    | _ => none

def assignmentsOf : List (Option (List Char)) → List Assignment
  | [] => []
  | line :: rest =>
    match line.bind assignment? with
    | none => []
    | some none => assignmentsOf rest
    | some (some assignment) => assignment :: assignmentsOf rest

def assignments (content : Bytes) : List Assignment :=
  -- A mark of the byte order may stand at the front.
  let content := match content with
    | 0xEF :: 0xBB :: 0xBF :: rest => rest
    | content => content
  assignmentsOf (joined [] .plain (inputLines [] content))

variable {m : Type → Type} [Monad m] [Host m]

def textOfPieces (assigned : Table String String) : List Piece → m (List Char)
  | [] => pure []
  | .char c :: rest => return c :: (← textOfPieces assigned rest)
  | .value name :: rest => do
    let value := (← Host.valueOf? name).or (valueUnder? name assigned)
    return (value.getD "").toList ++ (← textOfPieces assigned rest)

/-- The variables with those of the assignments that neither they nor the environment have. -/
def assign (assigned : Table String String) : List Assignment → m (Table String String)
  | [] => pure assigned
  | assignment :: rest => do
    let value ← textOfPieces assigned assignment.value
    let isSet := (← Host.valueOf? assignment.name).isSome || assigned.contains assignment.name
    assign (if isSet then assigned else assigned.put assignment.name (String.ofList value)) rest

def load : List String → m (Table String String)
  | [] => pure []
  | path :: rest => do
    if ← Host.isFile path then
      match ← Host.readBytes path with
      | .ok content => assign [] (assignments content)
      -- A file that cannot be read is as good as an empty one: no other is looked for.
      | .error _ => return []
    else load rest

def valueOf? (paths : List String) (name : String) : m (Option String) := do
  match ← Host.valueOf? name with
  | some value => return some value
  | none => return (← load paths).get? name

end ViewRollout.Files.Variables
