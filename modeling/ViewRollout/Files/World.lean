import ViewRollout.Files.Sink
import ViewRollout.Files.Tree
import ViewRollout.Host

/-!
# Described worlds

A world is all that a run can see and change, as a value: a tree of files, the input that is still
unread, what has been printed, and the variables of the environment.
-/

namespace ViewRollout.Files

structure World where
  files : Tree
  input : Bytes
  output : Sink
  messages : String
  environment : Table String String
  deriving DecidableEq, Repr

/-- The value that variables have under a name. They are looked through as texts `NAME=value`: what
follows the name and an equals sign in the first that begins with them. So a name may reach into a
value: where `A` is `b=c`, `A=b` is `c`. The empty name has no value. -/
def valueUnder? (name : String) : Table String String → Option String
  | [] => none
  | (key, value) :: rest =>
    let front := (name ++ "=").toList
    let whole := (key ++ "=" ++ value).toList
    if name ≠ "" && front.isPrefixOf whole then some (String.ofList (whole.drop front.length))
    else valueUnder? name rest

/-- The lines of an input, each with the newline that ends it; `begun` holds the bytes of the
current line, in reverse. -/
def inputLines (begun : Bytes) : Bytes → List Bytes
  | [] => if begun = [] then [] else [begun.reverse]
  | b :: rest =>
    if b = 0x0A then (b :: begun).reverse :: inputLines [] rest
    else inputLines (b :: begun) rest

namespace World

def print (text : String) (world : World) : Except Fault Unit × World :=
  let (output, fits) := world.output.write (Text.bytes text)
  (if fits then .ok () else .error .full, { world with output := output })

def writeBytes (path : String) (content : Bytes) (world : World) : Except Fault Unit × World :=
  match world.files.write path content with
  | .ok files => (.ok (), { world with files := files })
  | .error fault => (.error fault, world)

/-- Asks until one of the lines of the input decides. A line is used up also when its bytes are no
text. -/
def queryLines {α : Type} (cue : String) (decision : String → Option α) (lines : List Bytes)
    (world : World) : Except Fault (Option α) × World :=
  match world.print cue with
  | (.error fault, world) => (.error fault, { world with input := lines.flatten })
  | (.ok (), world) =>
    match lines with
    | [] => (.ok none, { world with input := [] })
    | line :: rest =>
      match textOf line with
      | .error fault => (.error fault, { world with input := rest.flatten })
      | .ok text =>
        match decision text with
        | some a => (.ok (some a), { world with input := rest.flatten })
        | none => queryLines cue decision rest world

instance : Host (StateM World) where
  readBytes path := fun world => (world.files.readBytes path, world)
  isFile path := fun world => (world.files.isFile path, world)
  isThere path := fun world => (world.files.exists? path, world)
  list path := fun world => (world.files.list path, world)
  writeBytes path content := writeBytes path content
  print text := print text
  report text := fun world => ((), { world with messages := world.messages ++ text })
  query cue decision := fun world => queryLines cue decision (inputLines [] world.input) world
  valueOf? name := fun world => (valueUnder? name world.environment, world)

end World

end ViewRollout.Files
