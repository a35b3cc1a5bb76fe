import ViewRollout.Files.Fault
import ViewRollout.Files.Path
import ViewRollout.Table
import ViewRollout.Text.Utf8

/-!
# File trees

A tree of files as a table of places. The place of a file or directory is the list of names that
lead to it from the working directory, with no dots among them but a pair for each step up at the
front; places that begin with a slash are counted from the root. The working directory, those above
it and the root exist in every tree.
-/

namespace ViewRollout.Files

abbrev Place := List String

inductive Entry where
  | file (content : Bytes)
  | directory
  deriving DecidableEq, Repr

structure Tree where
  entries : Table Place Entry
  deriving DecidableEq, Repr

namespace Tree

def empty : Tree :=
  ⟨[]⟩

def isTop (place : Place) : Bool :=
  place = ["/"] || place.all (· = "..")

def entry? (tree : Tree) (place : Place) : Option Entry :=
  if isTop place then some .directory else tree.entries.get? place

def above (place : Place) : Place :=
  if place = ["/"] then place
  else if isTop place then place ++ [".."]
  else place.dropLast

/-- The place reached from another by the names of a path. Every name has to lead on from a
directory; what the last one leads to has to exist. -/
def walk (tree : Tree) (place : Place) : List String → Except Fault Place
  | [] => if (tree.entry? place).isSome then .ok place else .error .missing
  | name :: rest =>
    match tree.entry? place with
    | none => .error .missing
    | some (.file _) => .error .notDirectory
    | some .directory =>
      if name = "" || name = "." then walk tree place rest
      else if name = ".." then walk tree (above place) rest
      else walk tree (place ++ [name]) rest

def origin (path : String) : Place :=
  if Path.isAbsolute path then ["/"] else []

def locate (tree : Tree) (path : String) : Except Fault Place :=
  if path.toList.contains '\x00' then .error .nulInPath
  else if path = "" then .error .missing
  else tree.walk (origin path) (Path.names path)

def find? (tree : Tree) (path : String) : Option Entry :=
  match tree.locate path with
  | .ok place => tree.entry? place
  | .error _ => none

def isFile (tree : Tree) (path : String) : Bool :=
  match tree.find? path with
  | some (.file _) => true
  | _ => false

def exists? (tree : Tree) (path : String) : Bool :=
  (tree.find? path).isSome

def readBytes (tree : Tree) (path : String) : Except Fault Bytes :=
  match tree.locate path with
  | .error fault => .error fault
  | .ok place =>
    match tree.entry? place with
    | some (.file content) => .ok content
    | _ => .error .isDirectory

/-- The names directly in a directory, in order, each with whether it is that of a file. A path
that leads to a file holds none. -/
def list (tree : Tree) (path : String) : Except Fault (List (String × Bool)) :=
  match tree.locate path with
  | .error fault => .error fault
  | .ok place =>
    let inside := tree.entries.filterMap fun (inner, entry) =>
      match inner.getLast? with
      | some name => if inner.dropLast = place ∧ name ≠ ".." then some (name, entry != .directory)
          else none
      | none => none
    .ok (inside.mergeSort fun a b => !decide (b.1 < a.1))

/-- The place that writing to a path fills: that of a file, or one not taken yet in a directory. -/
def target (tree : Tree) (path : String) : Except Fault Place :=
  if path.toList.contains '\x00' then .error .nulInPath
  else if path = "" then .error .missing
  else
    let names := Path.names path
    -- A slash at the end asks for a directory, which takes no content.
    match (names.reverse.dropWhile (· = "")) with
    | [] => .error .isDirectory
    | name :: before =>
      match tree.walk (origin path) before.reverse with
      | .error fault => .error fault
      | .ok place =>
        match tree.entry? place with
        | some .directory =>
          if name = "." || name = ".." || names.getLast? = some "" then .error .isDirectory
          else if tree.entry? (place ++ [name]) = some .directory then .error .isDirectory
          else .ok (place ++ [name])
        | _ => .error .notDirectory

def write (tree : Tree) (path : String) (content : Bytes) : Except Fault Tree :=
  match tree.target path with
  | .error fault => .error fault
  | .ok place => .ok ⟨tree.entries.put place (.file content)⟩

def addDirectories (tree : Tree) (place : Place) : Tree :=
  ⟨(List.range place.length).foldl
    (fun entries n => entries.put (place.take (n + 1)) .directory) tree.entries⟩

def addFile (tree : Tree) (path : String) (content : Bytes) : Tree :=
  let place := (Path.names path).filter fun name => name ≠ "" && name ≠ "."
  ⟨(tree.addDirectories place.dropLast).entries.put place (.file content)⟩

def addDirectory (tree : Tree) (path : String) : Tree :=
  tree.addDirectories ((Path.names path).filter fun name => name ≠ "" && name ≠ ".")

end Tree

end ViewRollout.Files
