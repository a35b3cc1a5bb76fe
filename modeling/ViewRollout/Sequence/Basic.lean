import ViewRollout.Files.Fault
import ViewRollout.Sequence.Entry
import ViewRollout.Text.Blank
import ViewRollout.Text.Quoted

/-!
# Sequences

A sequence is a list of entries. It is read from a text, and cut down to a range between two
markers, to a number of patches, or to the patches of some categories.
-/

namespace ViewRollout

open Sequence (Entry)

structure Sequence where
  entries : List Entry
  deriving DecidableEq, Repr

namespace Sequence

def empty : Sequence :=
  ⟨[]⟩

def ofPatches (filenames : List String) : Sequence :=
  ⟨filenames.map .patch⟩

def size (s : Sequence) : Nat :=
  s.entries.length

def isEmpty (s : Sequence) : Bool :=
  s.entries.isEmpty

def filenames (s : Sequence) : List String :=
  s.entries.filterMap (·.filename)

def commentOf (lines : List (List Char)) : Option String :=
  if lines = [] then none else some (String.ofList (Text.joinLines lines))

def commentEntry (lines : List (List Char)) : List Entry :=
  if lines = [] then [] else [⟨commentOf lines, none⟩]

/-- The entries of trimmed lines that follow the given comment lines. A blank line ends a block of
comment lines, a line that is no comment names the patch that the block belongs to. -/
def entriesFrom (comments : List (List Char)) : List (List Char) → List Entry
  | [] => commentEntry comments
  | line :: rest =>
    if line = [] then commentEntry comments ++ entriesFrom [] rest
    else if line.head? = some '#' then entriesFrom (comments ++ [line]) rest
    else ⟨commentOf comments, some (String.ofList line)⟩ :: entriesFrom [] rest

def parse (text : String) : Sequence :=
  ⟨entriesFrom [] ((Text.lines text.toList).map Text.trim)⟩

inductive Error where
  | unreadable (path : String) (fault : Files.Fault)
  | unwritable (fault : Files.Fault)
  | noSuchFiles (filenames : List String)
  | notFound (needle : String)
  | notFoundInRange (needle : String)
  | notAscii (filename : String)
  deriving DecidableEq, Repr

def Error.message : Error → String
  | .unreadable path fault => "IO error on " ++ path ++ ": " ++ fault.message
  | .unwritable fault => "Write error: " ++ fault.message
  | .noSuchFiles filenames => "Not a file: " ++ Text.quotedList filenames
  | .notFound needle => "string not found: " ++ Text.quoted needle
  | .notFoundInRange needle => "string not found after start point: " ++ Text.quoted needle
  | .notAscii filename => "Non-ASCII characters in file " ++ filename

def find? (s : Sequence) (needle : String) (start : Nat) : Option Nat :=
  ((s.entries.drop start).findIdx? (·.contains needle)).map (start + ·)

def startOf (s : Sequence) : Option String → Except Error Nat
  | none => .ok 0
  | some needle =>
    match s.find? needle 0 with
    | some place => .ok place
    | none => .error (.notFound needle)

/-- The place where a range that begins at `start` ends: before the first entry from there on that
contains the marker. -/
def stopOf (s : Sequence) (start : Nat) : Option String → Except Error Nat
  | none => .ok s.size
  | some needle =>
    match s.find? needle start with
    | some place => .ok place
    | none => .error (if start = 0 then .notFound needle else .notFoundInRange needle)

def slice (s : Sequence) (first stop : Option String) : Except Error Sequence :=
  match s.startOf first with
  | .error error => .error error
  | .ok start =>
    match s.stopOf start stop with
    | .error error => .error error
    | .ok stop => .ok ⟨(s.entries.take stop).drop start⟩

def takePatches : Nat → List Entry → List Entry
  | 0, _ => []
  | _ + 1, [] => []
  | n + 1, entry :: rest =>
    entry :: takePatches (if entry.filename.isSome then n else n + 1) rest

/-- The sequence up to and including the last of that many patches. -/
def limit (s : Sequence) (n : Nat) : Sequence :=
  if s.size < n then s else ⟨takePatches n s.entries⟩

def ofCategories (s : Sequence) (categories : List String) : Sequence :=
  if categories.isEmpty then s else ⟨s.entries.filter (·.isUnder categories)⟩

end Sequence

end ViewRollout
