/-!
# Paths

A path is text: names with slashes between them. It is absolute when it begins with a slash. Empty
names and single dots inside a path mean nothing, so a path has a parent regardless of them.
-/

namespace ViewRollout.Files.Path

def namesFrom (begun : List Char) : List Char → List String
  | [] => [String.ofList begun.reverse]
  | c :: rest =>
    if c = '/' then String.ofList begun.reverse :: namesFrom [] rest
    else namesFrom (c :: begun) rest

def names (path : String) : List String :=
  namesFrom [] path.toList

def isAbsolute (path : String) : Bool :=
  path.toList.head? = some '/'

def join (directory path : String) : String :=
  if isAbsolute path || directory = "" then path
  else if directory.toList.getLast? = some '/' then directory ++ path
  else directory ++ "/" ++ path

/-- A path, in reverse, without what means nothing at its end: slashes, and dots after slashes. -/
def dropIdle : List Char → List Char
  | '/' :: rest => if rest = [] then ['/'] else dropIdle rest
  | '.' :: '/' :: rest => if rest = [] then ['/'] else dropIdle rest
  | path => path

/-- The path of the directory that holds what the path leads to; it is empty for a bare name, and
there is none for the empty path and the root. -/
def parent? (path : String) : Option String :=
  match dropIdle path.toList.reverse with
  | [] => none
  | ['/'] => none
  | reversed => some (String.ofList (dropIdle (reversed.dropWhile (· != '/'))).reverse)

/-- What follows the last dot of a file name that has text before that dot. -/
def extension? (name : String) : Option String :=
  let reversed := name.toList.reverse
  match reversed.dropWhile (· != '.') with
  | '.' :: _ :: _ => some (String.ofList (reversed.takeWhile (· != '.')).reverse)
  | _ => none

end ViewRollout.Files.Path
