/-!
# Lines

A line ends at a newline, or at the end of the text; a carriage return just before the newline
belongs to the line's end. A text that ends in a newline has no empty line after it.
-/

namespace ViewRollout.Text

def dropReturn (line : List Char) : List Char :=
  if line.getLast? = some '\r' then line.dropLast else line

/-- The lines of a text whose current line began with the given characters, in reverse. -/
def linesFrom (begun : List Char) : List Char → List (List Char)
  | [] => if begun = [] then [] else [begun.reverse]
  | c :: rest =>
    if c = '\n' then dropReturn begun.reverse :: linesFrom [] rest
    else linesFrom (c :: begun) rest

def lines (text : List Char) : List (List Char) :=
  linesFrom [] text

def joinLines : List (List Char) → List Char
  | [] => []
  | [line] => line
  | line :: rest => line ++ '\n' :: joinLines rest

end ViewRollout.Text
