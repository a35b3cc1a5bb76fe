/-!
# Spacing in TOML

Spaces and tabs part what stands on a line; a line ends at a newline, a carriage return with a
newline, or the end of the text. A comment runs from `#` to the end of its line.
-/

namespace ViewRollout.Toml

def isSpace (c : Char) : Bool :=
  c == ' ' || c == '\t'

def isPlain (c : Char) : Bool :=
  c == '\t' || (0x20 ≤ c.toNat && c.toNat != 0x7F)

def dropSpaces (text : List Char) : List Char :=
  text.dropWhile isSpace

def lineEnd? (text : List Char) : Option (List Char) :=
  let rest := match dropSpaces text with
    | '#' :: comment => comment.dropWhile isPlain
    | rest => rest
  match rest with
  | [] => some []
  | '\n' :: rest => some rest
  | '\r' :: '\n' :: rest => some rest
  | _ => none

/-- The text without spaces, newlines and comments at its front; `comment` says that it begins
inside a comment. -/
def dropGap (comment : Bool) : List Char → List Char
  | [] => []
  | '\n' :: rest => dropGap false rest
  | '\r' :: '\n' :: rest => dropGap false rest
  | c :: rest =>
    if comment then if isPlain c then dropGap true rest else c :: rest
    else if isSpace c then dropGap false rest
    else if c = '#' then dropGap true rest
    else c :: rest

end ViewRollout.Toml
