/-!
# Regions of a SQL text

A reader of SQL stands in code, in a quoted segment or in a comment. `Region.step` says what one
character does to that, `mark` tells for every character of a text whether it is plain code, and
`finish` in which region the text leaves the reader. Marks of quotes, quoted characters and
comments, with the characters that open and close them, are off.
-/

namespace ViewRollout.Sql

inductive Region where
  | code
  | quoted (quote : Char)
  | lineComment
  | blockComment
  deriving DecidableEq, Repr

def backtick : Char := '\x60'

def isQuote (c : Char) : Bool :=
  c == backtick || c == '\'' || c == '"'

/-- The region after a character, and whether the one after it, given when there is one, is taken
along. A backslash takes the next character along in every quoted segment but a quoted name. -/
def Region.step (region : Region) (c : Char) (next : Option Char) : Region × Bool :=
  match region with
  | .code =>
    -- Both characters of an opening are taken at once, so `/*/` does not close itself.
    if c = '-' ∧ next = some '-' then (.lineComment, true)
    else if c = '/' ∧ next = some '*' then (.blockComment, true)
    else if isQuote c then (.quoted c, false)
    else (.code, false)
  | .quoted quote =>
    if c = '\\' ∧ next.isSome ∧ quote ≠ backtick then (.quoted quote, true)
    else if c = quote then (.code, false)
    else (.quoted quote, false)
  | .lineComment => (if c = '\n' then .code else .lineComment, false)
  | .blockComment => if c = '*' ∧ next = some '/' then (.code, true) else (.blockComment, false)

structure Marked where
  char : Char
  code : Bool
  deriving DecidableEq, Repr

def mark (region : Region) : List Char → List Marked
  | [] => []
  | [c] => [⟨c, region == .code && (region.step c none).1 == .code⟩]
  | c :: d :: rest =>
    match region.step c (some d) with
    | (after, true) => ⟨c, false⟩ :: ⟨d, false⟩ :: mark after rest
    | (after, false) => ⟨c, region == .code && after == .code⟩ :: mark after (d :: rest)

def finish (region : Region) : List Char → Region
  | [] => region
  | [c] => (region.step c none).1
  | c :: d :: rest =>
    match region.step c (some d) with
    | (after, true) => finish after rest
    | (after, false) => finish after (d :: rest)

/-- The places of the text's code from the given one on, each with its character: the text is read
from there as code. -/
def codeFrom (text : List Char) (start : Nat) : List (Nat × Char) :=
  ((mark .code (text.drop start)).zipIdx start).filterMap fun (marked, place) =>
    if marked.code then some (place, marked.char) else none

def codeFlags (text : List Char) : List Bool :=
  (mark .code text).map (·.code)

theorem map_char_mark (region : Region) (text : List Char) :
    (mark region text).map (·.char) = text := by
  fun_induction mark region text <;> simp_all

theorem length_mark (region : Region) (text : List Char) :
    (mark region text).length = text.length := by
  conv => rhs; rw [← map_char_mark region text, List.length_map]

end ViewRollout.Sql
