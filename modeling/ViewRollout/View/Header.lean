import ViewRollout.Sql.Name

/-!
# View headers

`CREATE OR REPLACE VIEW [reporting].sales AS`: a header names a view. The qualifier before the
name is a group in brackets, a group in backticks or a word, each with a dot after it. The header
of a text is the first one that begins in code; headers do not overlap, and one that begins inside
a comment or a quoted segment is passed over as a whole.
-/

namespace ViewRollout.View

open Sql Text

def spacedKeyword? (keyword text : List Char) : Option (List Char) :=
  (keyword? keyword text).bind blanks?

def dropOrReplace (text : List Char) : List Char :=
  ((spacedKeyword? ['O', 'R'] text).bind
    (spacedKeyword? ['R', 'E', 'P', 'L', 'A', 'C', 'E'])).getD text

def afterQualifier? (text : List Char) : Option (List Char) :=
  let after := match text with
    | [] => []
    | c :: rest =>
      if c = '[' then
        match rest.dropWhile (fun c => c != '[' && c != ']') with
        | ']' :: after => after
        | _ => []
      else if c = backtick then (rest.dropWhile (· != backtick)).drop 1
      else if isWordChar c then rest.dropWhile isWordChar
      else []
  match after with
  | '.' :: rest => some rest
  | _ => none

def dropAs (text : List Char) : List Char :=
  ((blanks? text).bind as?).getD text

def header? (text : List Char) : Option (List Char × List Char) :=
  ((spacedKeyword? ['C', 'R', 'E', 'A', 'T', 'E'] text).bind fun rest =>
    (spacedKeyword? ['V', 'I', 'E', 'W'] (dropOrReplace rest)).bind fun rest =>
      -- Where no name follows a qualifier, what looked like one may be the name itself.
      ((afterQualifier? rest).bind name?).or (name? rest)).map fun (name, rest) =>
        (name, dropAs rest)

structure Header where
  start : Nat
  name : List Char
  rest : List Char
  deriving DecidableEq, Repr

/-- The header of a text whose first character stands at `place` after the given one; the flags
tell which of its characters are code. The first `passed` characters belong to a header that was
passed over. -/
def headerFrom? (place passed : Nat) (before : Option Char) :
    List Char → List Bool → Option Header
  | c :: rest, code :: flags =>
    match passed with
    | passed + 1 => headerFrom? (place + 1) passed (some c) rest flags
    | 0 =>
      match if before.any isWordChar then none else header? (c :: rest) with
      | none => headerFrom? (place + 1) 0 (some c) rest flags
      | some (name, after) =>
        if code then some ⟨place, name, after⟩
        -- The search goes on behind the header, not inside it.
        else headerFrom? (place + 1) (rest.length - after.length) (some c) rest flags
  | _, _ => none

def findHeader? (text : List Char) : Option Header :=
  headerFrom? 0 0 none text (codeFlags text)

end ViewRollout.View
