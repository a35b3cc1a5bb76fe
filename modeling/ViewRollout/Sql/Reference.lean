import ViewRollout.Sql.Keyword

/-!
# Qualified references

`[warehouse].orders` refers to `orders` by way of a qualifier in brackets. A reference begins at a
`[` in code; its qualifier holds no bracket, and its name is the whole identifier after the dot.
Where the qualifier or the name passes into quotes or comments does not matter.
-/

namespace ViewRollout.Sql

structure Reference where
  start : Nat
  qualifier : List Char
  name : List Char
  deriving DecidableEq, Repr

/-- The place after the name: brackets and dot take three characters. -/
def Reference.stop (r : Reference) : Nat :=
  r.start + r.qualifier.length + r.name.length + 3

def isBracket (c : Char) : Bool :=
  c == '[' || c == ']'

def qualified? (text : List Marked) : Option (List Char × List Char) :=
  match text.dropWhile (!isBracket ·.char) with
  | ⟨']', _⟩ :: ⟨'.', _⟩ :: rest =>
    match rest.takeWhile (isIdent ·.char) with
    | [] => none
    | name => some ((text.takeWhile (!isBracket ·.char)).map (·.char), name.map (·.char))
  | _ => none

def referencesFrom (place : Nat) : List Marked → List Reference
  | [] => []
  | ⟨c, code⟩ :: rest =>
    match if code && c == '[' then qualified? rest else none with
    | some (qualifier, name) => ⟨place, qualifier, name⟩ :: referencesFrom (place + 1) rest
    | none => referencesFrom (place + 1) rest

def references (text : List Char) : List Reference :=
  referencesFrom 0 (mark .code text)

end ViewRollout.Sql
