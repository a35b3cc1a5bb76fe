import ViewRollout.Sql.Lexer

/-!
# Keywords in code

A keyword is found where it stands as a whole identifier, in any case, and begins in code.
-/

namespace ViewRollout.Sql

def isIdent (c : Char) : Bool :=
  c.isAlphanum || c == '_' || 0x80 ≤ c.toNat

/-- Whether the text begins with the keyword and no identifier goes on after it. Letters agree
regardless of their case within ASCII. -/
def beginsWith : List Char → List Marked → Bool
  | [], rest => !rest.head?.any (isIdent ·.char)
  | _ :: _, [] => false
  | k :: ks, ⟨c, _⟩ :: rest => k.toLower == c.toLower && beginsWith ks rest

/-- The first place of the keyword in a marked text that follows the given character. -/
def keywordAfter? (keyword : List Char) (before : Option Char) : List Marked → Option Nat
  | [] => none
  | ⟨c, code⟩ :: rest =>
    if code && !before.any isIdent && beginsWith keyword (⟨c, code⟩ :: rest) then some 0
    else (keywordAfter? keyword (some c) rest).map (· + 1)

def keywordPlace? (keyword text : List Char) : Option Nat :=
  keywordAfter? keyword none (mark .code text)

end ViewRollout.Sql
