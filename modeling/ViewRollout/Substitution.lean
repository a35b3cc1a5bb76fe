import ViewRollout.Table

/-!
# Substitution of schema names

SQL texts name schemas by placeholders: `[warehouse]` stands for the schema that an environment
calls `warehouse`. A substitution goes through a text once, from left to right. Where tokens begin
it replaces the longest of them and goes on behind it, so what was put in is never read again.
-/

namespace ViewRollout

def placeholderToken (name : String) : String :=
  "[" ++ name ++ "]"

structure Substitution where
  replacements : Table String String
  deriving DecidableEq, Repr

namespace Substitution

/-- The substitution of the names, each by its schema; of two schemas for one name the later. -/
def ofNames (names : List (String × String)) : Substitution :=
  ⟨Table.putAll [] (names.map fun (name, schema) => (placeholderToken name, schema))⟩

def tokens (s : Substitution) : List String :=
  s.replacements.keys.mergeSort fun a b => !decide (b < a)

def longest? (text : List Char) :
    List (List Char × List Char) → Option (List Char × List Char)
  | [] => none
  | (token, schema) :: rest =>
    match longest? text rest with
    | none => if token.isPrefixOf text then some (token, schema) else none
    | some (best, replacement) =>
      if token.isPrefixOf text && best.length < token.length then some (token, schema)
      else some (best, replacement)

/-- The text with its tokens replaced. The first `passed` characters belong to a token that is
already replaced. -/
def replaceFrom (pairs : List (List Char × List Char)) (passed : Nat) : List Char → List Char
  | [] => []
  | c :: rest =>
    match passed with
    | passed + 1 => replaceFrom pairs passed rest
    | 0 =>
      match longest? (c :: rest) pairs with
      | none => c :: replaceFrom pairs 0 rest
      -- A token has its brackets, so at least one character is passed over.
      | some (token, schema) => schema ++ replaceFrom pairs (token.length - 1) rest

def apply (s : Substitution) (text : String) : String :=
  let pairs := s.replacements.map fun (token, schema) => (token.toList, schema.toList)
  String.ofList (replaceFrom pairs 0 text.toList)

end Substitution

end ViewRollout
