import ViewRollout.View.Basic

/-!
# Taking dependencies into a view

A view that reads others can carry them along: each dependency gives its own CTEs and one CTE,
named like the dependency, that holds its body. The qualified references to a known CTE then
become bare names, so the result reads none of the dependencies any more.
-/

namespace ViewRollout.View

open Sql Text

def asGroup (body : String) : String :=
  let query := trimEnd ((trimEnd body.toList).reverse.dropWhile (· == ';')).reverse
  String.ofList (['(', '\n'] ++ query ++ ['\n', ')'])

def asCtes (dependency : View) : List Cte :=
  dependency.ctes ++ [⟨dependency.name, asGroup dependency.body⟩]

/-- The marked text with each reference to a known name reduced to the name. The first `passed`
characters belong to a reference that is already written. -/
def bareFrom (known : List Char → Bool) (passed : Nat) : List Marked → List Char
  | [] => []
  | ⟨c, code⟩ :: rest =>
    match passed with
    | passed + 1 => bareFrom known passed rest
    | 0 =>
      match if code && c == '[' then qualified? rest else none with
      | none => c :: bareFrom known 0 rest
      | some (qualifier, name) =>
        -- Past the `[` there are the qualifier, the `]`, the dot and the name.
        if known name then name ++ bareFrom known (qualifier.length + name.length + 2) rest
        else c :: bareFrom known 0 rest

def bareReferences (known : List Char → Bool) (start : Nat) (text : List Char) : List Char :=
  text.take start ++ bareFrom known 0 (mark .code (text.drop start))

/-- The view with the dependencies taken in, in the given order. CTEs of one name are all kept. -/
def inline (consumer : View) (dependencies : List View) : Except Defect View :=
  let ctes := consumer.ctes ++ dependencies.flatMap asCtes
  match consumer.from? with
  | none => .error (.noFrom consumer.name)
  | some start =>
    -- The consumer's own CTEs are known too.
    let known (name : List Char) := ctes.any fun cte => cte.name.toList == name
    .ok { consumer with
      ctes := ctes
      body := String.ofList (bareReferences known start consumer.body.toList) }

end ViewRollout.View
