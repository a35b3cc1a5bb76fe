import ViewRollout.View.Cte
import ViewRollout.View.Header
import ViewRollout.Sql.Reference

/-!
# Views

A statement that creates a view is its preamble, its header, its CTEs and its body. `View.parse`
takes a text apart into these, `View.render` writes them down again, each on lines of its own.
-/

namespace ViewRollout

open Sql Text
open View (Cte)

structure View where
  /-- The bare name; a qualifier stays in the header. -/
  name : String
  preamble : String
  header : String
  ctes : List Cte
  body : String
  deriving DecidableEq, Repr

namespace View

def parse (text : String) : Except Defect View :=
  match findHeader? text.toList with
  | none => .error .noHeader
  | some header =>
    let begun := text.toList.drop header.start
    (readCtes (String.ofList (trim header.rest))).map fun (ctes, body) =>
      { name := String.ofList header.name
        preamble := String.ofList (trim (text.toList.take header.start))
        header := String.ofList (begun.take (begun.length - header.rest.length))
        ctes := ctes
        body := body }

def renderCtes (introducer : String) : List Cte → String
  | [] => ""
  | cte :: rest =>
    introducer ++ cte.name ++ " AS\n" ++ cte.body ++ "\n" ++ renderCtes "," rest

def render (view : View) : String :=
  (if view.preamble = "" then "" else view.preamble ++ "\n") ++
    view.header ++ "\n" ++ renderCtes "WITH " view.ctes ++ view.body

def from? (view : View) : Option Nat :=
  keywordPlace? ['F', 'R', 'O', 'M'] view.body.toList

def references (view : View) : List Reference :=
  match view.from? with
  | none => []
  | some start => Sql.references (view.body.toList.drop start)

/-- Whether the view refers to the name, through any qualifier. -/
def refersTo (view : View) (name : String) : Bool :=
  view.references.any fun r => r.name == name.toList

end View

end ViewRollout
