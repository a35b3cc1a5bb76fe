import ViewRollout.View.Inlining

/-!
# Dependencies

The views that others may read, in the order in which they were first added, one of each name. A
view is expanded by those already there when it is added, so each one held stands for itself.
-/

namespace ViewRollout.View

open Sql (Defect)

structure Dependencies where
  views : List View
  deriving DecidableEq, Repr

namespace Dependencies

def empty : Dependencies :=
  ⟨[]⟩

def size (held : Dependencies) : Nat :=
  held.views.length

def isEmpty (held : Dependencies) : Bool :=
  held.views.isEmpty

def get? (held : Dependencies) (name : String) : Option View :=
  held.views.find? (·.name == name)

/-- The held views that the consumer refers to, other than one of its own name. -/
def referredToBy (held : Dependencies) (consumer : View) : List View :=
  held.views.filter fun view => view.name != consumer.name && consumer.refersTo view.name

def expand (held : Dependencies) (consumer : View) : Except Defect View :=
  match held.referredToBy consumer with
  | [] => .ok consumer
  | used => consumer.inline used

def put (view : View) : List View → List View
  | [] => [view]
  | head :: rest => if head.name = view.name then view :: rest else head :: put view rest

def insert (held : Dependencies) (view : View) : Except Defect Dependencies :=
  (held.expand view).map fun expanded => ⟨put expanded held.views⟩

end Dependencies

end ViewRollout.View
