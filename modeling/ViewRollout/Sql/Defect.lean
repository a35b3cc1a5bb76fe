/-!
# Defects of SQL texts

What a text lacks to be read as a view, or a view to take in others.
-/

namespace ViewRollout.Sql

inductive Defect where
  | noHeader
  | noCteBody (name : String)
  | unclosedParen (offset : Nat)
  | noFrom (view : String)
  deriving DecidableEq, Repr

def Defect.reason : Defect → String
  | .noHeader => "no CREATE VIEW header found"
  | .noCteBody name => "expected '(' after CTE name `" ++ name ++ "`"
  | .unclosedParen offset =>
    "parenthesis opened at offset " ++ toString offset ++ " is never closed"
  | .noFrom view => "view `" ++ view ++ "` has no FROM clause"

def Defect.message (defect : Defect) : String :=
  "malformed SQL: " ++ defect.reason

end ViewRollout.Sql
