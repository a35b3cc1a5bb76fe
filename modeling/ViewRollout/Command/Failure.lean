import ViewRollout.Config.Basic
import ViewRollout.Sequence.Basic
import ViewRollout.Sql.Defect

/-!
# Failures

Why a run fails. A failure is told as a chain: what could not be done comes first, each of the
others is the cause of the one before it.
-/

namespace ViewRollout.Command

open Files (Fault)

inductive Failure where
  | unconfigured (path : String) (error : Config.Error)
  | unserved (error : Config.Error)
  | unlisted (directory : String) (fault : Fault)
  | notFiles (paths : List String)
  | noFiles
  | unreadable (path : String) (fault : Fault)
  | malformed (path : String) (defect : Sql.Defect)
  | uninlined (path : String) (defect : Sql.Defect)
  /-- A person cannot be asked, or told. -/
  | silent (fault : Fault)
  | unwritten (path : String) (fault : Fault)
  | sequence (error : Sequence.Error)
  deriving DecidableEq, Repr

def sequenceCauses : Sequence.Error → List String
  | .unreadable _ fault => [fault.message]
  | .unwritable fault => [fault.message]
  | _ => []

def Failure.chain : Failure → List String
  | .unconfigured path error => ["Failed to load config from " ++ path, error.message]
  | .unserved error => [error.message]
  | .unlisted directory fault =>
    ["Failed to list " ++ directory,
      "IO error for operation on " ++ directory ++ ": " ++ fault.message, fault.message]
  | .notFiles paths => ["Not a file: " ++ Text.quotedList paths]
  | .noFiles => ["No files specified."]
  | .unreadable path fault => ["Failed to read SQL file " ++ path, fault.message]
  | .malformed path defect => ["Failed to parse view in " ++ path, defect.message]
  | .uninlined path defect => ["Failed to inline dependencies into " ++ path, defect.message]
  | .silent fault => [fault.message]
  | .unwritten path fault => ["Failed to write " ++ path, fault.message]
  | .sequence error => error.message :: sequenceCauses error

def indented (indent : String) (text : String) : String :=
  String.ofList (text.toList.flatMap fun c => if c = '\n' then '\n' :: indent.toList else [c])

def numbered (n : Nat) : List String → String
  | [] => ""
  | cause :: rest =>
    let number := toString n
    String.ofList (List.replicate (5 - number.length) ' ') ++ number ++ ": " ++
      indented "       " cause ++ "\n" ++ numbered (n + 1) rest

/-- The message of a failure: a single cause is set in, several are numbered. -/
def Failure.message (failure : Failure) : String :=
  match failure.chain with
  | [] => ""
  | [first] => "Error: " ++ first ++ "\n"
  | [first, cause] =>
    "Error: " ++ first ++ "\n\nCaused by:\n    " ++ indented "    " cause ++ "\n"
  | first :: causes => "Error: " ++ first ++ "\n\nCaused by:\n" ++ numbered 0 causes

end ViewRollout.Command
