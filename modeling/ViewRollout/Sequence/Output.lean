import ViewRollout.Files.Path
import ViewRollout.Host
import ViewRollout.Sequence.Basic

/-!
# Putting sequences out

A sequence is listed entry by entry, or its patches are put out one after the other. Each patch
comes after statements that enter it into the history of the database; only the patch that makes
the history comes before its own.
-/

namespace ViewRollout.Sequence

open Files (Path.join)

variable {m : Type → Type} [Monad m] [Host m]

def historyTablePatch : String :=
  "schema/db_history.sql"

def historyStatements (filename : String) : String :=
  "\n-- DB history entry for " ++ filename ++ "\n" ++
    "INSERT INTO db_history (filename) VALUES ('" ++ filename ++ "');\n" ++
    "SET @current_patch_id=LAST_INSERT_ID();\n\n"

def print (text : String) : ExceptT Error m Unit :=
  attempt .unwritable (Host.print text)

def load (path : String) : ExceptT Error m Sequence := do
  let text ← attempt (.unreadable path) (readText path)
  return parse text

def missing (root : String) : List String → m (List String)
  | [] => pure []
  | filename :: rest => do
    let isFile ← Host.isFile (Path.join root filename)
    let others ← missing root rest
    return if isFile then others else filename :: others

def check (s : Sequence) (root : String) : ExceptT Error m Unit := do
  match ← ExceptT.lift (missing root s.filenames) with
  | [] => return ()
  | filenames => throw (.noSuchFiles filenames)

def printEntries : List Entry → ExceptT Error m Unit
  | [] => pure ()
  | entry :: rest => do
    print (entry.display ++ "\n")
    printEntries rest

def list (s : Sequence) : ExceptT Error m Unit := do
  if s.isEmpty then
    print "No entries\n"
  printEntries s.entries

def readPatch (root filename : String) (ascii : Bool) : ExceptT Error m String := do
  let path := Path.join root filename
  let text ← attempt (.unreadable path) (readText path)
  let text := Text.trim text.toList
  if ascii && !text.all (·.toNat < 0x80) then
    throw (.notAscii filename)
  return String.ofList text

def catPatch (root filename : String) (ascii : Bool) : ExceptT Error m Unit := do
  -- The table has to be there before a row can go into it.
  if filename = historyTablePatch then
    print ((← readPatch root filename ascii) ++ "\n")
    print (historyStatements filename)
  else
    print (historyStatements filename)
    print ((← readPatch root filename ascii) ++ "\n")

def catPatches (root : String) (ascii : Bool) : List String → ExceptT Error m Unit
  | [] => pure ()
  | filename :: rest => do
    catPatch root filename ascii
    catPatches root ascii rest

def cat (s : Sequence) (root : String) (ascii : Bool) : ExceptT Error m Unit :=
  catPatches root ascii s.filenames

end ViewRollout.Sequence
