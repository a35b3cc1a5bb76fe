import ViewRollout.Files.Fault
import ViewRollout.Text.Utf8

/-!
# Hosts

What a run asks of the machine it runs on: files to read and one to write, answers of a person, a
place to print to and another for messages, and the variables of its environment. Everything else a
run does is computed from what the host gives, so it can be run against real files and against a
described world alike.
-/

namespace ViewRollout

open Files (Fault)

class Host (m : Type → Type) where
  readBytes : String → m (Except Fault Bytes)
  isFile : String → m Bool
  isThere : String → m Bool
  /-- The names in a directory, in order, each with whether it is that of a file. -/
  list : String → m (Except Fault (List (String × Bool)))
  writeBytes : String → Bytes → m (Except Fault Unit)
  print : String → m (Except Fault Unit)
  report : String → m Unit
  /-- Prints a cue and reads a line, again and again until a line decides; none when the input
  ends before that. -/
  query : {α : Type} → String → (String → Option α) → m (Except Fault (Option α))
  valueOf? : String → m (Option String)

def textOf (bytes : Bytes) : Except Fault String :=
  match Text.decode? bytes with
  | some text => .ok text
  | none => .error .notText

variable {m : Type → Type} [Monad m]

def readText [Host m] (path : String) : m (Except Fault String) := do
  return (← Host.readBytes path).bind textOf

def attempt {ε α : Type} (error : Fault → ε) (action : m (Except Fault α)) : ExceptT ε m α :=
  ExceptT.mk do
    match ← action with
    | .ok a => pure (.ok a)
    | .error fault => pure (.error (error fault))

end ViewRollout
