import ViewRollout.Text.Blank

/-!
# Scripts

A script is a text of statements, each closed by a semicolon and followed by an empty line.
-/

namespace ViewRollout.Command

def terminated (statement : List Char) : List Char :=
  let statement := Text.trimEnd statement
  if statement.getLast? = some ';' then statement else statement ++ [';']

def script (statements : List String) : String :=
  String.ofList (statements.flatMap fun statement => terminated statement.toList ++ ['\n', '\n'])

end ViewRollout.Command
