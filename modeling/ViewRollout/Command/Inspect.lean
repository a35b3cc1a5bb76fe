import ViewRollout.Command.Deploy
import ViewRollout.Text.Lines

/-!
# Inspecting views

What a view consists of, told in lines or as JSON. In JSON every member has a line of its own,
two spaces further in than what it belongs to, and an empty preamble is left out.
-/

namespace ViewRollout.Command

open View (Cte)

def jsonChar (c : Char) : List Char :=
  match c with
  | '"' => ['\\', '"']
  | '\\' => ['\\', '\\']
  | '\x08' => ['\\', 'b']
  | '\t' => ['\\', 't']
  | '\n' => ['\\', 'n']
  | '\x0c' => ['\\', 'f']
  | '\r' => ['\\', 'r']
  | c =>
    if c.toNat < 0x20 then
      let digits := Text.hex c.toNat
      ['\\', 'u'] ++ List.replicate (4 - digits.length) '0' ++ digits
    else [c]

def jsonString (text : String) : String :=
  String.ofList ('"' :: text.toList.flatMap jsonChar ++ ['"'])

def jsonMember (name value : String) : String :=
  jsonString name ++ ": " ++ value

/-- What stands between brackets, a line for each item, in an outer line with that indent. -/
def jsonLines (opening closing indent : String) (items : List String) : String :=
  if items = [] then opening ++ closing
  else opening ++ "\n" ++
    String.intercalate ",\n" (items.map fun item => indent ++ "  " ++ item) ++
    "\n" ++ indent ++ closing

def jsonCte (cte : Cte) : String :=
  jsonLines "\x7b" "\x7d" "    "
    [jsonMember "name" (jsonString cte.name), jsonMember "body" (jsonString cte.body)]

def jsonView (view : View) : String :=
  jsonLines "\x7b" "\x7d" "" (
    [jsonMember "name" (jsonString view.name)] ++
    (if view.preamble = "" then [] else [jsonMember "preamble" (jsonString view.preamble)]) ++
    [jsonMember "header" (jsonString view.header),
      jsonMember "ctes" (jsonLines "[" "]" "  " (view.ctes.map jsonCte)),
      jsonMember "body" (jsonString view.body)])

def lineCount (text : String) : String :=
  toString (Text.lines text.toList).length

def describeCtes (n : Nat) : List Cte → String
  | [] => ""
  | cte :: rest =>
    "  " ++ toString n ++ ". " ++ cte.name ++ " (" ++ lineCount cte.body ++ " lines)\n" ++
      describeCtes (n + 1) rest

def describe (view : View) : String :=
  "View: " ++ view.name ++ "\nHeader: " ++ view.header ++ "\n" ++
    (if view.preamble = "" then ""
      else "Preamble: " ++ lineCount view.preamble ++ " lines\n") ++
    "CTEs: " ++ toString view.ctes.length ++ "\n" ++ describeCtes 1 view.ctes ++
    "Body:\n" ++ view.body ++ "\n"

def inspect {m : Type → Type} [Monad m] [Host m] (path : String) (json : Bool) :
    ExceptT Failure m Unit := do
  let view ← loadView path
  say (if json then jsonView view ++ "\n" else describe view)

end ViewRollout.Command
