import ViewRollout.Text.UnshownTable

/-!
# Quoted text

A text in double quotes with everything in it made visible: a quote and a backslash are written
after a backslash, the common controls by their letters, and each other character that cannot be
shown by its code point in braces.
-/

namespace ViewRollout.Text

def hex (n : Nat) : List Char :=
  Nat.toDigits 16 n

def isShown (c : Char) : Bool :=
  if c.toNat < 0x80 then 0x20 ≤ c.toNat && c.toNat < 0x7F else !unshownRanges.contains c

def quoteChar (c : Char) : List Char :=
  match c with
  | '"' => ['\\', '"']
  | '\\' => ['\\', '\\']
  | '\n' => ['\\', 'n']
  | '\r' => ['\\', 'r']
  | '\t' => ['\\', 't']
  | '\x00' => ['\\', '0']
  | c => if isShown c then [c] else ['\\', 'u', '\x7b'] ++ hex c.toNat ++ ['\x7d']

def quoted (text : String) : String :=
  String.ofList ('"' :: text.toList.flatMap quoteChar ++ ['"'])

def quotedList (texts : List String) : String :=
  "[" ++ String.intercalate ", " (texts.map quoted) ++ "]"

end ViewRollout.Text
