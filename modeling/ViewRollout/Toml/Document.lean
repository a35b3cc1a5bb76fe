import ViewRollout.Toml.Plain
import ViewRollout.Toml.Quoted

/-!
# TOML documents

A document is read line by line: keys with values go into the table that the last header named.
Every reader gives what it read and what follows, and none when the text is not as it should be. A
key has no more than 79 parts, and values nest no deeper than 79 times; other limits only say how
much text there is to read.
-/

namespace ViewRollout.Toml

def isBareKeyChar (c : Char) : Bool :=
  c.isAlphanum || c == '_' || c == '-'

def keyPart? : List Char → Option (String × List Char)
  | '"' :: rest => (basicFrom [] rest).map fun (key, rest) => (String.ofList key, rest)
  | '\'' :: rest => (literal? rest).map fun (key, rest) => (String.ofList key, rest)
  | text =>
    match text.takeWhile isBareKeyChar with
    | [] => none
    | key => some (String.ofList key, text.dropWhile isBareKeyChar)

def keyUpTo? : Nat → List Char → Option (List String × List Char)
  | 0, _ => none
  | limit + 1, text =>
    (keyPart? (dropSpaces text)).bind fun (part, rest) =>
      match dropSpaces rest with
      | '.' :: rest => (keyUpTo? limit rest).map fun (parts, rest) => (part :: parts, rest)
      | rest => some ([part], rest)

def key? (text : List Char) : Option (List String × List Char) :=
  keyUpTo? 79 text

/-- The items of an array after its bracket and the gap behind that; no more than `limit`. -/
def items? (value : List Char → Option (Value × List Char)) :
    Nat → List Char → Option (List Value × List Char)
  | _, ']' :: rest => some ([], rest)
  | 0, _ => none
  | limit + 1, text =>
    (value text).bind fun (item, rest) =>
      match dropGap false rest with
      | ',' :: rest =>
        (items? value limit (dropGap false rest)).map fun (items, rest) => (item :: items, rest)
      | ']' :: rest => some ([item], rest)
      | _ => none

def keyValue? (value : List Char → Option (Value × List Char)) (text : List Char) :
    Option ((List String × Value) × List Char) :=
  (key? text).bind fun (key, rest) =>
    match rest with
    | '=' :: rest => (value (dropSpaces rest)).map fun (v, rest) => ((key, v), rest)
    | _ => none

def pairs? (value : List Char → Option (Value × List Char)) :
    Nat → List Char → Option (List (List String × Value) × List Char)
  | 0, _ => none
  | limit + 1, text =>
    (keyValue? value text).bind fun (first, rest) =>
      match dropSpaces rest with
      | ',' :: rest => (pairs? value limit rest).map fun (more, rest) => (first :: more, rest)
      | '\x7d' :: rest => some ([first], rest)
      | _ => none

def tableOf (pairs : List (List String × Value)) : Option Entries :=
  pairs.foldlM (fun entries (key, value) => Entries.define value key entries) []

def valueUpTo? : Nat → List Char → Option (Value × List Char)
  | depth, text =>
    match text with
    | [] => none
    | c :: rest =>
      if c = '"' || c = '\'' then
        (quoted? text).map fun (s, rest) => (.string (String.ofList s), rest)
      else match depth with
        | 0 => plain? text
        | depth + 1 =>
          if c = '[' then
            (items? (valueUpTo? depth) text.length (dropGap false rest)).map fun (items, rest) =>
              (.array items, rest)
          else if c = '\x7b' then
            match dropSpaces rest with
            | '\x7d' :: rest => some (.table .inline [], rest)
            | rest =>
              (pairs? (valueUpTo? depth) text.length rest).bind fun (pairs, rest) =>
                (tableOf pairs).map fun entries => (.table .inline entries, rest)
          else plain? text

def value? (text : List Char) : Option (Value × List Char) :=
  valueUpTo? 79 text

structure Reading where
  root : Entries
  current : List String

/-- The reading after a header, which names a table or an element of an array of tables. -/
def Reading.header (reading : Reading) (element : Bool) (path : List String) : Option Reading :=
  path.getLast?.bind fun key =>
    let opened := if element then Entries.openElement key else Entries.openTable key
    (Entries.change opened path.dropLast reading.root).map fun root => ⟨root, path⟩

def Reading.define (reading : Reading) (key : List String) (value : Value) : Option Reading :=
  (Entries.change (Entries.define value key) reading.current reading.root).map fun root =>
    { reading with root := root }

def Reading.line (reading : Reading) (text : List Char) : Option (Reading × List Char) :=
  match text with
  | '[' :: '[' :: rest =>
    (key? rest).bind fun (path, rest) =>
      match rest with
      | ']' :: ']' :: rest =>
        (lineEnd? rest).bind fun rest => (reading.header true path).map fun r => (r, rest)
      | _ => none
  | '[' :: rest =>
    (key? rest).bind fun (path, rest) =>
      match rest with
      | ']' :: rest =>
        (lineEnd? rest).bind fun rest => (reading.header false path).map fun r => (r, rest)
      | _ => none
  | text =>
    match lineEnd? text with
    | some rest => some (reading, rest)
    | none =>
      (keyValue? value? text).bind fun ((key, value), rest) =>
        (lineEnd? rest).bind fun rest => (reading.define key value).map fun r => (r, rest)

def Reading.lines : Nat → Reading → List Char → Option Reading
  | _, reading, [] => some reading
  | 0, _, _ => none
  | limit + 1, reading, text =>
    (reading.line (dropSpaces text)).bind fun (reading, rest) => Reading.lines limit reading rest

def document? (text : String) : Option Entries :=
  -- A mark of the byte order may stand at the front.
  let text := match text.toList with
    | '\uFEFF' :: rest => rest
    | text => text
  (Reading.lines text.length ⟨[], []⟩ text).map (·.root)

end ViewRollout.Toml
