import ViewRollout.Toml.Value

/-!
# Plain values in TOML

Booleans, numbers, dates and times are written without quotes. Integers have 64 bits; underscores
may part their digits. A float has a fraction or an exponent, and is refused when it is too large
to be finite.
-/

namespace ViewRollout.Toml

def digits? (ok : Char → Bool) : List Char → Option (List Char)
  | [] => none
  | [c] => if ok c then some [c] else none
  | c :: '_' :: rest => if ok c then (digits? ok rest).map (c :: ·) else none
  | c :: rest => if ok c then (digits? ok rest).map (c :: ·) else none

def decimal? (text : List Char) : Option (List Char) :=
  match digits? Char.isDigit text with
  | some ('0' :: _ :: _) => none
  | digits => digits

def ofDigits (base : Nat) (digits : List Char) : Nat :=
  digits.foldl (fun n c =>
    n * base + (if c.isDigit then c.toNat - '0'.toNat else c.toLower.toNat - 'a'.toNat + 10)) 0

def isHexDigit (c : Char) : Bool :=
  c.isDigit || ('a' ≤ c.toLower && c.toLower ≤ 'f')

def sign : List Char → Bool × List Char
  | '+' :: rest => (false, rest)
  | '-' :: rest => (true, rest)
  | text => (false, text)

def signed? (n : Int) : Option Int :=
  if -0x8000000000000000 ≤ n ∧ n < 0x8000000000000000 then some n else none

def integer? (text : List Char) : Option Int :=
  match text with
  | '0' :: 'x' :: rest => (digits? isHexDigit rest).bind fun ds => signed? (ofDigits 16 ds)
  | '0' :: 'o' :: rest =>
    (digits? (fun c => '0' ≤ c && c ≤ '7') rest).bind fun ds => signed? (ofDigits 8 ds)
  | '0' :: 'b' :: rest =>
    (digits? (fun c => c == '0' || c == '1') rest).bind fun ds => signed? (ofDigits 2 ds)
  | text =>
    let (negative, rest) := sign text
    (decimal? rest).bind fun ds =>
      signed? (if negative then -(ofDigits 10 ds : Int) else ofDigits 10 ds)

/-- Whether the digits times that power of ten round to a finite number of 53 bits' precision. -/
def isFinite (digits : List Char) (exponent : Int) : Bool :=
  let significant := digits.dropWhile (· == '0')
  let magnitude := (significant.length : Int) + exponent
  if significant = [] || magnitude < 309 then true
  else if 309 < magnitude then false
  else
    let limit := Nat.pow 2 1024 - Nat.pow 2 970
    let n := ofDigits 10 significant
    if exponent < 0 then n < limit * Nat.pow 10 (-exponent).toNat
    else n * Nat.pow 10 exponent.toNat < limit

def isParted (c : Char) : Bool :=
  c.isDigit || c == '_'

def isFloat (text : List Char) : Bool :=
  let (negative, rest) := sign text
  if rest = ['i', 'n', 'f'] || rest = ['n', 'a', 'n'] then true
  else
    let whole := rest.takeWhile isParted
    let (fraction, after) := match rest.drop whole.length with
      | '.' :: after => (some (after.takeWhile isParted), after.dropWhile isParted)
      | after => (none, after)
    let exponent := match after with
      | [] => if fraction.isSome then some 0 else none
      | c :: after =>
        if c == 'e' || c == 'E' then
          let (negative, after) := sign after
          (digits? Char.isDigit after).map fun ds =>
            if negative then -(ofDigits 10 ds : Int) else (ofDigits 10 ds : Int)
        else none
    match decimal? whole, fraction.map (digits? Char.isDigit), exponent with
    | some whole, none, some exponent => negative || isFinite whole exponent
    | some whole, some (some fraction), some exponent =>
      negative || isFinite (whole ++ fraction) (exponent - fraction.length)
    | _, _, _ => false

def isPlainValueChar (c : Char) : Bool :=
  c.isAlphanum || c == '+' || c == '-' || c == '_' || c == '.' || c == ':'

/-- The longest text at the front that could be a plain value. A date goes on after a space when a
digit follows it. -/
def plainText (text : List Char) : List Char :=
  let first := text.takeWhile isPlainValueChar
  match date? first, text.drop first.length with
  | some (_, []), ' ' :: c :: rest =>
    if c.isDigit then first ++ ' ' :: (c :: rest).takeWhile isPlainValueChar else first
  | _, _ => first

def plain? (text : List Char) : Option (Value × List Char) :=
  let written := plainText text
  let rest := text.drop written.length
  if written = ['t', 'r', 'u', 'e'] then some (.boolean true, rest)
  else if written = ['f', 'a', 'l', 's', 'e'] then some (.boolean false, rest)
  else
    match Datetime.read? written with
    | some datetime => some (.datetime datetime, rest)
    | none =>
      if isFloat written then some (.float (String.ofList written), rest)
      else (integer? written).map fun n => (.integer n, rest)

end ViewRollout.Toml
