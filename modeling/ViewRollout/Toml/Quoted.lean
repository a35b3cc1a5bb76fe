import ViewRollout.Toml.Spacing

/-!
# Quoted text in TOML

Text in double quotes knows escapes, text in single quotes none. In triple quotes it may hold
newlines and the quote itself, and up to two quotes may stand directly before the closing three.
-/

namespace ViewRollout.Toml

def escape? : Char → Option Char
  | 'b' => some '\x08'
  | 't' => some '\t'
  | 'n' => some '\n'
  | 'f' => some '\x0c'
  | 'r' => some '\r'
  | '"' => some '"'
  | '\\' => some '\\'
  | _ => none

def hexDigit? (c : Char) : Option Nat :=
  if c.isDigit then some (c.toNat - '0'.toNat)
  else if 'a' ≤ c ∧ c ≤ 'f' then some (c.toNat - 'a'.toNat + 10)
  else if 'A' ≤ c ∧ c ≤ 'F' then some (c.toNat - 'A'.toNat + 10)
  else none

def ofCode? (n : Nat) : Option Char :=
  if n.isValidChar then some (Char.ofNat n) else none

def ofDigits? (digits : List Char) : Option Char :=
  (digits.foldlM (fun n c => (hexDigit? c).map (n * 16 + ·)) 0).bind ofCode?

/-- The text up to a closing double quote, and what follows it; `done` is the text before, in
reverse. -/
def basicFrom (done : List Char) : List Char → Option (List Char × List Char)
  | '"' :: rest => some (done.reverse, rest)
  | '\\' :: 'u' :: a :: b :: c :: d :: rest =>
    (ofDigits? [a, b, c, d]).bind fun x => basicFrom (x :: done) rest
  | '\\' :: 'U' :: a :: b :: c :: d :: e :: f :: g :: h :: rest =>
    (ofDigits? [a, b, c, d, e, f, g, h]).bind fun x => basicFrom (x :: done) rest
  | '\\' :: c :: rest => (escape? c).bind fun x => basicFrom (x :: done) rest
  | c :: rest => if isPlain c && c != '\\' then basicFrom (c :: done) rest else none
  | [] => none

def literal? (text : List Char) : Option (List Char × List Char) :=
  match text.dropWhile fun c => isPlain c && c != '\'' with
  | '\'' :: rest => some (text.takeWhile fun c => isPlain c && c != '\'', rest)
  | _ => none

def dropNewline : List Char → List Char
  | '\n' :: rest => rest
  | '\r' :: '\n' :: rest => rest
  | text => text

def longLiteralFrom (done : List Char) : List Char → Option (List Char × List Char)
  | '\'' :: '\'' :: '\'' :: '\'' :: '\'' :: rest => some (('\'' :: '\'' :: done).reverse, rest)
  | '\'' :: '\'' :: '\'' :: '\'' :: rest => some (('\'' :: done).reverse, rest)
  | '\'' :: '\'' :: '\'' :: rest => some (done.reverse, rest)
  | '\r' :: '\n' :: rest => longLiteralFrom ('\n' :: done) rest
  | c :: rest => if isPlain c || c == '\n' then longLiteralFrom (c :: done) rest else none
  | [] => none

/-- What a backslash at the end of a line has already taken away: nothing, spaces on its own line,
or the end of the line with blank space after it. -/
inductive Fold where
  | none
  | line
  | gap
  deriving DecidableEq, Repr

def longBasicFrom (fold : Fold) (done : List Char) : List Char → Option (List Char × List Char)
  | [] => none
  | c :: rest =>
    if fold = .line then
      if isSpace c then longBasicFrom .line done rest
      else if c = '\n' then longBasicFrom .gap done rest
      else match c, rest with
        | '\r', '\n' :: rest => longBasicFrom .gap done rest
        | _, _ => none
    else if fold = .gap && (isSpace c || c == '\n') then longBasicFrom .gap done rest
    else match c, rest with
      | '"', '"' :: '"' :: '"' :: '"' :: rest => some (('"' :: '"' :: done).reverse, rest)
      | '"', '"' :: '"' :: '"' :: rest => some (('"' :: done).reverse, rest)
      | '"', '"' :: '"' :: rest => some (done.reverse, rest)
      | '\r', '\n' :: rest =>
        if fold = .gap then longBasicFrom .gap done rest
        else longBasicFrom .none ('\n' :: done) rest
      | '\\', 'u' :: a :: b :: c :: d :: rest =>
        (ofDigits? [a, b, c, d]).bind fun x => longBasicFrom .none (x :: done) rest
      | '\\', 'U' :: a :: b :: c :: d :: e :: f :: g :: h :: rest =>
        (ofDigits? [a, b, c, d, e, f, g, h]).bind fun x => longBasicFrom .none (x :: done) rest
      | '\\', '\n' :: rest => longBasicFrom .gap done rest
      | '\\', '\r' :: '\n' :: rest => longBasicFrom .gap done rest
      | '\\', c :: rest =>
        if isSpace c then longBasicFrom .line done rest
        else (escape? c).bind fun x => longBasicFrom .none (x :: done) rest
      | c, rest =>
        if (isPlain c && c != '\\') || c == '\n' then longBasicFrom .none (c :: done) rest
        else none

def quoted? : List Char → Option (List Char × List Char)
  | '"' :: '"' :: '"' :: rest => longBasicFrom .none [] (dropNewline rest)
  | '"' :: rest => basicFrom [] rest
  | '\'' :: '\'' :: '\'' :: rest => longLiteralFrom [] (dropNewline rest)
  | '\'' :: rest => literal? rest
  | _ => none

end ViewRollout.Toml
