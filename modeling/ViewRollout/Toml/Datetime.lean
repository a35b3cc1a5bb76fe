/-!
# Dates and times in TOML

A date, a time of day, or both with or without the distance from UTC. `Datetime.text` writes all
that was read in one way: `T` between date and time, `Z` for UTC, and no more than nine digits of a
fraction, without zeros at its end.
-/

namespace ViewRollout.Toml

structure Date where
  year : Nat
  month : Nat
  day : Nat
  deriving DecidableEq, Repr

structure Time where
  hour : Nat
  minute : Nat
  second : Nat
  fraction : List Char
  deriving DecidableEq, Repr

inductive Offset where
  | utc
  | hours (west : Bool) (hour minute : Nat)
  deriving DecidableEq, Repr

inductive Datetime where
  | date (date : Date)
  | time (time : Time)
  | both (date : Date) (time : Time) (offset : Option Offset)
  deriving DecidableEq, Repr

def twoDigits? (a b : Char) : Option Nat :=
  if a.isDigit && b.isDigit then some ((a.toNat - '0'.toNat) * 10 + (b.toNat - '0'.toNat)) else none

def daysIn (year month : Nat) : Nat :=
  if month = 2 then
    if year % 4 = 0 ∧ (year % 100 ≠ 0 ∨ year % 400 = 0) then 29 else 28
  else if month ∈ [4, 6, 9, 11] then 30 else 31

def date? : List Char → Option (Date × List Char)
  | a :: b :: c :: d :: '-' :: e :: f :: '-' :: g :: h :: rest =>
    match twoDigits? a b, twoDigits? c d, twoDigits? e f, twoDigits? g h with
    | some century, some year, some month, some day =>
      let year := century * 100 + year
      if 1 ≤ month && month ≤ 12 && 1 ≤ day && day ≤ daysIn year month then
        some (⟨year, month, day⟩, rest)
      else none
    | _, _, _, _ => none
  | _ => none

def significant (digits : List Char) : List Char :=
  ((digits.take 9).reverse.dropWhile (· == '0')).reverse

def fraction? : List Char → Option (List Char × List Char)
  | '.' :: rest =>
    match rest.takeWhile Char.isDigit with
    | [] => none
    | digits => some (significant digits, rest.dropWhile Char.isDigit)
  | rest => some ([], rest)

/-- The time of day at the front of a text, and what follows it. A minute may have a leap second. -/
def time? : List Char → Option (Time × List Char)
  | a :: b :: ':' :: c :: d :: ':' :: e :: f :: rest =>
    match twoDigits? a b, twoDigits? c d, twoDigits? e f with
    | some hour, some minute, some second =>
      if hour ≤ 23 && minute ≤ 59 && second ≤ 60 then
        (fraction? rest).map fun (fraction, rest) => (⟨hour, minute, second, fraction⟩, rest)
      else none
    | _, _, _ => none
  | _ => none

/-- The offset that a text is, if it is not empty; none when it is neither. -/
def offset? : List Char → Option (Option Offset)
  | [] => some none
  | ['Z'] => some (some .utc)
  | ['z'] => some (some .utc)
  | [sign, a, b, ':', c, d] =>
    match twoDigits? a b, twoDigits? c d with
    | some hour, some minute =>
      if (sign = '+' || sign = '-') && hour ≤ 23 && minute ≤ 59 then
        some (some (.hours (sign = '-') hour minute))
      else none
    | _, _ => none
  | _ => none

namespace Datetime

def read? (text : List Char) : Option Datetime :=
  match date? text with
  | none =>
    match time? text with
    | some (t, []) => some (.time t)
    | _ => none
  | some (d, []) => some (.date d)
  | some (d, c :: rest) =>
    if c = 'T' || c = 't' || c = ' ' then
      (time? rest).bind fun (t, rest) => (offset? rest).map (.both d t ·)
    else none

def padded (width n : Nat) : String :=
  String.ofList (List.replicate (width - (toString n).length) '0') ++ toString n

def dateText (d : Date) : String :=
  padded 4 d.year ++ "-" ++ padded 2 d.month ++ "-" ++ padded 2 d.day

def timeText (t : Time) : String :=
  padded 2 t.hour ++ ":" ++ padded 2 t.minute ++ ":" ++ padded 2 t.second ++
    if t.fraction = [] then "" else "." ++ String.ofList t.fraction

/-- An offset of no time is written with a plus. -/
def offsetText : Offset → String
  | .utc => "Z"
  | .hours west hour minute =>
    let sign := if west && (hour, minute) ≠ (0, 0) then "-" else "+"
    sign ++ padded 2 hour ++ ":" ++ padded 2 minute

def text : Datetime → String
  | .date d => dateText d
  | .time t => timeText t
  | .both d t none => dateText d ++ "T" ++ timeText t
  | .both d t (some offset) => dateText d ++ "T" ++ timeText t ++ offsetText offset

end Datetime

end ViewRollout.Toml
