import ViewRollout.Toml.Value

/-!
# Dates that pass as tables

Where a table is asked for, a date passes as one with a single entry: its text, under a key of its
own. The other way round, a table inside a document that begins with this key passes as the date
that the text under it says. When it says none, the table has no value.
-/

namespace ViewRollout.Toml

def dateKey : String :=
  "$__toml_private_datetime"

def Value.entries? : Value → Option Entries
  | .table _ entries => some entries
  | .datetime d => some [(dateKey, .string d.text)]
  | _ => none

def Value.isDateText : Value → Bool
  | .string text => (Datetime.read? text.toList).isSome
  | _ => false

/-- Whether a table passes as a date, whatever it has besides its first entry. -/
def Entries.passesAsDate : Entries → Bool
  | (key, value) :: _ => key = dateKey && value.isDateText
  | [] => false

mutual

/-- Whether all tables in a value have values themselves. -/
def Value.isSound : Value → Bool
  | .array items => soundItems items
  | .table _ entries => soundTable entries
  | .tables elements => soundTables elements
  | _ => true

def soundItems : List Value → Bool
  | [] => true
  | item :: rest => item.isSound && soundItems rest

def soundTable : List (String × Value) → Bool
  | [] => true
  | (key, value) :: rest =>
    if key = dateKey then value.isDateText else value.isSound && soundEntries rest

def soundTables : List (List (String × Value)) → Bool
  | [] => true
  | entries :: rest => soundTable entries && soundTables rest

def soundEntries : List (String × Value) → Bool
  | [] => true
  | (_, value) :: rest => value.isSound && soundEntries rest

end

end ViewRollout.Toml
