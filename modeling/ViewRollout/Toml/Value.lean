import ViewRollout.Table
import ViewRollout.Toml.Datetime

/-!
# TOML values

The data that a TOML document holds, and the rules by which keys and headers build tables. A table
remembers how it came about, because that decides who may add to it: a key with dots adds only to
tables that such keys made, a header only to tables that are implied by other headers.
-/

namespace ViewRollout.Toml

/-- How a table came about: in braces as a value, by a header of its own, implied by the headers of
tables inside it, or by a key with dots. -/
inductive Origin where
  | inline
  | header
  | implied
  | dotted
  deriving DecidableEq, Repr

inductive Value where
  | string (text : String)
  | integer (n : Int)
  | float (literal : String)
  | boolean (b : Bool)
  | datetime (datetime : Datetime)
  | array (items : List Value)
  | table (origin : Origin) (entries : List (String × Value))
  /-- The tables of headers in double brackets, in their order. -/
  | tables (elements : List (List (String × Value)))

abbrev Entries := Table String Value

namespace Entries

/-- The entries with a value under a key with dots. A table may be passed on the way that headers
implied or put into an array, but nothing is put directly into one. -/
def define (value : Value) : List String → Entries → Option Entries
  | [], _ => none
  | [key], entries =>
    if Table.contains key entries then none else some (Table.put key value entries)
  | key :: inner :: rest, entries =>
    match Table.get? key entries with
    | none =>
      (define value (inner :: rest) []).map fun sub => Table.put key (.table .dotted sub) entries
    | some (.table .dotted sub) =>
      (define value (inner :: rest) sub).map fun sub => Table.put key (.table .dotted sub) entries
    | some (.table .implied sub) =>
      if rest = [] then none
      else (define value (inner :: rest) sub).map fun sub =>
        Table.put key (.table .implied sub) entries
    | some (.tables elements) =>
      if rest = [] then none
      else (define value (inner :: rest) (elements.getLast?.getD [])).map fun sub =>
        Table.put key (.tables (elements.dropLast ++ [sub])) entries
    | some _ => none

/-- The entries with those of the table at a path changed. Tables on the way that are not there
yet are implied; of an array of tables the last is meant. -/
def change (f : Entries → Option Entries) : List String → Entries → Option Entries
  | [], entries => f entries
  | key :: rest, entries =>
    match Table.get? key entries with
    | none => (change f rest []).map fun sub => Table.put key (.table .implied sub) entries
    | some (.table .inline _) => none
    | some (.table origin sub) =>
      (change f rest sub).map fun sub => Table.put key (.table origin sub) entries
    | some (.tables elements) =>
      (change f rest (elements.getLast?.getD [])).map fun sub =>
        Table.put key (.tables (elements.dropLast ++ [sub])) entries
    | some _ => none

/-- The entries with a table that a header names. One that was implied before gets its place now,
behind those that are there. -/
def openTable (key : String) (entries : Entries) : Option Entries :=
  match Table.get? key entries with
  | none => some (Table.put key (.table .header []) entries)
  | some (.table .implied sub) =>
    some (Table.put key (.table .header sub) (entries.filter (·.1 ≠ key)))
  | some _ => none

def openElement (key : String) (entries : Entries) : Option Entries :=
  match Table.get? key entries with
  | none => some (Table.put key (.tables [[]]) entries)
  | some (.tables elements) => some (Table.put key (.tables (elements ++ [[]])) entries)
  | some _ => none

end Entries

end ViewRollout.Toml
