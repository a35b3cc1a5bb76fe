import ViewRollout.Toml.DateTable
import ViewRollout.Toml.Document

/-!
# Layers of configuration

A layer is what one document sets, and no more: a key that the document does not mention is none.
A document with a value of the wrong kind under a known key is no layer. In the table of an
environment every key that is not a setting names a schema.
-/

namespace ViewRollout.Config

open Toml (Value Entries)

structure SettingsLayer where
  host : Option String
  port : Option UInt16
  username : Option String
  password : Option String
  check : Option Bool
  schemas : Table String String
  deriving DecidableEq, Repr

def SettingsLayer.empty : SettingsLayer :=
  ⟨none, none, none, none, none, []⟩

structure Layer where
  schemas : Option (List String)
  environments : Table String SettingsLayer
  deriving DecidableEq, Repr

def string? : Value → Option String
  | .string text => some text
  | _ => none

def boolean? : Value → Option Bool
  | .boolean b => some b
  | _ => none

def port? : Value → Option UInt16
  | .integer n => if 0 ≤ n ∧ n < 65536 then some (UInt16.ofNat n.toNat) else none
  | _ => none

def strings? : Value → Option (List String)
  | .array items => items.mapM string?
  | _ => none

def SettingsLayer.set (layer : SettingsLayer) (key : String) (value : Value) :
    Option SettingsLayer :=
  if key = "host" then (string? value).map fun host => { layer with host := some host }
  else if key = "port" then (port? value).map fun port => { layer with port := some port }
  else if key = "username" then
    (string? value).map fun username => { layer with username := some username }
  else if key = "password" then
    (string? value).map fun password => { layer with password := some password }
  else if key = "check" then (boolean? value).map fun check => { layer with check := some check }
  else
    (string? value).map fun schema => { layer with schemas := layer.schemas.put key schema }

def SettingsLayer.ofEntries (entries : Entries) : Option SettingsLayer :=
  entries.foldlM (fun layer (key, value) => layer.set key value) .empty

def Layer.ofEntries (settings : Entries → Option SettingsLayer) (document : Entries) :
    Option Layer := do
  let schemas ← match Table.get? "schemas" document with
    | none => some none
    | some value => (strings? value).map some
  let environments ← match Table.get? "environments" document with
    | none => some []
    | some value => value.entries?
  let environments ← environments.mapM fun (name, value) =>
    (value.entries?.bind settings).map fun layer => (name, layer)
  return ⟨schemas, environments⟩

def Layer.parse (text : String) : Option Layer :=
  (Toml.document? text).bind (Layer.ofEntries SettingsLayer.ofEntries)

/-- What a table sets over other settings. One that passes as a date leaves their check alone. -/
def SettingsLayer.overlay (entries : Entries) : Option SettingsLayer :=
  (SettingsLayer.ofEntries entries).map fun layer =>
    if entries.passesAsDate then { layer with check := none } else layer

/-- The layer of a text that goes over others. All tables of the document have to have values, also
those that set nothing. -/
def Layer.parseOver (text : String) : Option Layer :=
  (Toml.document? text).bind fun document =>
    if Toml.soundEntries document then Layer.ofEntries SettingsLayer.overlay document else none

end ViewRollout.Config
