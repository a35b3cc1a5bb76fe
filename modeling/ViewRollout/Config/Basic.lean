import ViewRollout.Config.Environment
import ViewRollout.Config.Layer
import ViewRollout.Files.Fault
import ViewRollout.Substitution

/-!
# Configurations

A configuration lists the placeholders of schemas and holds the settings of the environments. It is
built of layers: what a later layer sets wins over what earlier ones set, key by key.
-/

namespace ViewRollout.Config

structure Settings where
  host : Option String
  port : Option UInt16
  username : Option String
  password : Option String
  check : Bool
  schemas : Table String String
  deriving DecidableEq, Repr

def Settings.unset : Settings :=
  ⟨none, none, none, none, true, []⟩

def Settings.withLayer (settings : Settings) (layer : SettingsLayer) : Settings where
  host := layer.host.or settings.host
  port := layer.port.or settings.port
  username := layer.username.or settings.username
  password := layer.password.or settings.password
  check := layer.check.getD settings.check
  schemas := settings.schemas.putAll layer.schemas

end Config

open Config (Environment Layer Settings)

structure Config where
  schemas : List String
  environments : Table String Settings
  /-- The directory of the file that the configuration was read from first. -/
  home : Option String
  deriving DecidableEq, Repr

namespace Config

def standardSchemas : List String :=
  ["reporting", "warehouse", "events"]

def default : Config :=
  ⟨standardSchemas, [], none⟩

def layerEnvironments (environments : Table String Settings)
    (layers : Table String SettingsLayer) : Table String Settings :=
  layers.foldl (fun environments (name, layer) =>
    environments.put name (((environments.get? name).getD .unset).withLayer layer)) environments

def withLayer (config : Config) (layer : Layer) : Config :=
  { config with
    schemas := layer.schemas.getD config.schemas
    environments := layerEnvironments config.environments layer.environments }

inductive Error where
  | unreadable (path : String) (fault : Files.Fault)
  | notConfig
  | noEnvironment (environment : Environment)
  | noSchema (environment : Environment) (placeholder : String)
  deriving DecidableEq, Repr

def Error.message : Error → String
  | .unreadable path fault => "IO error: " ++ path ++ ": " ++ fault.message
  | .notConfig => "Parse error: not a document of a configuration"
  | .noEnvironment environment => "Environment not found in config: " ++ environment.name
  | .noSchema environment placeholder =>
    "Environment '" ++ environment.name ++ "' has no mapping for schema '" ++ placeholder ++ "'"

def layered (config : Config) : Option Layer → Except Error Config
  | some layer => .ok (config.withLayer layer)
  | none => .error .notConfig

def withText (config : Config) (text : String) : Except Error Config :=
  config.layered (Layer.parseOver text)

def parse (text : String) : Except Error Config :=
  default.layered (Layer.parse text)

def settings (config : Config) (environment : Environment) : Except Error Settings :=
  match Table.get? environment.name config.environments with
  | some settings => .ok settings
  | none => .error (.noEnvironment environment)

def namesIn (environment : Environment) (settings : Settings) :
    List String → Except Error (List (String × String))
  | [] => .ok []
  | placeholder :: rest =>
    match Table.get? placeholder settings.schemas with
    | none => .error (.noSchema environment placeholder)
    | some schema => (namesIn environment settings rest).map ((placeholder, schema) :: ·)

def substitution (config : Config) (environment : Environment) : Except Error Substitution :=
  match config.settings environment with
  | .error error => .error error
  | .ok settings => (namesIn environment settings config.schemas).map Substitution.ofNames

end Config

end ViewRollout
