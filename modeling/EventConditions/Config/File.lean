import EventConditions.Config.Storage
import EventConditions.Folder
import EventConditions.Log

/-!
# Configuration files

A configuration file holds the stored form of one configuration. Only the configuration is kept;
states come back by feeding the events again.
-/

namespace EventConditions.Config

/-- Saves a configuration in place of what the file held. -/
def save (c : Config) (folder : Folder) (name : String) : Logged Error Folder :=
  match folder.write? name c.toBytes with
  | none => Logged.fail { cause := .storage s!"failed to create file '{name}'" }
  | some folder => do
    Logged.log .debug s!"saved configuration to {name}"
    return folder

/-- Loads the configuration in a file. If the file holds none, the error names it as its source. -/
def load (folder : Folder) (name : String) : Except Error Config :=
  match folder.open? name with
  | none => .error { cause := .storage s!"failed to open file '{name}'" }
  | some .folder => .error { cause := .storage s!"failed to read file '{name}'" }
  | some (.file bytes) =>
    match ofBytes bytes with
    | .ok c => .ok c
    | .error e => .error (e.placedAt { source := some name })

end EventConditions.Config
