import StatusWatch.Json.Reader
import StatusWatch.Settings.Basic
import StatusWatch.Settings.Environment
import StatusWatch.Toml.Document

/-!
# Loading settings

The settings of an observer come from three layers: their default values, an
optional file in TOML or JSON, and environment variables. Each layer is written over
the ones before it, and only the result is converted to the types of the settings.

- `SettingsFile`: a file by name and text; `SettingsFile.locate?` finds the one
  that a path, also one without an extension, stands for.
- `ObserverSettings.layer`: settings as a tree; `ObserverSettings.ofSetting` is the
  conversion back.
- `ObserverSettings.load`: all layers together.
-/

namespace StatusWatch

/-- Why settings cannot be loaded. -/
inductive LoadError where
  /-- The text of the file is not in the format of its name. -/
  | malformed (file : String)
  /-- A setting has a value of the wrong kind. -/
  | unfit (setting : String)
deriving DecidableEq

/-! ## Files -/

structure SettingsFile where
  name : String
  text : String

inductive SettingsFormat where
  | toml
  | json
deriving DecidableEq

namespace SettingsFormat

def all : List SettingsFormat := [.toml, .json]

/-- What the names of files in the format end with. -/
def ending : SettingsFormat → String
  | toml => ".toml"
  | json => ".json"

/-- The format of a file by its name. An ending is no name of its own. -/
def ofName? (name : String) : Option SettingsFormat :=
  all.find? fun format =>
    format.ending.toList.isSuffixOf name.toList && format.ending.length < name.length

end SettingsFormat

namespace SettingsFile

/-- The parts of a path inside one directory. Empty parts and `.` stay where they are. -/
def parts (path : String) : List String :=
  (path.splitOn "/").filter fun part => part ≠ "" && part ≠ "."

/-- Whether a path leads to a file, and not to what a directory holds or to the root. -/
def namesFile (path : String) : Bool :=
  match (path.splitOn "/").getLast? with
  | some part => part ≠ "" && part ≠ "."
  | none => false

/-- The path with an ending after its last part, which has to be a name. -/
def extend? (path ending : String) : Option (List String) :=
  match (parts path).reverse with
  | [] => none
  | last :: before => if last = ".." then none else some (before.reverse ++ [last ++ ending])

/-- The file that a relative path stands for: the file there, or else the one that has the
ending of a format after the last part. -/
def locate? (files : List SettingsFile) (path : String) : Option SettingsFile :=
  let named (ps : List String) := files.find? fun f => parts f.name = ps
  if path.startsWith "/" then none
  else
    (if namesFile path then named (parts path) else none).or
      (SettingsFormat.all.findSome? fun format => (extend? path format.ending).bind named)

end SettingsFile

mutual

/-- A JSON document as a setting. Numbers beyond 64 bits with a sign become floats. -/
def Json.setting : Json → Setting
  | .null => .null
  | .bool b => .bool b
  | .int n => if n < 0x8000000000000000 then .int n else .float (Float.ofInt n)
  | .float x => .float x
  | .string s => .text s
  | .array items => .list (settingItems items)
  | .object fields => .table (settingFields fields)

def Json.settingItems : List Json → List Setting
  | [] => []
  | item :: rest => item.setting :: settingItems rest

def Json.settingFields : List (String × Json) → List (String × Setting)
  | [] => []
  | (key, value) :: rest => (key, value.setting) :: settingFields rest

end

namespace SettingsFile

/-- What a file says. A file of no known format says nothing. -/
def settings (f : SettingsFile) : Except LoadError (List (String × Setting)) :=
  match SettingsFormat.ofName? f.name with
  | none => .ok []
  | some .toml =>
    match Toml.read? f.text with
    | some fields => .ok fields
    | none => .error (.malformed f.name)
  | some .json =>
    match Json.read? f.text with
    | some (.object fields) => .ok (Json.settingFields fields)
    | _ => .error (.malformed f.name)

end SettingsFile

/-! ## Conversion -/

/-- A part of a record: by name from a table, by its place from a list. -/
def Setting.member? (name : String) (place : Nat) : Setting → Option Setting
  | .table fields => OrderedMap.find? name fields
  | .list items => items[place]?
  | _ => none

/-- Whether a record can be read from a setting. -/
def Setting.isRecord : Setting → Bool
  | .table _ | .list _ => true
  | _ => false

/-- A part of a record that has a default value. -/
def Setting.part {α : Type} (root : Setting) (name : String) (place : Nat)
    (convert : Setting → Option α) (default : α) : Except LoadError α :=
  match root.member? name place with
  | none => .ok default
  | some value =>
    match convert value with
    | some a => .ok a
    | none => .error (.unfit name)

/-- A part of a record that is a record itself. -/
def Setting.inner {α : Type} (root : Setting) (name : String) (place : Nat)
    (convert : Setting → Except LoadError α) (default : α) : Except LoadError α :=
  match root.member? name place with
  | none => .ok default
  | some value => if value.isRecord then convert value else .error (.unfit name)

namespace MetricsSettings

/-- The settings as a tree. An empty projection is left out. -/
def layer (s : MetricsSettings) : Setting :=
  let projection : List (String × Setting) :=
    if s.labelProjection = [] then []
    else [("label_projection", .list (s.labelProjection.map .text))]
  .table (projection ++ [("legacy_metrics", .bool s.legacyMetrics), ("namespace", .text s.scope)])

def ofSetting (root : Setting) : Except LoadError MetricsSettings := do
  let base : MetricsSettings := default
  let scope ← root.part "namespace" 0 Setting.asText? base.scope
  let legacy ← root.part "legacy_metrics" 1 Setting.asBool? base.legacyMetrics
  let projection ← root.part "label_projection" 2 Setting.asTexts? base.labelProjection
  return ⟨scope, legacy, projection⟩

end MetricsSettings

namespace LoggingSettings

/-- The settings as a tree. -/
def layer (s : LoggingSettings) : Setting :=
  .table [("json", .bool s.json), ("level", .text s.level)]

def ofSetting (root : Setting) : Except LoadError LoggingSettings := do
  let base : LoggingSettings := default
  let level ← root.part "level" 0 Setting.asText? base.level
  let json ← root.part "json" 1 Setting.asBool? base.json
  return ⟨level, json⟩

end LoggingSettings

namespace ObserverSettings

/-- The settings as a tree. -/
def layer (s : ObserverSettings) : Setting :=
  .table
    [("logging", s.logging.layer),
      ("max_concurrent_reconciles", .int s.maxConcurrentReconciles.toNat),
      ("metrics", s.metrics.layer),
      ("requeue_interval_secs", .int s.requeueIntervalSecs.toNat)]

def ofSetting (root : Setting) : Except LoadError ObserverSettings := do
  let base : ObserverSettings := default
  let requeue ← root.part "requeue_interval_secs" 0 Setting.asUInt64? base.requeueIntervalSecs
  let limit ←
    root.part "max_concurrent_reconciles" 1 Setting.asUInt64? base.maxConcurrentReconciles
  let metrics ← root.inner "metrics" 2 MetricsSettings.ofSetting base.metrics
  let logging ← root.inner "logging" 3 LoggingSettings.ofSetting base.logging
  return ⟨requeue, limit, metrics, logging⟩

/-- The settings from the default values, from a file if one is asked for and exists, and
from environment variables; what comes later prevails. -/
def load (files : List SettingsFile) (name : Option String)
    (environment : List (String × String)) : Except LoadError ObserverSettings := do
  let inFile ← match name.bind (SettingsFile.locate? files) with
    | some file => file.settings
    | none => .ok []
  let base := (default : ObserverSettings).layer
  ofSetting ((base.overlay inFile).overlay (Environment.settings environment))

end ObserverSettings

end StatusWatch
