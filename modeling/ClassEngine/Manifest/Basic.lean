import ClassEngine.FileTree.Path
import ClassEngine.Text.Case
import ClassEngine.Toml.Document

/-!
Projects as their manifests describe them. A manifest is a table of tables; a key belongs to the
setting whose name it spells up to letter case, a key that spells no setting is passed over, and a
value of the wrong kind spoils the manifest.
-/

namespace ClassEngine

/-- A project. -/
structure Manifest where
  name : Text
  version : Text
  /-- The class whose entry point is run; empty when none is set. -/
  main : Text
  /-- The deepest permitted call chain; zero leaves it to the engine. -/
  maxDepth : Int
  /-- Where the classes of the project are, relative to its directory. -/
  entries : List Text
  /-- The other projects, archives and directories that are needed, by name. An empty path stands
  for one that was not set. -/
  dependencies : List (Text × Text)
  verbosity : Int
  /-- The file for log messages; empty when none is set. -/
  logFile : Text
  /-- The directory of the manifest. -/
  directory : Text
  deriving DecidableEq

/-- A setting: the name of its key, and what its value does to a record. -/
structure Setting (α : Type) where
  name : Text
  apply : Toml.Value → α → Option α

namespace Setting

variable {α : Type}

/-- A setting with a string. -/
def string (name : Text) (set : Text → α → α) : Setting α :=
  ⟨name, fun v a => match v with
    | .string t => some (set t a)
    | _ => none⟩

/-- A setting with an integer. -/
def integer (name : Text) (set : Int → α → α) : Setting α :=
  ⟨name, fun v a => match v with
    | .integer n => some (set n a)
    | _ => none⟩

/-- The text of a string. -/
def text? : Toml.Value → Option Text
  | .string t => some t
  | _ => none

/-- A setting with a list of strings. -/
def strings (name : Text) (set : List Text → α → α) : Setting α :=
  ⟨name, fun v a => match v with
    | .array items => (items.mapM text?).map (set · a)
    | _ => none⟩

/-- Applies the settings that the keys of a table spell. -/
def applyAll (settings : List (Setting α)) (t : Toml.Table) (a : α) : Option α :=
  t.foldlM (fun a (key, v) =>
    match settings.find? fun s => s.name == Text.foldCase key with
    | some s => s.apply v a
    | none => some a) a

/-- A setting with settings of its own. -/
def group (name : Text) (settings : List (Setting α)) : Setting α :=
  ⟨name, fun v a => match v with
    | .table t => applyAll settings t a
    | _ => none⟩

end Setting

namespace Manifest

/-- A manifest without settings. -/
def blank : Manifest where
  name := []
  version := []
  main := []
  maxDepth := 0
  entries := []
  dependencies := []
  verbosity := 0
  logFile := []
  directory := []

/-- The path of a dependency. -/
def dependencyPath? : Toml.Value → Option Text
  | .table t => Setting.applyAll [Setting.string "path" fun p _ => p] t []
  | _ => none

/-- Adds a dependency; one of the same name gives way. -/
def addDependency (m : Manifest) (name path : Text) : Manifest :=
  { m with dependencies := m.dependencies.filter (fun d => d.1 != name) ++ [(name, path)] }

/-- The dependencies: a table with a table for each. Any other value counts as no dependencies. -/
def dependencySetting : Setting Manifest :=
  ⟨"dependencies", fun v m => match v with
    | .table t => t.foldlM (fun m (name, d) => (dependencyPath? d).map (m.addDependency name)) m
    | _ => some m⟩

/-- All settings of a manifest. -/
def settings : List (Setting Manifest) :=
  [.group "project" [
      .string "name" fun t m => { m with name := t },
      .string "version" fun t m => { m with version := t }],
    .group "runtime" [
      .string "main" fun t m => { m with main := t },
      .integer "max-frame-depth" fun n m => { m with maxDepth := n }],
    .group "classpath" [.strings "entries" fun ts m => { m with entries := ts }],
    dependencySetting,
    .group "log" [
      .integer "verbosity" fun n m => { m with verbosity := n },
      .string "file" fun t m => { m with logFile := t }]]

/-- The manifest with the settings of a table. -/
def ofTable (t : Toml.Table) : Option Manifest :=
  Setting.applyAll settings t blank

/-- A path of the manifest, which is relative to its directory. -/
def resolvePath (m : Manifest) (p : Text) : Text :=
  if Path.isAbsolute p then p else Path.join [m.directory, p]

/-- Where the classes of the project are. -/
def entryPaths (m : Manifest) : List Text :=
  m.entries.map m.resolvePath

/-- The file for log messages; empty when none is set. -/
def logPath (m : Manifest) : Text :=
  if m.logFile.isEmpty then [] else m.resolvePath m.logFile

end Manifest

end ClassEngine
