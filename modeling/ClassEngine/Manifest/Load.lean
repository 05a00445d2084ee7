import ClassEngine.FileTree.Basic
import ClassEngine.Manifest.Basic
import ClassEngine.Text.Quoted

/-!
Finding and reading manifests in a file tree.
-/

namespace ClassEngine

namespace Manifest

/-- The name of manifest files. -/
def fileName : Text := "javelin.toml"

/-- Why a project cannot be used. -/
inductive Error where
  | unreadable (path : Text) (e : PathError)
  | unparsable (path : Text)
  | negativeDepth (path : Text)
  | pathless (dependency : Text)
  | notFound (dependency path : Text) (e : PathError)
  /-- An error with a dependency. -/
  | resolving (dependency : Text) (e : Error)

/-- The wording of an error. -/
def Error.message : Error → Text
  | unreadable path e => "cannot read " ++ path ++ ": " ++ e.message
  | unparsable path => "parse error in " ++ path
  | negativeDepth path => path ++ ": max-frame-depth must not be negative"
  | pathless name => "dependency " ++ Quoted.quote name ++ " has no path specified"
  | notFound name path e =>
    "dependency " ++ Quoted.quote name ++ " not found at " ++ path ++ ": " ++ e.message
  | resolving name e => "resolving " ++ name ++ ": " ++ e.message

/-- The path that an error says is missing. -/
def Error.missingPath? : Error → Option Text
  | notFound _ path _ => some path
  | resolving _ e => e.missingPath?
  | _ => none

/-- Where the classes of a project are unless it says otherwise. -/
def defaultEntries : List Text := ["classes"]

/-- Reads the manifest in a directory. -/
def load (t : FileTree) (cwd dir : Text) : Except Error Manifest := do
  let path := Path.join [dir, fileName]
  let contents ← (t.readFile cwd path).mapError (.unreadable path)
  match (Toml.parse contents).bind ofTable with
  | none => throw (.unparsable path)
  | some m =>
    if m.maxDepth < 0 then throw (.negativeDepth path)
    let entries := if m.entries.isEmpty then defaultEntries else m.entries
    pure { m with directory := Path.absolute cwd dir, entries := entries }

/-- A directory and those above it, innermost first. -/
def upward (dir : Text) : List Text :=
  let parts := Path.parts dir
  (List.range (parts.length + 1)).map fun n =>
    Path.slash :: Text.join "/" (parts.take (parts.length - n))

/-- Reads the nearest manifest in a directory or above it. -/
def find (t : FileTree) (cwd start : Text) : Except Error (Option Manifest) :=
  let isProject (dir : Text) : Bool := t.pathExists cwd (Path.join [dir, fileName])
  match (upward (Path.absolute cwd start)).find? isProject with
  | some dir => (load t cwd dir).map some
  | none => .ok none

end Manifest

end ClassEngine
