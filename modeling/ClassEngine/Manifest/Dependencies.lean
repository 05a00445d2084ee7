import ClassEngine.Manifest.Load

/-!
The dependencies of a project, in the order in which they are searched for classes: by name, each
followed by its own dependencies. One that is reached again keeps its first place.
-/

namespace ClassEngine

/-- A dependency that was found. -/
structure Dependency where
  name : Text
  /-- Where it is, as an absolute path. -/
  path : Text
  /-- Its own manifest, when it is a project. -/
  project : Option Manifest

namespace Dependency

/-- Where the classes of a dependency are. -/
def entryPaths (d : Dependency) : List Text :=
  match d.project with
  | some m => m.entryPaths
  | none => [d.path]

end Dependency

namespace Manifest

/-- Finds one dependency of a project. -/
def findDependency (t : FileTree) (cwd : Text) (m : Manifest) (name path : Text) :
    Except Error Dependency := do
  if path.isEmpty then throw (.pathless name)
  let place := Path.absolute cwd (m.resolvePath path)
  let entry ← (t.stat "stat" cwd place).mapError (.notFound name place)
  match entry with
  | .file _ => pure ⟨name, place, none⟩
  | .directory =>
    if t.pathExists cwd (Path.join [place, fileName]) then
      pure ⟨name, place, some (← load t cwd place)⟩
    else pure ⟨name, place, none⟩

/-- Places that were seen, and the dependencies among them in the order in which they were. -/
abbrev Found := List Text × List Dependency

/-- Appends a dependency of a project that is not among those seen, followed by what `below` appends
for it when it is a project. -/
def appendDependency (t : FileTree) (cwd : Text) (below : Manifest → Found → Except Error Found)
    (m : Manifest) (found : Found) (dependency : Text × Text) : Except Error Found := do
  let (name, path) := dependency
  let d ← (findDependency t cwd m name path).mapError (.resolving name)
  if found.1.contains d.path then pure found
  else
    let found := (d.path :: found.1, found.2 ++ [d])
    match d.project with
    | none => pure found
    | some m' => below m' found

/-- The dependencies of a project by name. -/
def sortedDependencies (m : Manifest) : List (Text × Text) :=
  m.dependencies.mergeSort fun a b => Text.ble a.1 b.1

/-- Appends the dependencies of a project and of those below it. Every project on the way down is
new, so the number of entries in the tree bounds the depth. -/
def collectFrom (t : FileTree) (cwd : Text) : Nat → Manifest → Found → Except Error Found
  | 0, _, found => .ok found
  | depth + 1, m, found =>
    m.sortedDependencies.foldlM (appendDependency t cwd (collectFrom t cwd depth) m) found

/-- The dependencies of a project, its own directory excluded. -/
def resolve (t : FileTree) (cwd : Text) (m : Manifest) : Except Error (List Dependency) :=
  (collectFrom t cwd (t.entries.length + 2) m ([m.directory], [])).map (·.2)

/-- Where to look for classes: the project's own places, then those of its dependencies. -/
def classPath (t : FileTree) (cwd : Text) (m : Manifest) : Except Error (List Text) :=
  (resolve t cwd m).map fun ds => m.entryPaths ++ ds.flatMap Dependency.entryPaths

end Manifest

end ClassEngine
