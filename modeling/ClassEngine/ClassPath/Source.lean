import ClassEngine.Archive.Zip
import ClassEngine.Bundle.File
import ClassEngine.ClassFile.Decoder
import ClassEngine.FileTree.Basic
import ClassEngine.Text.Case

/-!
The places that hold classes: directories, archives and sets of classes in memory. A source answers
whether it holds a class; one that holds it and cannot read it fails.
-/

namespace ClassEngine

/-- The classes of an archive by name. -/
structure ClassArchive where
  path : Text
  data : Zip.Bytes
  index : List (Text × Zip.Member)
  isOpen : Bool

namespace ClassArchive

/-- The ending of the names of class files. -/
def classEnding : Text := ".class"

/-- Adds a member to an index when it is a class file; an earlier one of the same name gives way. -/
def addMember (index : List (Text × Zip.Member)) (m : Zip.Member) : List (Text × Zip.Member) :=
  if m.isDirectory || !Text.endsWith classEnding m.name then index
  else
    let name := Text.dropEnd classEnding m.name
    (name, m) :: index.filter fun e => e.1 != name

/-- The archive with the given bytes. -/
def ofBytes (path : Text) (data : Text) : Except Zip.Error ClassArchive := do
  let bytes := data.toArray
  let members ← Zip.members bytes
  pure ⟨path, bytes, members.foldl addMember [], true⟩

/-- The class with a name, if the archive holds it. -/
def load (a : ClassArchive) (name : Text) : Except Failure (Option ClassFile) :=
  match a.index.lookup name with
  | none => .ok none
  | some m =>
    let result : Except Failure ClassFile := do
      if !a.isOpen then throw (.plain (PathError.message ⟨"read", a.path, .closed⟩))
      let bytes ← (Zip.contents a.data m).mapError fun e => .plain e.message
      (ClassFile.decode bytes).mapError ClassFile.DecodeError.failure
    (result.map some).mapError (·.within (a.path ++ "!" ++ m.name))

end ClassArchive

/-- A place that holds classes. -/
inductive Source where
  | directory (root : Text)
  | archive (a : ClassArchive)
  /-- A fixed set of classes. Of two with the same name the later one counts. -/
  | memory (label : Text) (classes : List ClassFile)

namespace Source

open ClassArchive (classEnding)

/-- The name under which a source was opened. -/
def label : Source → Text
  | directory root => root
  | archive a => a.path
  | memory label _ => label

/-- Opens an archive. -/
def openArchive (t : FileTree) (cwd path : Text) : Except Failure Source :=
  let result : Except Failure Source := do
    let data ← (t.readFile cwd path).mapError fun e => .plain e.message
    let a ← (ClassArchive.ofBytes path data).mapError fun e => .plain e.message
    pure (.archive a)
  result.mapError (·.within ("open jar " ++ path))

/-- Opens a bundle. -/
def openBundle (t : FileTree) (cwd path : Text) : Except Failure Source := do
  let data ← (t.readFile cwd path).mapError fun e =>
    (Failure.plain e.message).within ("bundle " ++ path)
  let classes ← (Bundle.decode data).mapError (·.failure path)
  pure (.memory path classes)

/-- Opens the source at a path: an archive or a bundle by its ending, else a directory. -/
def openAt (t : FileTree) (cwd path : Text) : Except Failure Source :=
  let ending := Text.lower (Path.extension path)
  if ending == (".jar" : Text) || ending == (".zip" : Text) then openArchive t cwd path
  else if ending == Bundle.extension then openBundle t cwd path
  else
    match t.stat "stat" cwd path with
    | .error e => .error ((Failure.plain e.message).within ("classpath entry " ++ path))
    | .ok (.file _) =>
      .error (.plain ("classpath entry " ++ path ++ ": not a directory, jar or bundle"))
    | .ok .directory => .ok (.directory path)

/-- The class in a directory, if it is there. Its file has to define the class it is named for. -/
def loadFrom (t : FileTree) (cwd root name : Text) : Except Failure (Option ClassFile) :=
  let path := Path.join [root, name ++ classEnding]
  match t.readFile cwd path with
  | .error e =>
    if e.fault = .missing then .ok none
    else .error ((Failure.plain e.message).within ("read " ++ path))
  | .ok contents =>
    match ClassFile.decode contents with
    | .error e => .error (e.failure.within ("parse " ++ path))
    | .ok c =>
      if c.name = name then .ok (some c)
      else .error (.plain (path ++ " defines " ++ c.name ++ ", want " ++ name))

/-- The class with a name, if the source holds it. -/
def load (t : FileTree) (cwd : Text) : Source → Text → Except Failure (Option ClassFile)
  | directory root, name => loadFrom t cwd root name
  | archive a, name => a.load name
  | memory _ classes, name => .ok (classes.reverse.find? fun c => c.name == name)

/-- The names of the class files below a directory. -/
def namesBelow (t : FileTree) (cwd root : Text) : Except Failure (List Text) :=
  match t.resolve cwd root with
  | .error f => .error
      ((Failure.plain (PathError.message ⟨"lstat", root, f⟩)).within ("list " ++ root))
  | .ok place =>
    let files := (t.filesBelow place).map (Text.join "/")
    .ok (Text.sort ((files.filter (Text.endsWith classEnding)).map (Text.dropEnd classEnding)))

/-- The names of the classes of a source, sorted. -/
def names (t : FileTree) (cwd : Text) : Source → Except Failure (List Text)
  | directory root => namesBelow t cwd root
  | archive a => .ok (Text.sort (a.index.map (·.1)))
  | memory _ classes => .ok (Text.sort (classes.map (·.name)).eraseDups)

/-- The number of classes of a source, where it is known without looking at files. -/
def size? : Source → Option Nat
  | directory _ => none
  | archive a => some a.index.length
  | memory _ classes => some (classes.map (·.name)).eraseDups.length

/-- Closes a source. An archive can be closed once. -/
def close : Source → Except PathError Source
  | archive a =>
    if a.isOpen then .ok (.archive { a with isOpen := false })
    else .error ⟨"close", a.path, .closed⟩
  | s => .ok s

end Source

end ClassEngine
