import ClassEngine.Failure
import ClassEngine.FileTree.Path

/-!
A tree of files and directories, and access to it by path. A path is followed part by part, so every
part on the way has to be there and to be a directory, also one that `..` leaves again.
-/

namespace ClassEngine

/-- What stands at a path. -/
inductive Entry where
  | directory
  | file (contents : Text)

/-- Why a path cannot be used. -/
inductive PathFault where
  | missing
  | notDirectory
  | isDirectory
  | nameTooLong
  /-- A path with a zero byte. -/
  | invalid
  | closed
  deriving DecidableEq

/-- The wording of a fault. -/
def PathFault.message : PathFault → Text
  | missing => "no such file or directory"
  | notDirectory => "not a directory"
  | isDirectory => "is a directory"
  | nameTooLong => "file name too long"
  | invalid => "invalid argument"
  | closed => "file already closed"

/-- An operation on a path that failed. -/
structure PathError where
  operation : Text
  path : Text
  fault : PathFault
  deriving DecidableEq

def PathError.message (e : PathError) : Text :=
  e.operation ++ " " ++ e.path ++ ": " ++ e.fault.message

/-- Files and directories by their place, given as the names from the root on. The root itself is
always there. -/
structure FileTree where
  entries : List (List Text × Entry)

namespace FileTree

def empty : FileTree := ⟨[]⟩

/-- What stands at a place. -/
def find? (t : FileTree) (place : List Text) : Option Entry :=
  if place.isEmpty then some .directory else t.entries.lookup place

/-- Puts an entry at a place. -/
def put (t : FileTree) (place : List Text) (e : Entry) : FileTree :=
  ⟨(place, e) :: t.entries.filter fun p => p.1 != place⟩

/-- Puts a directory at a place, and at every place above it. -/
def makeDirectories (t : FileTree) (place : List Text) : FileTree :=
  (List.range place.length).foldl (fun t n =>
    let above := place.take (n + 1)
    if (t.find? above).isSome then t else t.put above .directory) t

/-- Removes a place and everything below it. -/
def remove (t : FileTree) (place : List Text) : FileTree :=
  ⟨t.entries.filter fun p => !place.isPrefixOf p.1⟩

/-- The longest name that a file can have. -/
def nameLimit : Nat := 255

/-- The longest path that is followed. -/
def pathLimit : Nat := 4095

/-- Follows the parts of a path from a place on. -/
def follow (t : FileTree) : List Text → List Text → Except PathFault (List Text)
  | place, [] => .ok place
  | place, part :: rest =>
    match t.find? place with
    | none => .error .missing
    | some (.file _) => .error .notDirectory
    | some .directory =>
      if part.isEmpty || part == Path.dot then follow t place rest
      else if part == Path.dotDot then follow t place.dropLast rest
      else if nameLimit < part.length then .error .nameTooLong
      else if (t.find? (place ++ [part])).isSome then follow t (place ++ [part]) rest
      else .error .missing

/-- The place that a path leads to. -/
def resolve (t : FileTree) (cwd path : Text) : Except PathFault (List Text) :=
  if path.contains 0 then .error .invalid
  else if path.isEmpty then .error .missing
  else if pathLimit < path.length then .error .nameTooLong
  else
    let start := if Path.isAbsolute path then [] else Path.parts cwd
    follow t start (Text.splitByte Path.slash path)

/-- What a path leads to. -/
def entryAt (t : FileTree) (cwd path : Text) : Except PathFault Entry := do
  let place ← t.resolve cwd path
  match t.find? place with
  | some e => .ok e
  | none => .error .missing

/-- Looks at what a path leads to; `operation` names the look in an error. -/
def stat (t : FileTree) (operation cwd path : Text) : Except PathError Entry :=
  (t.entryAt cwd path).mapError fun f => ⟨operation, path, f⟩

/-- The contents of a file. -/
def readFile (t : FileTree) (cwd path : Text) : Except PathError Text :=
  match t.entryAt cwd path with
  | .error f => .error ⟨"open", path, f⟩
  | .ok .directory => .error ⟨"read", path, .isDirectory⟩
  | .ok (.file contents) => .ok contents

/-- Whether a path exists. -/
def pathExists (t : FileTree) (cwd path : Text) : Bool :=
  (t.entryAt cwd path).toBool

/-- Writes a file, whose directory has to be there. -/
def writeFile (t : FileTree) (cwd path contents : Text) : Except PathError FileTree :=
  let refuse (f : PathFault) : Except PathError FileTree := .error ⟨"open", path, f⟩
  match t.entryAt cwd path with
  | .ok .directory => refuse .isDirectory
  | .ok (.file _) =>
    match t.resolve cwd path with
    | .ok place => .ok (t.put place (.file contents))
    | .error f => refuse f
  | .error .missing =>
    let name := Text.afterLast Path.slash path
    let above := (path.reverse.dropWhile (· ≠ Path.slash)).reverse
    if path.isEmpty then refuse .missing
    else if name.isEmpty then refuse .isDirectory
    else match t.entryAt cwd (if above.isEmpty then Path.dot else above) with
      | .error f => refuse f
      | .ok (.file _) => refuse .notDirectory
      | .ok .directory =>
        match t.resolve cwd (if above.isEmpty then Path.dot else above) with
        | .ok place => .ok (t.put (place ++ [name]) (.file contents))
        | .error f => refuse f
  | .error f => refuse f

/-- The files below a place, each with the names that lead to it. -/
def filesBelow (t : FileTree) (place : List Text) : List (List Text) :=
  t.entries.filterMap fun (p, e) =>
    match e with
    | .file _ => if place.isPrefixOf p then some (p.drop place.length) else none
    | .directory => none

end FileTree

end ClassEngine
