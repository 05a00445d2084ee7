import ClassEngine.ClassPath.Source
import ClassEngine.Library.Bootstrap
import ClassEngine.Text.Blank

/-!
Class paths: sources that are searched in order, with the bootstrap library behind them.
-/

namespace ClassEngine

/-- Sources in the order of their search. -/
structure ClassPath where
  sources : List Source
  /-- Whether the bootstrap library is searched at the end. -/
  withLibrary : Bool

namespace ClassPath

/-- The byte between two entries of a class path. -/
def separator : UInt8 := Text.ofAscii ':'

/-- The entries of a class path in one text, without blanks around them and without empty ones. -/
def split (t : Text) : List Text :=
  ((Text.splitByte separator t).map Text.trim).filter fun e => !e.isEmpty

/-- Opens the sources at the given paths. -/
def openAll (t : FileTree) (cwd : Text) (paths : List Text) : Except Failure ClassPath := do
  pure ⟨← paths.mapM (Source.openAt t cwd), true⟩

/-- The class path in one text. -/
def text (p : ClassPath) : Text :=
  Text.join [separator] (p.sources.map Source.label)

/-- The first definition of a class among sources. A source that fails ends the search. -/
def search (t : FileTree) (cwd name : Text) : List Source → Except Failure (Option ClassFile)
  | [] => .ok none
  | s :: rest =>
    match s.load t cwd name with
    | .ok none => search t cwd name rest
    | r => r

def notFound : Text := "class not found"

/-- The class with a name. -/
def load (p : ClassPath) (t : FileTree) (cwd name : Text) : Except Failure ClassFile := do
  match ← search t cwd name p.sources with
  | some c => pure c
  | none =>
    if !p.withLibrary then throw ((Failure.plain notFound).within name)
    match Library.find? name with
    | some c => pure c
    | none => throw (.plain (name ++ ": " ++ notFound))

/-- The class path as a provider of classes to an engine. -/
def provider (p : ClassPath) (t : FileTree) (cwd : Text) : Text → Except Text ClassFile :=
  fun name => (p.load t cwd name).mapError Failure.message

/-- Adds the class that a source holds under a name, unless the name was seen before. -/
def collectName (t : FileTree) (cwd : Text) (s : Source) (found : List Text × List ClassFile)
    (name : Text) : Except Failure (List Text × List ClassFile) := do
  if found.1.contains name then pure found
  else match ← s.load t cwd name with
    | some c => pure (name :: found.1, c :: found.2)
    | none => throw ((Failure.plain notFound).within name)

/-- Adds the classes of a source whose names were not seen before. -/
def collectFrom (t : FileTree) (cwd : Text) (found : List Text × List ClassFile) (s : Source) :
    Except Failure (List Text × List ClassFile) := do
  (← s.names t cwd).foldlM (collectName t cwd s) found

/-- Every class on a class path by name, each in its first definition. The library is left out. -/
def collect (p : ClassPath) (t : FileTree) (cwd : Text) : Except Failure (List ClassFile) := do
  let (_, classes) ← p.sources.foldlM (collectFrom t cwd) ([], [])
  pure (Bundle.sortClasses classes.reverse)

/-- Closes every source; gives the first failure. -/
def close (p : ClassPath) : ClassPath × Option PathError :=
  let closed (s : Source) : Source := match s.close with
    | .ok s' => s'
    | .error _ => s
  let error? (s : Source) : Option PathError := match s.close with
    | .ok _ => none
    | .error e => some e
  ({ p with sources := p.sources.map closed }, p.sources.findSome? error?)

end ClassPath

end ClassEngine
