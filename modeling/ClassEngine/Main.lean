import Std.Time.DateTime.Timestamp
import ClassEngine.CommandLine.Reads

/-!
The command at work: it reads the files that a run looks at, runs the command on them and writes
what the run leaves behind.
-/

namespace ClassEngine

namespace CommandLine

/-- The path of a place as the system spells it. -/
def systemPath (place : List Text) : String :=
  (Text.toString? (Path.slash :: Text.join "/" place)).getD ""

/-- Adds what stands at a place to a tree. Directories are entered if `deep`; otherwise only the
manifest in them is added. -/
partial def addPlace (deep : Bool) (t : FileTree) (place : List Text) : IO FileTree := do
  let path := (← IO.currentDir) / systemPath place
  if ← path.isDir then
    let t := t.makeDirectories place
    if deep then
      let mut grown := t
      for entry in ← path.readDir do
        grown ← addPlace true grown (place ++ [Text.ofString entry.fileName])
      return grown
    else
      let inner := place ++ [Manifest.fileName]
      let manifest := path / systemPath inner
      if ← manifest.pathExists then addPlace false t inner else return t
  else if ← path.pathExists then
    let bytes ← IO.FS.readBinFile path
    return (t.makeDirectories place.dropLast).put place (.file bytes.toList)
  else return t

/-- Adds what a reading asks for. -/
def addReading (s : Surroundings) (r : Reading) : IO Surroundings := do
  let (deep, path) := match r with
    | .shallow p => (false, p)
    | .deep p => (true, p)
  let files ← addPlace deep s.files (Path.parts (Path.absolute s.directory path))
  return { s with files := files }

/-- Reads until a run has all it looks at. -/
partial def survey (args : List Text) (known : List Reading) (s : Surroundings) :
    IO Surroundings := do
  match (readings s args).filter fun r => !known.contains r with
  | [] => return s
  | new => survey args (new ++ known) (← new.foldlM addReading s)

/-- Writes the bundle that a run made. -/
def writeBundle (s : Surroundings) (args : List Text) (o : Outcome) : IO Unit := do
  match Flags.parse args with
  | .ok (fs, _) =>
    match o.files.readFile s.directory fs.pack with
    | .ok bytes =>
      if !fs.pack.isEmpty && o.exitCode == 0 then
        IO.FS.writeBinFile (systemPath (Path.parts (Path.absolute s.directory fs.pack)))
          ⟨bytes.toArray⟩
    | .error _ => return
  | .error _ => return

end CommandLine

end ClassEngine

open ClassEngine CommandLine

def main (arguments : List String) : IO UInt32 := do
  let args := arguments.map Text.ofString
  let directory := Text.ofString (← IO.currentDir).toString
  let millis := (← Std.Time.Timestamp.now).toMillisecondsSinceUnixEpoch.toInt
  let nanos ← IO.monoNanosNow
  let start : Surroundings :=
    ⟨FileTree.empty.makeDirectories (Path.parts directory), directory, Int64.ofInt millis,
      Int64.ofInt nanos⟩
  let s ← survey args [] start
  let o := run s args
  writeBundle s args o
  (← IO.getStdout).write ⟨o.output.toArray⟩
  (← IO.getStderr).write ⟨o.errorOutput.toArray⟩
  return o.exitCode.toUInt32
