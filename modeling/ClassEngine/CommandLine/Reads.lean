import ClassEngine.CommandLine.Run

/-!
What the command looks at in the file system. It can be told from the arguments and from the files
that are known already: more files may bring to light more to look at, until nothing new turns up.
-/

namespace ClassEngine

namespace CommandLine

/-- A path to look at. -/
inductive Reading where
  /-- What stands at the path; of a directory, the manifest in it. -/
  | shallow (path : Text)
  /-- What stands at the path, with everything below it. -/
  | deep (path : Text)
  deriving DecidableEq

/-- Where a manifest may be. -/
def manifestReadings (s : Surroundings) (fs : Flags) : List Reading :=
  if fs.config.isEmpty then (Manifest.upward (Path.absolute s.directory Path.dot)).map .shallow
  else [.shallow fs.config]

/-- Where classes are; as long as a dependency is missing, the place where it should be. -/
def classReadings (s : Surroundings) (fs : Flags) (args : List Text) : List Reading :=
  match Options.ofProject s fs.config with
  | .ok o => (o.override fs args).classPath.map .deep
  | .error e => e.missingPath?.toList.map .shallow

/-- The file that is written, and its directory. -/
def targetReadings (fs : Flags) : List Reading :=
  if fs.pack.isEmpty then [] else [.shallow (Path.parent fs.pack), .shallow fs.pack]

/-- All paths to look at, as far as the known files tell. -/
def readings (s : Surroundings) (args : List Text) : List Reading :=
  match Flags.parse args with
  | .error _ => []
  | .ok (fs, rest) => manifestReadings s fs ++ classReadings s fs rest ++ targetReadings fs

end CommandLine

end ClassEngine
