import ClassEngine.Bytecode.ClassListing
import ClassEngine.ClassPath.Basic
import ClassEngine.CommandLine.Flags
import ClassEngine.Engine.Session
import ClassEngine.Manifest.Dependencies

/-!
The command: it runs the main class of a project or class path, bundles a class path, or lists a
class. It is a function from its surroundings and arguments to what it leaves behind.
-/

namespace ClassEngine

namespace CommandLine

/-- What the command finds when it starts. -/
structure Surroundings where
  files : FileTree
  /-- The working directory. -/
  directory : Text
  /-- Milliseconds since the epoch. -/
  currentTimeMillis : Int64
  /-- Nanoseconds since some start. -/
  nanoTime : Int64

/-- How log messages are to be written. -/
structure LogSettings where
  verbosity : Int
  /-- The file for the messages; empty for the standard error stream. -/
  file : Text

/-- What the command leaves behind. -/
structure Outcome where
  exitCode : Nat
  output : Text
  errorOutput : Text
  /-- The log settings, unless the command ended before they were known. -/
  log : Option LogSettings
  files : FileTree
  /-- The fault that the engine itself stumbled over. -/
  fault : Option Fault

/-- The settings of a project with the flags put over them. -/
structure Options where
  classPath : List Text
  main : Text
  maxDepth : Int
  verbosity : Int
  logPath : Text

namespace Options

/-- The options where there is no project. -/
def default : Options where
  classPath := [Path.dot]
  main := []
  maxDepth := 0
  verbosity := 0
  logPath := []

/-- The manifest that counts: the one in the given directory, or the nearest one upward. -/
def manifest? (s : Surroundings) (config : Text) : Except Manifest.Error (Option Manifest) :=
  if config.isEmpty then Manifest.find s.files s.directory Path.dot
  else (Manifest.load s.files s.directory config).map some

/-- The options that a project sets. -/
def ofProject (s : Surroundings) (config : Text) : Except Manifest.Error Options := do
  match ← manifest? s config with
  | none => pure default
  | some m =>
    let entries ← m.classPath s.files s.directory
    pure ⟨entries, m.main, m.maxDepth, m.verbosity, m.logPath⟩

/-- Flags and a class among the arguments come before what the project sets. -/
def override (o : Options) (fs : Flags) (args : List Text) : Options where
  classPath := (fs.classPath.map ClassPath.split).getD o.classPath
  main := args.headD o.main
  maxDepth := fs.maxDepth.getD o.maxDepth
  verbosity := fs.verbosity.getD o.verbosity
  logPath := o.logPath

end Options

/-- Ends with a code and what was written. -/
def finish (s : Surroundings) (log : Option LogSettings) (code : Nat) (out err : Text) : Outcome :=
  ⟨code, out, err, log, s.files, none⟩

/-- The line that reports an error. -/
def errorLine (message : Text) : Text :=
  "Error: " ++ message ++ "\n"

/-- Writes every class on a class path to a bundle. -/
def pack (s : Surroundings) (log : Option LogSettings) (p : ClassPath) (path : Text) : Outcome :=
  let result : Except Failure (Nat × FileTree) := do
    let classes ← p.collect s.files s.directory
    let bytes ← (Bundle.encode classes).mapError fun e => .plain e.message
    let files ← (s.files.writeFile s.directory path bytes).mapError fun e =>
      (Failure.plain e.message).within ("bundle " ++ path)
    pure (classes.length, files)
  match result with
  | .error f => finish s log 1 [] (errorLine f.report)
  | .ok (n, files) =>
    { finish s log 0 ("Wrote " ++ Text.ofNat n ++ " classes to " ++ Path.clean path ++ "\n") [] with
      files := files }

/-- Lists a class. -/
def disassemble (s : Surroundings) (log : Option LogSettings) (p : ClassPath) (name : Text) :
    Outcome :=
  let internal := Text.replaceByte (Text.ofAscii '.') (Text.ofAscii '/') name
  match p.load s.files s.directory internal with
  | .error f => finish s log 1 [] (errorLine f.report)
  | .ok c => finish s log 0 (ClassListing.listing c) []

/-- The count at which the command calls a method hot. -/
def hotThreshold : Nat := 1000

/-- Fills with blanks on the left up to `width` bytes. -/
def padLeft (width : Nat) (t : Text) : Text :=
  List.replicate (width - t.length) 32 ++ t

/-- The line of a method in the report of a profiler. -/
def profileLine (q : MethodProfile) : Text :=
  padLeft 10 (Text.ofNat q.count) ++ "  " ++ q.method.text ++ "\n"

/-- The report of a profiler on the `n` most invoked methods. -/
def profileReport (p : Profiler) (n : Int) : Text :=
  "\n" ++ Text.ofNat p.total ++ " invocations of " ++ Text.ofNat p.profiles.length ++
    " methods (" ++ Text.ofNat p.nativeCount ++ " native, " ++ Text.ofNat p.hotCount ++ " hot)\n" ++
    (p.top n).flatMap profileLine

/-- The engine that runs a program. -/
def engine (o : Options) (profile : Int) : Machine :=
  { Session.fresh with
    maxDepth := if 0 < o.maxDepth then o.maxDepth else Session.defaultDepth
    profiler := if 0 < profile then some (.start hotThreshold) else none }

/-- What is written about a program that failed. A thrown object has printed its own trace. -/
def raiseText : Raise → Text
  | .thrown _ => []
  | .malformed e => errorLine e.message
  | .unresolved e => errorLine e.message
  | .failure t => errorLine t
  | .panic f => errorLine f.message
  | .exhausted => errorLine "out of steps"

/-- Runs a program. -/
def execute (s : Surroundings) (log : Option LogSettings) (p : ClassPath) (o : Options)
    (profile : Int) (args : List Text) : Outcome :=
  let host : Host := ⟨some (p.provider s.files s.directory), s.currentTimeMillis, s.nanoTime⟩
  let ended (m : Machine) (code : Nat) (text : Text) (fault : Option Fault) : Outcome :=
    let report := (m.profiler.map (profileReport · profile)).getD []
    ⟨code, m.output.toList, m.errorOutput.toList ++ text ++ report, log, s.files, fault⟩
  match Session.run host (Session.runMain o.main args) (engine o profile) with
  | .ok () m => ended m 0 [] none
  | .error (.panic f) m => ended m 2 (raiseText (.panic f)) (some f)
  | .error e m => ended m 1 (raiseText e) none

/-- Does what options and flags ask for. -/
def perform (s : Surroundings) (fs : Flags) (o : Options) (args : List Text) : Outcome :=
  let log : Option LogSettings := some ⟨o.verbosity, o.logPath⟩
  match ClassPath.openAll s.files s.directory o.classPath with
  | .error f => finish s log 1 [] (errorLine f.report)
  | .ok p =>
    if !fs.pack.isEmpty then pack s log p fs.pack
    else if !fs.disassemble.isEmpty then disassemble s log p fs.disassemble
    else if o.main.isEmpty then finish s log 2 [] usage
    else execute s log p o fs.profile args

/-- Runs the command. -/
def run (s : Surroundings) (args : List Text) : Outcome :=
  match Flags.parse args with
  | .error e => finish s none 2 [] (e.lines ++ usage)
  | .ok (fs, rest) =>
    match Options.ofProject s fs.config with
    | .error e => finish s none 1 [] (errorLine e.message)
    | .ok o => perform s fs (o.override fs rest) rest.tail

end CommandLine

end ClassEngine
