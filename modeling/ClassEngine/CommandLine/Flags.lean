import ClassEngine.Text.Integer
import ClassEngine.Text.Quoted

/-!
The flags in front of a command's arguments. A flag has one or two dashes and takes a value, behind
an equals sign or as the next argument. Flags end at `--`, or at the first argument that is none.
-/

namespace ClassEngine

namespace CommandLine

/-- A flag. -/
inductive Flag where
  | config
  | classPath
  | disassemble
  | maxDepth
  | pack
  | profile
  | verbosity
  deriving DecidableEq

namespace Flag

/-- All flags by name. -/
def all : List Flag :=
  [config, classPath, disassemble, maxDepth, pack, profile, verbosity]

def name : Flag → Text
  | config => "config"
  | classPath => "cp"
  | disassemble => "disasm"
  | maxDepth => "max-depth"
  | pack => "pack"
  | profile => "profile"
  | verbosity => "v"

/-- Whether the value of a flag is a number. -/
def isNumeric : Flag → Bool
  | maxDepth | profile | verbosity => true
  | _ => false

def description : Flag → Text
  | config => "Project directory containing javelin.toml (default: search upward from .)"
  | classPath => "Classpath: directories, .jar files and .jvb bundles"
  | disassemble => "Disassemble the named class and exit"
  | maxDepth => "Maximum guest call depth"
  | pack => "Write every class on the classpath to a bundle file and exit"
  | profile => "Print the N most invoked methods to stderr after the run"
  | verbosity => "Log verbosity (1 info, 2 debug)"

/-- The flag with a name. -/
def ofName? (n : Text) : Option Flag :=
  all.find? fun f => f.name == n

end Flag

/-- What the flags say. -/
structure Flags where
  config : Text
  classPath : Option Text
  disassemble : Text
  maxDepth : Option Int
  pack : Text
  profile : Int
  verbosity : Option Int

namespace Flags

/-- No flags. -/
def none : Flags where
  config := []
  classPath := Option.none
  disassemble := []
  maxDepth := Option.none
  pack := []
  profile := 0
  verbosity := Option.none

end Flags

/-- What is wrong with the flags. -/
inductive FlagError where
  | badSyntax (argument : Text)
  | unknown (name : Text)
  | missingValue (name : Text)
  | badValue (value name : Text) (reason : IntegerError)
  /-- Help is asked for. -/
  | help
  deriving DecidableEq

/-- The lines that an error adds in front of the usage. -/
def FlagError.lines : FlagError → Text
  | badSyntax argument => "bad flag syntax: " ++ argument ++ "\n"
  | unknown name => "flag provided but not defined: -" ++ name ++ "\n"
  | missingValue name => "flag needs an argument: -" ++ name ++ "\n"
  | badValue value name reason =>
    "invalid value " ++ Quoted.quote value ++ " for flag -" ++ name ++ ": " ++
      (match reason with
        | .malformed => ("parse error" : Text)
        | .outOfRange => "value out of range") ++ "\n"
  | help => []

namespace Flags

/-- Sets a flag to a value. -/
def set (fs : Flags) (f : Flag) (value : Text) : Except FlagError Flags :=
  let number : Except FlagError Int := (Integer.parse value).mapError (.badValue value f.name)
  match f with
  | .config => .ok { fs with config := value }
  | .classPath => .ok { fs with classPath := some value }
  | .disassemble => .ok { fs with disassemble := value }
  | .pack => .ok { fs with pack := value }
  | .maxDepth => number.map fun n => { fs with maxDepth := some n }
  | .profile => number.map fun n => { fs with profile := n }
  | .verbosity => number.map fun n => { fs with verbosity := some n }

def dash : UInt8 := Text.ofAscii '-'
def equalsSign : UInt8 := Text.ofAscii '='

/-- The flag with a name; a request for help ends the flags. -/
def flagNamed (name : Text) : Except FlagError Flag :=
  match Flag.ofName? name with
  | some f => .ok f
  | Option.none =>
    .error (if name == ("help" : Text) || name == ("h" : Text) then .help else .unknown name)

/-- The name and the value of a flag, cut at the first equals sign behind its first byte. -/
def cut (t : Text) : Text × Option Text :=
  let name := t.take 1 ++ (t.drop 1).takeWhile (· ≠ equalsSign)
  (name, (t.drop name.length).tail?)

/-- Sets the flag that an argument without its dashes gives; gives the arguments behind it. -/
def apply (fs : Flags) (t : Text) (rest : List Text) : Except FlagError (Flags × List Text) := do
  let (name, value) := cut t
  let f ← flagNamed name
  match value, rest with
  | some v, _ => pure (← fs.set f v, rest)
  | Option.none, v :: rest' => pure (← fs.set f v, rest')
  | Option.none, [] => throw (.missingValue name)

/-- What an argument is. -/
inductive Argument where
  /-- A flag, without its dashes. -/
  | flag (body : Text)
  /-- The mark that ends the flags. -/
  | mark
  | plain
  | bad

/-- What an argument is, seen from its dashes. -/
def classify : Text → Argument
  | 45 :: 45 :: [] => .mark
  | 45 :: 45 :: body => check body
  | 45 :: b :: body => check (b :: body)
  | _ => .plain
where
  /-- A flag starts neither with a further dash nor with an equals sign. -/
  check (body : Text) : Argument :=
    if body.head? == some dash || body.head? == some equalsSign then .bad else .flag body

/-- Reads flags as long as the bound lasts, which the number of arguments is enough for. -/
def parseWithin : Nat → Flags → List Text → Except FlagError (Flags × List Text)
  | 0, fs, args => .ok (fs, args)
  | _ + 1, fs, [] => .ok (fs, [])
  | bound + 1, fs, a :: rest =>
    match classify a with
    | .plain => .ok (fs, a :: rest)
    | .mark => .ok (fs, rest)
    | .bad => .error (.badSyntax a)
    | .flag body => do
      let (fs', rest') ← fs.apply body rest
      parseWithin bound fs' rest'

/-- Reads the flags in front of arguments. -/
def parse (args : List Text) : Except FlagError (Flags × List Text) :=
  parseWithin (args.length + 1) Flags.none args

end Flags

/-- The lines for a flag in the usage. -/
def flagUsage (f : Flag) : Text :=
  "  -" ++ f.name ++ (if f.isNumeric then (" int" : Text) else " string") ++ "\n    \t" ++
    f.description ++ "\n"

/-- How the command is used. -/
def usage : Text :=
  "Usage: javelin [options] [class] [args...]\n\n" ++
  "Runs the static main(String[]) method of a class.\n\n" ++
  "Options:\n" ++ Flag.all.flatMap flagUsage ++
  "\nExamples:\n" ++
  "  javelin -cp build/classes demo.Hello world   # Run demo.Hello\n" ++
  "  javelin                                      # Run [runtime] main from javelin.toml\n" ++
  "  javelin -cp app.jar -pack app.jvb             # Bundle app.jar\n" ++
  "  javelin -cp app.jvb -disasm demo.Hello       # Show bytecode\n"

end CommandLine

end ClassEngine
