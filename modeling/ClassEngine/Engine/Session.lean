import ClassEngine.Engine.Initialization
import ClassEngine.Engine.Interpreter
import ClassEngine.Engine.Native.Standard

/-!
Engines as a whole: a fresh machine, the context that lets computations call methods and initialize
classes, and the entry point of programs.
-/

namespace ClassEngine

namespace Session

open Exec Linking Resolution Allocation

/-- The bound on the steps of one activation and on the length of searches. -/
def stepBound : Nat := 1000000000000000

/-- The bound on how deep methods and initializers nest. -/
def nestingBound : Nat := 1000000000000

/-- The context in which activations and searches take at most so many steps, and methods and
initializers nest at most `n` deep. -/
def context (host : Host) (steps : Nat) : Nat → Context
  | 0 => ⟨host, steps, fun _ _ => throw .exhausted, fun _ => throw .exhausted⟩
  | n + 1 => ⟨host, steps,
      fun m args => Interpreter.invoke m args (context host steps n),
      fun d => Initialization.initializeOnce d (context host steps n)⟩

/-- The deepest call chain unless another limit is set. -/
def defaultDepth : Int := 2048

/-- An engine that has not loaded anything. -/
def fresh : Machine where
  classes := {}
  heap := #[]
  buffers := #[]
  interned := {}
  frames := []
  natives := Builtin.table
  maxDepth := defaultDepth
  handlingOverflow := false
  profiler := none
  becameHot := []
  output := #[]
  errorOutput := #[]
  notes := []
  history := .of []
  moments := .of []
  breakdowns := .of []

/-- Runs a computation on an engine within bounds. What it throws comes to the caller. -/
def runWithin {α : Type} (host : Host) (steps nesting : Nat) (x : Exec α) (m : Machine) :
    EStateM.Result Raise Machine α :=
  match x (context host steps nesting) m with
  | .ok a m' => .ok a m'
  | .error (.thrown r) m' => .error (.thrown r) (m'.note (.arrived r m'.frames))
  | .error e m' => .error e m'

/-- Runs a computation on an engine. -/
def run {α : Type} (host : Host) (x : Exec α) (m : Machine) : EStateM.Result Raise Machine α :=
  runWithin host stepBound nestingBound x m

/-- Runs the entry point of a class. -/
def runEntry (name : Text) (args : List Text) : Exec Unit := do
  let c ← loadClass name
  match c.declaredMethod? "main" "([Ljava/lang/String;)V" with
  | none => unresolved .method (name ++ ".main([Ljava/lang/String;)V") none
  | some m => do
    if !m.isStatic then unresolved .method (name ++ ".main([Ljava/lang/String;)V") none
    let argv ← stringArray args
    let _ ← invokeMethod m [.ref argv]

/-- Runs a program by the name of its class, with dots or slashes. What it throws is printed with
its trace, and thrown on. -/
def runMain (className : Text) (args : List Text) : Exec Unit := do
  let name := Text.replaceByte (Text.ofAscii '.') (Text.ofAscii '/') className
  match ← attempt (runEntry name args) with
  | .ok () => pure ()
  | .error (.thrown r) => do
    note (.arrived r (← get).frames)
    let owner := Descriptor.className (← objectAt r).type
    match ← attempt (invoke owner "printStackTrace" "()V" [.ref r]) with
    | .ok _ => throw (.thrown r)
    | .error (.thrown other) => do
      note (.arrived other (← get).frames)
      throw (.thrown r)
    | .error e => throw (if e.isAbrupt then e else .thrown r)
  | .error e => throw e

/-- Calls a method found from the class of the first argument on. -/
def invokeOn (receiver : Ref) (name descriptor : Text) (args : List Value) : Exec Value := do
  let type ← receiverType receiver
  match ← resolveMethod type ⟨Descriptor.className type, name, descriptor⟩ with
  | some m => invokeMethod m args
  | none => panic .broken

end Session

end ClassEngine
