import ClassEngine.Engine.Frame
import ClassEngine.Engine.History
import ClassEngine.Engine.Object
import ClassEngine.Engine.Profiler
import ClassEngine.Engine.NativeTable

/-!
The state of one engine and the computations on it. Computations that run guest code re-enter the
engine through their `Context`: calling a method and initializing a class are known to them only by
that door, so every part of the engine can be defined before the knot is tied.
-/

namespace ClassEngine

/-- The natives of the bootstrap library. -/
inductive Builtin where
  | objectHashCode
  | objectGetClass
  | objectClone
  | objectToString
  | arraycopy
  | currentTimeMillis
  | nanoTime
  | identityHashCode
  | classIsInterface
  | classIsArray
  | classToString
  | fillInStackTrace
  | printStackTrace
  | throwableToString
  | parseInt
  | intToString
  | absInt
  | absLong
  | absDouble
  | maxInt
  | minInt
  | maxLong
  | minLong
  | maxDouble
  | minDouble
  | sqrt
  | pow
  | stringIntern
  | stringEquals
  | stringHashCode
  | stringLength
  | stringIsEmpty
  | stringCharAt
  | stringConcat
  | stringValueOf (type : Descriptor)
  | builderInit
  | builderInitString
  | builderAppend (type : Descriptor)
  | builderLength
  | builderToString
  | print (type : Descriptor) (newline : Bool)
  | printNewline
  | writeByte
  | flush

/-- What a native method can be bound to: a built-in, or one of the simple behaviours that the
program around the engine may ask for. -/
inductive Native where
  | builtin (b : Builtin)
  /-- Returns a fixed value. -/
  | constant (v : Value)
  /-- Notes its locals, then returns a fixed value. -/
  | noteLocals (v : Value)
  /-- Notes the call chain, then returns a fixed value. -/
  | noteFrames (v : Value)
  /-- Fails with a message. -/
  | fail (message : Text)
  /-- Calls a method with its own locals as arguments. -/
  | forward (owner name descriptor : Text)
  /-- Throws a new object of a class. -/
  | throwNew (owner : Text)

/-- A value as far as it is shown: nested objects are cut off at some depth. -/
inductive View where
  | null
  | int (v : Int32)
  | long (v : Int64)
  | float (bits : UInt32)
  | double (bits : UInt64)
  /-- A string; one without contents has no text. -/
  | string (text : Option Text)
  | array (type : Descriptor) (elements : List View)
  /-- An array that is too deep to show. -/
  | arrayStub (type : Descriptor) (length : Nat)
  | mirror (type : Descriptor)
  | object (className : Text) (fields : List (FieldKey × View))
  /-- An object that is too deep to show. -/
  | objectStub (className : Text)

/-- One line of a noted call chain. -/
structure FrameView where
  text : Text
  depth : Nat
  line : Nat
  native : Bool

/-- What a noting native wrote down. -/
inductive Note where
  | locals (values : List View)
  | frames (chain : List FrameView)

/-- The state of an engine. -/
structure Machine where
  classes : ClassTable
  /-- The objects in allocation order; the first one has number 1. -/
  heap : Array Object
  /-- The buffers of string builders. -/
  buffers : Array Text
  /-- The canonical string of each text. -/
  interned : Std.HashMap Text Value
  /-- The active frames, innermost first. -/
  frames : List Frame
  natives : NativeTable Native
  /-- The deepest permitted call chain. -/
  maxDepth : Int
  /-- Set while the exception for too deep a call chain is built, which may go deeper. -/
  handlingOverflow : Bool
  profiler : Option Profiler
  /-- Methods that became hot, latest first. -/
  becameHot : List Text
  output : Array UInt8
  errorOutput : Array UInt8
  /-- What noting natives wrote down, latest first. -/
  notes : List Note
  /-- What has happened to classes and activations. -/
  history : History
  /-- The classes, objects and calls there were at each event but the changes of the class table, at
  the start of each native, where a handler was entered, and when an instance was made or one of its
  fields was used, latest first. -/
  moments : Ghost (List Moment)
  /-- The fatal errors that came up, latest first. -/
  breakdowns : Ghost (List Breakdown)

namespace Machine

/-- The classes, objects and calls there are. -/
@[inline] def moment (m : Machine) : Moment :=
  ⟨m.classes, m.heap, m.frames, m.maxDepth, m.handlingOverflow, none⟩

/-- Keeps the present moment. -/
@[inline] def mark (m : Machine) : Machine :=
  { m with moments := m.moments.map (m.moment :: ·) }

/-- Keeps the present moment, and what becomes of an instance at it. -/
@[inline] def markAccess (a : Access) (m : Machine) : Machine :=
  { m with moments := m.moments.map (m.moment.during a :: ·) }

/-- Adds an event to the history, and the moment at which it happens. -/
@[inline] def note (e : Event) (m : Machine) : Machine :=
  { m.mark with history := m.history.add e }

/-- Adds a failure to the breakdowns, if it is fatal. -/
@[inline] def breakDown (e : Raise) (m : Machine) : Machine :=
  { m with breakdowns := (m.breakdowns.and (m.history.and m.moments)).map fun (earlier, h, s) =>
      if e.isFatal then ⟨e, h, s⟩ :: earlier else earlier }

/-- Puts another class table in place. -/
@[inline] def withClasses (m : Machine) (classes : ClassTable) : Machine :=
  { m with classes, history := m.history.add (.changed classes) }

/-- All records of classes by descriptor. -/
def sortedClasses (m : Machine) : List RuntimeClass :=
  m.classes.values.mergeSort fun a b => Text.ble a.descriptor b.descriptor

/-- Forgets what was written and noted. -/
def withoutTraces (m : Machine) : Machine :=
  { m with output := #[], errorOutput := #[], notes := [], becameHot := [] }

end Machine

/-- What an engine is given by its surroundings. -/
structure Host where
  /-- Finds class files by internal name; a failure comes with its reason. -/
  provider : Option (Text → Except Text ClassFile)
  /-- Milliseconds since the epoch. -/
  currentTimeMillis : Int64
  /-- Nanoseconds since the engine started. -/
  nanoTime : Int64

/-- The surroundings of a computation, and the two ways back into the engine. -/
structure Context where
  host : Host
  /-- The bound on the length of loops and searches. -/
  fuel : Nat
  invoke : Method → List Value → EStateM Raise Machine Value
  initClass : Descriptor → EStateM Raise Machine Unit

/-- A computation of the engine. The state is kept when it fails. -/
abbrev Exec (α : Type) := ReaderT Context (EStateM Raise Machine) α

namespace Exec

variable {α : Type}

/-- Runs a computation and gives its failure as a value. -/
def attempt (x : Exec α) : Exec (Except Raise α) := fun ctx m =>
  match x ctx m with
  | .ok a m' => .ok (.ok a) m'
  | .error e m' => .ok (.error e) m'

def panic (f : Fault) : Exec α :=
  throw (.panic f)

/-- Fails with the fault of a check. -/
def check (r : Except Fault α) : Exec α :=
  match r with
  | .ok a => pure a
  | .error f => panic f

/-- Fails where the failure comes up. -/
def giveUp (e : Raise) : Exec α := do
  modify (Machine.breakDown e)
  throw e

def unresolved (kind : SymbolKind) (symbol : Text) (cause : Option Cause) : Exec α :=
  giveUp (.unresolved ⟨kind, symbol, cause⟩)

/-- Runs a method on top of the active frames. -/
def invokeMethod (m : Method) (args : List Value) : Exec Value := fun ctx =>
  ctx.invoke m args

/-- Runs the initializers of a linked class and its superclasses that have not run yet. -/
def initializeClass (d : Descriptor) : Exec Unit := fun ctx =>
  ctx.initClass d

/-- The record of a class. -/
def classAt (d : Descriptor) : Exec RuntimeClass := do
  match (← get).classes[d]? with
  | some c => pure c
  | none => panic .broken

/-- Adds an event to the history. -/
def note (e : Event) : Exec Unit :=
  modify (Machine.note e)

/-- Keeps the present moment. -/
def mark : Exec Unit :=
  modify Machine.mark

/-- Keeps the present moment, and what becomes of an instance at it. -/
def markAccess (a : Access) : Exec Unit :=
  modify (Machine.markAccess a)

def setClass (c : RuntimeClass) : Exec Unit :=
  modify fun m => m.withClasses (m.classes.insert c.descriptor c)

/-- Changes the record of a class. -/
def modifyClass (d : Descriptor) (f : RuntimeClass → RuntimeClass) : Exec Unit :=
  modify fun m => m.withClasses (m.classes.modify d f)

/-- Places an object on the heap. -/
def allocate (o : Object) : Exec Ref :=
  modifyGet fun m => (⟨m.heap.size + 1⟩, { m with heap := m.heap.push o })

/-- The object behind a reference. -/
def objectAt (r : Ref) : Exec Object := do
  match (← get).heap[r.number - 1]? with
  | some o => pure o
  | none => panic .broken

/-- The object behind a reference that must not be null. -/
def objectOf (r : Option Ref) : Exec Object :=
  match r with
  | some r => objectAt r
  | none => panic .broken

/-- The class of an object on which a method is called. -/
def receiverType (r : Ref) : Exec Descriptor := do
  let o ← objectAt r
  if o.storage then panic .broken else pure o.type

/-- Changes an object. -/
def modifyObject (r : Ref) (f : Object → Object) : Exec Unit :=
  modify fun m => { m with heap := m.heap.modify (r.number - 1) f }

/-- Runs an operation on the innermost frame. -/
def onFrame (x : FrameM α) : Exec α := fun _ m =>
  match m.frames with
  | [] => .error (.panic .broken) m
  | f :: rest =>
    match x f with
    | .ok (a, f') => .ok a { m with frames := f' :: rest }
    | .error fault => .error (.panic fault) m

/-- The innermost frame. -/
def currentFrame : Exec Frame := do
  match (← get).frames with
  | f :: _ => pure f
  | [] => panic .broken

/-- Gives up on the current instruction. -/
def malformed (reason : Text) : Exec α := do
  let f ← currentFrame
  giveUp (.malformed ⟨f.method.text, f.opPc, reason, none⟩)

end Exec

end ClassEngine
