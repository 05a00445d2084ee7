import ClassEngine.Engine.Value
import ClassEngine.Bytecode.Opcode

/-!
How running guest code can end other than with a value. Only a thrown object is visible to guest
code; everything else ends the run.
-/

namespace ClassEngine

/-- Misuse that unverified code can commit. -/
inductive Fault where
  | stackUnderflow
  /-- A value of another kind than the instruction or native works on. -/
  | mistyped (expected : Text) (found : Value)
  /-- An element access on the described object, which is no array. -/
  | notArray (object : Text)
  | localOutOfRange (slot count : Nat)
  | truncatedOperand
  /-- An instruction byte that has no wide form. -/
  | noWideForm (byte : UInt8)
  | emptyTable (high low : Int32)
  | negativePairs (count : Int32)
  /-- The engine itself stumbled: a missing object, slot or byte. -/
  | broken
  deriving DecidableEq

/-- The wording of a fault. -/
def Fault.message : Fault → Text
  | stackUnderflow => "operand stack underflow"
  | mistyped expected found => "expected " ++ expected ++ ", found " ++ found.kindName
  | notArray object => "expected array, found " ++ object
  | localOutOfRange slot count =>
    "local " ++ Text.ofNat slot ++ " out of range (" ++ Text.ofNat count ++ " locals)"
  | truncatedOperand => "truncated operand"
  | noWideForm byte => "wide cannot modify " ++ Opcode.nameOf byte
  | emptyTable high low =>
    "tableswitch high " ++ Text.ofInt high.toInt ++ " below low " ++ Text.ofInt low.toInt
  | negativePairs count => "lookupswitch with " ++ Text.ofInt count.toInt ++ " pairs"
  | broken => "runtime error"

/-- The kinds of symbols that have to be bound. -/
inductive SymbolKind where
  | type
  | field
  | method
  | native
  deriving DecidableEq

/-- The word for a kind of symbol. -/
def SymbolKind.text : SymbolKind → Text
  | type => "class"
  | field => "field"
  | method => "method"
  | native => "native"

/-- What an error gives as its cause. -/
inductive Cause where
  /-- The superclasses of a class lead back to it. -/
  | circularity
  /-- An empty operand stack was popped. -/
  | underflow
  | reason (text : Text)
  /-- A guest object was thrown, with the wording of that. -/
  | thrown (object : Ref) (text : Text)
  deriving DecidableEq

instance : Coe Text Cause := ⟨.reason⟩

/-- The wording of a cause. -/
def Cause.text : Cause → Text
  | circularity => "class circularity"
  | underflow => Fault.stackUnderflow.message
  | reason text | thrown _ text => text

/-- A class, field, method or native that cannot be bound, and why, if there is more to say. -/
structure Unresolved where
  kind : SymbolKind
  symbol : Text
  cause : Option Cause
  deriving DecidableEq

/-- The wording of an unresolved symbol. -/
def Unresolved.message (u : Unresolved) : Text :=
  let head : Text := "unresolved " ++ u.kind.text ++ " " ++ u.symbol
  match u.cause with
  | some cause => head ++ ": " ++ cause.text
  | none => head

/-- Code that the engine cannot execute, with the place where it gave up. -/
structure Malformed where
  method : Text
  pc : Int
  reason : Text
  /-- The cause, if it is more than the wording of the reason. -/
  cause : Option Cause
  deriving DecidableEq

/-- Whether an empty operand stack was popped. -/
def Malformed.underflow (m : Malformed) : Bool :=
  m.cause = some .underflow

/-- The wording of malformed code. -/
def Malformed.message (m : Malformed) : Text :=
  "malformed code in " ++ m.method ++ " at pc " ++ Text.ofInt m.pc ++ ": " ++ m.reason

/-- The ways in which a computation of the engine can fail. -/
inductive Raise where
  /-- A guest object was thrown; the only failure that handlers see. -/
  | thrown (object : Ref)
  | unresolved (cause : Unresolved)
  | malformed (cause : Malformed)
  | failure (message : Text)
  /-- A fault outside of any bytecode frame that could be blamed for it. -/
  | panic (fault : Fault)
  /-- The bound on the number of steps was reached. -/
  | exhausted
  deriving DecidableEq

/-- Whether the failure is the engine's own stumbling, which leaves no time to clean up. -/
def Raise.isAbrupt : Raise → Bool
  | panic _ | exhausted => true
  | _ => false

/-- Whether the failure is one that no guest code ever sees. -/
def Raise.isFatal : Raise → Bool
  | unresolved _ | malformed _ => true
  | _ => false

end ClassEngine
