import ClassEngine.Engine.RuntimeClass
import ClassEngine.ClassFile.Pool
import ClassEngine.Bytecode.Length

/-!
One method activation, and the operations of instructions on it: the operand stack, the local
variables and the operands in the code. A misuse ends the activation with a `Fault`.
-/

namespace ClassEngine

/-- The state of one activation. A native activation uses its locals as argument list. -/
structure Frame where
  method : Method
  /-- The number of active frames up to this one. -/
  depth : Nat
  /-- The operand stack, top first. -/
  stack : List Value
  locals : Array Value
  /-- The address of the next byte to read. -/
  pc : Int
  /-- The address of the instruction being executed. -/
  opPc : Int

namespace Frame

/-- A fresh activation on top of others. -/
def enter (m : Method) (locals : Array Value) (callers : List Frame) : Frame :=
  ⟨m, (callers.head?.elim 0 depth) + 1, [], locals, 0, 0⟩

/-- The bytecode of the method. -/
def bytecode (f : Frame) : Array UInt8 :=
  match f.method.code with
  | some c => c.bytecode
  | none => #[]

/-- The source line of the current instruction, 0 when unknown. -/
def line (f : Frame) : Nat :=
  match f.method.code with
  | some c => c.lineFor f.opPc
  | none => 0

/-- The method and the place in it. -/
def text (f : Frame) : Text :=
  if f.method.isNative then f.method.text ++ " (native)"
  else f.method.text ++ " pc=" ++ Text.ofInt f.opPc

end Frame

/-- An operation on one activation. -/
abbrev FrameM (α : Type) := StateT Frame (Except Fault) α

namespace FrameM

def fail {α : Type} (f : Fault) : FrameM α :=
  throw f

def push (v : Value) : FrameM Unit :=
  modify fun f => { f with stack := v :: f.stack }

def pop : FrameM Value := fun f =>
  match f.stack with
  | v :: rest => .ok (v, { f with stack := rest })
  | [] => .error .stackUnderflow

/-- The top of the stack, which stays. -/
def peek : FrameM Value := fun f =>
  match f.stack with
  | v :: _ => .ok (v, f)
  | [] => .error .stackUnderflow

/-- Pushes values in order, so that the last one is on top. -/
def pushAll (vs : List Value) : FrameM Unit :=
  modify fun f => { f with stack := vs.reverse ++ f.stack }

/-- Pops `n` values at once and gives them in the order in which they were pushed. -/
def popN (n : Nat) : FrameM (List Value) := fun f =>
  if f.stack.length < n then .error .stackUnderflow
  else .ok ((f.stack.take n).reverse, { f with stack := f.stack.drop n })

/-- The reference in a value, `none` for null. -/
def asRef : Value → Except Fault (Option Ref)
  | .null => .ok none
  | .ref r => .ok (some r)
  | v => .error (.mistyped "reference" v)

/-- The int in a value. -/
def asInt : Value → Except Fault Int32
  | .int v => .ok v
  | v => .error (.mistyped "int" v)

def popInt : FrameM Int32 := do
  match ← pop with
  | .int v => pure v
  | v => fail (.mistyped "int" v)

def popLong : FrameM Int64 := do
  match ← pop with
  | .long v => pure v
  | v => fail (.mistyped "long" v)

def popFloat : FrameM UInt32 := do
  match ← pop with
  | .float v => pure v
  | v => fail (.mistyped "float" v)

def popDouble : FrameM UInt64 := do
  match ← pop with
  | .double v => pure v
  | v => fail (.mistyped "double" v)

def popRef : FrameM (Option Ref) := do
  liftM (asRef (← pop))

/-- Reads a local variable. -/
def load (slot : Nat) : FrameM Value := fun f =>
  match f.locals[slot]? with
  | some v => .ok (v, f)
  | none => .error (.localOutOfRange slot f.locals.size)

/-- Writes a local variable; a long or double fills the next slot as well. -/
def store (slot : Nat) (v : Value) : FrameM Unit := fun f =>
  let width := if v.isWide then 2 else 1
  if f.locals.size < slot + width then .error (.localOutOfRange slot f.locals.size)
  else
    let locals := f.locals.setIfInBounds slot v
    .ok ((), { f with locals := if v.isWide then locals.setIfInBounds (slot + 1) v else locals })

/-- The next byte of the code. -/
def u1 : FrameM UInt8 := fun f =>
  if f.pc < 0 then .error .broken
  else match f.bytecode[f.pc.toNat]? with
    | some b => .ok (b, { f with pc := f.pc + 1 })
    | none => .error .truncatedOperand

def s1 : FrameM Int8 := do
  pure (← u1).toInt8

def u2 : FrameM UInt16 := do
  let hi ← u1
  let lo ← u1
  pure (hi.toNat * 256 + lo.toNat).toUInt16

def s2 : FrameM Int16 := do
  pure (← u2).toInt16

def s4 : FrameM Int32 := do
  let hi ← u2
  let lo ← u2
  pure (hi.toNat * 65536 + lo.toNat).toUInt32.toInt32

/-- Continues at a distance from the current instruction. -/
def branch (offset : Int) : FrameM Unit :=
  modify fun f => { f with pc := f.opPc + offset }

/-- Skips some bytes of the code. -/
def skip (distance : Int) : FrameM Unit :=
  modify fun f => { f with pc := f.pc + distance }

/-- Skips the padding before the operands of a switch. -/
def align : FrameM Unit :=
  modify fun f => { f with pc := Bytecode.align f.pc.toNat }

end FrameM

end ClassEngine
