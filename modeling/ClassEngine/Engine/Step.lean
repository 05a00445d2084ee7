import ClassEngine.Engine.Instruction.Arithmetic
import ClassEngine.Engine.Instruction.Control
import ClassEngine.Engine.Instruction.Reference
import ClassEngine.Engine.Instruction.Stack

/-!
One instruction of the innermost frame.
-/

namespace ClassEngine

/-- What an instruction leaves to be done. -/
inductive Outcome where
  | next
  /-- The method is done and has this result. -/
  | result (v : Value)

namespace Step

open Exec Allocation

def thenNext (x : Exec Unit) : Exec Outcome := do
  x
  pure .next

/-- An instruction that works on its frame alone. -/
def inFrame (x : FrameM Unit) : Exec Outcome := do
  onFrame x
  pure .next

/-- Pushes a constant. -/
def constant (v : Value) : Exec Outcome :=
  inFrame (FrameM.push v)

/-- Pushes a local. -/
def load (slot : Nat) : Exec Outcome :=
  inFrame do FrameM.push (← FrameM.load slot)

/-- Pops into a local. -/
def store (slot : Nat) : Exec Outcome :=
  inFrame (FrameM.storeTop slot)

/-- Pushes the result of an integer operator, or throws when there is none. -/
def orDivisionByZero (r : Option Value) : Exec Outcome :=
  match r with
  | some v => constant v
  | none => throwNew "java/lang/ArithmeticException" "/ by zero"

def intOp (op : IntOp) : Exec Outcome := do
  let b ← onFrame FrameM.popInt
  let a ← onFrame FrameM.popInt
  orDivisionByZero ((op.onInt a b).map Value.int)

def longOp (op : IntOp) : Exec Outcome := do
  if op.isShift then do
    let distance ← onFrame FrameM.popInt
    let a ← onFrame FrameM.popLong
    constant (.long (op.shiftLong a distance))
  else do
    let b ← onFrame FrameM.popLong
    let a ← onFrame FrameM.popLong
    orDivisionByZero ((op.onLong a b).map Value.long)

/-- Gives up on an instruction that the engine does not have. -/
def unsupported (name : Text) : Exec Outcome :=
  malformed ("unsupported instruction " ++ name)

/-- Executes an instruction whose opcode has been read. -/
def execute : Opcode → Exec Outcome
  | .nop => pure .next
  | .aconstNull => constant .null
  | .iconstM1 => constant (.int (-1))
  | .iconst0 => constant (.int 0)
  | .iconst1 => constant (.int 1)
  | .iconst2 => constant (.int 2)
  | .iconst3 => constant (.int 3)
  | .iconst4 => constant (.int 4)
  | .iconst5 => constant (.int 5)
  | .lconst0 => constant (.long 0)
  | .lconst1 => constant (.long 1)
  | .fconst0 => constant (.float 0)
  | .fconst1 => constant (.float 0x3F800000)
  | .fconst2 => constant (.float 0x40000000)
  | .dconst0 => constant (.double 0)
  | .dconst1 => constant (.double 0x3FF0000000000000)
  | .bipush => inFrame do FrameM.push (.int (← FrameM.s1).toInt32)
  | .sipush => inFrame do FrameM.push (.int (← FrameM.s2).toInt32)
  | .ldc => thenNext do Reference.loadConstant (← onFrame FrameM.u1).toUInt16
  | .ldcW | .ldc2W => thenNext do Reference.loadConstant (← onFrame FrameM.u2)
  | .iload | .lload | .fload | .dload | .aload =>
    inFrame do FrameM.push (← FrameM.load (← FrameM.u1).toNat)
  | .iload0 | .lload0 | .fload0 | .dload0 | .aload0 => load 0
  | .iload1 | .lload1 | .fload1 | .dload1 | .aload1 => load 1
  | .iload2 | .lload2 | .fload2 | .dload2 | .aload2 => load 2
  | .iload3 | .lload3 | .fload3 | .dload3 | .aload3 => load 3
  | .istore | .lstore | .fstore | .dstore | .astore =>
    inFrame do FrameM.storeTop (← FrameM.u1).toNat
  | .istore0 | .lstore0 | .fstore0 | .dstore0 | .astore0 => store 0
  | .istore1 | .lstore1 | .fstore1 | .dstore1 | .astore1 => store 1
  | .istore2 | .lstore2 | .fstore2 | .dstore2 | .astore2 => store 2
  | .istore3 | .lstore3 | .fstore3 | .dstore3 | .astore3 => store 3
  | .iaload | .laload | .faload | .daload | .aaload | .baload | .caload | .saload =>
    thenNext Arrays.load
  | .iastore | .lastore | .fastore | .dastore | .aastore | .bastore | .castore | .sastore =>
    thenNext Arrays.store
  | .wide => inFrame FrameM.wide
  | .iinc => inFrame FrameM.iinc
  | .pop => inFrame (FrameM.stackOp .pop)
  | .pop2 => inFrame (FrameM.stackOp .pop2)
  | .dup => inFrame (FrameM.stackOp .dup)
  | .dupX1 => inFrame (FrameM.stackOp .dupX1)
  | .dupX2 => inFrame (FrameM.stackOp .dupX2)
  | .dup2 => inFrame (FrameM.stackOp .dup2)
  | .dup2X1 => inFrame (FrameM.stackOp .dup2X1)
  | .dup2X2 => inFrame (FrameM.stackOp .dup2X2)
  | .swap => inFrame (FrameM.stackOp .swap)
  | .iadd => intOp .add
  | .isub => intOp .sub
  | .imul => intOp .mul
  | .idiv => intOp .div
  | .irem => intOp .rem
  | .ishl => intOp .shl
  | .ishr => intOp .shr
  | .iushr => intOp .ushr
  | .iand => intOp .and
  | .ior => intOp .or
  | .ixor => intOp .xor
  | .ladd => longOp .add
  | .lsub => longOp .sub
  | .lmul => longOp .mul
  | .ldiv => longOp .div
  | .lrem => longOp .rem
  | .lshl => longOp .shl
  | .lshr => longOp .shr
  | .lushr => longOp .ushr
  | .land => longOp .and
  | .lor => longOp .or
  | .lxor => longOp .xor
  | .fadd => inFrame (FrameM.floatOp .add)
  | .fsub => inFrame (FrameM.floatOp .sub)
  | .fmul => inFrame (FrameM.floatOp .mul)
  | .fdiv => inFrame (FrameM.floatOp .div)
  | .frem => inFrame (FrameM.floatOp .rem)
  | .dadd => inFrame (FrameM.doubleOp .add)
  | .dsub => inFrame (FrameM.doubleOp .sub)
  | .dmul => inFrame (FrameM.doubleOp .mul)
  | .ddiv => inFrame (FrameM.doubleOp .div)
  | .drem => inFrame (FrameM.doubleOp .rem)
  | .ineg => inFrame FrameM.negateInt
  | .lneg => inFrame FrameM.negateLong
  | .fneg => inFrame FrameM.negateFloat
  | .dneg => inFrame FrameM.negateDouble
  | .i2l => inFrame (FrameM.convert .i2l)
  | .i2f => inFrame (FrameM.convert .i2f)
  | .i2d => inFrame (FrameM.convert .i2d)
  | .l2i => inFrame (FrameM.convert .l2i)
  | .l2f => inFrame (FrameM.convert .l2f)
  | .l2d => inFrame (FrameM.convert .l2d)
  | .f2i => inFrame (FrameM.convert .f2i)
  | .f2l => inFrame (FrameM.convert .f2l)
  | .f2d => inFrame (FrameM.convert .f2d)
  | .d2i => inFrame (FrameM.convert .d2i)
  | .d2l => inFrame (FrameM.convert .d2l)
  | .d2f => inFrame (FrameM.convert .d2f)
  | .i2b => inFrame (FrameM.convert .i2b)
  | .i2c => inFrame (FrameM.convert .i2c)
  | .i2s => inFrame (FrameM.convert .i2s)
  | .lcmp => inFrame FrameM.compareLongs
  | .fcmpl => inFrame (FrameM.compareFloats false)
  | .fcmpg => inFrame (FrameM.compareFloats true)
  | .dcmpl => inFrame (FrameM.compareDoubles false)
  | .dcmpg => inFrame (FrameM.compareDoubles true)
  | .ifeq => inFrame (FrameM.branchInt .eq)
  | .ifne => inFrame (FrameM.branchInt .ne)
  | .iflt => inFrame (FrameM.branchInt .lt)
  | .ifge => inFrame (FrameM.branchInt .ge)
  | .ifgt => inFrame (FrameM.branchInt .gt)
  | .ifle => inFrame (FrameM.branchInt .le)
  | .ifIcmpeq => inFrame (FrameM.branchInts .eq)
  | .ifIcmpne => inFrame (FrameM.branchInts .ne)
  | .ifIcmplt => inFrame (FrameM.branchInts .lt)
  | .ifIcmpge => inFrame (FrameM.branchInts .ge)
  | .ifIcmpgt => inFrame (FrameM.branchInts .gt)
  | .ifIcmple => inFrame (FrameM.branchInts .le)
  | .ifAcmpeq => inFrame (FrameM.branchRefs true)
  | .ifAcmpne => inFrame (FrameM.branchRefs false)
  | .ifnull => inFrame (FrameM.branchNull true)
  | .ifnonnull => inFrame (FrameM.branchNull false)
  | .goto => inFrame FrameM.goto
  | .gotoW => inFrame FrameM.gotoWide
  | .tableswitch => inFrame FrameM.tableswitch
  | .lookupswitch => inFrame FrameM.lookupswitch
  | .ireturn | .lreturn | .freturn | .dreturn | .areturn => do
    let v ← onFrame FrameM.pop
    pure (.result v)
  | .returnVoid => pure (.result .null)
  | .getstatic => thenNext Reference.getStatic
  | .putstatic => thenNext Reference.putStatic
  | .getfield => thenNext Reference.getField
  | .putfield => thenNext Reference.putField
  | .invokestatic => thenNext (Reference.invoke Reference.staticCall)
  | .invokevirtual => thenNext (Reference.invoke Reference.virtualCall)
  | .invokeinterface => thenNext (Reference.invoke Reference.interfaceCall)
  | .invokespecial => thenNext (Reference.invoke Reference.specialCall)
  | .newObject => thenNext Reference.newInstance
  | .newarray => thenNext Reference.newPrimitiveArray
  | .anewarray => thenNext Reference.newReferenceArray
  | .multianewarray => thenNext Reference.newMultiArray
  | .arraylength => thenNext Reference.arrayLength
  | .athrow => thenNext Reference.throwTop
  | .checkcast => thenNext Reference.checkCast
  | .instanceof => thenNext Reference.instanceTest
  | .monitorenter | .monitorexit => thenNext Reference.monitor
  | .jsr => unsupported Opcode.jsr.mnemonic
  | .ret => unsupported Opcode.ret.mnemonic
  | .jsrW => unsupported Opcode.jsrW.mnemonic
  | .invokedynamic => unsupported Opcode.invokedynamic.mnemonic

/-- Executes the instruction that a byte stands for. It is kept closed, since unfolding it in a
statement about an unknown byte goes through the whole list of opcodes. -/
@[irreducible] def run (byte : UInt8) : Exec Outcome :=
  match Opcode.ofByte? byte with
  | some op => execute op
  | none => unsupported (Opcode.nameOf byte)

end Step

end ClassEngine
