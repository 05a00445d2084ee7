import ClassEngine.ClassFile.Builder
import ClassEngine.Bytecode.Opcode

/-!
Assembling one method body. Branch targets are labels, known by name, that may be used before they
are marked: a use leaves a gap that is filled when the label is marked. Symbolic operands are
interned in the pool of the class under construction, when there is one.
-/

namespace ClassEngine

/-- Why a body cannot be assembled. -/
inductive AssemblyError where
  | noPool
  | labelMarkedTwice
  | branchOutOfRange (offset : Int)
  | switchLengthsDiffer
  | unmarkedLabel
  /-- A constant was wanted although there is no class to hold it. -/
  | constantWithoutClass
  deriving DecidableEq

/-- The wording of a refusal. -/
def AssemblyError.message : AssemblyError → Text
  | noPool => "bytecode: assembler has no constant pool"
  | labelMarkedTwice => "label already resolved"
  | branchOutOfRange offset => "branch offset " ++ Text.ofInt offset ++ " out of range"
  | switchLengthsDiffer => "lookupswitch: keys and targets differ in length"
  | unmarkedLabel => "exception handler references an unmarked label"
  | constantWithoutClass => "runtime error"

/-- A gap for a branch offset: where it is, the address it counts from, and its width. -/
structure Gap where
  address : Nat
  base : Nat
  wide : Bool

/-- A branch target: its address once marked, and the gaps waiting for it, latest first. -/
structure Label where
  position : Option Nat
  gaps : List Gap

/-- An exception table entry by its labels. -/
structure PendingHandler where
  start : Text
  stop : Text
  target : Text
  catchType : Text

/-- A body under construction. -/
structure Assembler where
  /-- The class that interns symbolic operands. -/
  pool : Option Builder
  bytes : Array UInt8
  handlers : List PendingHandler
  lines : List LineNumber
  labels : List (Text × Label)

/-- A step of assembling. -/
abbrev Assemble (α : Type) := StateT Assembler (Except AssemblyError) α

namespace Assembler

/-- An empty body. -/
def start (pool : Option Builder) : Assembler :=
  ⟨pool, #[], [], [], []⟩

/-- Appends bytes. -/
def emitBytes (bs : List UInt8) : Assemble Unit :=
  modify fun a => { a with bytes := a.bytes ++ bs.toArray }

/-- Appends an opcode without operands. -/
def emit (op : Opcode) : Assemble Unit :=
  modify fun a => { a with bytes := a.bytes.push op.byte }

/-- Appends an opcode with a one-byte operand. -/
def emitU1 (op : Opcode) (operand : UInt8) : Assemble Unit :=
  emitBytes [op.byte, operand]

/-- A number in two bytes, most significant first. -/
def twoBytes (v : UInt16) : List UInt8 :=
  [(v.toNat / 256).toUInt8, v.toNat.toUInt8]

/-- A number in four bytes, most significant first. -/
def fourBytes (v : UInt32) : List UInt8 :=
  [(v.toNat / 16777216).toUInt8, (v.toNat / 65536).toUInt8, (v.toNat / 256).toUInt8,
    v.toNat.toUInt8]

/-- Appends an opcode with a two-byte operand. -/
def emitU2 (op : Opcode) (operand : UInt16) : Assemble Unit :=
  emitBytes (op.byte :: twoBytes operand)

/-- Interns a constant, failing with `missing` when there is no class to hold it. -/
def internOr (missing : AssemblyError) (k : Build UInt16) : Assemble UInt16 := do
  let a ← get
  match a.pool with
  | none => throw missing
  | some b =>
    let (i, b') := k.run b
    set { a with pool := some b' }
    pure i

/-- Interns an operand. -/
def intern (k : Build UInt16) : Assemble UInt16 :=
  internOr .noPool k

/-- Loads the constant at an index with the shorter of two instructions. -/
def loadIndex (index : UInt16) : Assemble Unit :=
  if index ≤ 255 then emitU1 .ldc index.toUInt8 else emitU2 .ldcW index

/-- Pushes an int in the shortest way. -/
def pushInt (v : Int32) : Assemble Unit := do
  if -1 ≤ v ∧ v ≤ 5 then emitBytes [Opcode.iconst0.byte + v.toInt8.toUInt8]
  else if -128 ≤ v ∧ v ≤ 127 then emitU1 .bipush v.toInt8.toUInt8
  else if -32768 ≤ v ∧ v ≤ 32767 then emitU2 .sipush v.toInt16.toUInt16
  else loadIndex (← intern (Builder.intConst v))

/-- Pushes a long. -/
def pushLong (v : Int64) : Assemble Unit := do
  if v = 0 then emit .lconst0
  else if v = 1 then emit .lconst1
  else emitU2 .ldc2W (← intern (Builder.longConst v))

/-- Pushes a double, given by its bits. Negative zero has no short form. -/
def pushDouble (bits : UInt64) : Assemble Unit := do
  if bits = 0 then emit .dconst0
  else if bits = 0x3FF0000000000000 then emit .dconst1
  else emitU2 .ldc2W (← intern (Builder.doubleConst bits))

/-- The one-byte form of a local variable instruction: four slots of each kind follow `first`. -/
def compact (first kind base : Opcode) : UInt8 :=
  first.byte + (base.byte - kind.byte) * 4

/-- A local variable instruction in the shortest form for the slot. -/
def localAccess (base : Opcode) (compactByte : UInt8) (slot : Int) : Assemble Unit :=
  if slot < 4 then emitBytes [compactByte + (slot % 256).toNat.toUInt8]
  else if slot ≤ 255 then emitU1 base (slot % 256).toNat.toUInt8
  else emitBytes [Opcode.wide.byte, base.byte, (slot / 256 % 256).toNat.toUInt8,
    (slot % 256).toNat.toUInt8]

/-- Loads a local variable. -/
def load (base : Opcode) (slot : Int) : Assemble Unit :=
  localAccess base (compact .iload0 .iload base) slot

/-- Stores into a local variable. -/
def store (base : Opcode) (slot : Int) : Assemble Unit :=
  localAccess base (compact .istore0 .istore base) slot

/-- Adds a constant to an int local. -/
def iinc (slot delta : Int) : Assemble Unit :=
  let low (v : Int) : UInt8 := (v % 256).toNat.toUInt8
  if slot ≤ 255 ∧ -128 ≤ delta ∧ delta ≤ 127 then
    emitBytes [Opcode.iinc.byte, low slot, low delta]
  else
    emitBytes [Opcode.wide.byte, Opcode.iinc.byte, low (slot / 256), low slot, low (delta / 256),
      low delta]

/-- Calls a method. Only interface calls carry a count, which the engine does not read. -/
def invoke (op : Opcode) (owner name descriptor : Text) : Assemble Unit := do
  if op = .invokeinterface then do
    emitU2 op (← intern (Builder.interfaceMethodRef owner name descriptor))
    emitBytes [1, 0]
  else emitU2 op (← intern (Builder.methodRef owner name descriptor))

/-- Reads or writes a field. -/
def field (op : Opcode) (owner name descriptor : Text) : Assemble Unit := do
  emitU2 op (← intern (Builder.fieldRef owner name descriptor))

/-- An instruction on a class. -/
def typeOp (op : Opcode) (name : Text) : Assemble Unit := do
  emitU2 op (← intern (Builder.classRef name))

/-- Allocates an array of `dims` dimensions. -/
def multianewarray (descriptor : Text) (dims : UInt8) : Assemble Unit := do
  emitU2 .multianewarray (← intern (Builder.classRef descriptor))
  emitBytes [dims]

/-- The following instructions belong to a source line. -/
def line (n : UInt16) : Assemble Unit :=
  modify fun a => { a with lines := a.lines ++ [⟨a.bytes.size.toUInt16, n⟩] }

/-- A label; one that was never mentioned has no position. -/
def label (a : Assembler) (name : Text) : Label :=
  (a.labels.lookup name).getD ⟨none, []⟩

/-- Replaces a label. -/
def setLabel (name : Text) (l : Label) : Assemble Unit :=
  modify fun a => { a with labels := (name, l) :: a.labels.filter (·.1 != name) }

/-- Overwrites the bytes from address `i` on. -/
def overwrite (i : Nat) (bs : List UInt8) (bytes : Array UInt8) : Array UInt8 :=
  (bs.foldl (fun (p : Nat × Array UInt8) b => (p.1 + 1, p.2.setIfInBounds p.1 b)) (i, bytes)).2

/-- Writes the distance to `target` into a gap. -/
def fill (g : Gap) (target : Nat) : Assemble Unit := do
  let offset : Int := target - g.base
  if g.wide then
    modify fun a => { a with
      bytes := overwrite g.address (fourBytes (offset % 4294967296).toNat.toUInt32) a.bytes }
  else if offset < -32768 ∨ 32767 < offset then throw (.branchOutOfRange offset)
  else modify fun a => { a with
    bytes := overwrite g.address (twoBytes (offset % 65536).toNat.toUInt16) a.bytes }

/-- Marks the current address with a label and fills the gaps that wait for it. -/
def mark (name : Text) : Assemble Unit := do
  let a ← get
  let l := a.label name
  if l.position.isSome then throw .labelMarkedTwice
  let here := a.bytes.size
  l.gaps.reverse.forM fun g => fill g here
  setLabel name ⟨some here, []⟩

/-- Appends the distance from `base` to a label, at once or when the label is marked. -/
def reference (name : Text) (base : Nat) (wide : Bool) : Assemble Unit := do
  let a ← get
  let g : Gap := ⟨a.bytes.size, base, wide⟩
  emitBytes (if wide then [0, 0, 0, 0] else [0, 0])
  let l := a.label name
  match l.position with
  | some target => fill g target
  | none => setLabel name { l with gaps := g :: l.gaps }

/-- A branch to a label. -/
def jump (op : Opcode) (name : Text) : Assemble Unit := do
  let base := (← get).bytes.size
  emit op
  reference name base (op = .gotoW ∨ op = .jsrW)

/-- Zeros up to the next multiple of four. -/
def pad : Assemble Unit :=
  modify fun a => { a with bytes := a.bytes ++ Array.replicate ((4 - a.bytes.size % 4) % 4) 0 }

/-- A switch over the keys from `low` on, one for each target. -/
def tableswitch (low : Int32) (dflt : Text) (targets : List Text) : Assemble Unit := do
  let base := (← get).bytes.size
  emit .tableswitch
  pad
  reference dflt base true
  emitBytes (fourBytes low.toUInt32)
  emitBytes (fourBytes (low + Int32.ofNat targets.length - 1).toUInt32)
  targets.forM fun t => reference t base true

/-- A switch over given keys, one for each target. -/
def lookupswitch (dflt : Text) (keys : List Int32) (targets : List Text) : Assemble Unit := do
  if keys.length ≠ targets.length then throw .switchLengthsDiffer
  let base := (← get).bytes.size
  emit .lookupswitch
  pad
  reference dflt base true
  emitBytes (fourBytes keys.length.toUInt32)
  (keys.zip targets).forM fun (k, t) => do
    emitBytes (fourBytes k.toUInt32)
    reference t base true

/-- Adds an exception table entry; its catch type is interned when there is a pool. -/
def handler (h : PendingHandler) : Assemble Unit := do
  let a ← get
  if h.catchType.isEmpty ∨ a.pool.isNone then pure ()
  else do
    let _ ← intern (Builder.classRef h.catchType)
    pure ()
  modify fun a => { a with handlers := a.handlers ++ [h] }

/-- The entry of the exception table, once its labels are marked. -/
def resolveHandler (a : Assembler) (h : PendingHandler) : Except AssemblyError Handler :=
  match (a.label h.start).position, (a.label h.stop).position, (a.label h.target).position with
  | some s, some e, some t => .ok ⟨s.toUInt16, e.toUInt16, t.toUInt16, h.catchType⟩
  | _, _, _ => .error .unmarkedLabel

/-- The finished body. -/
def finish (a : Assembler) (maxStack maxLocals : UInt16) : Except AssemblyError Code := do
  let handlers ← a.handlers.mapM a.resolveHandler
  pure ⟨maxStack, maxLocals, a.bytes, handlers, a.lines⟩

end Assembler

end ClassEngine
