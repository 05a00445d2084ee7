import ClassEngine.Assembly.Assembler

/-!
Classes described as data: members, method bodies as lists of directives, and constants by value.
`ClassSource.build` turns a description into a class.
-/

namespace ClassEngine

/-- A constant by value, or an index that is taken as it is. -/
inductive ConstantSource where
  | int (v : Int32)
  | long (v : Int64)
  | float (bits : UInt32)
  | double (bits : UInt64)
  | string (t : Text)
  | classRef (name : Text)
  | utf8 (t : Text)
  | nameAndType (name descriptor : Text)
  | member (kind : LinkKind) (owner name descriptor : Text)
  | index (i : UInt16)

/-- Interns a constant. -/
def ConstantSource.intern : ConstantSource → Build UInt16
  | int v => Builder.intConst v
  | long v => Builder.longConst v
  | float bits => Builder.floatConst bits
  | double bits => Builder.doubleConst bits
  | string t => Builder.stringConst t
  | classRef name => Builder.classRef name
  | utf8 t => Builder.utf8 t
  | nameAndType name descriptor => Builder.nameAndType name descriptor
  | member kind owner name descriptor => Builder.memberRef kind owner name descriptor
  | index i => pure i

/-- Whether finding the index takes a pool. -/
def ConstantSource.needsPool : ConstantSource → Bool
  | index _ => false
  | _ => true

/-- One line of an assembled body. -/
inductive Directive where
  | plain (op : Opcode)
  | raw (bytes : List UInt8)
  /-- So many instructions without effect. -/
  | pad (n : Nat)
  | u1 (op : Opcode) (operand : UInt8)
  | u2 (op : Opcode) (operand : UInt16)
  | pushInt (v : Int32)
  | pushLong (v : Int64)
  | pushFloat (bits : UInt32)
  | pushDouble (bits : UInt64)
  | loadString (t : Text)
  | loadClass (name : Text)
  | pooled (op : Opcode) (k : ConstantSource)
  | load (base : Opcode) (slot : Int)
  | store (base : Opcode) (slot : Int)
  | iinc (slot delta : Int)
  | invoke (op : Opcode) (owner name descriptor : Text)
  | field (op : Opcode) (owner name descriptor : Text)
  | typeOp (op : Opcode) (name : Text)
  | multianewarray (descriptor : Text) (dims : UInt8)
  | line (n : UInt16)
  | label (name : Text)
  | jump (op : Opcode) (name : Text)
  | tableswitch (low : Int32) (dflt : Text) (targets : List Text)
  | lookupswitch (dflt : Text) (keys : List Int32) (targets : List Text)
  | handler (h : PendingHandler)

namespace Directive

open Assembler in
/-- Assembles one line. -/
def assemble : Directive → Assemble Unit
  | plain op => emit op
  | raw bytes => emitBytes bytes
  | pad n => emitBytes (List.replicate n Opcode.nop.byte)
  | u1 op operand => emitU1 op operand
  | u2 op operand => emitU2 op operand
  | pushInt v => Assembler.pushInt v
  | pushLong v => Assembler.pushLong v
  | pushFloat bits => do
    emitU2 .ldcW (← internOr .constantWithoutClass (Builder.floatConst bits))
  | pushDouble bits => Assembler.pushDouble bits
  | loadString t => do loadIndex (← intern (Builder.stringConst t))
  | loadClass name => do loadIndex (← intern (Builder.classRef name))
  | pooled op (.index i) => emitU2 op i
  | pooled op k => do emitU2 op (← internOr .constantWithoutClass k.intern)
  | load base slot => Assembler.load base slot
  | store base slot => Assembler.store base slot
  | iinc slot delta => Assembler.iinc slot delta
  | invoke op owner name descriptor => Assembler.invoke op owner name descriptor
  | field op owner name descriptor => Assembler.field op owner name descriptor
  | typeOp op name => Assembler.typeOp op name
  | multianewarray descriptor dims => Assembler.multianewarray descriptor dims
  | line n => Assembler.line n
  | label name => mark name
  | jump op name => Assembler.jump op name
  | tableswitch low dflt targets => Assembler.tableswitch low dflt targets
  | lookupswitch dflt keys targets => Assembler.lookupswitch dflt keys targets
  | handler h => Assembler.handler h

/-- Assembles the lines of a body. -/
def assembleAll (ds : List Directive) (a : Assembler) : Except AssemblyError Assembler := do
  let (_, a') ← (ds.forM assemble).run a
  pure a'

end Directive

/-- How a method is implemented. -/
inductive MethodBody where
  | native
  | abstract
  /-- No body, and no flag that says why. -/
  | missing
  | code (stack locals : UInt16) (lines : List Directive)

/-- A method to declare. -/
structure MethodSource where
  name : Text
  descriptor : Text
  flags : AccessFlags
  body : MethodBody
  throws : List Text

/-- A field to declare, possibly with a constant value. -/
structure FieldSource where
  name : Text
  descriptor : Text
  flags : AccessFlags
  value : Option ConstantSource

/-- A class to build. -/
structure ClassSource where
  name : Text
  superName : Text
  flags : AccessFlags
  interfaces : List Text
  sourceFile : Text
  /-- This many int constants from 1000000 on are interned before the members. -/
  filler : Nat
  fields : List FieldSource
  methods : List MethodSource

namespace ClassSource

/-- Declares a field, its constant first. -/
def addField (f : FieldSource) : Build Unit := do
  match f.value with
  | some k => do
    let i ← k.intern
    Builder.addConstantField f.flags f.name f.descriptor i
  | none => Builder.addField f.flags f.name f.descriptor 0

/-- Declares a method. -/
def addMethod (m : MethodSource) (b : Builder) : Except AssemblyError Builder :=
  let declare (flags : AccessFlags) (code : Option Code) (b : Builder) : Builder :=
    ((Builder.addMethod flags m.name m.descriptor code m.throws).run b).2
  match m.body with
  | .native => .ok (declare (m.flags.adding AccessFlags.nativeBit) none b)
  | .abstract => .ok (declare (m.flags.adding AccessFlags.abstractBit) none b)
  | .missing => .ok (declare m.flags none b)
  | .code stack locals lines => do
    let a ← Directive.assembleAll lines (.start (some b))
    let code ← a.finish stack locals
    pure (declare m.flags (some code) (a.pool.getD b))

/-- Interns `n` ints from `first` on. -/
def addFiller (first : Int32) : Nat → Build Unit
  | 0 => pure ()
  | n + 1 => do
    let _ ← Builder.intConst first
    addFiller (first + 1) n

/-- The part of a class before its methods. -/
def header (c : ClassSource) : Builder :=
  let members : Build Unit := do
    Builder.implement c.interfaces
    Builder.sourceFile c.sourceFile
    addFiller 1000000 c.filler
    c.fields.forM addField
  (members.run (Builder.start c.name c.superName c.flags)).2

/-- Builds the class. -/
def build (c : ClassSource) : Except AssemblyError ClassFile := do
  let b ← c.methods.foldlM (fun b m => addMethod m b) c.header
  pure b.file

end ClassSource

end ClassEngine
