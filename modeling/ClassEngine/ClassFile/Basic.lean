import ClassEngine.Text.Basic
import ClassEngine.Numeric.Ieee

/-!
The metadata of one compiled class: constant pool, fields, methods, bytecode and exception tables.
Names are internal names such as `java/lang/Object`.
-/

namespace ClassEngine

/-- The access bits of a class, field or method. -/
structure AccessFlags where
  bits : UInt16
  deriving DecidableEq, Hashable, Inhabited

namespace AccessFlags

def publicBit : UInt16 := 0x0001
def privateBit : UInt16 := 0x0002
def protectedBit : UInt16 := 0x0004
def staticBit : UInt16 := 0x0008
def finalBit : UInt16 := 0x0010
def superBit : UInt16 := 0x0020
def nativeBit : UInt16 := 0x0100
def interfaceBit : UInt16 := 0x0200
def abstractBit : UInt16 := 0x0400

/-- Whether every bit of `mask` is set. -/
def has (f : AccessFlags) (mask : UInt16) : Bool :=
  f.bits &&& mask == mask

/-- Sets further bits. -/
def adding (f : AccessFlags) (mask : UInt16) : AccessFlags :=
  ⟨f.bits ||| mask⟩

def isPublic (f : AccessFlags) : Bool := f.has publicBit
def isPrivate (f : AccessFlags) : Bool := f.has privateBit
def isStatic (f : AccessFlags) : Bool := f.has staticBit
def isNative (f : AccessFlags) : Bool := f.has nativeBit
def isAbstract (f : AccessFlags) : Bool := f.has abstractBit
def isInterface (f : AccessFlags) : Bool := f.has interfaceBit

/-- Whether special calls from the class look methods up from its superclass. -/
def isSuper (f : AccessFlags) : Bool := f.has superBit

end AccessFlags

/-- The kinds of constants that consist of one or two small indices. -/
inductive LinkKind where
  | classRef
  | string
  | fieldref
  | methodref
  | interfaceMethodref
  | nameAndType
  | methodHandle
  | methodType
  | dynamic
  | invokeDynamic
  | module
  | package
  deriving DecidableEq, Hashable

namespace LinkKind

/-- The byte that opens an entry of this kind. -/
def tag : LinkKind → UInt8
  | classRef => 7
  | string => 8
  | fieldref => 9
  | methodref => 10
  | interfaceMethodref => 11
  | nameAndType => 12
  | methodHandle => 15
  | methodType => 16
  | dynamic => 17
  | invokeDynamic => 18
  | module => 19
  | package => 20

/-- The kind an opening byte announces. -/
def ofTag? : UInt8 → Option LinkKind
  | 7 => some classRef
  | 8 => some string
  | 9 => some fieldref
  | 10 => some methodref
  | 11 => some interfaceMethodref
  | 12 => some nameAndType
  | 15 => some methodHandle
  | 16 => some methodType
  | 17 => some dynamic
  | 18 => some invokeDynamic
  | 19 => some module
  | 20 => some package
  | _ => none

/-- How the indices of an entry are written. -/
inductive Shape where
  /-- One two-byte index. -/
  | one
  /-- Two two-byte indices. -/
  | two
  /-- A one-byte kind and a two-byte index. -/
  | handle
  deriving DecidableEq

/-- The layout of an entry of this kind. -/
def shape : LinkKind → Shape
  | classRef | string | methodType | module | package => .one
  | methodHandle => .handle
  | fieldref | methodref | interfaceMethodref | nameAndType | dynamic | invokeDynamic => .two

/-- Whether an entry of this kind refers to a field or a method. -/
def isMember : LinkKind → Bool
  | fieldref | methodref | interfaceMethodref => true
  | _ => false

end LinkKind

/-- One constant pool entry. Integers are kept in 64 bits and floats as the bits of a double,
whatever the width of their written form. -/
inductive Constant where
  /-- Entry 0, and the slot that follows a long or double. -/
  | blank
  | utf8 (text : Text)
  | integer (value : Int64)
  | float (bits : UInt64)
  | long (value : Int64)
  | double (bits : UInt64)
  | link (kind : LinkKind) (first second : UInt16)
  /-- An entry whose tag no class file may hold. -/
  | foreign (tag : UInt8) (first second : UInt16)
  deriving DecidableEq, Hashable, Inhabited

namespace Constant

/-- The byte that opens the entry. -/
def tag : Constant → UInt8
  | blank => 0
  | utf8 _ => 1
  | integer _ => 3
  | float _ => 4
  | long _ => 5
  | double _ => 6
  | link kind _ _ => kind.tag
  | foreign tag _ _ => tag

/-- Whether the entry takes two pool slots. -/
def isWide : Constant → Bool
  | long _ | double _ => true
  | _ => false

/-- The text of a text entry; empty for any other. -/
def textOf : Constant → Text
  | utf8 t => t
  | _ => []

/-- An entry of indices for a tag. -/
def ofTag (tag : UInt8) (first second : UInt16) : Constant :=
  if tag = 0 then blank
  else match LinkKind.ofTag? tag with
    | some kind => link kind first second
    | none => foreign tag first second

end Constant

/-- A declared field. -/
structure Field where
  name : Text
  descriptor : Text
  flags : AccessFlags
  /-- Pool index of the constant that a static field starts with; 0 for none. -/
  constantValue : UInt16
  deriving DecidableEq

/-- Whether the field lives in the static storage of its class. -/
def Field.isStatic (f : Field) : Bool := f.flags.isStatic

/-- One entry of an exception table: the code from `start` up to, not including, `stop` is
protected. An empty `catchType` catches everything. -/
structure Handler where
  start : UInt16
  stop : UInt16
  target : UInt16
  catchType : Text
  deriving DecidableEq

/-- Whether `pc` lies in the protected range. -/
def Handler.covers (h : Handler) (pc : Int) : Bool :=
  (h.start.toNat : Int) ≤ pc && pc < h.stop.toNat

/-- The source line of the instructions from `start` on. -/
structure LineNumber where
  start : UInt16
  line : UInt16
  deriving DecidableEq

/-- The body of a method. -/
structure Code where
  maxStack : UInt16
  maxLocals : UInt16
  bytecode : Array UInt8
  handlers : List Handler
  lines : List LineNumber
  deriving DecidableEq

/-- The source line of the instruction at `pc`: that of the last entry before the first one that
starts beyond `pc`; 0 when there is none. -/
def Code.lineFor (c : Code) (pc : Int) : Nat :=
  match (c.lines.takeWhile fun l => (l.start.toNat : Int) ≤ pc).getLast? with
  | some l => l.line.toNat
  | none => 0

/-- A declared method; native and abstract ones have no code. -/
structure MethodInfo where
  name : Text
  descriptor : Text
  flags : AccessFlags
  code : Option Code
  /-- Names of the declared exceptions. -/
  throws : List Text
  deriving DecidableEq

/-- A compiled class or interface. -/
structure ClassFile where
  minor : UInt16
  major : UInt16
  pool : Array Constant
  flags : AccessFlags
  name : Text
  /-- Empty only for the root of the class hierarchy. -/
  superName : Text
  interfaces : List Text
  fields : List Field
  methods : List MethodInfo
  /-- Empty when unknown. -/
  sourceFile : Text
  deriving DecidableEq

namespace ClassFile

/-- The version written when none is given. -/
def defaultMajor : UInt16 := 52

/-- The four bytes that open a class file. -/
def magic : UInt32 := 0xCAFEBABE

/-- The first method declared with this name and descriptor. -/
def method? (c : ClassFile) (name descriptor : Text) : Option MethodInfo :=
  c.methods.find? fun m => m.name == name && m.descriptor == descriptor

/-- The first field declared with this name. -/
def field? (c : ClassFile) (name : Text) : Option Field :=
  c.fields.find? fun f => f.name == name

end ClassFile

end ClassEngine
