import ClassEngine.ClassFile.Basic
import Std.Data.HashMap

/-!
Building a class in memory. Constants are interned as they are asked for: asking twice gives the
same index. Numbers are shared when they are equal as numbers, so the two zeros share one entry
and a NaN is never shared.
-/

namespace ClassEngine

/-- A class under construction, and the index of each constant interned so far. -/
structure Builder where
  file : ClassFile
  index : Std.HashMap Constant UInt16

namespace Constant

/-- What an interned constant is found under: numerically equal floats have one key, a NaN none. -/
def internKey? : Constant → Option Constant
  | float bits =>
    if Ieee.isNaN bits then none else some (float (if Ieee.isZero bits then 0 else bits))
  | double bits =>
    if Ieee.isNaN bits then none else some (double (if Ieee.isZero bits then 0 else bits))
  | k => some k

end Constant

/-- A step of building a class. -/
abbrev Build (α : Type) := StateM Builder α

namespace Builder

/-- Appends a constant and gives its index; a wide one fills two slots. -/
def append (k : Constant) : Build UInt16 := fun b =>
  let i := b.file.pool.size.toUInt16
  let pool := b.file.pool.push k
  let pool := if k.isWide then pool.push .blank else pool
  (i, { b with file := { b.file with pool := pool } })

/-- The index of a constant, which is appended when it is new. -/
def intern (k : Constant) : Build UInt16 := do
  match k.internKey? with
  | none => append k
  | some key =>
    match (← get).index[key]? with
    | some i => pure i
    | none => do
      let i ← append k
      modify fun b => { b with index := b.index.insert key i }
      pure i

def utf8 (t : Text) : Build UInt16 :=
  intern (.utf8 t)

/-- An entry for a class name or array descriptor. -/
def classRef (name : Text) : Build UInt16 := do
  intern (.link .classRef (← utf8 name) 0)

/-- An entry for a string literal. -/
def stringConst (t : Text) : Build UInt16 := do
  intern (.link .string (← utf8 t) 0)

def intConst (v : Int32) : Build UInt16 :=
  intern (.integer v.toInt64)

def longConst (v : Int64) : Build UInt16 :=
  intern (.long v)

/-- An entry for a single, given by its bits. -/
def floatConst (bits : UInt32) : Build UInt16 :=
  intern (.float (Ieee.widen bits))

/-- An entry for a double, given by its bits. -/
def doubleConst (bits : UInt64) : Build UInt16 :=
  intern (.double bits)

def nameAndType (name descriptor : Text) : Build UInt16 := do
  let n ← utf8 name
  let d ← utf8 descriptor
  intern (.link .nameAndType n d)

/-- An entry for a member of a class. -/
def memberRef (kind : LinkKind) (owner name descriptor : Text) : Build UInt16 := do
  let c ← classRef owner
  let n ← nameAndType name descriptor
  intern (.link kind c n)

def fieldRef : Text → Text → Text → Build UInt16 := memberRef .fieldref
def methodRef : Text → Text → Text → Build UInt16 := memberRef .methodref
def interfaceMethodRef : Text → Text → Text → Build UInt16 := memberRef .interfaceMethodref

/-- Changes the class under construction. -/
def modifyFile (f : ClassFile → ClassFile) : Build Unit :=
  modify fun b => { b with file := f b.file }

/-- Starts a class; an empty `superName` makes it the root of a hierarchy. -/
def start (name superName : Text) (flags : AccessFlags) : Builder :=
  let bare : Builder :=
    ⟨⟨0, ClassFile.defaultMajor, #[.blank], flags, name, superName, [], [], [], []⟩, {}⟩
  let enter : Build Unit := do
    let _ ← classRef name
    if superName.isEmpty then pure ()
    else do
      let _ ← classRef superName
      pure ()
  (enter.run bare).2

/-- Appends interfaces. -/
def implement (names : List Text) : Build Unit :=
  names.forM fun n => do
    let _ ← classRef n
    modifyFile fun c => { c with interfaces := c.interfaces ++ [n] }

def sourceFile (name : Text) : Build Unit :=
  modifyFile fun c => { c with sourceFile := name }

/-- Declares a field, with the pool index of its constant value or 0. -/
def addField (flags : AccessFlags) (name descriptor : Text) (constantValue : UInt16) :
    Build Unit := do
  let _ ← utf8 name
  let _ ← utf8 descriptor
  modifyFile fun c => { c with fields := c.fields ++ [⟨name, descriptor, flags, constantValue⟩] }

/-- Declares a static field that starts with the constant at an index. -/
def addConstantField (flags : AccessFlags) (name descriptor : Text) (value : UInt16) :
    Build Unit :=
  addField (flags.adding AccessFlags.staticBit) name descriptor value

/-- Declares a method; its declared exceptions get no pool entries. -/
def addMethod (flags : AccessFlags) (name descriptor : Text) (code : Option Code)
    (throws : List Text) : Build Unit := do
  let _ ← utf8 name
  let _ ← utf8 descriptor
  modifyFile fun c => { c with methods := c.methods ++ [⟨name, descriptor, flags, code, throws⟩] }

end Builder

end ClassEngine
