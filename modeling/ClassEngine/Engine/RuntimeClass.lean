import ClassEngine.ClassFile.Basic
import ClassEngine.Descriptor.Signature
import ClassEngine.Engine.Error
import Std.Data.HashMap

/-!
The record the engine keeps of each type: its declared members, its place in the hierarchy, and how
far it has come on the way from linking to initialization.
-/

namespace ClassEngine

/-- A method bound to the class that declares it. -/
structure Method where
  /-- The descriptor of the declaring class. -/
  owner : Descriptor
  /-- The name of the declaring class. -/
  ownerName : Text
  name : Text
  descriptor : Text
  flags : AccessFlags
  code : Option Code
  signature : Signature
  /-- The file whose pool the code refers to. -/
  file : ClassFile

namespace Method

def isStatic (m : Method) : Bool := m.flags.isStatic
def isNative (m : Method) : Bool := m.flags.isNative

/-- The full name of a method. -/
def text (m : Method) : Text :=
  m.ownerName ++ "." ++ m.name ++ m.descriptor

/-- Whether two records are of the same method. -/
def same (a b : Method) : Bool :=
  a.name == b.name && a.descriptor == b.descriptor && a.owner == b.owner

end Method

/-- How far a class has come. -/
inductive ClassState where
  | linking
  | linked
  | initializing
  | initialized
  /-- Linking failed for the given reason, or, without one, the initializer failed. -/
  | failed (linkError : Option Raise)

/-- The record of one type. -/
structure RuntimeClass where
  descriptor : Descriptor
  name : Text
  superName : Text
  interfaces : List Text
  flags : AccessFlags
  /-- Absent for arrays and primitive types. -/
  file : Option ClassFile
  /-- The declared fields, one for each name. -/
  fields : List Field
  /-- The declared methods, one for each name and descriptor. -/
  methods : List Method
  /-- The descriptor of the superclass, once it is linked. -/
  superclass : Option Descriptor
  /-- The object that holds the static fields. -/
  statics : Option Ref
  /-- The class mirror, once it was asked for. -/
  mirror : Option Ref
  /-- The declaring classes found so far for references that start here. -/
  resolved : Std.HashMap MemberRef Descriptor
  state : ClassState

/-- The records of classes by descriptor. -/
abbrev ClassTable := Std.HashMap Descriptor RuntimeClass

namespace RuntimeClass

def isArray (c : RuntimeClass) : Bool := Descriptor.isArray c.descriptor
def isPrimitive (c : RuntimeClass) : Bool := Descriptor.isPrimitive c.descriptor
def isInterface (c : RuntimeClass) : Bool := c.file.isSome && c.flags.isInterface

/-- Whether the initializer has completed. -/
def isInitialized (c : RuntimeClass) : Bool := match c.state with
  | .initialized => true
  | _ => false

def declaredField? (c : RuntimeClass) (name : Text) : Option Field :=
  c.fields.find? fun f => f.name == name

def declaredMethod? (c : RuntimeClass) (name descriptor : Text) : Option Method :=
  c.methods.find? fun m => m.name == name && m.descriptor == descriptor

/-- The declared methods by name and descriptor. -/
def sortedMethods (c : RuntimeClass) : List Method :=
  c.methods.mergeSort fun a b =>
    if a.name == b.name then Text.ble a.descriptor b.descriptor else Text.ble a.name b.name

def sourceFile (c : RuntimeClass) : Text :=
  (c.file.map (·.sourceFile)).getD []

/-- Adds an item behind those of another key; an earlier one of the same key gives way. -/
def declare {α : Type} (same : α → α → Bool) (items : List α) (a : α) : List α :=
  items.filter (fun b => !same a b) ++ [a]

/-- The record of an array or primitive type. -/
def bare (descriptor : Descriptor) : RuntimeClass where
  descriptor := descriptor
  name := Descriptor.className descriptor
  superName := if Descriptor.isArray descriptor then "java/lang/Object" else []
  interfaces := []
  flags :=
    if Descriptor.isArray descriptor then ⟨AccessFlags.publicBit ||| AccessFlags.finalBit⟩ else ⟨0⟩
  file := none
  fields := []
  methods := []
  superclass := none
  statics := none
  mirror := none
  resolved := {}
  state := .linking

/-- Binds a declared method. -/
def bindMethod (descriptor : Descriptor) (file : ClassFile) (m : MethodInfo) :
    Except Text Method :=
  match Signature.parse m.descriptor with
  | .ok signature => .ok ⟨descriptor, Descriptor.className descriptor, m.name, m.descriptor,
      m.flags, m.code, signature, file⟩
  | .error e => .error (Descriptor.className descriptor ++ "." ++ m.name ++ ": " ++ e.message)

/-- Checks the type of a declared field. -/
def checkField (descriptor : Descriptor) (f : Field) : Except Text Field :=
  match Descriptor.parseType f.descriptor with
  | .ok _ => .ok f
  | .error e => .error (Descriptor.className descriptor ++ "." ++ f.name ++ ": " ++ e.message)

/-- The record of a class that was loaded from a file; fails when a member has no valid type. -/
def ofFile (descriptor : Descriptor) (file : ClassFile) : Except Text RuntimeClass := do
  let fields ← file.fields.mapM (checkField descriptor)
  let methods ← file.methods.mapM (bindMethod descriptor file)
  pure { bare descriptor with
    superName := file.superName
    interfaces := file.interfaces
    flags := file.flags
    file := some file
    fields := fields.foldl (declare fun a b => a.name == b.name) []
    methods := methods.foldl (declare Method.same) [] }

end RuntimeClass

end ClassEngine
