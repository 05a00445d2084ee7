import ClassEngine.Engine.Arrays

/-!
Instructions on classes, objects and members. Their operands are indices into the constant pool of
the class that declares the running method.
-/

namespace ClassEngine

namespace Reference

open Exec Linking Resolution Allocation

/-- Gives up on the current instruction when a look-up in the pool fails. -/
def orMalformed {α : Type} (r : Except PoolError α) : Exec α :=
  match r with
  | .ok a => pure a
  | .error e => malformed e.message

/-- The file of the running method. -/
def currentFile : Exec ClassFile := do
  pure (← currentFrame).method.file

/-- Reads an index naming a field or method. -/
def memberRef : Exec MemberRef := do
  let index ← onFrame FrameM.u2
  let (owner, name, descriptor) ← orMalformed ((← currentFile).memberRef index)
  pure ⟨owner, name, descriptor⟩

/-- Reads an index naming a class. -/
def classRef : Exec Text := do
  let index ← onFrame FrameM.u2
  orMalformed ((← currentFile).className index)

def push (v : Value) : Exec Unit :=
  onFrame (FrameM.push v)

/-- Pushes the constant at an index: numbers as they are, string literals as canonical strings, and
classes as their mirrors. -/
def loadConstant (index : UInt16) : Exec Unit := do
  let file ← currentFile
  match ← orMalformed (file.constant index) with
  | .integer v => push (.int v.toInt32)
  | .float bits => push (.float (Ieee.narrow bits))
  | .long v => push (.long v)
  | .double bits => push (.double bits)
  | .link .string _ _ => do
    let t ← orMalformed (file.stringValue index)
    push (← internText t)
  | .link .classRef _ _ => do
    let name ← orMalformed (file.className index)
    let c ← loadClass name
    push (.ref (← classMirror c.descriptor))
  | k => malformed ("ldc of unsupported constant tag " ++ Text.ofNat k.tag.toNat)

/-- The storage of static fields of a class. -/
def staticsOf (c : RuntimeClass) : Exec Ref :=
  match c.statics with
  | some r => pure r
  | none => panic .broken

/-- Finds the class that declares a field. -/
def fieldOwner (ref : MemberRef) : Exec RuntimeClass := do
  let c ← loadClass ref.owner
  resolveField c.descriptor ref

/-- Pushes a static field. -/
def getStatic : Exec Unit := do
  let ref ← memberRef
  let owner ← fieldOwner ref
  let r ← staticsOf owner
  note (.statics owner.descriptor)
  let storage ← objectAt r
  push (storage.getField owner.name ref.name)

/-- Pops a value into a static field. -/
def putStatic : Exec Unit := do
  let ref ← memberRef
  let owner ← fieldOwner ref
  let storage ← staticsOf owner
  let value ← onFrame FrameM.pop
  note (.statics owner.descriptor)
  modifyObject storage fun o =>
    o.setField owner.name ref.name (Value.coerce ref.descriptor value)

/-- Pops the object of a field access. -/
def popOwner (ref : MemberRef) : Exec Ref := do
  match ← onFrame FrameM.popRef with
  | some r => pure r
  | none =>
    throwNew "java/lang/NullPointerException"
      ("cannot access field " ++ Quoted.quote ref.name ++ " of null")

/-- Reads a field of an object. -/
def readField (field : FieldAccess) : Exec Value := do
  let value := (← objectAt field.object).getField field.owner.name field.ref.name
  markAccess (.read field value)
  pure value

/-- Stores a value in a field of an object, cut down to the type that the instruction names. -/
def storeField (field : FieldAccess) (value : Value) : Exec Unit := do
  markAccess (.stored field value)
  modifyObject field.object fun o =>
    o.setField field.owner.name field.ref.name (Value.coerce field.ref.descriptor value)

/-- Pushes a field of an object. -/
def getField : Exec Unit := do
  let ref ← memberRef
  let r ← popOwner ref
  let owner ← fieldOwner ref
  push (← readField ⟨r, owner, ref⟩)

/-- Pops a value into a field of an object. -/
def putField : Exec Unit := do
  let ref ← memberRef
  let value ← onFrame FrameM.pop
  let r ← popOwner ref
  let owner ← fieldOwner ref
  storeField ⟨r, owner, ref⟩ value

/-- A method to call and its arguments. -/
abbrev Call := Method × List Value

/-- The method that a search has found. -/
def found (m : Option Method) : Exec Method :=
  match m with
  | some m => pure m
  | none => panic .broken

/-- The call of a static method. -/
def staticCall : Exec Call := do
  let ref ← memberRef
  let c ← loadClass ref.owner
  let m ← found (← resolveMethod c.descriptor ref)
  if m.isStatic then do
    let args ← onFrame (FrameM.popN m.signature.arguments.length)
    pure (m, args)
  else malformed ("invokestatic of instance method " ++ m.text)

/-- Pops the receiver and the arguments of an instance call; the receiver is not null. -/
def popCall (ref : MemberRef) : Exec (Ref × List Value) := do
  match Signature.parse ref.descriptor with
  | .error e => malformed e.message
  | .ok signature => do
    let args ← onFrame (FrameM.popN (signature.arguments.length + 1))
    match ← check (FrameM.asRef (args.headD .null)) with
    | some r => pure (r, args)
    | none => throwNew "java/lang/NullPointerException" ("cannot invoke " ++ ref.text ++ " on null")

/-- The call of a method looked up from the class of the receiver. -/
def receiverCall (ref : MemberRef) : Exec Call := do
  let (r, args) ← popCall ref
  let m ← found (← resolveMethod (← receiverType r) ref)
  pure (m, args)

def virtualCall : Exec Call := do
  receiverCall (← memberRef)

/-- As a virtual call, with two more operand bytes that carry nothing. -/
def interfaceCall : Exec Call := do
  let ref ← memberRef
  let _ ← onFrame FrameM.u1
  let _ ← onFrame FrameM.u1
  receiverCall ref

/-- The call of a constructor, a private method or a method of a superclass. -/
def specialCall : Exec Call := do
  let ref ← memberRef
  let (_, args) ← popCall ref
  let caller ← classAt (← currentFrame).method.owner
  let m ← found (← resolveSpecial (some caller) ref)
  pure (m, args)

/-- Finds out what to call, runs it and pushes its result, if its type has one. -/
def invoke (target : Exec Call) : Exec Unit := do
  let (m, args) ← target
  let result ← invokeMethod m args
  if m.signature.returnsValue then push result else pure ()

/-- Pushes a new instance. -/
def newInstance : Exec Unit := do
  let name ← classRef
  let c ← loadClass name
  if c.isArray || c.isInterface || c.flags.isAbstract then malformed ("cannot instantiate " ++ name)
  push (.ref (← newObject c.descriptor))

/-- Pushes a new one-dimensional array with the popped length. -/
def newArrayWithLength (element : Descriptor) : Exec Unit := do
  let c ← classFor (Descriptor.arrayOf element)
  let n ← onFrame FrameM.popInt
  push (.ref (← Arrays.alloc c.descriptor [n]))

def newPrimitiveArray : Exec Unit := do
  let code ← onFrame FrameM.u1
  match arrayTypeDescriptor? code with
  | none => malformed ("bad newarray type " ++ Text.ofNat code.toNat)
  | some element => newArrayWithLength element

def newReferenceArray : Exec Unit := do
  let name ← classRef
  newArrayWithLength (Descriptor.ofInternal name)

/-- Pushes a new array with a popped length for each outer dimension. -/
def newMultiArray : Exec Unit := do
  let name ← classRef
  let dims ← onFrame FrameM.u1
  let c ← loadClass name
  if dims < 1 ∨ Descriptor.dimensions c.descriptor < dims.toNat then
    malformed ("multianewarray of " ++ name ++ " with " ++ Text.ofNat dims.toNat ++ " dimensions")
  let values ← onFrame (FrameM.popN dims.toNat)
  let counts ← check (values.mapM FrameM.asInt)
  push (.ref (← Arrays.alloc c.descriptor counts))

/-- Pushes the length of an array. -/
def arrayLength : Exec Unit := do
  match ← onFrame FrameM.popRef with
  | none => throwNew "java/lang/NullPointerException" "cannot read the array length of null"
  | some r => push (.int (Int32.ofNat (← objectAt r).elements.size))

/-- Throws the popped object. -/
def throwTop : Exec Unit := do
  match ← onFrame FrameM.popRef with
  | none => throwNew "java/lang/NullPointerException" "cannot throw null"
  | some r => throw (.thrown r)

/-- Pops the object of a monitor, which no one else can hold. -/
def monitor : Exec Unit := do
  match ← onFrame FrameM.popRef with
  | none => throwNew "java/lang/NullPointerException" "cannot synchronize on null"
  | some _ => pure ()

/-- Checks the class of the object on top of the stack, which stays. -/
def checkCast : Exec Unit := do
  let name ← classRef
  let top ← onFrame FrameM.peek
  match ← check (FrameM.asRef top) with
  | none => pure ()
  | some r => do
    let o ← objectAt r
    if !(← instanceOf o name) then
      throwNew "java/lang/ClassCastException" ("class " ++ Descriptor.reflectName o.type ++
        " cannot be cast to class " ++ Descriptor.reflectName (Descriptor.ofInternal name))

/-- Pushes whether the popped object is an instance of a class; null is of none. -/
def instanceTest : Exec Unit := do
  let name ← classRef
  match ← onFrame FrameM.popRef with
  | none => push (.int 0)
  | some r => push (Value.ofBool (← instanceOf (← objectAt r) name))

end Reference

end ClassEngine
