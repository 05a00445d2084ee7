import ClassEngine.Engine.Resolution

/-!
Making objects, strings, class mirrors and exceptions. Strings, mirrors and exceptions are made by
their guest constructors, so making them runs guest code.
-/

namespace ClassEngine

namespace Allocation

open Exec Linking Resolution

/-- The slots of an instance: each instance field of the class and its superclasses at its
default. -/
def instanceOfChain (d : Descriptor) (chain : List RuntimeClass) : Object :=
  chain.foldl (fun o k =>
    match k.file with
    | none => o
    | some file => (file.fields.filter fun f => !f.isStatic).foldl
        (fun o f => o.setField k.name f.name (Value.default f.descriptor)) o)
    (Object.empty d)

/-- A new instance; no constructor runs. -/
def newObject (d : Descriptor) : Exec Ref := do
  let chain ← ancestry d
  let r ← allocate (instanceOfChain d chain)
  markAccess (.made r d)
  pure r

/-- A new instance on which the constructor with the given descriptor has run. -/
def construct (c : RuntimeClass) (descriptor : Text) (args : List Value) : Exec Ref := do
  match c.declaredMethod? MemberRef.constructorName descriptor with
  | none => unresolved .method (c.name ++ ".<init>" ++ descriptor) none
  | some m => do
    let r ← newObject c.descriptor
    let _ ← invokeMethod m (.ref r :: args)
    pure r

/-- A new array with the given contents. -/
def newArrayOf (element : Descriptor) (values : List Value) : Exec Ref := do
  let c ← classFor (Descriptor.arrayOf element)
  allocate (.array c.descriptor (values.map (Value.coerce element)).toArray)

/-- A new guest string with the given contents. -/
def newString (t : Text) : Exec Ref := do
  let bytes ← newArrayOf Descriptor.byte (t.map fun b => .int b.toInt8.toInt32)
  let c ← loadClass "java/lang/String"
  construct c "([B)V" [.ref bytes]

/-- The contents of a guest string, as its own accessor gives them; null reads as `null`. -/
def hostText (v : Value) : Exec Text := do
  match ← check (FrameM.asRef v) with
  | none => pure "null"
  | some r => do
    let name := Descriptor.className (← objectAt r).type
    let result ← invoke name "getBytes" "()[B" [v]
    match ← check (FrameM.asRef result) with
    | none => throw (.failure (name ++ ".getBytes returned null"))
    | some bytes => do
      let o ← objectAt bytes
      pure o.bytes

/-- Makes a string the canonical one of its contents. -/
def setInterned (t : Text) (v : Value) : Exec Unit :=
  modify fun m => { m with interned := m.interned.insert t v }

/-- The canonical string with the contents of a given one. -/
def intern (v : Value) : Exec Value := do
  let t ← hostText v
  match (← get).interned[t]? with
  | some canonical => pure canonical
  | none => do
    setInterned t v
    pure v

/-- The canonical string of a text. -/
def internText (t : Text) : Exec Value := do
  match (← get).interned[t]? with
  | some canonical => pure canonical
  | none => do
    let r ← newString t
    setInterned t (.ref r)
    pure (.ref r)

/-- A guest array of new strings. -/
def stringArray (ts : List Text) : Exec Ref := do
  let strings ← ts.mapM newString
  newArrayOf Descriptor.string (strings.map Value.ref)

/-- The mirror of a class, made on first use. -/
def classMirror (d : Descriptor) : Exec Ref := do
  match (← classAt d).mirror with
  | some r => pure r
  | none => do
    let mirrorClass ← loadClass "java/lang/Class"
    let name ← newString (Descriptor.reflectName d)
    let r ← construct mirrorClass "(Ljava/lang/String;)V" [.ref name]
    modifyObject r fun o => { o with payload := .mirror d }
    modifyClass d fun c => { c with mirror := some r }
    pure r

/-- The class that a mirror describes. A mirror that the engine did not make is asked for its
name. -/
def mirroredClass (mirror : Option Ref) : Exec RuntimeClass := do
  let o ← objectOf mirror
  match o.payload with
  | .mirror d => classAt d
  | _ => do
    let self : Value := match mirror with
      | some r => .ref r
      | none => .null
    let name ← invoke "java/lang/Class" "getName" "()Ljava/lang/String;" [self]
    let t ← hostText name
    classFor (Descriptor.ofReflectName t)

/-- Throws a new exception of a class. The message goes through the constructor that takes one;
without a message the plain constructor is taken if there is one. A failure to make the exception
takes its place. -/
def throwNew {α : Type} (className message : Text) : Exec α := do
  let c ← loadClass className
  if message.isEmpty && (c.declaredMethod? MemberRef.constructorName "()V").isSome then do
    let r ← construct c "()V" []
    throw (.thrown r)
  else do
    let text : Value ← if message.isEmpty then pure Value.null else do
      let s ← newString message
      pure (Value.ref s)
    let r ← construct c "(Ljava/lang/String;)V" [text]
    throw (.thrown r)

end Allocation

end ClassEngine
