import ClassEngine.Engine.Allocation

/-!
Class initialization: superclasses first, then the constant values of static fields, then the
initializer. A class whose initializer failed is never initialized again.
-/

namespace ClassEngine

namespace Initialization

open Exec Linking Allocation

/-- The value of the constant that a static field starts with. -/
def constantValue (owner : Text) (file : ClassFile) (f : Field) : Exec Value := do
  let refuse {α : Type} (reason : Text) : Exec α :=
    giveUp (.malformed ⟨owner ++ "." ++ f.name, 0, reason, none⟩)
  match file.constant f.constantValue with
  | .error e => refuse e.message
  | .ok (.integer v) => pure (Value.coerce f.descriptor (.int v.toInt32))
  | .ok (.long v) => pure (.long v)
  | .ok (.float bits) => pure (.float (Ieee.narrow bits))
  | .ok (.double bits) => pure (.double bits)
  | .ok (.link .string _ _) =>
    match file.stringValue f.constantValue with
    | .error e => refuse e.message
    | .ok t => do
      let r ← newString t
      intern (.ref r)
  | .ok k => refuse ("unsupported ConstantValue tag " ++ Text.ofNat k.tag.toNat)

/-- Stores the constant values of static fields. -/
def applyConstants (owner : Text) (statics : Ref) (file : ClassFile) : List Field → Exec Unit
  | [] => pure ()
  | f :: rest => do
    if f.isStatic && f.constantValue != 0 then do
      let v ← constantValue owner file f
      modifyObject statics fun o => o.setField owner f.name v
    applyConstants owner statics file rest

/-- Initializes the superclass of a class, if it has one. -/
def initializeSuper (c : RuntimeClass) : Exec Unit :=
  match c.superclass with
  | none => pure ()
  | some s => initializeClass s

/-- Runs the initializer that a class, given with its record, declares. -/
def runInitializer (d : Descriptor) (c : RuntimeClass) : Exec Unit := do
  match c.declaredMethod? "<clinit>" "()V" with
  | none => pure ()
  | some m => do
    note (.initializer d)
    let _ ← invokeMethod m []

/-- Initializes the superclass of a class, given with its record, and then the class itself. -/
def runInitializers (d : Descriptor) (c : RuntimeClass) : Exec Unit := do
  initializeSuper c
  match c.file, c.statics with
  | some file, some statics => do
    applyConstants c.name statics file file.fields
    runInitializer d c
  | _, _ => pure ()

def setState (d : Descriptor) (state : ClassState) : Exec Unit :=
  modifyClass d fun c => { c with state := state }

/-- Initializes a class once. Code that is reached while the initializer runs sees the class as far
as it has come. -/
def initializeOnce (d : Descriptor) : Exec Unit := do
  let c ← classAt d
  match c.state with
  | .initializing | .initialized => pure ()
  | .failed (some e) => giveUp e
  | .failed none =>
    throwNew "java/lang/NoClassDefFoundError"
      ("Could not initialize class " ++ Descriptor.sourceName d)
  | .linking | .linked => do
    setState d .initializing
    match ← attempt (runInitializers d c) with
    | .ok () => setState d .initialized
    | .error e => do
      if !e.isAbrupt then setState d (.failed none)
      throw e

end Initialization

end ClassEngine
