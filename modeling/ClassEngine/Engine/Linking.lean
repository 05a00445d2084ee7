import ClassEngine.Engine.Machine

/-!
Linking: making the record of a type and of its superclasses, without running any code. A record is
entered in the table before its superclass is linked, so a class that meets itself on the way up
finds its own unfinished record.
-/

namespace ClassEngine

namespace Linking

open Exec

/-- The record of a class as its file defines it. -/
def defineInstance (host : Host) (d : Descriptor) : Except Unresolved RuntimeClass :=
  let name := Descriptor.className d
  let refuse (cause : Text) : Except Unresolved RuntimeClass := .error ⟨.type, name, some cause⟩
  match host.provider with
  | none => refuse "no class provider"
  | some provider =>
    match provider name with
    | .error e => refuse e
    | .ok file =>
      if file.name ≠ name then refuse ("provider returned class " ++ file.name)
      else match RuntimeClass.ofFile d file with
        | .error e => refuse e
        | .ok c => .ok c

/-- The record of a type as it is defined, before anything is linked. -/
def define (host : Host) (d : Descriptor) : Except Unresolved RuntimeClass :=
  if Descriptor.isPrimitive d then .ok (RuntimeClass.bare d)
  else if Descriptor.isArray d then
    match Descriptor.parseType d with
    | .error e => .error ⟨.type, d, some e.message⟩
    | .ok _ => .ok (RuntimeClass.bare d)
  else if Descriptor.isReference d then defineInstance host d
  else .error ⟨.type, d, none⟩

/-- The static storage of a class, each field at its default. -/
def staticStorage (d : Descriptor) (file : ClassFile) : Object :=
  (file.fields.filter Field.isStatic).foldl
    (fun o f => o.setField (Descriptor.className d) f.name (Value.default f.descriptor))
    { Object.empty d with storage := true }

/-- Enters a record in the table; that of a class gets its static storage. -/
def enter (d : Descriptor) (c : RuntimeClass) : Exec Unit :=
  match c.file with
  | none => setClass c
  | some file => do
    let statics ← allocate (staticStorage d file)
    setClass { c with statics := some statics }

/-- Marks a class as linked to a superclass, if it has one. -/
def finish (d : Descriptor) (superclass : Option Descriptor) : Exec Unit :=
  modifyClass d fun c => { c with superclass, state := .linked }

/-- Makes sure that a type and its superclasses are linked. A class whose superclass cannot be
linked stays in the table and gives the same reason ever after. -/
def linkWithin : Nat → Descriptor → Exec Unit
  | 0, _ => throw .exhausted
  | fuel + 1, d => do
    match (← get).classes[d]? with
    | some c =>
      match c.state with
      | .failed (some e) => giveUp e
      | .linking => unresolved .type c.name (some .circularity)
      | _ => pure ()
    | none =>
      match define (← read).host d with
      | .error e => giveUp (.unresolved e)
      | .ok c => do
        enter d c
        if c.superName.isEmpty then finish d none
        else do
          match ← attempt (linkWithin fuel (Descriptor.ofInternal c.superName)) with
          | .error e => do
            modifyClass d fun c => { c with state := .failed (some e) }
            throw e
          | .ok () => finish d (some (Descriptor.ofInternal c.superName))

/-- Makes sure that a type and its superclasses are linked. -/
def link (d : Descriptor) : Exec Unit := do
  linkWithin (← read).fuel d

/-- The record of a type, linked and initialized on first use. -/
def classFor (d : Descriptor) : Exec RuntimeClass := do
  link d
  initializeClass d
  classAt d

/-- The record of a class by its internal name or array descriptor. -/
def loadClass (name : Text) : Exec RuntimeClass :=
  classFor (Descriptor.ofInternal name)

/-- A class and its superclasses, nearest first. -/
def ancestryWithin : Nat → Descriptor → Exec (List RuntimeClass)
  | 0, _ => throw .exhausted
  | fuel + 1, d => do
    let c ← classAt d
    match c.superclass with
    | none => pure [c]
    | some s => do
      let rest ← ancestryWithin fuel s
      pure (c :: rest)

/-- A class and its superclasses, nearest first. -/
def ancestry (d : Descriptor) : Exec (List RuntimeClass) := do
  ancestryWithin (← read).fuel d

end Linking

end ClassEngine
