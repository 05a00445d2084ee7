import ClassEngine.ClassFile.Basic

/-!
Reading symbols out of a constant pool. Each look-up names the class it was made for when it
fails, so that the message can be understood on its own.
-/

namespace ClassEngine

/-- Why a pool look-up failed. -/
inductive PoolError where
  /-- The pool has no entry at the index. -/
  | outOfRange (owner : Text) (index : UInt16)
  /-- The entry has another tag than the wanted kind. -/
  | wrongKind (owner : Text) (index : UInt16) (tag : UInt8) (wanted : Text)
  deriving DecidableEq

/-- The wording of a failed look-up. -/
def PoolError.message : PoolError → Text
  | outOfRange owner index =>
    owner ++ ": constant pool index " ++ Text.ofNat index.toNat ++ " out of range"
  | wrongKind owner index tag wanted =>
    owner ++ ": constant " ++ Text.ofNat index.toNat ++ " is tag " ++ Text.ofNat tag.toNat ++
      ", want " ++ wanted

namespace ClassFile

/-- The pool entry at an index. Index 0 is never an entry. -/
def constant (c : ClassFile) (index : UInt16) : Except PoolError Constant :=
  if index = 0 then .error (.outOfRange c.name index)
  else match c.pool[index.toNat]? with
    | some k => .ok k
    | none => .error (.outOfRange c.name index)

/-- The text of the entry at an index. -/
def utf8 (c : ClassFile) (index : UInt16) : Except PoolError Text := do
  match ← c.constant index with
  | .utf8 t => pure t
  | k => throw (.wrongKind c.name index k.tag "Utf8")

/-- The class name of the entry at an index. -/
def className (c : ClassFile) (index : UInt16) : Except PoolError Text := do
  match ← c.constant index with
  | .link .classRef first _ => c.utf8 first
  | k => throw (.wrongKind c.name index k.tag "Class")

/-- The string literal of the entry at an index. -/
def stringValue (c : ClassFile) (index : UInt16) : Except PoolError Text := do
  match ← c.constant index with
  | .link .string first _ => c.utf8 first
  | k => throw (.wrongKind c.name index k.tag "String")

/-- Name and descriptor of the entry at an index. -/
def nameAndType (c : ClassFile) (index : UInt16) : Except PoolError (Text × Text) := do
  match ← c.constant index with
  | .link .nameAndType first second => do
    let name ← c.utf8 first
    let descriptor ← c.utf8 second
    pure (name, descriptor)
  | k => throw (.wrongKind c.name index k.tag "NameAndType")

/-- Owner, name and descriptor of the field or method reference at an index. -/
def memberRef (c : ClassFile) (index : UInt16) : Except PoolError (Text × Text × Text) := do
  match ← c.constant index with
  | .link kind first second =>
    if kind.isMember then do
      let owner ← c.className first
      let (name, descriptor) ← c.nameAndType second
      pure (owner, name, descriptor)
    else throw (.wrongKind c.name index kind.tag "member reference")
  | k => throw (.wrongKind c.name index k.tag "member reference")

end ClassFile

end ClassEngine
