import ClassEngine.Engine.Linking

/-!
Binding symbolic references to the classes that declare the members, and the subtype test. What a
search finds is remembered with the class it started from.
-/

namespace ClassEngine

namespace Resolution

open Exec Linking

/-- Goes through a list of interfaces depth first, each name at most once, for one that declares a
member. `work` holds the names still to visit. -/
def searchInterfaces (declares : RuntimeClass → Bool) :
    Nat → List Text → List Text → Exec (Option Descriptor)
  | 0, _, _ => throw .exhausted
  | _ + 1, [], _ => pure none
  | fuel + 1, name :: work, seen =>
    if seen.contains name then searchInterfaces declares fuel work seen
    else do
      let c ← loadClass name
      if declares c then pure (some c.descriptor)
      else searchInterfaces declares fuel (c.interfaces ++ work) (name :: seen)

/-- The first class that declares a member: the class itself and its superclasses, then their
interfaces. -/
def findDeclaring (d : Descriptor) (declares : RuntimeClass → Bool) :
    Exec (Option Descriptor) := do
  let chain ← ancestry d
  match chain.find? declares with
  | some c => pure (some c.descriptor)
  | none => searchInterfaces declares (← read).fuel (chain.flatMap (·.interfaces)) []

/-- Remembers where a reference that starts at a class was found. -/
def remember (d : Descriptor) (ref : MemberRef) (owner : Descriptor) : Exec Unit :=
  modifyClass d fun c => { c with resolved := c.resolved.insert ref owner }

/-- The class that declares the field of a reference, searched from a class on. -/
def resolveField (d : Descriptor) (ref : MemberRef) : Exec RuntimeClass := do
  let c ← classAt d
  match c.resolved[ref]? with
  | some owner => classAt owner
  | none => do
    match ← findDeclaring d fun k => (k.declaredField? ref.name).isSome with
    | none => unresolved .field ref.text none
    | some owner => do
      remember d ref owner
      classAt owner

/-- The method of a reference, searched from a class on; arrays and primitive types have the methods
of the root class. A remembered class that declares no such method gives none. -/
def resolveMethod (d : Descriptor) (ref : MemberRef) : Exec (Option Method) := do
  let c ← classAt d
  match c.resolved[ref]? with
  | some owner => do
    let o ← classAt owner
    pure (o.declaredMethod? ref.name ref.descriptor)
  | none => do
    let start ← if c.isArray || c.isPrimitive then do
        let root ← loadClass "java/lang/Object"
        pure root.descriptor
      else pure d
    match ← findDeclaring start fun k => (k.declaredMethod? ref.name ref.descriptor).isSome with
    | none => unresolved .method ref.text none
    | some owner => do
      remember d ref owner
      let o ← classAt owner
      pure (o.declaredMethod? ref.name ref.descriptor)

/-- Whether a type is one of those that every array is assignable to. -/
def isArraySuper (name : Text) : Bool :=
  name == ("java/lang/Object" : Text) || name == ("java/lang/Cloneable" : Text) ||
    name == ("java/io/Serializable" : Text)

/-- Whether a value of type `a` may be used where type `b` is expected. -/
def assignableWithin : Nat → Descriptor → Descriptor → Exec Bool
  | 0, _, _ => throw .exhausted
  | fuel + 1, a, b =>
    if a = b then pure true
    else if Descriptor.isArray a then
      if !Descriptor.isArray b then pure (isArraySuper (Descriptor.className b))
      else do
        let ca := Descriptor.component a
        let cb := Descriptor.component b
        if Descriptor.isPrimitive ca || Descriptor.isPrimitive cb then pure (ca == cb)
        else do
          link ca
          link cb
          assignableWithin fuel ca cb
    else do
      let c ← classAt a
      let above ← c.superclass.elim (pure false) fun s => assignableWithin fuel s b
      if above then pure true
      else c.interfaces.anyM fun name => do
        let _ ← loadClass name
        assignableWithin fuel (Descriptor.ofInternal name) b

/-- Whether a value of type `a` may be used where type `b` is expected. -/
def assignable (a b : Descriptor) : Exec Bool := do
  assignableWithin (← read).fuel a b

/-- Whether an object is an instance of a named class. -/
def instanceOf (o : Object) (name : Text) : Exec Bool := do
  let _ ← loadClass name
  assignable o.type (Descriptor.ofInternal name)

/-- Whether a special call from `caller` to a method of `named` starts at the caller's superclass. -/
def startsAbove (caller : Option RuntimeClass) (ref : MemberRef) (named : Descriptor) :
    Exec (Option Descriptor) := do
  match caller with
  | none => pure none
  | some c =>
    match c.superclass with
    | none => pure none
    | some above =>
      if c.flags.isSuper && !ref.isConstructor && c.descriptor != named then do
        if ← assignable c.descriptor named then pure (some above) else pure none
      else pure none

/-- The method of a special call: constructors and private methods bind in the named class, while a
call on a superclass skips what the caller overrides. -/
def resolveSpecial (caller : Option RuntimeClass) (ref : MemberRef) : Exec (Option Method) := do
  let named ← loadClass ref.owner
  match ← startsAbove caller ref named.descriptor with
  | some above => resolveMethod above ref
  | none =>
    match named.declaredMethod? ref.name ref.descriptor with
    | some m => pure (some m)
    | none =>
      if ref.isConstructor then unresolved .method ref.text none
      else resolveMethod named.descriptor ref

/-- Resolves a method from a named class on and runs it; an instance method gets its receiver as the
first argument. -/
def invoke (owner name descriptor : Text) (args : List Value) : Exec Value := do
  let c ← loadClass owner
  match ← resolveMethod c.descriptor ⟨owner, name, descriptor⟩ with
  | some m => invokeMethod m args
  | none => panic .broken

end Resolution

end ClassEngine
