import ClassEngine.Engine.Value

/-!
Guest objects: instances, arrays and the static storage of classes.
-/

namespace ClassEngine

/-- A field slot: the class that declares it and its name, so that a field that shadows an
inherited one has a slot of its own. -/
structure FieldKey where
  owner : Text
  name : Text
  deriving DecidableEq

/-- Declaration classes in bytewise order, then names. -/
def FieldKey.ble (a b : FieldKey) : Bool :=
  if a.owner == b.owner then Text.ble a.name b.name else Text.ble a.owner b.owner

/-- What the engine keeps with an object that natives implement. -/
inductive Payload where
  | none
  /-- The class that a mirror describes. -/
  | mirror (type : Descriptor)
  /-- The text buffer of a string builder, by number. -/
  | buffer (number : Nat)
  deriving DecidableEq

/-- A guest object. -/
structure Object where
  /-- The descriptor of its class. -/
  type : Descriptor
  fields : List (FieldKey × Value)
  elements : Array Value
  payload : Payload
  /-- Whether this is the static storage of a class, which no code can hold as a value. -/
  storage : Bool

namespace Object

/-- An instance without any slots. -/
def empty (type : Descriptor) : Object :=
  ⟨type, [], #[], .none, false⟩

/-- An array with the given elements. -/
def array (type : Descriptor) (elements : Array Value) : Object :=
  ⟨type, [], elements, .none, false⟩

def isArray (o : Object) : Bool :=
  Descriptor.isArray o.type

/-- Reads a slot; one that was never written reads as null. -/
def getField (o : Object) (owner name : Text) : Value :=
  (o.fields.lookup ⟨owner, name⟩).getD .null

/-- Writes a slot in a list of slots, adding it when it is new. -/
def setSlot (key : FieldKey) (v : Value) : List (FieldKey × Value) → List (FieldKey × Value)
  | [] => [(key, v)]
  | (k, w) :: rest => if k = key then (key, v) :: rest else (k, w) :: setSlot key v rest

/-- Writes a slot. -/
def setField (o : Object) (owner name : Text) (v : Value) : Object :=
  { o with fields := setSlot ⟨owner, name⟩ v o.fields }

/-- Writes an element; there is nothing to write outside of the array. -/
def setElement (o : Object) (i : Nat) (v : Value) : Object :=
  { o with elements := o.elements.setIfInBounds i v }

/-- The elements of a byte array as bytes; other elements count as zero. -/
def bytes (o : Object) : Text :=
  o.elements.toList.map fun v => match v with
    | .int x => x.toUInt32.toUInt8
    | _ => 0

/-- The type, for an array its length, and the identity hash. -/
def describe (o : Object) (r : Ref) : Text :=
  let name := Descriptor.sourceName o.type
  let hash := "@" ++ Text.hex (r.number % 4294967296)
  if o.isArray then Text.dropEnd "[]" name ++ "[" ++ Text.ofNat o.elements.size ++ "]" ++ hash
  else name ++ hash

end Object

end ClassEngine
