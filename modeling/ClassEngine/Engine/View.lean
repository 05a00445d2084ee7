import ClassEngine.Engine.Machine

/-!
Showing guest values to the outside: a finite tree that follows references down to some depth.
-/

namespace ClassEngine

namespace Machine

/-- The object behind a reference. -/
def object? (m : Machine) (r : Ref) : Option Object :=
  m.heap[r.number - 1]?

/-- The bytes that a guest string holds, read without running guest code. -/
def rawString? (m : Machine) (o : Object) : Option Text :=
  match o.getField "java/lang/String" "value" with
  | .ref r => (m.object? r).map Object.bytes
  | _ => none

/-- The slots of an object by declaring class and name. -/
def sortedFields (o : Object) : List (FieldKey × Value) :=
  o.fields.mergeSort fun a b => FieldKey.ble a.1 b.1

/-- A value down to a depth. Strings and mirrors are shown at any depth; below the last level only
the type of an object and the length of an array remain. -/
def view (m : Machine) (depth : Nat) : Value → View
  | .null => .null
  | .int v => .int v
  | .long v => .long v
  | .float b => .float b
  | .double b => .double b
  | .ref r =>
    match m.object? r with
    | none => .null
    | some o =>
      let name := Descriptor.className o.type
      if o.isArray then
        match depth with
        | 0 => .arrayStub o.type o.elements.size
        | d + 1 => .array o.type (o.elements.toList.map fun v => m.view d v)
      else if name == ("java/lang/String" : Text) then .string (m.rawString? o)
      else match o.payload with
        | .mirror d => .mirror d
        | _ =>
          match depth with
          | 0 => .objectStub name
          | d + 1 => .object name ((sortedFields o).map fun (k, v) => (k, m.view d v))
termination_by structural depth

/-- The class and message of a thrown object, read without running guest code. -/
def thrownText (m : Machine) (r : Ref) : Text :=
  match m.object? r with
  | none => "guest exception"
  | some o =>
    let name := Descriptor.sourceName o.type
    match o.getField "java/lang/Throwable" "message" with
    | .ref s =>
      match (m.object? s).bind m.rawString? with
      | some t => name ++ ": " ++ t
      | none => name
    | _ => name

end Machine

end ClassEngine
