import ClassEngine.Descriptor.Basic

/-!
Guest values. Every value fills one operand stack entry, whatever its size; booleans, bytes, chars
and shorts are ints in the range of their type.
-/

namespace ClassEngine

/-- A reference to an object: its number in allocation order, from 1 on, which is also its
identity hash. -/
structure Ref where
  number : Nat
  deriving DecidableEq, Hashable, Inhabited

/-- A guest value. Floating-point numbers are given by their bits. -/
inductive Value where
  | null
  | int (v : Int32)
  | long (v : Int64)
  | float (bits : UInt32)
  | double (bits : UInt64)
  | ref (r : Ref)
  deriving DecidableEq, Inhabited

namespace Value

/-- Whether the value is a long or a double. -/
def isWide : Value → Bool
  | long _ | double _ => true
  | _ => false

def ofBool (b : Bool) : Value :=
  int (if b then 1 else 0)

/-- How a value is named in a complaint about its kind. -/
def kindName : Value → Text
  | null => "<nil>"
  | int _ => "int32"
  | long _ => "int64"
  | float _ => "float32"
  | double _ => "float64"
  | ref _ => "*vm.Object"

/-- The value that fields and array elements of a type start with. -/
def default (t : Descriptor) : Value :=
  match Descriptor.primitive? t with
  | some .boolean | some .byte | some .char | some .short | some .int => int 0
  | some .long => long 0
  | some .float => float 0
  | some .double => double 0
  | none => null

/-- Cuts an int down to the range of a narrow type; every other value stays as it is. -/
def coerce (t : Descriptor) : Value → Value
  | int v => match Descriptor.primitive? t with
    | some .byte => int v.toInt8.toInt32
    | some .char => int v.toUInt32.toUInt16.toUInt32.toInt32
    | some .short => int v.toInt16.toInt32
    | some .boolean => int (v &&& 1)
    | _ => int v
  | v => v

end Value

end ClassEngine
