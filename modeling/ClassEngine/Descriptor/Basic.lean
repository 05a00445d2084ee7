import ClassEngine.Text.Basic

/-!
Type descriptors: one letter for a primitive type, `L` name `;` for a class, and a bracket in front
for an array. The predicates here look at the shape of a text only, so they are defined for every
text, whether or not it is a well-formed descriptor.
-/

namespace ClassEngine

/-- A type in descriptor form. -/
abbrev Descriptor := Text

namespace Descriptor

/-- The letters of the primitive types. -/
inductive Primitive where
  | boolean | byte | char | short | int | long | float | double
  deriving DecidableEq

/-- The letter of a primitive type. -/
def Primitive.letter : Primitive → UInt8
  | boolean => Text.ofAscii 'Z'
  | byte => Text.ofAscii 'B'
  | char => Text.ofAscii 'C'
  | short => Text.ofAscii 'S'
  | int => Text.ofAscii 'I'
  | long => Text.ofAscii 'J'
  | float => Text.ofAscii 'F'
  | double => Text.ofAscii 'D'

/-- The source-level name of a primitive type. -/
def Primitive.name : Primitive → Text
  | boolean => "boolean"
  | byte => "byte"
  | char => "char"
  | short => "short"
  | int => "int"
  | long => "long"
  | float => "float"
  | double => "double"

/-- All primitive types. -/
def primitives : List Primitive :=
  [.boolean, .byte, .char, .short, .int, .long, .float, .double]

/-- The primitive type that a descriptor denotes. -/
def primitive? (t : Descriptor) : Option Primitive :=
  primitives.find? fun p => t == [p.letter]

def boolean : Descriptor := "Z"
def byte : Descriptor := "B"
def char : Descriptor := "C"
def short : Descriptor := "S"
def int : Descriptor := "I"
def long : Descriptor := "J"
def float : Descriptor := "F"
def double : Descriptor := "D"
def void : Descriptor := "V"
def object : Descriptor := "Ljava/lang/Object;"
def string : Descriptor := "Ljava/lang/String;"

/-- Any one-byte text but that of void counts as primitive. -/
def isPrimitive (t : Descriptor) : Bool :=
  t.length == 1 && t != void

/-- Whether values of the type take two local slots. -/
def isWide (t : Descriptor) : Bool :=
  t == long || t == double

def isVoid (t : Descriptor) : Bool :=
  t == void

def isArray (t : Descriptor) : Bool :=
  t.head? == some (Text.ofAscii '[')

def isReference (t : Descriptor) : Bool :=
  t.head? == some (Text.ofAscii 'L') || isArray t

/-- The number of leading brackets. -/
def dimensions (t : Descriptor) : Nat :=
  (t.takeWhile (· == Text.ofAscii '[')).length

/-- The type without any brackets. -/
def element (t : Descriptor) : Descriptor :=
  t.dropWhile (· == Text.ofAscii '[')

/-- The type without its first bracket. -/
def component (t : Descriptor) : Descriptor :=
  if isArray t then t.drop 1 else t

/-- The array type with this component. -/
def arrayOf (t : Descriptor) : Descriptor :=
  Text.ofAscii '[' :: t

/-- The internal name under which the type is looked up: what stands between `L` and `;` for a
class, the descriptor itself for anything else. -/
def className (t : Descriptor) : Text :=
  if 2 < t.length && t.head? == some (Text.ofAscii 'L') then (t.drop 1).dropLast else t

/-- The descriptor of an internal name. Array names and primitive letters are descriptors already. -/
def ofInternal (name : Text) : Descriptor :=
  if isArray name then name
  else if (primitive? name).isSome || name == void then name
  else "L" ++ name ++ ";"

/-- The source-level spelling, with a pair of brackets for each dimension. -/
def sourceName (t : Descriptor) : Text :=
  let base : Text := match primitive? (element t) with
    | some p => p.name
    | none =>
      if element t == void then "void"
      else Text.replaceByte (Text.ofAscii '/') (Text.ofAscii '.') (className (element t))
  base ++ (List.replicate (dimensions t) ("[]" : Text)).flatten

/-- The name a class mirror reports: dots for slashes, arrays kept in descriptor form. -/
def reflectName (t : Descriptor) : Text :=
  if isArray t then Text.replaceByte (Text.ofAscii '/') (Text.ofAscii '.') t else sourceName t

/-- The type of a name that a class mirror reports. -/
def ofReflectName (name : Text) : Descriptor :=
  match primitives.find? fun p => p.name == name with
  | some p => [p.letter]
  | none =>
    if name == ("void" : Text) then void
    else ofInternal (Text.replaceByte (Text.ofAscii '.') (Text.ofAscii '/') name)

end Descriptor

end ClassEngine
