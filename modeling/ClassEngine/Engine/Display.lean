import ClassEngine.Decimal.Layout
import ClassEngine.Text.Quoted
import ClassEngine.Text.Utf16
import ClassEngine.Numeric.Ieee
import ClassEngine.Engine.Allocation

/-!
The text of guest values, as string conversion and printing show them.
-/

namespace ClassEngine

namespace Display

open Exec Resolution Allocation

/-- Floating-point numbers always show a fraction; from a thousandth up to ten million they are
positional. -/
def number : Decimal.Layout where
  positionalFrom := -3
  positionalBelow := 7
  keepPoint := true
  mark := "E"
  plusSign := false
  exponentWidth := 1
  nan := "NaN"
  infinity := "Infinity"
  negativeInfinity := "-Infinity"

def floatText (bits : UInt32) : Text :=
  Decimal.textOf number .single bits.toNat

def doubleText (bits : UInt64) : Text :=
  Decimal.textOf number .double bits.toNat

/-- The long in a value. -/
def asLong : Value → Exec Int64
  | .long v => pure v
  | _ => panic .broken

/-- The single in a value. -/
def asFloat : Value → Exec UInt32
  | .float b => pure b
  | _ => panic .broken

/-- The double in a value. -/
def asDouble : Value → Exec UInt64
  | .double b => pure b
  | _ => panic .broken

/-- The text of an object: a string is its contents, any other object describes itself. -/
def objectText (r : Ref) : Exec Text := do
  let name := Descriptor.className (← objectAt r).type
  if name == ("java/lang/String" : Text) then hostText (.ref r)
  else do
    let s ← invoke name "toString" "()Ljava/lang/String;" [.ref r]
    hostText s

/-- The text of a value of a declared type. -/
def valueText (t : Descriptor) (v : Value) : Exec Text := do
  match Descriptor.primitive? t with
  | some .boolean => do
    let n ← check (FrameM.asInt v)
    pure (if n = 0 then "false" else "true")
  | some .char => do
    let n ← check (FrameM.asInt v)
    pure (Utf8.encode [Utf16.single n.toUInt32.toUInt16])
  | some .byte | some .short | some .int => do
    let n ← check (FrameM.asInt v)
    pure (Text.ofInt n.toInt)
  | some .long => do
    pure (Text.ofInt (← asLong v).toInt)
  | some .float => do
    pure (floatText (← asFloat v))
  | some .double => do
    pure (doubleText (← asDouble v))
  | none => do
    match ← check (FrameM.asRef v) with
    | none => pure "null"
    | some r => objectText r

end Display

end ClassEngine
