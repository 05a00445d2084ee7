import ClassEngine.Numeric.Ieee
import ClassEngine.Engine.Frame

/-!
Arithmetic, conversions and comparisons. Integers wrap at the size of their word; the value pushed
earlier is the left operand.
-/

namespace ClassEngine

/-- The integer operators. -/
inductive IntOp where
  | add
  | sub
  | mul
  | div
  | rem
  | shl
  | shr
  | ushr
  | and
  | or
  | xor
  deriving DecidableEq

namespace IntOp

/-- An operator on ints; there is no result for a zero divisor. Shifts use the low five bits of
their distance. -/
def onInt (op : IntOp) (a b : Int32) : Option Int32 :=
  match op with
  | add => some (a + b)
  | sub => some (a - b)
  | mul => some (a * b)
  | div => if b = 0 then none else some (a / b)
  | rem => if b = 0 then none else some (a % b)
  | shl => some (a <<< (b &&& 31))
  | shr => some (a >>> (b &&& 31))
  | ushr => some (a.toUInt32 >>> (b &&& 31).toUInt32).toInt32
  | and => some (a &&& b)
  | or => some (a ||| b)
  | xor => some (a ^^^ b)

/-- Whether the right operand of the long operator is an int, the distance of a shift. -/
def isShift : IntOp → Bool
  | shl | shr | ushr => true
  | _ => false

/-- A shift of a long by the low six bits of a distance. -/
def shiftLong (op : IntOp) (a : Int64) (distance : Int32) : Int64 :=
  let s := (distance &&& 63).toInt64
  match op with
  | shl => a <<< s
  | shr => a >>> s
  | _ => (a.toUInt64 >>> s.toUInt64).toInt64

/-- An operator on longs other than a shift; there is no result for a zero divisor. -/
def onLong (op : IntOp) (a b : Int64) : Option Int64 :=
  match op with
  | add => some (a + b)
  | sub => some (a - b)
  | mul => some (a * b)
  | div => if b = 0 then none else some (a / b)
  | rem => if b = 0 then none else some (a % b)
  | and => some (a &&& b)
  | or => some (a ||| b)
  | xor => some (a ^^^ b)
  | shl | shr | ushr => none

end IntOp

/-- The floating-point operators. -/
inductive FloatOp where
  | add
  | sub
  | mul
  | div
  | rem
  deriving DecidableEq

namespace FloatOp

/-- An operator on doubles, given by their bits. -/
def onDouble (op : FloatOp) (a b : UInt64) : UInt64 :=
  match op with
  | add => (Float.ofBits a + Float.ofBits b).toBits
  | sub => (Float.ofBits a - Float.ofBits b).toBits
  | mul => (Float.ofBits a * Float.ofBits b).toBits
  | div => (Float.ofBits a / Float.ofBits b).toBits
  | rem => Ieee.remainder a b

/-- An operator on singles, given by their bits. -/
def onFloat (op : FloatOp) (a b : UInt32) : UInt32 :=
  match op with
  | add => (Float32.ofBits a + Float32.ofBits b).toBits
  | sub => (Float32.ofBits a - Float32.ofBits b).toBits
  | mul => (Float32.ofBits a * Float32.ofBits b).toBits
  | div => (Float32.ofBits a / Float32.ofBits b).toBits
  | rem => Ieee.narrow (Ieee.remainder (Ieee.widen a) (Ieee.widen b))

end FloatOp

namespace Numeric

def minInt : Int := -2147483648
def maxInt : Int := 2147483647
def minLong : Int := -9223372036854775808
def maxLong : Int := 9223372036854775807

/-- The int nearest toward zero, held within the range of ints; zero for a NaN. -/
def doubleToInt (bits : UInt64) : Int32 :=
  Int32.ofInt (Ieee.saturate minInt maxInt bits)

/-- The long nearest toward zero, held within the range of longs; zero for a NaN. -/
def doubleToLong (bits : UInt64) : Int64 :=
  Int64.ofInt (Ieee.saturate minLong maxLong bits)

/-- Minus one, zero or one. -/
def threeWay (less greater : Bool) : Int32 :=
  if less then -1 else if greater then 1 else 0

/-- Compares two doubles; a NaN counts as greater or as less, as asked. -/
def compareDouble (a b : UInt64) (nanGreater : Bool) : Int32 :=
  if Ieee.isNaN a || Ieee.isNaN b then if nanGreater then 1 else -1
  else threeWay (Float.ofBits a < Float.ofBits b) (Float.ofBits b < Float.ofBits a)

end Numeric

namespace FrameM

/-- The conversions between number types. -/
inductive Conversion where
  | i2l | i2f | i2d
  | l2i | l2f | l2d
  | f2i | f2l | f2d
  | d2i | d2l | d2f
  | i2b | i2c | i2s
  deriving DecidableEq

/-- Converts the top of the stack. -/
def convert : Conversion → FrameM Unit
  | .i2l => do push (.long (← popInt).toInt64)
  | .i2f => do push (.float (Ieee.ofInt32 (← popInt).toInt))
  | .i2d => do push (.double (Ieee.ofInt (← popInt).toInt))
  | .l2i => do push (.int (← popLong).toInt32)
  | .l2f => do push (.float (Ieee.ofInt32 (← popLong).toInt))
  | .l2d => do push (.double (Ieee.ofInt (← popLong).toInt))
  | .f2i => do push (.int (Numeric.doubleToInt (Ieee.widen (← popFloat))))
  | .f2l => do push (.long (Numeric.doubleToLong (Ieee.widen (← popFloat))))
  | .f2d => do push (.double (Ieee.widen (← popFloat)))
  | .d2i => do push (.int (Numeric.doubleToInt (← popDouble)))
  | .d2l => do push (.long (Numeric.doubleToLong (← popDouble)))
  | .d2f => do push (.float (Ieee.narrow (← popDouble)))
  | .i2b => do push (Value.coerce Descriptor.byte (.int (← popInt)))
  | .i2c => do push (Value.coerce Descriptor.char (.int (← popInt)))
  | .i2s => do push (Value.coerce Descriptor.short (.int (← popInt)))

/-- Compares two longs. -/
def compareLongs : FrameM Unit := do
  let b ← popLong
  let a ← popLong
  push (.int (Numeric.threeWay (a < b) (b < a)))

/-- Compares two singles. -/
def compareFloats (nanGreater : Bool) : FrameM Unit := do
  let b ← popFloat
  let a ← popFloat
  push (.int (Numeric.compareDouble (Ieee.widen a) (Ieee.widen b) nanGreater))

/-- Compares two doubles. -/
def compareDoubles (nanGreater : Bool) : FrameM Unit := do
  let b ← popDouble
  let a ← popDouble
  push (.int (Numeric.compareDouble a b nanGreater))

def floatOp (op : FloatOp) : FrameM Unit := do
  let b ← popFloat
  let a ← popFloat
  push (.float (op.onFloat a b))

def doubleOp (op : FloatOp) : FrameM Unit := do
  let b ← popDouble
  let a ← popDouble
  push (.double (op.onDouble a b))

/-- Changes the sign of the top of the stack. -/
def negateInt : FrameM Unit := do push (.int (-(← popInt)))
def negateLong : FrameM Unit := do push (.long (-(← popLong)))
def negateFloat : FrameM Unit := do push (.float ((← popFloat) ^^^ 0x80000000))
def negateDouble : FrameM Unit := do push (.double ((← popDouble) ^^^ 0x8000000000000000))

end FrameM

end ClassEngine
