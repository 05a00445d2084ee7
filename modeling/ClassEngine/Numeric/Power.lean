import ClassEngine.Numeric.Ieee

/-!
Larger, smaller and power of doubles, given by their bits. A power is a square and multiply over the
whole part of the exponent, with mantissa and binary exponent kept apart so that no intermediate
result leaves the range; only a fractional part goes through the logarithm.
-/

namespace ClassEngine

namespace Ieee

def nan : UInt64 := 0x7FF8000000000000
def infinity : UInt64 := 0x7FF0000000000000
def negativeInfinity : UInt64 := 0xFFF0000000000000
def one : UInt64 := 0x3FF0000000000000
def minusOne : UInt64 := 0xBFF0000000000000
def signMask : UInt64 := 0x8000000000000000

/-- The number without its sign. -/
def abs (x : UInt64) : UInt64 := x &&& 0x7FFFFFFFFFFFFFFF

def isNegative (x : UInt64) : Bool := x &&& signMask != 0

def isInfinite (x : UInt64) : Bool := abs x == infinity

def lt (x y : UInt64) : Bool := Float.ofBits x < Float.ofBits y

/-- The larger number: infinity beats a NaN, a NaN beats the rest, and zero beats minus zero. -/
def max (x y : UInt64) : UInt64 :=
  if x == infinity || y == infinity then infinity
  else if isNaN x || isNaN y then nan
  else if isZero x && isZero y then if isNegative x then y else x
  else if lt y x then x else y

/-- The smaller number: minus infinity beats a NaN, a NaN beats the rest, and minus zero beats
zero. -/
def min (x y : UInt64) : UInt64 :=
  if x == negativeInfinity || y == negativeInfinity then negativeInfinity
  else if isNaN x || isNaN y then nan
  else if isZero x && isZero y then if isNegative x then x else y
  else if lt x y then x else y

def sqrt (x : UInt64) : UInt64 := (Float.sqrt (Float.ofBits x)).toBits

/-- The whole part of a finite magnitude and the fraction that it leaves, as doubles. -/
def splitWhole (x : UInt64) : Nat × UInt64 :=
  match Format.double.decode x.toNat with
  | .finite _ m e =>
    let whole := truncate m e
    let rest := if 0 ≤ e then 0 else m % (1 <<< (-e).toNat)
    (whole, (Format.double.encode (.finite false rest e)).toUInt64)
  | _ => (0, 0)

/-- Whether a number is an odd integer that a double can still tell from its neighbours. -/
def isOddInteger (x : UInt64) : Bool :=
  let (whole, rest) := splitWhole (abs x)
  whole < 0x20000000000000 && isZero rest && whole % 2 == 1 && !isInfinite x

/-- A finite number other than zero as a mantissa of magnitude in `[1/2, 1)` and an exponent. -/
def mantissaExponent (x : UInt64) : UInt64 × Int :=
  match Format.double.decode x.toNat with
  | .finite negative m e =>
    let n := Format.bitLength m
    ((Format.double.encode (.finite negative m (-(n : Int)))).toUInt64, e + n)
  | _ => (x, 0)

/-- A number times a power of two, rounded once. -/
def scaleBy (x : UInt64) (k : Int) : UInt64 :=
  match Format.double.decode x.toNat with
  | .finite negative m e => (Format.double.encode (.finite negative m (e + k))).toUInt64
  | _ => x

/-- Multiplies `a · 2 ^ ae` by the power with whole exponent `n` of `x · 2 ^ xe`. -/
def multiplyPower (a : UInt64) (ae : Int) (x : UInt64) (xe : Int) : Nat → Nat → UInt64 × Int
  | 0, _ => (a, ae)
  | fuel + 1, n =>
    if n = 0 then (a, ae)
    else if xe < -4096 ∨ 4096 < xe then (a, ae + xe)
    else
      let product := (Float.ofBits a * Float.ofBits x).toBits
      let a' := if n % 2 = 1 then product else a
      let ae' := if n % 2 = 1 then ae + xe else ae
      let square := (Float.ofBits x * Float.ofBits x).toBits
      if lt square 0x3FE0000000000000 then
        multiplyPower a' ae' (scaleBy square 1) (xe * 2 - 1) fuel (n / 2)
      else multiplyPower a' ae' square (xe * 2) fuel (n / 2)

/-- The reciprocal. -/
def inverse (x : UInt64) : UInt64 := (Float.ofBits one / Float.ofBits x).toBits

/-- The power of a finite number other than zero to a finite exponent. -/
def finitePower (x y : UInt64) : UInt64 :=
  let (whole, fraction) := splitWhole (abs y)
  if !isZero fraction && isNegative x then nan
  else if 0x8000000000000000 ≤ whole then
    if x == minusOne then one
    else if lt (abs x) one == !isNegative y then 0
    else infinity
  else
    let up := lt 0x3FE0000000000000 fraction
    let rest := if up then (Float.ofBits fraction - Float.ofBits one).toBits else fraction
    let n := if up then whole + 1 else whole
    let start : UInt64 :=
      if isZero fraction then one
      else (Float.exp (Float.ofBits rest * Float.log (Float.ofBits x))).toBits
    let (m, e) := mantissaExponent x
    let (a, ae) := multiplyPower start 0 m e 64 n
    if isNegative y then scaleBy (inverse a) (-ae) else scaleBy a ae

/-- The power of zero. -/
def zeroPower (x y : UInt64) : UInt64 :=
  if isNegative y then
    if isNegative x && isOddInteger y then negativeInfinity else infinity
  else if isNegative x && isOddInteger y then x else 0

/-- The power `x ^ y`. -/
def power (x y : UInt64) : UInt64 :=
  if isZero y || x == one then one
  else if y == one then x
  else if isNaN x || isNaN y then nan
  else if isZero x then zeroPower x y
  else if isInfinite y then
    if x == minusOne then one
    else if lt (abs x) one == !isNegative y then 0
    else infinity
  else if x == infinity then if isNegative y then 0 else infinity
  else if x == negativeInfinity then zeroPower signMask (y ^^^ signMask)
  else if y == 0x3FE0000000000000 then sqrt x
  else if y == 0xBFE0000000000000 then inverse (sqrt x)
  else finitePower x y

end Ieee

end ClassEngine
