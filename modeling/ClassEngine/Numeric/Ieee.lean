/-!
Binary floating-point formats, read and written as bit patterns in exact integer arithmetic.
`Format.decode` gives the number that a bit pattern stands for, `Format.encode` the pattern of the
nearest number of the format, a tie going to the even neighbour. Class files hold single and double
constants as such patterns, so their conversions are functions of the bits.
-/

namespace ClassEngine

/-- Powers are those of the natural numbers themselves. -/
local instance (priority := high) natPow : Pow Nat Nat := instPowNat

/-- A binary interchange format: how many bits hold the fraction and the exponent. -/
structure Format where
  fracBits : Nat
  expBits : Nat
  deriving DecidableEq

/-- What a bit pattern stands for: `m · 2 ^ e` with a sign, an infinity, or not a number. -/
inductive Number where
  | finite (negative : Bool) (m : Nat) (e : Int)
  | infinite (negative : Bool)
  | nan (negative : Bool) (payload : Nat)
  deriving DecidableEq

namespace Format

/-- Sixteen bits. -/
def half : Format := ⟨10, 5⟩

/-- Thirty-two bits. -/
def single : Format := ⟨23, 8⟩

/-- Sixty-four bits. -/
def double : Format := ⟨52, 11⟩

/-- The exponent field of infinities and of what is not a number. -/
def maxField (f : Format) : Nat := 2 ^ f.expBits - 1

/-- The offset of the exponent field. -/
def bias (f : Format) : Nat := 2 ^ (f.expBits - 1) - 1

/-- The exponent of the last fraction bit of the smallest numbers. -/
def minExponent (f : Format) : Int := 1 - (f.bias : Int) - f.fracBits

/-- The bit that marks a quiet NaN. -/
def quietBit (f : Format) : Nat := 2 ^ (f.fracBits - 1)

/-- The sign bit in its place. -/
def signBit (f : Format) (negative : Bool) : Nat :=
  if negative then 2 ^ (f.fracBits + f.expBits) else 0

/-- The number that a bit pattern stands for. -/
def decode (f : Format) (bits : Nat) : Number :=
  let negative := bits / 2 ^ (f.fracBits + f.expBits) % 2 == 1
  let field := bits / 2 ^ f.fracBits % 2 ^ f.expBits
  let frac := bits % 2 ^ f.fracBits
  if field = f.maxField then
    if frac = 0 then .infinite negative else .nan negative frac
  else if field = 0 then .finite negative frac f.minExponent
  else .finite negative (2 ^ f.fracBits + frac) (f.minExponent + field - 1)

/-- `m / 2 ^ k` rounded to the nearest integer, a tie going to the even one. -/
def shiftRound (m k : Nat) : Nat :=
  let q := m / 2 ^ k
  let r := m % 2 ^ k
  if 2 * r < 2 ^ k then q
  else if 2 * r = 2 ^ k then q + q % 2
  else q + 1

/-- The number of binary digits of `m`. -/
def bitLength (m : Nat) : Nat :=
  if m = 0 then 0 else m.log2 + 1

/-- The pattern, without its sign, nearest to `m · 2 ^ e`. -/
def encodeMagnitude (f : Format) (m : Nat) (e : Int) : Nat :=
  if m = 0 then 0
  else
    let q := max (e + bitLength m - (f.fracBits + 1)) f.minExponent
    let n := if e ≤ q then shiftRound m (q - e).toNat else m * 2 ^ (e - q).toNat
    let bits :=
      if n < 2 ^ f.fracBits then n
      else (q - f.minExponent + 1).toNat * 2 ^ f.fracBits + (n - 2 ^ f.fracBits)
    min bits (f.maxField * 2 ^ f.fracBits)

/-- The pattern of the number of the format nearest to a number. A NaN becomes a quiet one and
keeps as many payload bits as fit; its payload is given in the width of the fraction. -/
def encode (f : Format) : Number → Nat
  | .finite negative m e => f.signBit negative + f.encodeMagnitude m e
  | .infinite negative => f.signBit negative + f.maxField * 2 ^ f.fracBits
  | .nan negative payload =>
    let frac := payload % 2 ^ f.fracBits
    let quiet := if frac / f.quietBit % 2 = 1 then frac else frac + f.quietBit
    f.signBit negative + f.maxField * 2 ^ f.fracBits + quiet

/-- The pattern in `target` of the number that a pattern of `source` stands for. -/
def convert (source target : Format) (bits : Nat) : Nat :=
  match source.decode bits with
  | .nan negative payload =>
    target.encode (.nan negative (payload * 2 ^ target.fracBits / 2 ^ source.fracBits))
  | x => target.encode x

end Format

/-! Bit patterns of single and double precision. -/
namespace Ieee

/-- The double of a single; exact, except that a signalling NaN becomes quiet. -/
def widen (bits : UInt32) : UInt64 :=
  (Format.convert .single .double bits.toNat).toUInt64

/-- The single nearest to a double. -/
def narrow (bits : UInt64) : UInt32 :=
  (Format.convert .double .single bits.toNat).toUInt32

/-- Whether a double is not a number. -/
def isNaN (bits : UInt64) : Bool :=
  bits &&& 0x7FFFFFFFFFFFFFFF > 0x7FF0000000000000

/-- Whether a single is not a number. -/
def isNaN32 (bits : UInt32) : Bool :=
  bits &&& 0x7FFFFFFF > 0x7F800000

/-- Whether a double is zero of either sign. -/
def isZero (bits : UInt64) : Bool :=
  bits &&& 0x7FFFFFFFFFFFFFFF == 0

/-- Numeric equality: the two zeros are equal and a NaN equals nothing. -/
def numEq (a b : UInt64) : Bool :=
  !isNaN a && !isNaN b && (a == b || (isZero a && isZero b))

/-- The double nearest to an integer. -/
def ofInt (n : Int) : UInt64 :=
  (Format.double.encode (.finite (n < 0) n.natAbs 0)).toUInt64

/-- The single nearest to an integer. -/
def ofInt32 (n : Int) : UInt32 :=
  (Format.single.encode (.finite (n < 0) n.natAbs 0)).toUInt32

/-- The integer part of `m · 2 ^ e`. -/
def truncate (m : Nat) (e : Int) : Nat :=
  if 0 ≤ e then m * 2 ^ e.toNat else m / 2 ^ (-e).toNat

/-- The integer part of a double, held within `[lo, hi]`; zero for a NaN. -/
def saturate (lo hi : Int) (bits : UInt64) : Int :=
  match Format.double.decode bits.toNat with
  | .nan _ _ => 0
  | .infinite negative => if negative then lo else hi
  | .finite negative m e =>
    let n : Int := truncate m e
    max lo (min hi (if negative then -n else n))

/-- The remainder of a division that truncates: exact, with the sign of the dividend. -/
def remainder (x y : UInt64) : UInt64 :=
  match Format.double.decode x.toNat, Format.double.decode y.toNat with
  | .finite negative mx ex, .finite _ my ey =>
    if my = 0 then 0x7FF8000000000000
    else
      let e := min ex ey
      let r := mx * 2 ^ (ex - e).toNat % (my * 2 ^ (ey - e).toNat)
      (Format.double.encode (.finite negative r e)).toUInt64
  | .finite _ _ _, .infinite _ => x
  | _, _ => 0x7FF8000000000000

end Ieee

end ClassEngine
