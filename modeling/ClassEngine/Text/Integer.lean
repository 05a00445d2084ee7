import ClassEngine.Text.Digits

/-!
Reading 64-bit integers whose base is given by how they begin: `0x`, `0o` and `0b`, or a plain zero
for octal digits. Underscores may stand between digits.
-/

namespace ClassEngine

/-- Why a text is no 64-bit integer. -/
inductive IntegerError where
  | malformed
  | outOfRange
  deriving DecidableEq

namespace Integer

def underscore : UInt8 := Text.ofAscii '_'

/-- The base that a number without its sign begins with, whether something stands before the first
place for an underscore, and the digits. -/
def splitBase (t : Text) : Nat × Bool × Text :=
  match t with
  | 48 :: mark :: d :: rest =>
    if mark = 120 ∨ mark = 88 then (16, true, d :: rest)
    else if mark = 111 ∨ mark = 79 then (8, true, d :: rest)
    else if mark = 98 ∨ mark = 66 then (2, true, d :: rest)
    else (8, true, mark :: d :: rest)
  | 48 :: rest => (8, true, rest)
  | t => (10, false, t)

/-- Reads digits behind a number already read. The number must stay below `2 ^ 64` on the way; what
goes wrong first counts. -/
def readOnto (base n : Nat) : Text → Except IntegerError Nat
  | [] => .ok n
  | b :: rest =>
    if b = underscore then readOnto base n rest
    else match Text.digitValue? b with
      | none => .error .malformed
      | some d =>
        if base ≤ d then .error .malformed
        else if 0x10000000000000000 ≤ n * base + d then .error .outOfRange
        else readOnto base (n * base + d) rest

/-- Whether every underscore stands behind a digit and before one. -/
def separates (behindDigit : Bool) : Text → Bool
  | [] => true
  | b :: rest =>
    if b = underscore then
      behindDigit && !rest.isEmpty && rest.head? != some underscore && separates false rest
    else separates true rest

/-- Reads a 64-bit integer. -/
def parse (t : Text) : Except IntegerError Int := do
  let (negative, unsigned) := Text.splitSign t
  if unsigned.isEmpty then throw .malformed
  let (base, behindDigit, digits) := splitBase unsigned
  let n ← readOnto base 0 digits
  if !separates behindDigit digits then throw .malformed
  if negative then
    if n ≤ 0x8000000000000000 then pure (-(n : Int)) else throw .outOfRange
  else if n < 0x8000000000000000 then pure n
  else throw .outOfRange

end Integer

end ClassEngine
