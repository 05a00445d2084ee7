import ClassEngine.Text.Basic

/-!
Reading integers from text.
-/

namespace ClassEngine

namespace Text

/-- The value of a digit in bases up to sixteen, with letters of either case. -/
def digitValue? (b : UInt8) : Option Nat :=
  if 48 ≤ b ∧ b ≤ 57 then some (b.toNat - 48)
  else if 97 ≤ b ∧ b ≤ 102 then some (b.toNat - 87)
  else if 65 ≤ b ∧ b ≤ 70 then some (b.toNat - 55)
  else none

/-- Reads the digits of a base behind a number already read; refuses any other byte. -/
def digitsOnto (base : Nat) (n : Nat) : Text → Option Nat
  | [] => some n
  | b :: rest =>
    match digitValue? b with
    | some d => if d < base then digitsOnto base (n * base + d) rest else none
    | none => none

/-- Reads a number that is nothing but digits of a base, and at least one of them. -/
def natIn? (base : Nat) (t : Text) : Option Nat :=
  if t.isEmpty then none else digitsOnto base 0 t

/-- The sign of a number and what follows it; a missing sign is a plus. -/
def splitSign : Text → Bool × Text
  | 43 :: rest => (false, rest)
  | 45 :: rest => (true, rest)
  | t => (false, t)

/-- Puts a sign on a number. -/
def applySign (negative : Bool) (n : Nat) : Int :=
  if negative then -(n : Int) else n

/-- Reads a decimal integer with an optional sign. -/
def decimalInt? (t : Text) : Option Int :=
  let (negative, digits) := splitSign t
  (natIn? 10 digits).map (applySign negative)

end Text

end ClassEngine
