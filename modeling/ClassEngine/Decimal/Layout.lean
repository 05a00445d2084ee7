import ClassEngine.Decimal.Shortest

/-!
How a shortest decimal is written out: which exponents are positional, whether a whole number keeps
a point, and how an exponent looks.
-/

namespace ClassEngine

namespace Decimal

/-- The choices of a written form. -/
structure Layout where
  /-- Exponents from here on are written positionally. -/
  positionalFrom : Int
  /-- Exponents below this one are written positionally. -/
  positionalBelow : Int
  /-- Whether a number without fraction still shows `.0`. -/
  keepPoint : Bool
  /-- What stands before the exponent. -/
  mark : Text
  /-- Whether a positive exponent has a plus sign. -/
  plusSign : Bool
  /-- The least number of exponent digits. -/
  exponentWidth : Nat
  nan : Text
  infinity : Text
  negativeInfinity : Text

/-- Digits with a point after the first `whole` of them. -/
def pointAfter (l : Layout) (whole : Nat) (digits : Text) : Text :=
  let int := digits.take whole ++ List.replicate (whole - digits.length) 48
  let frac := digits.drop whole
  if frac.isEmpty then if l.keepPoint then int ++ ".0" else int
  else int ++ "." ++ frac

/-- The positional form. -/
def positional (l : Layout) (d : Decimal) : Text :=
  if 0 ≤ d.exponent then pointAfter l (d.exponent.toNat + 1) d.digits
  else pointAfter l 1 (List.replicate (-d.exponent).toNat 48 ++ d.digits)

/-- The form with one digit before the point and an exponent. -/
def scientific (l : Layout) (d : Decimal) : Text :=
  let sign : Text := if d.exponent < 0 then "-" else if l.plusSign then "+" else ""
  pointAfter l 1 d.digits ++ l.mark ++ sign ++
    Text.padZero l.exponentWidth (Text.ofNat d.exponent.natAbs)

/-- A positive decimal in the form its exponent calls for. -/
def write (l : Layout) (d : Decimal) : Text :=
  if l.positionalFrom ≤ d.exponent ∧ d.exponent < l.positionalBelow then positional l d
  else scientific l d

/-- The text of a bit pattern of a format. -/
def textOf (l : Layout) (f : Format) (bits : Nat) : Text :=
  match f.decode bits with
  | .nan _ _ => l.nan
  | .infinite negative => if negative then l.negativeInfinity else l.infinity
  | .finite negative m e =>
    let sign : Text := if negative then "-" else ""
    sign ++ write l (shortest f m e)

end Decimal

end ClassEngine
