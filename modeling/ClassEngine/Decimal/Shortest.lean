import ClassEngine.Text.Basic
import ClassEngine.Numeric.Ieee

/-!
The shortest decimal that reads back as a given binary number. The reals that round to a number
form an interval; `shortest` takes the first decimal grid that has a point in it and, of the two
grid points around the number, the one inside, or the nearer one when both are.
-/

namespace ClassEngine

/-- A positive decimal: the digits `d₁ d₂ …` stand for `d₁.d₂… · 10 ^ exponent`. -/
structure Decimal where
  digits : Text
  exponent : Int
  deriving DecidableEq

namespace Decimal

/-- Zero has the single digit `0`. -/
def zero : Decimal := ⟨[48], 0⟩

/-- A positive fraction. -/
structure Ratio where
  num : Nat
  den : Nat

/-- `m · 2 ^ e` as a fraction. -/
def Ratio.scale (m : Nat) (e : Int) : Ratio :=
  if 0 ≤ e then ⟨m <<< e.toNat, 1⟩ else ⟨m, 1 <<< (-e).toNat⟩

/-- The least `j > 0` with `num · 10 ^ j ≥ den`, searched among `fuel` candidates. -/
def leadingZeros (den : Nat) : Nat → Nat → Nat → Nat
  | 0, _, j => j
  | fuel + 1, num, j => if den ≤ num * 10 then j + 1 else leadingZeros den fuel (num * 10) (j + 1)

/-- The decimal exponent of a positive fraction: `10 ^ k ≤ num / den < 10 ^ (k + 1)`. -/
def exponentOf (r : Ratio) : Int :=
  if r.den ≤ r.num then ((Text.ofNat (r.num / r.den)).length : Int) - 1
  else -(leadingZeros r.den 400 r.num 0 : Nat)

/-- The reals that round to `m · 2 ^ e`: twice the number and the ends of the interval, all over
the denominator of a common fraction. `closed` tells whether the ends belong to it. -/
structure Interval where
  low : Nat
  value : Nat
  high : Nat
  den : Nat
  closed : Bool

/-- The interval of a number of a format. The gap below a power of two is half as wide. -/
def interval (f : Format) (m : Nat) (e : Int) : Interval :=
  let r := Ratio.scale 1 (e - 2)
  let below := if m = 1 <<< f.fracBits ∧ f.minExponent < e then 1 else 2
  ⟨(4 * m - below) * r.num, 4 * m * r.num, (4 * m + 2) * r.num, r.den, m % 2 == 0⟩

/-- Whether the fraction `num / (i.den · scale)` lies in the interval. -/
def Interval.holds (i : Interval) (num scale : Nat) : Bool :=
  if i.closed then i.low * scale ≤ num && num ≤ i.high * scale
  else i.low * scale < num && num < i.high * scale

/-- The decimal with the digits of `t`, whose last digit stands at `10 ^ last`. -/
def ofDigits (t : Nat) (last : Int) : Decimal :=
  let ds := Text.ofNat t
  let trimmed := (ds.reverse.dropWhile (· = 48)).reverse
  ⟨trimmed, last + ds.length - 1⟩

/-- The decimal of `n` digits in the interval nearest to the value, if there is one. `k` is the
decimal exponent of the value. -/
def onGrid (i : Interval) (k : Int) (n : Nat) : Option Decimal :=
  let last : Int := k - n + 1
  let up : Nat := if 0 ≤ last then Nat.pow 10 last.toNat else 1
  let down : Nat := if 0 ≤ last then 1 else Nat.pow 10 (-last).toNat
  let t := i.value * down / (i.den * up)
  let low := t * up * i.den
  let high := (t + 1) * up * i.den
  match i.holds low down, i.holds high down with
  | false, false => none
  | true, false => some (ofDigits t last)
  | false, true => some (ofDigits (t + 1) last)
  | true, true =>
    let v := i.value * down
    if 2 * v < low + high then some (ofDigits t last)
    else if 2 * v = low + high then some (ofDigits (t + t % 2) last)
    else some (ofDigits (t + 1) last)

/-- The first grid, from `n` digits on, that has a point in the interval. -/
def search (i : Interval) (k : Int) : Nat → Nat → Decimal
  | 0, n => (onGrid i k n).getD zero
  | fuel + 1, n => match onGrid i k n with
    | some d => d
    | none => search i k fuel (n + 1)

/-- The shortest decimal that reads back as `m · 2 ^ e` in the format. -/
def shortest (f : Format) (m : Nat) (e : Int) : Decimal :=
  if m = 0 then zero
  else search (interval f m e) (exponentOf (Ratio.scale m e)) 16 1

end Decimal

end ClassEngine
