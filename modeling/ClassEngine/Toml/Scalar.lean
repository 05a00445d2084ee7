import ClassEngine.Text.Digits
import ClassEngine.Toml.Value

/-!
Values that are one word: booleans, numbers, dates and times. A word is classified by its form; one
that has no form is refused.
-/

namespace ClassEngine

namespace Toml

/-- Removes the underscores between digits; refuses one that has no digit on both sides. -/
def dropUnderscores (isDigit : UInt8 → Bool) : Text → Option Text
  | [] => some []
  | [b] => if isDigit b then some [b] else none
  | b :: c :: rest =>
    if !isDigit b then none
    else if c = Text.ofAscii '_' then (dropUnderscores isDigit rest).bind fun r =>
      if r.isEmpty then none else some (b :: r)
    else (dropUnderscores isDigit (c :: rest)).map (b :: ·)

def isDecimal (b : UInt8) : Bool := 48 ≤ b && b ≤ 57

/-- Whether a byte is a digit of a base. -/
def isDigitOf (base : Nat) (b : UInt8) : Bool :=
  match Text.digitValue? b with
  | some d => d < base
  | none => false

/-- Digits without a needless zero in front. -/
def wholeDigits? (t : Text) : Option Text := do
  let ds ← dropUnderscores isDecimal t
  match ds with
  | [] => none
  | 48 :: _ :: _ => none
  | _ => some ds

/-- A number within the range of 64-bit integers. -/
def inRange? (n : Int) : Option Value :=
  if -9223372036854775808 ≤ n ∧ n ≤ 9223372036854775807 then some (.integer n) else none

/-- An integer in another base, which has no sign. -/
def basedInteger? (base : Nat) (t : Text) : Option Value := do
  let ds ← dropUnderscores (isDigitOf base) t
  inRange? (← Text.natIn? base ds)

/-- An integer. -/
def integer? (t : Text) : Option Value :=
  match t with
  | 48 :: 120 :: ds => basedInteger? 16 ds
  | 48 :: 111 :: ds => basedInteger? 8 ds
  | 48 :: 98 :: ds => basedInteger? 2 ds
  | _ => do
    let (negative, rest) := Text.splitSign t
    let ds ← wholeDigits? rest
    inRange? (Text.applySign negative (← Text.natIn? 10 ds))

/-- Whether `m · 10 ^ e` is too large for a double: at least half a step above the largest one. -/
def overflows (m : Nat) (e : Int) : Bool :=
  let digits : Int := (Text.ofNat m).length + e
  let limit : Nat := (1 <<< 1024) - (1 <<< 970)
  if m = 0 ∨ digits < 309 then false
  else if 310 < digits then true
  else if 0 ≤ e then limit ≤ m * Nat.pow 10 e.toNat
  else limit * Nat.pow 10 (-e).toNat ≤ m

/-- The part of a text before a byte, and the part behind it, if the byte occurs. -/
def cut (isMark : UInt8 → Bool) (t : Text) : Text × Option Text :=
  (t.takeWhile (!isMark ·), (t.dropWhile (!isMark ·)).tail?)

/-- A floating-point number: a fraction, an exponent or both behind the whole part. -/
def float? (t : Text) : Option Value :=
  let (_, rest) := Text.splitSign t
  if rest == ("inf" : Text) ∨ rest == ("nan" : Text) then some .float
  else do
    let (number, exponent) := cut (fun b => b == 101 || b == 69) rest
    let (whole, fraction) := cut (· == Text.ofAscii '.') number
    if fraction.isNone ∧ exponent.isNone then none
    let ds ← wholeDigits? whole
    let fs ← match fraction with
      | none => some []
      | some f => if f.isEmpty then none else dropUnderscores isDecimal f
    let e ← match exponent with
      | none => some 0
      | some x =>
        let (negative, xs) := Text.splitSign x
        (dropUnderscores isDecimal xs).bind fun xs => (Text.natIn? 10 xs).map (Text.applySign negative)
    let m ← Text.natIn? 10 (ds ++ fs)
    if overflows m (e - fs.length) then none else some .float

/-- A number of exactly `width` digits. -/
def fixedNat? (width : Nat) (t : Text) : Option Nat :=
  if t.length = width then Text.natIn? 10 t else none

def daysIn (year month : Nat) : Nat :=
  if month = 2 then
    if year % 4 = 0 ∧ (year % 100 ≠ 0 ∨ year % 400 = 0) then 29 else 28
  else if month = 4 ∨ month = 6 ∨ month = 9 ∨ month = 11 then 30
  else 31

/-- Whether a text is a date. -/
def isDate (t : Text) : Bool :=
  match Text.splitByte (Text.ofAscii '-') t with
  | [y, m, d] =>
    match fixedNat? 4 y, fixedNat? 2 m, fixedNat? 2 d with
    | some y, some m, some d => 1 ≤ m && m ≤ 12 && 1 ≤ d && d ≤ daysIn y m
    | _, _, _ => false
  | _ => false

/-- Whether a text is a number of two digits below a limit. -/
def isBelow (limit : Nat) (t : Text) : Bool :=
  match fixedNat? 2 t with
  | some n => n < limit
  | none => false

/-- Whether a text is a time of day; seconds and their fraction may be missing. -/
def isTime (t : Text) : Bool :=
  match Text.splitByte (Text.ofAscii ':') t with
  | [h, m] => isBelow 24 h && isBelow 60 m
  | [h, m, s] =>
    let (seconds, fraction) := cut (· == Text.ofAscii '.') s
    isBelow 24 h && isBelow 60 m && isBelow 60 seconds &&
      match fraction with
      | none => true
      | some f => !f.isEmpty && f.all isDecimal
  | _ => false

/-- Whether a text is a time with an optional distance from universal time. -/
def isZonedTime (t : Text) : Bool :=
  match t.getLast? with
  | some 90 => isTime t.dropLast
  | some 122 => isTime t.dropLast
  | _ =>
    let (time, zone) := cut (fun b => b == 43 || b == 45) t
    isTime time &&
      match zone with
      | none => true
      | some z =>
        match Text.splitByte (Text.ofAscii ':') z with
        | [h, m] => isBelow 24 h && isBelow 60 m
        | _ => false

/-- A date, a time, or a date with a time behind a letter or blank. -/
def moment? (t : Text) : Option Value :=
  if isDate t ∨ isTime t then some .moment
  else match t.drop 10 with
    | b :: time =>
      if (b == 84 || b == 116 || b == 32) && isDate (t.take 10) && isZonedTime time then
        some .moment
      else none
    | [] => none

/-- The value of a word. -/
def scalar? (t : Text) : Option Value :=
  if t == ("true" : Text) then some (.boolean true)
  else if t == ("false" : Text) then some (.boolean false)
  else match integer? t with
    | some v => some v
    | none =>
      match float? t with
      | some v => some v
      | none => moment? t

end Toml

end ClassEngine
