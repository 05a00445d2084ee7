/-!
Text as the engine sees it. Class names, descriptors and guest strings are byte strings: almost
always UTF-8, but a guest may build any bytes, and names are cut at byte positions. `Text` is the
plain list of those bytes.
-/

namespace ClassEngine

/-- A byte string that usually, but not always, is UTF-8. -/
abbrev Text := List UInt8

namespace Text

/-- The UTF-8 bytes of a string. -/
def ofString (s : String) : Text :=
  s.toList.flatMap String.utf8EncodeChar

instance : Coe String Text := ⟨ofString⟩

/-- The one-byte text of an ASCII character. -/
def ofAscii (c : Char) : UInt8 :=
  c.toNat.toUInt8

/-- Reads the bytes back as a string; refuses bytes that are not UTF-8. -/
def toString? (t : Text) : Option String :=
  String.fromUTF8? ⟨t.toArray⟩

/-- The digit `n` of a number in base ten or sixteen, letters in lower case. -/
def digit (n : Nat) : UInt8 :=
  if n < 10 then (48 + n).toUInt8 else (87 + n).toUInt8

/-- The digits of `n` in `base`, most significant first; `fuel` bounds their number. -/
def digitsIn (base : Nat) : Nat → Nat → Text → Text
  | 0, _, acc => acc
  | fuel + 1, n, acc =>
    if n < base then digit n :: acc
    else digitsIn base fuel (n / base) (digit (n % base) :: acc)

/-- Decimal digits of a natural number, without leading zeros. -/
def ofNat (n : Nat) : Text :=
  digitsIn 10 (n + 1) n []

/-- Decimal digits of an integer, with a minus sign in front of a negative one. -/
def ofInt : Int → Text
  | .ofNat n => ofNat n
  | .negSucc n => 45 :: ofNat (n + 1)

/-- Lower-case hexadecimal digits, without leading zeros. -/
def hex (n : Nat) : Text :=
  digitsIn 16 (n + 1) n []

/-- Fills with zeros on the left up to `width` bytes. -/
def padZero (width : Nat) (t : Text) : Text :=
  List.replicate (width - t.length) 48 ++ t

/-- Upper-cases the ASCII letters. -/
def upperAscii (t : Text) : Text :=
  t.map fun b => if 97 ≤ b ∧ b ≤ 122 then b - 32 else b

/-- Lower-cases the ASCII letters. -/
def lowerAscii (t : Text) : Text :=
  t.map fun b => if 65 ≤ b ∧ b ≤ 90 then b + 32 else b

/-- Replaces every occurrence of one byte by another. -/
def replaceByte (old new : UInt8) (t : Text) : Text :=
  t.map fun b => if b = old then new else b

/-- The pieces between the occurrences of `sep`; one piece more than there are separators. -/
def splitByte (sep : UInt8) : Text → List Text
  | [] => [[]]
  | b :: rest =>
    match splitByte sep rest with
    | [] => [[b]]
    | piece :: pieces => if b = sep then [] :: piece :: pieces else (b :: piece) :: pieces

/-- Joins pieces with `sep` between neighbours. -/
def join (sep : Text) : List Text → Text
  | [] => []
  | [piece] => piece
  | piece :: pieces => piece ++ sep ++ join sep pieces

/-- Whether `t` ends with `stop`. -/
def endsWith (stop t : Text) : Bool :=
  stop.isSuffixOf t

/-- Removes `stop` from the end of `t`, when it is there. -/
def dropEnd (stop t : Text) : Text :=
  if endsWith stop t then t.take (t.length - stop.length) else t

/-- What follows the last occurrence of `sep`; the whole text when there is none. -/
def afterLast (sep : UInt8) (t : Text) : Text :=
  (t.reverse.takeWhile (· ≠ sep)).reverse

/-- What precedes the last occurrence of `sep`, or `none` when there is none. -/
def beforeLast? (sep : UInt8) (t : Text) : Option Text :=
  match t.reverse.dropWhile (· ≠ sep) with
  | [] => none
  | _ :: rest => some rest.reverse

/-- Bytewise lexicographic order. -/
def ble : Text → Text → Bool
  | [], _ => true
  | _ :: _, [] => false
  | a :: as, b :: bs => if a < b then true else if b < a then false else ble as bs

/-- Strict bytewise lexicographic order. -/
def blt (a b : Text) : Bool :=
  !ble b a

/-- Sorts bytewise; equal texts stay in order. -/
def sort (ts : List Text) : List Text :=
  ts.mergeSort ble

end Text

end ClassEngine
