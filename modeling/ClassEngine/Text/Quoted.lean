import ClassEngine.Text.Utf8
import ClassEngine.Text.Printable

/-!
Quoted text for messages. Printable characters stand as themselves, the usual controls have
one-letter escapes, other characters are written by number, and a stray byte as `\\x` and two
digits. Everything but the quote and the backslash is written so that the reader can tell which
bytes were there.
-/

namespace ClassEngine

namespace Quoted

/-- Lower-case hexadecimal digits filled up to a width. -/
def hexDigits (width n : Nat) : Text :=
  Text.padZero width (Text.hex n)

/-- The letter of a one-letter escape. -/
def shortEscape? (c : Char) : Option Char :=
  match c.toNat with
  | 7 => some 'a'
  | 8 => some 'b'
  | 12 => some 'f'
  | 10 => some 'n'
  | 13 => some 'r'
  | 9 => some 't'
  | 11 => some 'v'
  | _ => none

/-- One character between `quote` marks. -/
def escape (quote c : Char) : Text :=
  if c = quote ∨ c = '\\' then Text.ofString "\\" ++ String.utf8EncodeChar c
  else if isPrintable c then String.utf8EncodeChar c
  else match shortEscape? c with
    | some letter => Text.ofString "\\" ++ String.utf8EncodeChar letter
    | none =>
      let n := c.toNat
      if n < 0x20 ∨ n = 0x7F then Text.ofString "\\x" ++ hexDigits 2 n
      else if n < 0x10000 then Text.ofString "\\u" ++ hexDigits 4 n
      else Text.ofString "\\U" ++ hexDigits 8 n

/-- One piece of a text between double quotes. -/
def escapePiece : Utf8.Piece → Text
  | .char c => escape '"' c
  | .stray b => Text.ofString "\\x" ++ hexDigits 2 b.toNat

/-- A text in double quotes. -/
def quote (t : Text) : Text :=
  Text.ofString "\"" ++ (Utf8.pieces t).flatMap escapePiece ++ Text.ofString "\""

/-- A byte, read as the code point of that number, in single quotes. -/
def quoteByte (b : UInt8) : Text :=
  39 :: escape (Char.ofNat 39) (Char.ofNat b.toNat) ++ [39]

end Quoted

end ClassEngine
