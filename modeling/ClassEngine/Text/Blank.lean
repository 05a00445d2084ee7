import ClassEngine.Text.Utf8

/-!
White space as Unicode defines it, and its removal from both ends of a text.
-/

namespace ClassEngine

/-- Whether a character is white space. -/
def isBlank (c : Char) : Bool :=
  let n := c.toNat
  (9 ≤ n && n ≤ 13) || n == 32 || n == 0x85 || n == 0xA0 || n == 0x1680 ||
    (0x2000 ≤ n && n ≤ 0x200A) || n == 0x2028 || n == 0x2029 || n == 0x202F || n == 0x205F ||
    n == 0x3000

namespace Text

/-- Whether a piece of text is white space. -/
def isBlankPiece : Utf8.Piece → Bool
  | .char c => isBlank c
  | .stray _ => false

/-- The bytes of a piece of text. -/
def ofPiece : Utf8.Piece → Text
  | .char c => String.utf8EncodeChar c
  | .stray b => [b]

/-- Removes white space from both ends. -/
def trim (t : Text) : Text :=
  let front := (Utf8.pieces t).dropWhile isBlankPiece
  ((front.reverse.dropWhile isBlankPiece).reverse).flatMap ofPiece

end Text

end ClassEngine
