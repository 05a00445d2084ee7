import ClassEngine.Text.Basic

/-!
Letter case, as far as it leads to ASCII letters. Besides the ASCII capitals there are three
characters with an ASCII letter as their lower case or as their case-free form: the capital I with a
point, the long s and the Kelvin sign.
-/

namespace ClassEngine

namespace Text

/-- Replaces capitals by their lower case where that is an ASCII letter. -/
def lower : Text → Text
  | [] => []
  | 0xC4 :: 0xB0 :: rest => 105 :: lower rest
  | 0xE2 :: 0x84 :: 0xAA :: rest => 107 :: lower rest
  | b :: rest => (if 65 ≤ b ∧ b ≤ 90 then b + 32 else b) :: lower rest

/-- Replaces letters by their case-free form where that is an ASCII letter. -/
def foldCase : Text → Text
  | [] => []
  | 0xC5 :: 0xBF :: rest => 115 :: foldCase rest
  | 0xE2 :: 0x84 :: 0xAA :: rest => 107 :: foldCase rest
  | b :: rest => (if 65 ≤ b ∧ b ≤ 90 then b + 32 else b) :: foldCase rest

end Text

end ClassEngine
