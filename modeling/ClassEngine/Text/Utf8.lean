import ClassEngine.Text.Basic

/-!
UTF-8 read from text that may not be UTF-8. `Utf8.pieces` cuts any text into characters and stray
bytes: a byte that begins no valid character is a piece of its own.
-/

namespace ClassEngine

namespace Utf8

/-- A character of a text, or a byte that belongs to none. -/
inductive Piece where
  | char (c : Char)
  | stray (b : UInt8)
  deriving DecidableEq

/-- The character that stands for a stray byte. -/
def replacement : Char := Char.ofNat 0xFFFD

/-- The character of a piece, a stray byte counting as the replacement character. -/
def Piece.toChar : Piece → Char
  | .char c => c
  | .stray _ => replacement

/-- A continuation byte carries six bits. -/
def isContinuation (b : UInt8) : Bool :=
  0x80 ≤ b && b < 0xC0

/-- Six bits of a continuation byte. -/
def low6 (b : UInt8) : Nat :=
  b.toNat % 64

/-- The first piece of a text and what follows it. Overlong forms, surrogates and values beyond
the last code point are not characters, so their first byte is stray. -/
def next : UInt8 → Text → Piece × Text
  | b0, rest =>
    if b0 < 0x80 then (.char (Char.ofNat b0.toNat), rest)
    else if b0 < 0xC2 then (.stray b0, rest)
    else if b0 < 0xE0 then
      match rest with
      | b1 :: rest' =>
        if isContinuation b1 then (.char (Char.ofNat ((b0.toNat - 0xC0) * 64 + low6 b1)), rest')
        else (.stray b0, rest)
      | [] => (.stray b0, rest)
    else if b0 < 0xF0 then
      match rest with
      | b1 :: b2 :: rest' =>
        let n := (b0.toNat - 0xE0) * 4096 + low6 b1 * 64 + low6 b2
        if isContinuation b1 && isContinuation b2 && 0x800 ≤ n && !(0xD800 ≤ n && n < 0xE000) then
          (.char (Char.ofNat n), rest')
        else (.stray b0, rest)
      | _ => (.stray b0, rest)
    else if b0 < 0xF5 then
      match rest with
      | b1 :: b2 :: b3 :: rest' =>
        let n := (b0.toNat - 0xF0) * 262144 + low6 b1 * 4096 + low6 b2 * 64 + low6 b3
        if isContinuation b1 && isContinuation b2 && isContinuation b3 &&
            0x10000 ≤ n && n < 0x110000 then
          (.char (Char.ofNat n), rest')
        else (.stray b0, rest)
      | _ => (.stray b0, rest)
    else (.stray b0, rest)

/-- What follows the first piece is never longer than what followed its first byte. -/
theorem next_length_le (b : UInt8) (rest : Text) : (next b rest).2.length ≤ rest.length := by
  unfold next
  dsimp only
  repeat' split
  all_goals simp only [List.length_cons]
  all_goals omega

/-- Puts the pieces of a text behind those of `acc`, which are in reverse order. -/
def piecesOnto (acc : List Piece) : Text → List Piece
  | [] => acc.reverse
  | b :: rest => piecesOnto ((next b rest).1 :: acc) (next b rest).2
termination_by t => t.length
decreasing_by
  have := next_length_le b rest
  simp only [List.length_cons]
  omega

/-- The characters and stray bytes of a text, in order. -/
def pieces (t : Text) : List Piece :=
  piecesOnto [] t

theorem piecesOnto_eq (acc : List Piece) (t : Text) :
    piecesOnto acc t = acc.reverse ++ pieces t := by
  unfold pieces
  induction hn : t.length using Nat.strongRecOn generalizing t acc with
  | _ n hi =>
    match t with
    | [] => simp [piecesOnto]
    | b :: rest =>
      have hl := next_length_le b rest
      simp only [List.length_cons] at hn
      rw [piecesOnto, piecesOnto, hi _ (by omega) ((next b rest).1 :: acc) _ rfl,
        hi _ (by omega) [(next b rest).1] _ rfl]
      simp

@[simp] theorem pieces_nil : pieces [] = [] := by
  simp [pieces, piecesOnto]

theorem pieces_cons (b : UInt8) (rest : Text) :
    pieces (b :: rest) = (next b rest).1 :: pieces (next b rest).2 := by
  rw [pieces, piecesOnto, piecesOnto_eq]
  simp

/-- The characters of a text, each stray byte read as the replacement character. -/
def chars (t : Text) : List Char :=
  (pieces t).map Piece.toChar

/-- The UTF-8 bytes of a list of characters. -/
def encode (cs : List Char) : Text :=
  cs.flatMap String.utf8EncodeChar

/-- Whether a text has no stray byte. -/
def isValid (t : Text) : Bool :=
  (pieces t).all fun p => match p with
    | .char _ => true
    | .stray _ => false

end Utf8

end ClassEngine
