import ClassEngine.Text.Utf16

/-!
Modified UTF-8, the form in which class files hold text: NUL takes two bytes and a supplementary
character is written as the three-byte forms of its two surrogates. No byte of the encoding is
zero.
-/

namespace ClassEngine

namespace ModifiedUtf8

/-- The bytes of one UTF-16 unit. -/
def encodeUnit (u : UInt16) : List UInt8 :=
  let n := u.toNat
  if n ≠ 0 ∧ n < 0x80 then [n.toUInt8]
  else if n < 0x800 then [(0xC0 + n / 64).toUInt8, (0x80 + n % 64).toUInt8]
  else [(0xE0 + n / 4096).toUInt8, (0x80 + n / 64 % 64).toUInt8, (0x80 + n % 64).toUInt8]

/-- The class-file bytes of a text. -/
def encode (t : Text) : List UInt8 :=
  (Utf16.units t).flatMap encodeUnit

/-- The first unit that class-file bytes spell, and what follows it. A byte that begins no form
stands for the replacement unit; the payload bits of the following bytes are taken without
checking their marks. -/
def nextUnit (a : UInt8) (rest : List UInt8) : UInt16 × List UInt8 :=
  if a < 0x80 then (a.toUInt16, rest)
  else if 0xC0 ≤ a ∧ a < 0xE0 then
    match rest with
    | b :: rest' => (((a.toNat % 32) * 64 + b.toNat % 64).toUInt16, rest')
    | [] => (0xFFFD, rest)
  else if 0xE0 ≤ a ∧ a < 0xF0 then
    match rest with
    | b :: c :: rest' =>
      (((a.toNat % 16) * 4096 + (b.toNat % 64) * 64 + c.toNat % 64).toUInt16, rest')
    | _ => (0xFFFD, rest)
  else (0xFFFD, rest)

theorem nextUnit_length_le (a : UInt8) (rest : List UInt8) :
    (nextUnit a rest).2.length ≤ rest.length := by
  unfold nextUnit
  repeat' split
  all_goals simp only [List.length_cons]
  all_goals omega

/-- Puts the units of class-file bytes behind those of `acc`, which are in reverse order. -/
def decodeUnitsOnto (acc : List UInt16) : List UInt8 → List UInt16
  | [] => acc.reverse
  | a :: rest => decodeUnitsOnto ((nextUnit a rest).1 :: acc) (nextUnit a rest).2
termination_by bs => bs.length
decreasing_by
  have := nextUnit_length_le a rest
  simp only [List.length_cons]
  omega

/-- The units that class-file bytes spell. -/
def decodeUnits (bs : List UInt8) : List UInt16 :=
  decodeUnitsOnto [] bs

theorem decodeUnitsOnto_eq (acc : List UInt16) (bs : List UInt8) :
    decodeUnitsOnto acc bs = acc.reverse ++ decodeUnits bs := by
  unfold decodeUnits
  induction hn : bs.length using Nat.strongRecOn generalizing bs acc with
  | _ n hi =>
    match bs with
    | [] => simp [decodeUnitsOnto]
    | a :: rest =>
      have hl := nextUnit_length_le a rest
      simp only [List.length_cons] at hn
      rw [decodeUnitsOnto, decodeUnitsOnto,
        hi _ (by omega) ((nextUnit a rest).1 :: acc) _ rfl,
        hi _ (by omega) [(nextUnit a rest).1] _ rfl]
      simp

@[simp] theorem decodeUnits_nil : decodeUnits [] = [] := by
  simp [decodeUnits, decodeUnitsOnto]

theorem decodeUnits_cons (a : UInt8) (rest : List UInt8) :
    decodeUnits (a :: rest) = (nextUnit a rest).1 :: decodeUnits (nextUnit a rest).2 := by
  rw [decodeUnits, decodeUnitsOnto, decodeUnitsOnto_eq]
  simp

/-- Whether the bytes are plain ASCII without NUL, and so their own text. -/
def isPlain (bs : List UInt8) : Bool :=
  bs.all fun b => b ≠ 0 && b < 0x80

/-- The general reading of class-file bytes: units, then characters, then UTF-8. -/
def decodeGeneral (bs : List UInt8) : Text :=
  Utf8.encode (Utf16.decode (decodeUnits bs))

/-- The text of class-file bytes. Plain bytes are taken as they are. -/
def decode (bs : List UInt8) : Text :=
  if isPlain bs then bs else decodeGeneral bs

end ModifiedUtf8

end ClassEngine
