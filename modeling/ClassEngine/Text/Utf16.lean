import ClassEngine.Text.Utf8

/-!
UTF-16 code units. Guest strings are indexed and hashed by these units, while their contents are
kept as UTF-8 text.
-/

namespace ClassEngine

namespace Utf16

/-- Whether a unit is the first half of a surrogate pair. -/
def isHigh (u : UInt16) : Bool := 0xD800 ≤ u && u < 0xDC00

/-- Whether a unit is the second half of a surrogate pair. -/
def isLow (u : UInt16) : Bool := 0xDC00 ≤ u && u < 0xE000

/-- The one or two units of a character. -/
def unitsOf (c : Char) : List UInt16 :=
  let n := c.toNat
  if n < 0x10000 then [n.toUInt16]
  else [(0xD800 + (n - 0x10000) / 1024).toUInt16, (0xDC00 + (n - 0x10000) % 1024).toUInt16]

/-- The units of a list of characters. -/
def encode (cs : List Char) : List UInt16 :=
  cs.flatMap unitsOf

/-- The character of a pair of surrogates. -/
def pair (hi lo : UInt16) : Char :=
  Char.ofNat (0x10000 + (hi.toNat - 0xD800) * 1024 + (lo.toNat - 0xDC00))

/-- The character of a unit that is not part of a pair; a lone surrogate is replaced. -/
def single (u : UInt16) : Char :=
  if isHigh u || isLow u then Utf8.replacement else Char.ofNat u.toNat

/-- Puts the characters of a list of units behind those of `acc`, which are in reverse order. -/
def decodeOnto (acc : List Char) : List UInt16 → List Char
  | [] => acc.reverse
  | [u] => (single u :: acc).reverse
  | u :: v :: rest =>
    if isHigh u && isLow v then decodeOnto (pair u v :: acc) rest
    else decodeOnto (single u :: acc) (v :: rest)

/-- The characters of a list of units: a high surrogate followed by a low one is one character. -/
def decode (us : List UInt16) : List Char :=
  decodeOnto [] us

theorem decodeOnto_eq (acc : List Char) (us : List UInt16) :
    decodeOnto acc us = acc.reverse ++ decode us := by
  unfold decode
  induction hn : us.length using Nat.strongRecOn generalizing us acc with
  | _ n hi =>
    match us with
    | [] => simp [decodeOnto]
    | [u] => simp [decodeOnto]
    | u :: v :: rest =>
      simp only [List.length_cons] at hn
      rw [decodeOnto, decodeOnto]
      split
      · rw [hi _ (by omega) (pair u v :: acc) rest rfl, hi _ (by omega) [pair u v] rest rfl]
        simp
      · rw [hi (v :: rest).length (by simp; omega) (single u :: acc) (v :: rest) rfl,
          hi (v :: rest).length (by simp; omega) [single u] (v :: rest) rfl]
        simp

@[simp] theorem decode_nil : decode [] = [] := by
  simp [decode, decodeOnto]

@[simp] theorem decode_singleton (u : UInt16) : decode [u] = [single u] := by
  simp [decode, decodeOnto]

theorem decode_cons_cons (u v : UInt16) (rest : List UInt16) :
    decode (u :: v :: rest) =
      if isHigh u && isLow v then pair u v :: decode rest else single u :: decode (v :: rest) := by
  rw [decode, decodeOnto]
  split <;> rw [decodeOnto_eq] <;> simp

/-- The units of a text. -/
def units (t : Text) : List UInt16 :=
  encode (Utf8.chars t)

/-- The polynomial hash of a text over its units, in wrapping 32-bit arithmetic. -/
def hash (t : Text) : Int32 :=
  (units t).foldl (fun h u => 31 * h + Int32.ofNat u.toNat) 0

end Utf16

end ClassEngine
