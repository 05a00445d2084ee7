/-!
Canonical prefix codes: a code is given by the length of each symbol's codeword. Codewords of one
length are consecutive numbers in the order of their symbols, and shorter ones come first.
-/

namespace ClassEngine

/-- A prefix code: for each length from 1 on, its symbols in order. -/
structure Huffman where
  levels : List (List Nat)

namespace Huffman

/-- The longest codeword. -/
def maxLength : Nat := 15

/-- The symbols whose codewords have a length. -/
def symbolsOf (lengths : List Nat) (n : Nat) : List Nat :=
  ((List.range lengths.length).zip lengths).filterMap fun (symbol, l) =>
    if l = n then some symbol else none

/-- How many codewords of the last length are left over when every level takes its share of twice
what the level above leaves; `none` when a level takes too much. -/
def leftover : Nat → List Nat → Option Nat
  | free, [] => some free
  | free, n :: rest => if 2 * free < n then none else leftover (2 * free - n) rest

/-- The code with the given lengths; a zero means that a symbol has no codeword. Only a code that
leaves nothing over is accepted, except for one without codewords and for a single codeword of one
bit. -/
def ofLengths (lengths : List Nat) : Option Huffman :=
  let levels := (List.range maxLength).map fun n => symbolsOf lengths (n + 1)
  let counts := levels.map List.length
  if counts.all (· == 0) then some ⟨levels⟩
  else if counts.head? == some 1 && (counts.drop 1).all (· == 0) then some ⟨levels⟩
  else match leftover 1 counts with
    | some 0 => some ⟨levels⟩
    | _ => none

/-- Reads a codeword bit by bit. `code` is the number read so far and `first` that of the first
codeword of the current length, both for the level above. -/
def decodeFrom (code first : Nat) : List (List Nat) → List Bool → Option (Option (Nat × List Bool))
  | [], _ => some none
  | _ :: _, [] => none
  | level :: deeper, bit :: bits =>
    let code' := 2 * code + bit.toNat
    let first' := 2 * first
    match level[code' - first']? with
    | some symbol => some (some (symbol, bits))
    | none => decodeFrom code' (first' + level.length) deeper bits

/-- Reads one symbol. The outer option is empty when the bits end first, the inner one when they are
no codeword. -/
def decode (h : Huffman) (bits : List Bool) : Option (Option (Nat × List Bool)) :=
  decodeFrom 0 0 h.levels bits

end Huffman

end ClassEngine
