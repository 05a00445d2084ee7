import ClassEngine.Archive.Huffman

/-!
Expanding deflated data: blocks of plain bytes, or of literals and copies of earlier output under a
fixed or a transmitted prefix code. The data is a list of bits, the lowest bit of each byte first.
-/

namespace ClassEngine

namespace Inflate

/-- Why data cannot be expanded. -/
inductive Error where
  | truncated
  /-- Bits that mean nothing, with the number of bits that were left. -/
  | corrupt (bitsLeft : Nat)
  deriving DecidableEq

/-- A step that reads bits. -/
abbrev Reader (α : Type) := StateT (List Bool) (Except Error) α

/-- The bits of a byte, lowest first. -/
def bitsOf (b : UInt8) : List Bool :=
  (List.range 8).map fun i => (b.toNat >>> i) % 2 == 1

def corrupt {α : Type} : Reader α := do
  throw (.corrupt (← get).length)

/-- Reads a number, lowest bit first. -/
def number : Nat → Reader Nat
  | 0 => pure 0
  | n + 1 => do
    match ← get with
    | [] => throw .truncated
    | b :: rest => do
      set rest
      let high ← number n
      pure (b.toNat + 2 * high)

/-- Reads a symbol of a prefix code. -/
def symbol (h : Huffman) : Reader Nat := do
  match h.decode (← get) with
  | none => throw .truncated
  | some none => corrupt
  | some (some (s, rest)) => do
    set rest
    pure s

/-- The output so far. -/
abbrev Output := Array UInt8

/-- Appends `n` bytes, each a copy of the one `distance` back. -/
def copyBack (distance : Nat) : Nat → Output → Output
  | 0, out => out
  | n + 1, out => copyBack distance n (out.push ((out[out.size - distance]?).getD 0))

/-- The length of a copy and its number of extra bits, for symbols from 257 on. -/
def lengthBase (s : Nat) : Option (Nat × Nat) :=
  if s < 265 then some (s - 254, 0)
  else if s < 285 then
    let extra := (s - 261) / 4
    some (3 + ((4 + (s - 261) % 4) <<< extra), extra)
  else if s = 285 then some (258, 0)
  else none

/-- The distance of a copy and its number of extra bits. -/
def distanceBase (s : Nat) : Option (Nat × Nat) :=
  if s < 4 then some (s + 1, 0)
  else if s < 30 then
    let extra := (s - 2) / 2
    some (1 + ((2 + s % 2) <<< extra), extra)
  else none

/-- Reads the rest of a copy and carries it out. -/
def copy (distances : Huffman) (s : Nat) (out : Output) : Reader Output := do
  match lengthBase s with
  | none => corrupt
  | some (base, extra) => do
    let length := base + (← number extra)
    match distanceBase (← symbol distances) with
    | none => corrupt
    | some (base, extra) => do
      let distance := base + (← number extra)
      if out.size < distance then corrupt
      else pure (copyBack distance length out)

/-- Expands literals and copies up to the end of the block. -/
def symbols (literals distances : Huffman) : Nat → Output → Reader Output
  | 0, _ => throw .truncated
  | fuel + 1, out => do
    let s ← symbol literals
    if s < 256 then symbols literals distances fuel (out.push s.toUInt8)
    else if s = 256 then pure out
    else do
      let out' ← copy distances s out
      symbols literals distances fuel out'

/-- Appends `n` plain bytes. -/
def plainBytes : Nat → Output → Reader Output
  | 0, out => pure out
  | n + 1, out => do
    let b ← number 8
    plainBytes n (out.push b.toUInt8)

/-- A block of plain bytes, which starts at a whole byte. -/
def storedBlock (out : Output) : Reader Output := do
  modify fun bits => bits.drop (bits.length % 8)
  let length ← number 16
  let check ← number 16
  if length + check ≠ 65535 then corrupt
  else plainBytes length out

/-- The code lengths of literals in a block with the fixed code. -/
def fixedLiterals : List Nat :=
  List.replicate 144 8 ++ List.replicate 112 9 ++ List.replicate 24 7 ++ List.replicate 8 8

/-- The prefix code with the given lengths. -/
def codeOf (lengths : List Nat) : Reader Huffman :=
  match Huffman.ofLengths lengths with
  | some h => pure h
  | none => corrupt

/-- The order in which the lengths of the code for lengths are sent. -/
def lengthOrder : List Nat :=
  [16, 17, 18, 0, 8, 7, 9, 6, 10, 5, 11, 4, 12, 3, 13, 2, 14, 1, 15]

/-- Reads code lengths until there are `n`; the lengths so far are in reverse order. -/
def lengths (h : Huffman) (n : Nat) : Nat → List Nat → Reader (List Nat)
  | 0, _ => throw .truncated
  | fuel + 1, acc =>
    if acc.length = n then pure acc.reverse
    else do
      let s ← symbol h
      if s < 16 then lengths h n fuel (s :: acc)
      else do
        let (value, count) ←
          if s = 16 then do
            match acc with
            | [] => corrupt
            | last :: _ => do
              let k ← number 2
              pure (last, k + 3)
          else if s = 17 then do
            let k ← number 3
            pure (0, k + 3)
          else do
            let k ← number 7
            pure (0, k + 11)
        if n < acc.length + count then corrupt
        else lengths h n fuel (List.replicate count value ++ acc)

/-- Reads `n` numbers of three bits. -/
def triples : Nat → Reader (List Nat)
  | 0 => pure []
  | n + 1 => do
    let k ← number 3
    let rest ← triples n
    pure (k :: rest)

/-- A block with its own codes. -/
def dynamicBlock (fuel : Nat) (out : Output) : Reader Output := do
  let literalCount := (← number 5) + 257
  let distanceCount := (← number 5) + 1
  let orderCount := (← number 4) + 4
  if 286 < literalCount ∨ 30 < distanceCount then corrupt
  else do
    let sent ← triples orderCount
    let table := lengthOrder.zip sent
    let codes ← codeOf ((List.range 19).map fun s => (table.lookup s).getD 0)
    let all ← lengths codes (literalCount + distanceCount) (literalCount + distanceCount + 1) []
    let literals ← codeOf (all.take literalCount)
    let distances ← codeOf (all.drop literalCount)
    symbols literals distances fuel out

/-- A block with the fixed codes. -/
def fixedBlock (fuel : Nat) (out : Output) : Reader Output := do
  let literals ← codeOf fixedLiterals
  let distances ← codeOf (List.replicate 32 5)
  symbols literals distances fuel out

/-- Expands blocks up to the last one. -/
def blocks (bound : Nat) : Nat → Output → Reader Output
  | 0, _ => throw .truncated
  | fuel + 1, out => do
    let last ← number 1
    let kind ← number 2
    let out' ←
      if kind = 0 then storedBlock out
      else if kind = 1 then fixedBlock bound out
      else if kind = 2 then dynamicBlock bound out
      else corrupt
    if last = 1 then pure out' else blocks bound fuel out'

/-- Expands deflated data; what follows the last block is not read. -/
def inflate (bs : List UInt8) : Except Error (List UInt8) :=
  let bits := bs.flatMap bitsOf
  match (blocks (bits.length + 1) (bits.length + 1) #[]).run bits with
  | .ok (out, _) => .ok out.toList
  | .error e => .error e

end Inflate

end ClassEngine
