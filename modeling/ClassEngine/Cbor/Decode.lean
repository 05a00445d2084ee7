import ClassEngine.Cbor.Item

/-!
Reading items. Any well-formed item is accepted: sizes may be longer than needed, and strings,
sequences and maps may be open-ended. Nesting and sizes are bounded.
-/

namespace ClassEngine

namespace Cbor

/-- The deepest nesting of sequences, maps and stacked tags. -/
def maxDepth : Nat := 32

/-- The most elements of a sequence or pairs of a map. -/
def maxElements : Nat := 131072

/-- Reads `n` bytes as a number. -/
def takeNat (n : Nat) (bs : Text) : Option (Nat × Text) :=
  let part := bs.take n
  if part.length < n then none
  else some (part.foldl (fun v b => v * 256 + b.toNat) 0, bs.drop n)

/-- The opening of an item: its kind, the low bits of its first byte and its number; an open-ended
item has none. -/
structure Head where
  major : Nat
  low : Nat
  value : Option Nat

/-- Reads the opening of an item. -/
def takeHead : Text → Option (Head × Text)
  | [] => none
  | b :: rest =>
    let major := b.toNat / 32
    let low := b.toNat % 32
    if low < 24 then some (⟨major, low, some low⟩, rest)
    else if low < 28 then
      match takeNat (1 <<< (low - 24)) rest with
      | some (n, rest') =>
        if major = 7 ∧ low = 24 ∧ n < 32 then none else some (⟨major, low, some n⟩, rest')
      | none => none
    else if low = 31 ∧ 2 ≤ major ∧ major ≤ 5 then some (⟨major, low, none⟩, rest)
    else none

/-- Reads `n` bytes. -/
def takeBytes (n : Nat) (bs : Text) : Option (Text × Text) :=
  let part := bs.take n
  if part.length < n then none else some (part, bs.drop n)

/-- Reads the chunks of an open-ended string, each a string of the same kind with a size. -/
def takeChunks (major : Nat) : Nat → Text → Option (List Text × Text)
  | 0, _ => none
  | fuel + 1, bs =>
    match bs with
    | 0xff :: rest => some ([], rest)
    | _ =>
      match takeHead bs with
      | some (⟨m, _, some n⟩, rest) =>
        if m ≠ major then none
        else match takeBytes n rest with
          | some (chunk, rest') =>
            (takeChunks major fuel rest').map fun (cs, r) => (chunk :: cs, r)
          | none => none
      | _ => none

/-- Reads exactly `n` items. -/
def takeCounted (p : Text → Option (Item × Text)) : Nat → Text → Option (List Item × Text)
  | 0, bs => some ([], bs)
  | n + 1, bs =>
    match p bs with
    | some (i, rest) => (takeCounted p n rest).map fun (is, r) => (i :: is, r)
    | none => none

/-- Reads items up to the closing byte. -/
def takeOpen (p : Text → Option (Item × Text)) : Nat → Text → Option (List Item × Text)
  | 0, _ => none
  | fuel + 1, bs =>
    match bs with
    | 0xff :: rest => some ([], rest)
    | _ =>
      match p bs with
      | some (i, rest) => (takeOpen p fuel rest).map fun (is, r) => (i :: is, r)
      | none => none

/-- Reads the tags in front of an item. -/
def takeTags : Nat → Text → List Nat × Text
  | 0, bs => ([], bs)
  | fuel + 1, bs =>
    match takeHead bs with
    | some (⟨6, _, some n⟩, rest) =>
      let (ts, r) := takeTags fuel rest
      (n :: ts, r)
    | _ => ([], bs)

/-- Joins keys with the values that follow them; there is no pair for a lone key. -/
def pairUp : List Item → Option (List (Item × Item))
  | [] => some []
  | [_] => none
  | k :: v :: rest => (pairUp rest).map ((k, v) :: ·)

/-- Reads the elements of a sequence or map with a number, or up to the closing byte. -/
def takeElements (p : Text → Option (Item × Text)) (perElement : Nat) (count : Option Nat)
    (bs : Text) : Option (List Item × Text) :=
  match count with
  | some n => if maxElements < n then none else takeCounted p (perElement * n) bs
  | none =>
    match takeOpen p (bs.length + 1) bs with
    | some (is, rest) => if maxElements * perElement < is.length then none else some (is, rest)
    | none => none

/-- The item of a value without contents. -/
def plainItem (low n : Nat) : Item :=
  if low = 25 then .float (Format.convert .half .double n).toUInt64
  else if low = 26 then .float (Format.convert .single .double n).toUInt64
  else if low = 27 then .float n.toUInt64
  else .simple n

/-- Reads a string of one kind. -/
def takeString (major : Nat) (size : Option Nat) (bs : Text) : Option (List Text × Text) :=
  match size with
  | some n => (takeBytes n bs).map fun (t, r) => ([t], r)
  | none => takeChunks major (bs.length + 1) bs

/-- Reads an item that stands below `depth` others; `fuel` bounds the nesting. -/
def takeItem : Nat → Nat → Text → Option (Item × Text)
  | 0, _, _ => none
  | fuel + 1, depth, bs =>
    let (tags, rest) := takeTags (maxDepth + 2) bs
    let depth' := depth + (tags.length - 1)
    if maxDepth < depth' then none
    else
      let wrap (r : Option (Item × Text)) : Option (Item × Text) :=
        r.map fun (i, r) => (tags.foldr Item.tagged i, r)
      match takeHead rest with
      | none => none
      | some (⟨0, _, some n⟩, r) => wrap (some (.uint n, r))
      | some (⟨1, _, some n⟩, r) => wrap (some (.negint n, r))
      | some (⟨2, _, size⟩, r) =>
        wrap ((takeString 2 size r).map fun (cs, r) => (.bytes cs.flatten, r))
      | some (⟨3, _, size⟩, r) => wrap ((takeString 3 size r).map fun (cs, r) => (.text cs, r))
      | some (⟨4, _, count⟩, r) =>
        if depth' = maxDepth then none
        else wrap ((takeElements (takeItem fuel (depth' + 1)) 1 count r).map fun (is, r) =>
          (.array is, r))
      | some (⟨5, _, count⟩, r) =>
        if depth' = maxDepth then none
        else wrap (match takeElements (takeItem fuel (depth' + 1)) 2 count r with
          | some (is, r) => (pairUp is).map fun ps => (.map ps, r)
          | none => none)
      | some (⟨7, low, some n⟩, r) => wrap (some (plainItem low n, r))
      | some _ => none

/-- Reads bytes that are one item and nothing else. -/
def decode (bs : Text) : Option Item :=
  match takeItem (maxDepth + 1) 0 bs with
  | some (i, []) => some i
  | _ => none

end Cbor

end ClassEngine
