import ClassEngine.Cbor.Item

/-!
Reading typed values out of items. Null stands for the zero value of any type, tags that say nothing
about the value are passed over, and integers may be given as big numbers.
-/

namespace ClassEngine

namespace Cbor

namespace Item

/-- The kind of an item that a known tag requires below it. -/
def admits (tag : Nat) (content : Item) : Bool :=
  match tag, content with
  | 0, text _ => true
  | 0, _ => false
  | 1, uint _ => true
  | 1, negint _ => true
  | 1, float _ => true
  | 1, _ => false
  | 2, bytes _ => true
  | 2, _ => false
  | 3, bytes _ => true
  | 3, _ => false
  | _, _ => true

/-- Passes over tags; big numbers keep theirs. A tag on the wrong kind of item is refused. -/
def content? : Item → Option Item
  | tagged tag c =>
    if !admits tag c then none
    else if tag = 2 ∨ tag = 3 then some (tagged tag c)
    else content? c
  | i => some i

/-- Whether the item is null or undefined. -/
def isNull : Item → Bool
  | simple n => n == 22 || n == 23
  | _ => false

/-- The number that bytes stand for, most significant first. -/
def bigNat (bs : Text) : Nat :=
  bs.foldl (fun v b => v * 256 + b.toNat) 0

/-- An integer of at most 64 bits. -/
def toInt? (i : Item) : Option Int := do
  match ← i.content? with
  | uint n => some n
  | negint n => if n < 0x8000000000000000 then some (-1 - (n : Int)) else none
  | tagged 2 (bytes bs) => if bigNat bs < 0x10000000000000000 then some (bigNat bs) else none
  | tagged 3 (bytes bs) =>
    if bigNat bs < 0x8000000000000000 then some (-1 - (bigNat bs : Int)) else none
  | simple n =>
    if n = 22 ∨ n = 23 then some 0
    else if n = 20 ∨ n = 21 then none
    else some n
  | _ => none

/-- An integer within bounds. -/
def toIntWithin? (lo hi : Int) (i : Item) : Option Int := do
  let n ← i.toInt?
  if lo ≤ n ∧ n ≤ hi then some n else none

def toUInt8? (i : Item) : Option UInt8 := do
  let n ← i.toIntWithin? 0 255
  some n.toNat.toUInt8

def toUInt16? (i : Item) : Option UInt16 := do
  let n ← i.toIntWithin? 0 65535
  some n.toNat.toUInt16

def toInt64? (i : Item) : Option Int64 := do
  let n ← i.toIntWithin? (-9223372036854775808) 9223372036854775807
  some (Int64.ofInt n)

/-- A double; integers are rounded to one. -/
def toDouble? (i : Item) : Option UInt64 := do
  match ← i.content? with
  | float bits => some bits
  | j => (← j.toInt?) |> fun n => some (Ieee.ofInt n)

/-- Text, every piece of it valid. -/
def toText? (i : Item) : Option Text := do
  match ← i.content? with
  | text chunks => if chunks.all Utf8.isValid then some chunks.flatten else none
  | j => if j.isNull then some [] else none

/-- A sequence of values of one type. -/
def toList? {α : Type} (f : Item → Option α) (i : Item) : Option (List α) := do
  match ← i.content? with
  | array items => items.mapM f
  | j => if j.isNull then some [] else none

/-- Bytes, also as a sequence of small numbers. -/
def toBytes? (i : Item) : Option Text := do
  match ← i.content? with
  | bytes bs => some bs
  | tagged _ (bytes bs) => some bs
  | j => j.toList? toUInt8?

/-- Adds a pair of a map to the fields found so far. A key is the name of a field, or one that
differs from it in case only; the first key for a field counts. -/
def addField (names : List Text) (found : List (Text × Item)) (key value : Item) :
    Option (List (Text × Item)) :=
  match key with
  | text chunks =>
    if !chunks.all Utf8.isValid then none
    else
      let k := chunks.flatten
      let free := names.filter fun n => (found.lookup n).isNone
      match free.find? (· == k) with
      | some n => some ((n, value) :: found)
      | none =>
        match free.find? fun n => Text.lowerAscii n == Text.lowerAscii k with
        | some n => some ((n, value) :: found)
        | none => some found
  | uint _ => some found
  | negint _ => some found
  | _ => none

/-- The fields with the given names; other fields are passed over. -/
def toFields? (names : List Text) (i : Item) : Option (List (Text × Item)) := do
  match ← i.content? with
  | map pairs => pairs.foldlM (fun found (k, v) => addField names found k v) []
  | j => if j.isNull then some [] else none

end Item

/-- The value of a field; a missing one is null. -/
def field (fields : List (Text × Item)) (name : Text) : Item :=
  (fields.lookup name).getD Item.null

end Cbor

end ClassEngine
