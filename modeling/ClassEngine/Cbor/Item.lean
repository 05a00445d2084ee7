import ClassEngine.Text.Utf8
import ClassEngine.Numeric.Ieee

/-!
Self-describing binary items: integers, strings, sequences and maps in a compact form where each
item opens with its kind and size. `Item.encode` writes the canonical form: shortest sizes, map keys
by length and then bytewise, and the narrowest float that keeps the value.
-/

namespace ClassEngine

namespace Cbor

/-- One item. -/
inductive Item where
  | uint (n : Nat)
  /-- The number `-1 - n`. -/
  | negint (n : Nat)
  | bytes (bs : Text)
  /-- Text, in the pieces in which it was written. -/
  | text (chunks : List Text)
  | array (items : List Item)
  | map (pairs : List (Item × Item))
  | tagged (tag : Nat) (content : Item)
  /-- A value that has only a number. -/
  | simple (n : Nat)
  /-- A floating-point number, as the bits of a double. -/
  | float (bits : UInt64)

namespace Item

def null : Item := simple 22

/-- Text in one piece. -/
def string (t : Text) : Item := text [t]

end Item

/-- A number as `width` bytes, most significant first. -/
def bigEndian : Nat → Nat → Text
  | 0, _ => []
  | width + 1, n => ((n >>> (8 * width)) % 256).toUInt8 :: bigEndian width n

/-- The opening of an item: its kind and a number in the fewest bytes. -/
def head (major n : Nat) : Text :=
  let first (low : Nat) : UInt8 := (major * 32 + low).toUInt8
  if n < 24 then [first n]
  else if n < 256 then first 24 :: bigEndian 1 n
  else if n < 65536 then first 25 :: bigEndian 2 n
  else if n < 4294967296 then first 26 :: bigEndian 4 n
  else first 27 :: bigEndian 8 n

/-- A double in the narrowest format that keeps its value; there is one form for all NaNs. -/
def floatBytes (bits : UInt64) : Text :=
  if Ieee.isNaN bits then [0xf9, 0x7e, 0x00]
  else
    let n := bits.toNat
    let half := Format.convert .double .half n
    let single := Format.convert .double .single n
    if Format.convert .half .double half = n then 0xf9 :: bigEndian 2 half
    else if Format.convert .single .double single = n then 0xfa :: bigEndian 4 single
    else 0xfb :: bigEndian 8 n

namespace Item

mutual

/-- The bytes of an item; the pairs of a map are written in their order. -/
def encode : Item → Text
  | uint n => head 0 n
  | negint n => head 1 n
  | bytes bs => head 2 bs.length ++ bs
  | text chunks => head 3 chunks.flatten.length ++ chunks.flatten
  | array items => head 4 items.length ++ encodeAll items
  | map pairs => head 5 pairs.length ++ encodePairs pairs
  | tagged tag content => head 6 tag ++ encode content
  | simple n => head 7 n
  | float bits => floatBytes bits

/-- The bytes of items one after the other. -/
def encodeAll : List Item → Text
  | [] => []
  | i :: rest => encode i ++ encodeAll rest

/-- The bytes of pairs, each key before its value. -/
def encodePairs : List (Item × Item) → Text
  | [] => []
  | (k, v) :: rest => encode k ++ encode v ++ encodePairs rest

end

/-- The canonical order of keys. -/
def keyBle (a b : Text) : Bool :=
  if a.length = b.length then Text.ble a b else a.length < b.length

/-- A map from named fields, in canonical order. -/
def record (fields : List (Text × Item)) : Item :=
  map ((fields.mergeSort fun a b => keyBle a.1 b.1).map fun (k, v) => (string k, v))

/-- The item of an integer. -/
def ofInt : Int → Item
  | .ofNat n => uint n
  | .negSucc n => negint n

end Item

end Cbor

end ClassEngine
