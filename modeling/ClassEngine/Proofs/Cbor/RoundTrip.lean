import Mathlib.Tactic.Common
import ClassEngine.Cbor.Decode
import ClassEngine.Proofs.Numeric.Widening

/-!
Written items are read back. An item whose numbers, sizes and nesting are within the bounds of the
reader comes back as it was, except that every float that is not a number comes back as the same
one. Main statement: `decode_encode`.
-/

namespace ClassEngine

namespace Cbor

/-! Numbers in bytes -/

@[simp] theorem length_bigEndian (width n : Nat) : (bigEndian width n).length = width := by
  induction width with
  | zero => rfl
  | succ width ih => rw [bigEndian, List.length_cons, ih]

/-- Bytes stand for the number that they were made from, as far as they are wide enough for it. -/
theorem foldl_bigEndian (width n acc : Nat) :
    (bigEndian width n).foldl (fun v b => v * 256 + b.toNat) acc =
      acc * 256 ^ width + n % 256 ^ width := by
  induction width generalizing acc with
  | zero => simp [bigEndian, Nat.mod_one]
  | succ width ih =>
      have hshift : n >>> (8 * width) = n / 256 ^ width := by
        rw [Nat.shiftRight_eq_div_pow, Nat.pow_mul]
      have hdigit : (n / 256 ^ width % 256).toUInt8.toNat = n / 256 ^ width % 256 :=
        UInt8.toNat_ofNat_of_lt' (Nat.mod_lt _ (by decide))
      rw [bigEndian, List.foldl_cons, hshift, hdigit, ih, Nat.pow_succ, Nat.mod_mul, Nat.add_mul,
        Nat.mul_comm (256 ^ width) (n / 256 ^ width % 256), Nat.mul_assoc,
        Nat.mul_comm 256 (256 ^ width)]
      omega

theorem takeNat_bigEndian {width n : Nat} (h : n < 256 ^ width) (rest : Text) :
    takeNat width (bigEndian width n ++ rest) = some (n, rest) := by
  have htake : (bigEndian width n ++ rest).take width = bigEndian width n := by
    rw [List.take_left' (length_bigEndian width n)]
  have hdrop : (bigEndian width n ++ rest).drop width = rest := by
    rw [List.drop_left' (length_bigEndian width n)]
  rw [takeNat]
  simp only [htake, hdrop, length_bigEndian, lt_irrefl, if_false, foldl_bigEndian, Nat.zero_mul,
    Nat.zero_add, Nat.mod_eq_of_lt h]

theorem takeBytes_append (bs rest : Text) : takeBytes bs.length (bs ++ rest) = some (bs, rest) := by
  simp [takeBytes]

/-! Openings -/

/-- The first byte of an item gives back its kind and its low bits. -/
theorem first_byte (major low : Nat) (hmajor : major < 8) (hlow : low < 32) :
    (major * 32 + low).toUInt8.toNat / 32 = major ∧
      (major * 32 + low).toUInt8.toNat % 32 = low := by
  have hbyte : (major * 32 + low).toUInt8.toNat = major * 32 + low :=
    UInt8.toNat_ofNat_of_lt' (by change _ < 256; omega)
  rw [hbyte]
  omega

/-- An opening whose number stands in the first byte. -/
theorem takeHead_short (major n : Nat) (hmajor : major < 8) (hn : n < 24) (rest : Text) :
    takeHead ((major * 32 + n).toUInt8 :: rest) = some (⟨major, n, some n⟩, rest) := by
  obtain ⟨hm, hl⟩ := first_byte major n hmajor (by omega)
  simp only [takeHead, hm, hl, hn, if_true]

/-- An opening whose number stands in the bytes behind the first one. -/
theorem takeHead_long (major low : Nat) {n : Nat} (hmajor : major < 8) (hlow : 24 ≤ low ∧ low < 28)
    (hn : n < 256 ^ (1 <<< (low - 24))) (hplain : ¬(major = 7 ∧ low = 24 ∧ n < 32)) (rest : Text) :
    takeHead ((major * 32 + low).toUInt8 :: (bigEndian (1 <<< (low - 24)) n ++ rest)) =
      some (⟨major, low, some n⟩, rest) := by
  obtain ⟨hm, hl⟩ := first_byte major low hmajor (by omega)
  simp only [takeHead, hm, hl, takeNat_bigEndian hn, if_neg hplain]
  rw [if_neg (by omega), if_pos (by omega)]

/-- The opening of an item is read back, whatever follows it. -/
theorem takeHead_head (major : Nat) {n : Nat} (hmajor : major < 7) (hn : n < 2 ^ 64) (rest : Text) :
    ∃ low, takeHead (head major n ++ rest) = some (⟨major, low, some n⟩, rest) := by
  have hmajor' : major < 8 := by omega
  have hplain : ∀ low, ¬(major = 7 ∧ low = 24 ∧ n < 32) := by omega
  rw [head]
  split
  case isTrue h => exact ⟨n, takeHead_short major n hmajor' h rest⟩
  split
  case isTrue h => exact ⟨24, takeHead_long major 24 hmajor' (by omega) h (hplain 24) rest⟩
  split
  case isTrue h => exact ⟨25, takeHead_long major 25 hmajor' (by omega) h (hplain 25) rest⟩
  split
  case isTrue h => exact ⟨26, takeHead_long major 26 hmajor' (by omega) h (hplain 26) rest⟩
  case isFalse => exact ⟨27, takeHead_long major 27 hmajor' (by omega) hn (hplain 27) rest⟩

/-- Bytes that open with no tag have none in front. -/
theorem takeTags_of_head {bs rest : Text} {h : Head} (hhead : takeHead bs = some (h, rest))
    (hmajor : h.major ≠ 6) (fuel : Nat) : takeTags fuel bs = ([], bs) := by
  cases fuel with
  | zero => rfl
  | succ fuel =>
      rw [takeTags, hhead]
      split
      case h_1 heq =>
        obtain ⟨rfl, -⟩ := Prod.mk.inj (Option.some.inj heq)
        contradiction
      case h_2 => rfl

/-! Items that the reader takes -/

/-- The float that stands for all that are not a number. -/
def quietNaN : UInt64 := 0x7FF8000000000000

namespace Item

mutual

/-- An item as it comes back: of the floats that are not a number there is only one. -/
def settled : Item → Item
  | uint n => uint n
  | negint n => negint n
  | bytes bs => bytes bs
  | text chunks => text chunks
  | array items => array (settledAll items)
  | map pairs => map (settledPairs pairs)
  | tagged tag content => tagged tag (settled content)
  | simple n => simple n
  | float bits => float (if Ieee.isNaN bits then quietNaN else bits)

def settledAll : List Item → List Item
  | [] => []
  | i :: rest => settled i :: settledAll rest

def settledPairs : List (Item × Item) → List (Item × Item)
  | [] => []
  | (k, v) :: rest => (settled k, settled v) :: settledPairs rest

end

@[simp] theorem settledAll_eq (items : List Item) : settledAll items = items.map settled := by
  induction items with
  | nil => rfl
  | cons i items ih => rw [settledAll, ih, List.map_cons]

@[simp] theorem settledPairs_eq (pairs : List (Item × Item)) :
    settledPairs pairs = pairs.map fun p => (p.1.settled, p.2.settled) := by
  induction pairs with
  | nil => rfl
  | cons p pairs ih => rw [settledPairs, ih, List.map_cons]

/-- The items that the reader takes where `room` more may be nested: numbers and sizes fit eight
bytes, and sequences and maps are no longer than it allows. -/
inductive Fits : Nat → Item → Prop
  | uint {room n : Nat} (h : n < 2 ^ 64) : Fits room (uint n)
  | negint {room n : Nat} (h : n < 2 ^ 64) : Fits room (negint n)
  | bytes {room : Nat} {bs : Text} (h : bs.length < 2 ^ 64) : Fits room (bytes bs)
  | string {room : Nat} {t : Text} (h : t.length < 2 ^ 64) : Fits room (string t)
  | null {room : Nat} : Fits room null
  | float {room : Nat} (bits : UInt64) : Fits room (float bits)
  | array {room : Nat} {items : List Item} (hlength : items.length ≤ maxElements)
      (h : ∀ i ∈ items, Fits room i) : Fits (room + 1) (array items)
  | map {room : Nat} {pairs : List (Item × Item)} (hlength : pairs.length ≤ maxElements)
      (hkeys : ∀ p ∈ pairs, Fits room p.1) (hvalues : ∀ p ∈ pairs, Fits room p.2) :
      Fits (room + 1) (map pairs)

end Item

open Item

theorem encodePairs_eq (pairs : List (Item × Item)) :
    encodePairs pairs = encodeAll (pairs.flatMap fun p => [p.1, p.2]) := by
  induction pairs with
  | nil => rfl
  | cons p pairs ih =>
      simp only [encodePairs, List.flatMap_cons, List.cons_append, List.nil_append, encodeAll, ih,
        List.append_assoc]

theorem pairUp_flatMap (pairs : List (Item × Item)) :
    pairUp (pairs.flatMap fun p => [p.1, p.2]) = some pairs := by
  induction pairs with
  | nil => rfl
  | cons p pairs ih =>
      simp only [List.flatMap_cons, List.cons_append, List.nil_append, pairUp, ih, Option.map_some]

theorem settled_flatMap (pairs : List (Item × Item)) :
    (pairs.flatMap fun p => [p.1, p.2]).map settled =
      (settledPairs pairs).flatMap fun p => [p.1, p.2] := by
  rw [settledPairs_eq, List.map_flatMap, List.flatMap_map]
  rfl

/-- Items that are each read back are read one after the other. -/
theorem takeCounted_encodeAll (p : Text → Option (Item × Text)) (items : List Item)
    (h : ∀ i ∈ items, ∀ rest, p (i.encode ++ rest) = some (i.settled, rest)) (rest : Text) :
    takeCounted p items.length (encodeAll items ++ rest) = some (items.map settled, rest) := by
  induction items with
  | nil => rfl
  | cons i items ih =>
      have hrest := ih fun j hj => h j (List.mem_cons_of_mem i hj)
      rw [List.length_cons, encodeAll, List.append_assoc, takeCounted, h i List.mem_cons_self]
      simp only [hrest, Option.map_some, List.map_cons]

section Take

/-! An item is told by its head, unless that is a tag or the items around it nest too deep. -/

variable {fuel depth low n : Nat} {bs rest after : Text}

theorem takeItem_uint (hdepth : depth ≤ maxDepth)
    (hhead : takeHead bs = some (⟨0, low, some n⟩, rest)) :
    takeItem (fuel + 1) depth bs = some (.uint n, rest) := by
  have htags := takeTags_of_head hhead (by simp) (maxDepth + 2)
  simp [takeItem, htags, hhead, Nat.not_lt.mpr hdepth]

theorem takeItem_negint (hdepth : depth ≤ maxDepth)
    (hhead : takeHead bs = some (⟨1, low, some n⟩, rest)) :
    takeItem (fuel + 1) depth bs = some (.negint n, rest) := by
  have htags := takeTags_of_head hhead (by simp) (maxDepth + 2)
  simp [takeItem, htags, hhead, Nat.not_lt.mpr hdepth]

theorem takeItem_bytes {s : Text} (hdepth : depth ≤ maxDepth)
    (hhead : takeHead bs = some (⟨2, low, some s.length⟩, s ++ rest)) :
    takeItem (fuel + 1) depth bs = some (.bytes s, rest) := by
  have htags := takeTags_of_head hhead (by simp) (maxDepth + 2)
  simp [takeItem, htags, hhead, Nat.not_lt.mpr hdepth, takeString, takeBytes_append]

theorem takeItem_string {s : Text} (hdepth : depth ≤ maxDepth)
    (hhead : takeHead bs = some (⟨3, low, some s.length⟩, s ++ rest)) :
    takeItem (fuel + 1) depth bs = some (.string s, rest) := by
  have htags := takeTags_of_head hhead (by simp) (maxDepth + 2)
  simp [takeItem, htags, hhead, Nat.not_lt.mpr hdepth, takeString, takeBytes_append, string]

theorem takeItem_plain (hdepth : depth ≤ maxDepth)
    (hhead : takeHead bs = some (⟨7, low, some n⟩, rest)) :
    takeItem (fuel + 1) depth bs = some (plainItem low n, rest) := by
  have htags := takeTags_of_head hhead (by simp) (maxDepth + 2)
  simp [takeItem, htags, hhead, Nat.not_lt.mpr hdepth]

/-- A sequence is read by reading its elements one level further down. -/
theorem takeItem_array {items : List Item} (hdepth : depth < maxDepth) (hn : n ≤ maxElements)
    (hhead : takeHead bs = some (⟨4, low, some n⟩, rest))
    (hitems : takeCounted (takeItem fuel (depth + 1)) n rest = some (items, after)) :
    takeItem (fuel + 1) depth bs = some (.array items, after) := by
  have htags := takeTags_of_head hhead (by simp) (maxDepth + 2)
  simp [takeItem, htags, hhead, Nat.not_lt.mpr hdepth.le, hdepth.ne, takeElements,
    Nat.not_lt.mpr hn, hitems]

/-- A map is read by reading keys and values one level further down. -/
theorem takeItem_map {items : List Item} {pairs : List (Item × Item)} (hdepth : depth < maxDepth)
    (hn : n ≤ maxElements) (hhead : takeHead bs = some (⟨5, low, some n⟩, rest))
    (hitems : takeCounted (takeItem fuel (depth + 1)) (2 * n) rest = some (items, after))
    (hpairs : pairUp items = some pairs) :
    takeItem (fuel + 1) depth bs = some (.map pairs, after) := by
  have htags := takeTags_of_head hhead (by simp) (maxDepth + 2)
  simp [takeItem, htags, hhead, Nat.not_lt.mpr hdepth.le, hdepth.ne, takeElements,
    Nat.not_lt.mpr hn, hitems, hpairs]

/-- A float in two, four or eight bytes. -/
theorem takeItem_wide (low : Nat) (hdepth : depth ≤ maxDepth) (hlow : 25 ≤ low ∧ low < 28)
    (hn : n < 256 ^ (1 <<< (low - 24))) (rest : Text) :
    takeItem (fuel + 1) depth
      ((7 * 32 + low).toUInt8 :: (bigEndian (1 <<< (low - 24)) n ++ rest)) =
      some (plainItem low n, rest) :=
  takeItem_plain hdepth (takeHead_long 7 low (by decide) (by omega) hn (by omega) rest)

/-- A float comes back from the narrowest format that keeps it. -/
theorem takeItem_float (bits : UInt64) (hdepth : depth ≤ maxDepth) (rest : Text) :
    takeItem (fuel + 1) depth (floatBytes bits ++ rest) =
      some ((Item.float bits).settled, rest) := by
  have hback : bits.toNat.toUInt64 = bits := UInt64.ofNat_toNat
  rw [floatBytes, settled]
  split
  case isTrue => exact takeItem_wide 25 hdepth (by decide) (show 0x7e00 < 256 ^ 2 by decide) rest
  dsimp only
  split
  case isTrue hhalf =>
    have hsize : Format.convert .double .half bits.toNat < 256 ^ 2 :=
      Ieee.convert_lt_size .half (by decide) _
    refine (takeItem_wide 25 hdepth (by decide) hsize rest).trans ?_
    rw [plainItem, if_pos rfl, hhalf, hback]
  split
  case isTrue hsingle =>
    have hsize : Format.convert .double .single bits.toNat < 256 ^ 4 :=
      Ieee.convert_lt_size .single (by decide) _
    refine (takeItem_wide 26 hdepth (by decide) hsize rest).trans ?_
    rw [plainItem, if_neg (by decide), if_pos rfl, hsingle, hback]
  case isFalse =>
    have hsize : bits.toNat < 256 ^ 8 := bits.toNat_lt
    refine (takeItem_wide 27 hdepth (by decide) hsize rest).trans ?_
    rw [plainItem, if_neg (by decide), if_neg (by decide), if_pos rfl, hback]

end Take

/-- What is written for an item is read back, whatever follows it. -/
theorem takeItem_encode {room : Nat} {i : Item} (h : i.Fits room) {fuel depth : Nat}
    (hfuel : room ≤ fuel) (hdepth : depth + room ≤ maxDepth) (rest : Text) :
    takeItem (fuel + 1) depth (i.encode ++ rest) = some (i.settled, rest) := by
  have hlevel : depth ≤ maxDepth := by omega
  have hsmall : maxElements < 2 ^ 64 := by decide
  induction h generalizing fuel depth rest with
  | uint h =>
      obtain ⟨low, hhead⟩ := takeHead_head 0 (by decide) h rest
      exact takeItem_uint hlevel hhead
  | negint h =>
      obtain ⟨low, hhead⟩ := takeHead_head 1 (by decide) h rest
      exact takeItem_negint hlevel hhead
  | @bytes _ bs h =>
      obtain ⟨low, hhead⟩ := takeHead_head 2 (by decide) h (bs ++ rest)
      rw [encode, List.append_assoc]
      exact takeItem_bytes hlevel hhead
  | @string _ t h =>
      obtain ⟨low, hhead⟩ := takeHead_head 3 (by decide) h (t ++ rest)
      rw [string, encode, List.flatten_singleton, List.append_assoc]
      exact takeItem_string hlevel hhead
  | null => exact takeItem_plain hlevel (takeHead_short 7 22 (by decide) (by decide) rest)
  | float bits => exact takeItem_float bits hlevel rest
  | @array room items hlength _ ih =>
      obtain ⟨fuel, rfl⟩ : ∃ k, fuel = k + 1 := ⟨fuel - 1, by omega⟩
      obtain ⟨low, hhead⟩ := takeHead_head 4 (by decide) (show items.length < 2 ^ 64 by omega)
        (encodeAll items ++ rest)
      have hitems := takeCounted_encodeAll (takeItem (fuel + 1) (depth + 1)) items
        (fun i hi rest => ih i hi (by omega) (by omega) rest (by omega)) rest
      rw [encode, settled, settledAll_eq, List.append_assoc]
      exact takeItem_array (by omega) hlength hhead hitems
  | @map room pairs hlength _ _ ihkeys ihvalues =>
      obtain ⟨fuel, rfl⟩ : ∃ k, fuel = k + 1 := ⟨fuel - 1, by omega⟩
      obtain ⟨low, hhead⟩ := takeHead_head 5 (by decide) (show pairs.length < 2 ^ 64 by omega)
        (encodePairs pairs ++ rest)
      have hitems := takeCounted_encodeAll (takeItem (fuel + 1) (depth + 1))
        (pairs.flatMap fun p => [p.1, p.2]) (fun i hi rest => by
          obtain ⟨p, hp, hi⟩ := List.mem_flatMap.mp hi
          simp only [List.mem_cons, List.not_mem_nil, or_false] at hi
          rcases hi with rfl | rfl
          · exact ihkeys p hp (by omega) (by omega) rest (by omega)
          · exact ihvalues p hp (by omega) (by omega) rest (by omega)) rest
      have hcount : (pairs.flatMap fun p => [p.1, p.2]).length = 2 * pairs.length := by
        simp only [List.length_flatMap, List.length_cons, List.length_nil, List.map_const',
          List.sum_replicate_nat]
        omega
      rw [hcount, ← encodePairs_eq, settled_flatMap] at hitems
      rw [encode, settled, List.append_assoc]
      exact takeItem_map (by omega) hlength hhead hitems (pairUp_flatMap _)

/-- What is written for an item is read back as that item and nothing else. -/
theorem decode_encode {room : Nat} {i : Item} (h : i.Fits room) (hroom : room ≤ maxDepth) :
    decode i.encode = some i.settled := by
  have htake : takeItem (maxDepth + 1) 0 (i.encode ++ []) = some (i.settled, []) :=
    takeItem_encode h hroom (by omega) []
  rw [List.append_nil] at htake
  rw [decode, htake]

end Cbor

end ClassEngine
