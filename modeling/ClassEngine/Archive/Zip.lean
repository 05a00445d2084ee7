import ClassEngine.Text.Basic
import ClassEngine.Archive.Crc32
import ClassEngine.Archive.Inflate

/-!
Reading archives: the central directory at the end lists the members, each with the place of its
own header, behind which its data stands.
-/

namespace ClassEngine

namespace Zip

/-- Why an archive or a member cannot be read. -/
inductive Error where
  | format
  | checksum
  | algorithm
  | commentLength
  /-- The data ends inside a value. -/
  | truncated
  /-- The data ends before a value. -/
  | ended
  /-- Deflated data that means nothing, up to a number of bytes. -/
  | corrupt (offset : Nat)
  deriving DecidableEq

/-- The wording of an error. -/
def Error.message : Error → Text
  | format => "zip: not a valid zip file"
  | checksum => "zip: checksum error"
  | algorithm => "zip: unsupported compression algorithm"
  | commentLength => "zip: invalid comment length"
  | truncated => "unexpected EOF"
  | ended => "EOF"
  | corrupt offset => "flate: corrupt input before offset " ++ Text.ofNat offset

/-- The bytes of an archive. -/
abbrev Bytes := Array UInt8

/-- A number of `n` bytes, least significant first; bytes past the end count as zero. -/
def number (data : Bytes) (offset : Nat) : Nat → Nat
  | 0 => 0
  | n + 1 => ((data[offset]?).getD 0).toNat + 256 * number data (offset + 1) n

/-- A member as the directory lists it. -/
structure Member where
  name : Text
  creator : Nat
  flags : Nat
  method : Nat
  crc : Nat
  compressedSize : Nat
  size : Nat
  attributes : Nat
  headerOffset : Int

/-- What the end of the directory says. -/
structure DirectoryEnd where
  /-- Where this record stands. -/
  place : Nat
  records : Nat
  directorySize : Nat
  directoryOffset : Nat

def endSignature : Nat := 0x06054b50
def directorySignature : Nat := 0x02014b50
def headerSignature : Nat := 0x04034b50
def descriptorSignature : Nat := 0x08074b50
def locator64Signature : Nat := 0x07064b50
def end64Signature : Nat := 0x06064b50

/-- Looks for the end record from offset `i` down to `low`. A record whose comment is cut short ends
the search. -/
def findEnd (data : Bytes) (low : Nat) : Nat → Option Nat
  | 0 => none
  | n + 1 =>
    let i := low + n
    if number data i 4 = endSignature then
      if data.size < number data (i + 20) 2 + 22 + i then none else some i
    else findEnd data low n

/-- The end record within the last `window` bytes. -/
def endWithin (data : Bytes) (window : Nat) : Option Nat :=
  if window < 22 then none
  else findEnd data (data.size - window) (window - 21)

/-- The place of the end record. -/
def endPlace? (data : Bytes) : Option Nat :=
  match endWithin data (min 1024 data.size) with
  | some i => some i
  | none => if data.size ≤ 1024 then none else endWithin data (min 66560 data.size)

/-- Replaces what the short record cannot hold by the contents of the long one, if there is one. -/
def extend (data : Bytes) (e : DirectoryEnd) : Except Error DirectoryEnd :=
  if e.place < 20 ∨ number data (e.place - 20) 4 ≠ locator64Signature ∨
      number data (e.place - 16) 4 ≠ 0 ∨ number data (e.place - 4) 4 ≠ 1 then .ok e
  else
    let p := number data (e.place - 12) 8
    if data.size < p + 56 then .error .ended
    else if number data p 4 ≠ end64Signature then .error .format
    else .ok ⟨p, number data (p + 32) 8, number data (p + 40) 8, number data (p + 48) 8⟩

/-- Reads the end record. -/
def directoryEnd (data : Bytes) : Except Error DirectoryEnd :=
  match endPlace? data with
  | none => .error .format
  | some i =>
    let e : DirectoryEnd := ⟨i, number data (i + 10) 2, number data (i + 12) 4,
      number data (i + 16) 4⟩
    if e.records = 0xffff ∨ e.directorySize = 0xffff ∨ e.directoryOffset = 0xffffffff then
      extend data e
    else .ok e

/-- Sizes and offset of a member. -/
structure Extent where
  size : Nat
  compressedSize : Nat
  offset : Nat
  needSize : Bool
  needCompressed : Bool
  needOffset : Bool

/-- Takes the long numbers that are needed from an extra field; fails when they are not there. -/
def Extent.fill (x : Extent) (data : Bytes) (start stop : Nat) : Option Extent := do
  let (x, at1) ← if x.needSize then
      if stop < start + 8 then none
      else some ({ x with size := number data start 8, needSize := false }, start + 8)
    else some (x, start)
  let (x, at2) ← if x.needCompressed then
      if stop < at1 + 8 then none
      else some ({ x with compressedSize := number data at1 8, needCompressed := false }, at1 + 8)
    else some (x, at1)
  if x.needOffset then
    if stop < at2 + 8 then none
    else some { x with offset := number data at2 8, needOffset := false }
  else some x

/-- Goes through the extra fields of a member for long numbers. -/
def readExtras (data : Bytes) (stop : Nat) : Nat → Nat → Extent → Option Extent
  | 0, _, x => some x
  | fuel + 1, i, x =>
    if stop < i + 4 then some x
    else
      let size := number data (i + 2) 2
      if stop < i + 4 + size then some x
      else if number data i 2 = 1 then do
        let x' ← x.fill data (i + 4) (i + 4 + size)
        readExtras data stop fuel (i + 4 + size) x'
      else readExtras data stop fuel (i + 4 + size) x

/-- Reads the directory entry at an offset; gives the member and where the next one starts. -/
def readMember (data : Bytes) (i : Nat) : Except Error (Member × Nat) :=
  if data.size ≤ i then .error .ended
  else if data.size < i + 46 then .error .truncated
  else if number data i 4 ≠ directorySignature then .error .format
  else
    let nameLength := number data (i + 28) 2
    let extraLength := number data (i + 30) 2
    let next := i + 46 + nameLength + extraLength + number data (i + 32) 2
    if data.size < next then
      .error (if data.size = i + 46 then .ended else .truncated)
    else
      let size := number data (i + 24) 4
      let compressed := number data (i + 20) 4
      let offset := number data (i + 42) 4
      let x : Extent := ⟨size, compressed, offset, size = 0xffffffff, compressed = 0xffffffff,
        offset = 0xffffffff⟩
      let extras := i + 46 + nameLength
      match readExtras data (extras + extraLength) (extraLength + 1) extras x with
      | none => .error .format
      | some x =>
        if x.needCompressed ∨ x.needOffset then .error .format
        else .ok (⟨(data.extract (i + 46) (i + 46 + nameLength)).toList, number data (i + 4) 2,
          number data (i + 8) 2, number data (i + 10) 2, number data (i + 16) 4, x.compressedSize,
          x.size, number data (i + 38) 4, x.offset⟩, next)

/-- Reads members until one cannot be read; gives them with the reason for the stop. -/
def readMembers (data : Bytes) (base : Int) : Nat → Nat → List Member → List Member × Error
  | 0, _, acc => (acc.reverse, .format)
  | fuel + 1, i, acc =>
    match readMember data i with
    | .error e => (acc.reverse, e)
    | .ok (m, next) =>
      readMembers data base fuel next ({ m with headerOffset := m.headerOffset + base } :: acc)

/-- The members of an archive. Their number has to agree with the end record in its low sixteen
bits. -/
def members (data : Bytes) : Except Error (List Member) := do
  let e ← directoryEnd data
  let base : Int := (e.place : Int) - e.directorySize - e.directoryOffset
  let start := base + e.directoryOffset
  if start < 0 ∨ (data.size : Int) ≤ start then throw .format
  let base' := if 0 < base ∧ (readMember data e.directoryOffset).toBool then 0 else base
  let (ms, reason) := readMembers data base' (data.size + 1) (base' + e.directoryOffset).toNat []
  match reason with
  | .ended => throw .ended
  | _ => if ms.length % 65536 ≠ e.records % 65536 then throw reason else pure ms

/-- Whether a member is a directory: by its name, or by what its creator's system says. -/
def Member.isDirectory (m : Member) : Bool :=
  let system := m.creator / 256
  Text.endsWith "/" m.name ||
    (if system = 3 ∨ system = 19 then m.attributes / 65536 / 4096 % 16 == 4
    else if system = 0 ∨ system = 11 ∨ system = 14 then m.attributes / 16 % 2 == 1
    else false)

/-- Expands the stored data of a member. -/
def expand (method : Nat) (stored : List UInt8) : Except Error (List UInt8) :=
  if method = 0 then .ok stored
  else if method = 8 then
    match Inflate.inflate stored with
    | .ok out => .ok out
    | .error .truncated => .error .truncated
    | .error (.corrupt left) => .error (.corrupt (stored.length - left / 8))
  else .error .algorithm

/-- Checks the contents of a member against its size and check value. A record behind the data, when
there is one, has to repeat the check value. -/
def verify (data : Bytes) (m : Member) (stop : Nat) (out : List UInt8) :
    Except Error (List UInt8) :=
  if m.size < out.length then .error .format
  else if out.length < m.size then .error .truncated
  else
    let crc := (Crc32.checksum out).toNat
    if m.flags / 8 % 2 = 1 then
      let i := if number data stop 4 = descriptorSignature then stop + 4 else stop
      if data.size < i + 12 then .error .truncated
      else if number data i 4 ≠ m.crc ∨ crc ≠ m.crc then .error .checksum
      else .ok out
    else if m.crc ≠ 0 ∧ crc ≠ m.crc then .error .checksum
    else .ok out

/-- The contents of a member. -/
def contents (data : Bytes) (m : Member) : Except Error (List UInt8) :=
  if m.headerOffset < 0 ∨ (data.size : Int) < m.headerOffset + 30 then .error .ended
  else
    let h := m.headerOffset.toNat
    if number data h 4 ≠ headerSignature then .error .format
    else
      let start := h + 30 + number data (h + 26) 2 + number data (h + 28) 2
      let stop := start + m.compressedSize
      match expand m.method (data.extract start stop).toList with
      | .error e => .error e
      | .ok out => verify data m stop out

end Zip

end ClassEngine
