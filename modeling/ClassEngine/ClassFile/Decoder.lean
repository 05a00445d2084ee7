import ClassEngine.Failure
import ClassEngine.ClassFile.Pool
import ClassEngine.Text.ModifiedUtf8

/-!
Decoding the binary class-file format. A decoder consumes bytes from a cursor and hands the rest
on; it fails at the first fault. Bytes after the last attribute of the class are not read.
-/

namespace ClassEngine

namespace ClassFile

/-- Why bytes are not a class file. -/
inductive DecodeError where
  /-- The bytes end before a value of `need` bytes that starts at `offset`. -/
  | truncated (offset need : Nat)
  | badMagic (value : UInt32)
  | unknownTag (entry : Nat) (tag : UInt8)
  | pool (cause : PoolError)
  /-- A fault inside the named part of the file. -/
  | within (place : Text) (cause : DecodeError)
  deriving DecidableEq

/-- The wording of a fault. -/
def DecodeError.message : DecodeError → Text
  | truncated offset need =>
    "unexpected end of class data at offset " ++ Text.ofNat offset ++ " (need " ++
      Text.ofNat need ++ " bytes)"
  | badMagic value => "bad magic 0x" ++ Text.padZero 8 (Text.upperAscii (Text.hex value.toNat))
  | unknownTag entry tag =>
    "constant pool entry " ++ Text.ofNat entry ++ ": unknown tag " ++ Text.ofNat tag.toNat
  | pool cause => cause.message
  | within place cause => place ++ ": " ++ cause.message

/-- A fault as a failure with the parts around it as contexts. -/
def DecodeError.failure : DecodeError → Failure
  | within place cause => cause.failure.within place
  | e => .plain e.message

/-- A position in the bytes of a file or attribute. -/
structure Cursor where
  offset : Nat
  rest : List UInt8

/-- A step of decoding. -/
abbrev Decoder (α : Type) := StateT Cursor (Except DecodeError) α

namespace Decoder

/-- Runs a decoder on the bytes of an attribute, whose offsets count from its own start. -/
def onBytes {α : Type} (bytes : List UInt8) (d : Decoder α) : Except DecodeError α :=
  (d.run ⟨0, bytes⟩).map Prod.fst

/-- Names the part of the file in which a decoder works. -/
def inside {α : Type} (place : Text) (d : Decoder α) : Decoder α := fun c =>
  (d c).mapError (.within place)

/-- Looks a symbol up in the pool. -/
def lookup {α : Type} (r : Except PoolError α) : Decoder α :=
  liftM (r.mapError DecodeError.pool)

def u1 : Decoder UInt8 := fun c =>
  match c.rest with
  | a :: rest => .ok (a, ⟨c.offset + 1, rest⟩)
  | _ => .error (.truncated c.offset 1)

/-- A big-endian number of two bytes. -/
def u2 : Decoder UInt16 := fun c =>
  match c.rest with
  | a :: b :: rest => .ok ((a.toNat * 256 + b.toNat).toUInt16, ⟨c.offset + 2, rest⟩)
  | _ => .error (.truncated c.offset 2)

/-- A big-endian number of four bytes. -/
def u4 : Decoder UInt32 := fun c =>
  match c.rest with
  | a :: b :: d :: e :: rest =>
    .ok ((((a.toNat * 256 + b.toNat) * 256 + d.toNat) * 256 + e.toNat).toUInt32,
      ⟨c.offset + 4, rest⟩)
  | _ => .error (.truncated c.offset 4)

/-- A big-endian number of eight bytes, read as two halves. -/
def u8 : Decoder UInt64 := do
  let hi ← u4
  let lo ← u4
  pure (hi.toUInt64 * 4294967296 + lo.toUInt64)

/-- The next `n` bytes. -/
def bytes (n : Nat) : Decoder (List UInt8) := fun c =>
  let taken := c.rest.take n
  if taken.length = n then .ok (taken, ⟨c.offset + n, c.rest.drop n⟩)
  else .error (.truncated c.offset n)

/-- A two-byte pool index. Where the bytes have run out it reads as 0, the index that no look-up
finds, so that the fault reported is that of the look-up. -/
def index : Decoder UInt16 := fun c =>
  match u2 c with
  | .ok r => .ok r
  | .error _ => .ok (0, c)

/-- Runs a decoder `n` times, putting the results behind those of `acc`, which are in reverse
order. The decoder is told how many runs went before. -/
def repeatedOnto {α : Type} (d : Nat → Decoder α) (acc : List α) : Nat → Nat → Decoder (List α)
  | 0, _ => pure acc.reverse
  | n + 1, i => do
    let a ← d i
    repeatedOnto d (a :: acc) n (i + 1)

/-- Runs a decoder `n` times. -/
def repeated {α : Type} (d : Nat → Decoder α) (n i : Nat) : Decoder (List α) :=
  repeatedOnto d [] n i

/-- A two-byte count and that many items. -/
def counted {α : Type} (d : Nat → Decoder α) : Decoder (List α) := do
  let n ← u2
  repeated d n.toNat 0

end Decoder

open Decoder

/-- The indices of an entry. -/
def decodeLink (kind : LinkKind) : Decoder Constant :=
  match kind.shape with
  | .one => do
    let first ← u2
    pure (.link kind first 0)
  | .two => do
    let first ← u2
    let second ← u2
    pure (.link kind first second)
  | .handle => do
    let first ← u1
    let second ← u2
    pure (.link kind first.toUInt16 second)

/-- The entry at position `i` of the pool. -/
def decodeConstant (i : Nat) : Decoder Constant := do
  let tag ← inside ("constant pool entry " ++ Text.ofNat i) u1
  match LinkKind.ofTag? tag with
  | some kind => inside ("constant pool entry " ++ Text.ofNat i) (decodeLink kind)
  | none =>
    if tag ∈ [1, 3, 4, 5, 6] then
      inside ("constant pool entry " ++ Text.ofNat i) do
        if tag = 1 then do
          let n ← u2
          let bs ← bytes n.toNat
          pure (.utf8 (ModifiedUtf8.decode bs))
        else if tag = 3 then do
          let v ← u4
          pure (.integer v.toInt32.toInt64)
        else if tag = 4 then do
          let v ← u4
          pure (.float (Ieee.widen v))
        else if tag = 5 then do
          let v ← u8
          pure (.long v.toInt64)
        else do
          let v ← u8
          pure (.double v)
    else throw (.unknownTag i tag)

/-- Puts the `n` pool slots from position `i` on behind those of `acc`, which are in reverse order.
A long or double fills the slot after it too. -/
def decodeEntriesOnto (acc : List Constant) : Nat → Nat → Decoder (List Constant)
  | 0, _ => pure acc.reverse
  | n + 1, i => do
    let k ← decodeConstant i
    if k.isWide then
      match n with
      | 0 => pure (k :: acc).reverse
      | n' + 1 => decodeEntriesOnto (.blank :: k :: acc) n' (i + 2)
    else decodeEntriesOnto (k :: acc) n (i + 1)

/-- The `n` pool slots from position `i` on. -/
def decodeEntries (n i : Nat) : Decoder (List Constant) :=
  decodeEntriesOnto [] n i

/-- The constant pool, entry 0 included. -/
def decodePool : Decoder (Array Constant) := do
  let count ← u2
  if count = 0 then pure #[]
  else do
    let entries ← decodeEntries (count.toNat - 1) 1
    pure (Constant.blank :: entries).toArray

/-- An attribute: a name and uninterpreted bytes. -/
structure Attribute where
  name : Text
  data : List UInt8

/-- The attributes of a class, member or body. -/
def decodeAttributes (c : ClassFile) : Decoder (List Attribute) :=
  counted fun _ => do
    let i ← index
    let name ← inside "attribute name" (lookup (c.utf8 i))
    let size ← u4
    let data ← bytes size.toNat
    pure ⟨name, data⟩

/-- The first two bytes of an attribute as a number, when it has that many. -/
def Attribute.leading? (a : Attribute) : Option UInt16 :=
  match a.data with
  | hi :: lo :: _ => some (hi.toNat * 256 + lo.toNat).toUInt16
  | _ => none

/-- A field and its constant value, the last one if several are given. -/
def decodeField (c : ClassFile) (i : Nat) : Decoder Field := do
  let flags ← index
  let nameIndex ← index
  let name ← inside (c.name ++ ": field " ++ Text.ofNat i ++ " name") (lookup (c.utf8 nameIndex))
  let descIndex ← index
  let descriptor ← inside (c.name ++ "." ++ name ++ ": descriptor") (lookup (c.utf8 descIndex))
  let attrs ← inside (c.name ++ "." ++ name) (decodeAttributes c)
  let values := (attrs.filter fun a => a.name == ("ConstantValue" : Text)).filterMap
    Attribute.leading?
  pure ⟨name, descriptor, ⟨flags⟩, values.getLast?.getD 0⟩

/-- The class name of the entry at an index, or the empty name at index 0. -/
def optionalClassName (c : ClassFile) (place : Text) (i : UInt16) : Decoder Text :=
  if i = 0 then pure [] else inside place (lookup (c.className i))

/-- One entry of an exception table. -/
def decodeHandler (c : ClassFile) (i : Nat) : Decoder Handler := do
  let start ← u2
  let stop ← u2
  let target ← u2
  let catchIndex ← u2
  let catchType ← optionalClassName c ("exception table entry " ++ Text.ofNat i) catchIndex
  pure ⟨start, stop, target, catchType⟩

/-- One entry of a line table. -/
def decodeLine : Decoder LineNumber := do
  let start ← u2
  let line ← u2
  pure ⟨start, line⟩

/-- The lines of all line tables among the attributes of a body. -/
def decodeLineTables : List Attribute → Except DecodeError (List LineNumber)
  | [] => .ok []
  | a :: rest =>
    if a.name == ("LineNumberTable" : Text) then do
      let lines ← (onBytes a.data (counted fun _ => decodeLine)).mapError (.within "LineNumberTable")
      let more ← decodeLineTables rest
      pure (lines ++ more)
    else decodeLineTables rest

/-- The body of a method. -/
def decodeCode (c : ClassFile) : Decoder Code := do
  let maxStack ← u2
  let maxLocals ← u2
  let size ← u4
  let bytecode ← bytes size.toNat
  let handlers ← counted (decodeHandler c)
  let attrs ← decodeAttributes c
  let lines ← liftM (decodeLineTables attrs)
  pure ⟨maxStack, maxLocals, bytecode.toArray, handlers, lines⟩

/-- The names in an attribute of declared exceptions; one too short for a count declares none. -/
def decodeThrows (c : ClassFile) (a : Attribute) : Except DecodeError (List Text) :=
  match a.leading? with
  | none => .ok []
  | some n => onBytes (a.data.drop 2) (repeated (fun _ => do
      let i ← index
      lookup (c.className i)) n.toNat 0)

/-- Adds what an attribute says to a method. A later body replaces an earlier one, while declared
exceptions add up. -/
def applyMethodAttribute (c : ClassFile) (m : MethodInfo) (a : Attribute) :
    Except DecodeError MethodInfo :=
  if a.name == ("Code" : Text) then do
    let code ← (onBytes a.data (decodeCode c)).mapError
      (.within (c.name ++ "." ++ m.name ++ m.descriptor ++ ": Code"))
    pure { m with code := some code }
  else if a.name == ("Exceptions" : Text) then do
    let names ← (decodeThrows c a).mapError (.within (c.name ++ "." ++ m.name ++ ": Exceptions"))
    pure { m with throws := m.throws ++ names }
  else .ok m

/-- A method and its attributes. -/
def decodeMethod (c : ClassFile) (i : Nat) : Decoder MethodInfo := do
  let flags ← index
  let nameIndex ← index
  let name ← inside (c.name ++ ": method " ++ Text.ofNat i ++ " name") (lookup (c.utf8 nameIndex))
  let descIndex ← index
  let descriptor ← inside (c.name ++ "." ++ name ++ ": descriptor") (lookup (c.utf8 descIndex))
  let attrs ← inside (c.name ++ "." ++ name) (decodeAttributes c)
  liftM (attrs.foldlM (applyMethodAttribute c) ⟨name, descriptor, ⟨flags⟩, none, []⟩)

/-- One name in the list of interfaces. -/
def decodeInterface (c : ClassFile) (i : Nat) : Decoder Text := do
  let k ← index
  inside (c.name ++ ": interface " ++ Text.ofNat i) (lookup (c.className k))

/-- Adds what a class attribute says. -/
def applyClassAttribute (c : ClassFile) (a : Attribute) : Except DecodeError ClassFile :=
  if a.name == ("SourceFile" : Text) then
    match a.leading? with
    | some i => do
      let source ← (c.utf8 i).mapError fun e => .within (c.name ++ ": SourceFile") (.pool e)
      pure { c with sourceFile := source }
    | none => .ok c
  else .ok c

/-- All that follows the pool. -/
def decodeRest (minor major : UInt16) (pool : Array Constant) : Decoder ClassFile := do
  let flags ← u2
  let thisIndex ← u2
  let superIndex ← u2
  let bare : ClassFile := ⟨minor, major, pool, ⟨flags⟩, [], [], [], [], [], []⟩
  let name ← inside "this_class" (lookup (bare.className thisIndex))
  let c := { bare with name := name }
  let superName ← optionalClassName c (c.name ++ ": super_class") superIndex
  let interfaces ← counted (decodeInterface c)
  let fields ← counted (decodeField c)
  let methods ← counted (decodeMethod c)
  let attrs ← inside (c.name ++ ": class attributes") (decodeAttributes c)
  let full := { c with superName, interfaces, fields, methods }
  liftM (attrs.foldlM applyClassAttribute full)

/-- A class file. -/
def decoder : Decoder ClassFile := do
  let magicValue ← u4
  if magicValue ≠ magic then throw (.badMagic magicValue)
  else do
    let minor ← u2
    let major ← u2
    let pool ← decodePool
    decodeRest minor major pool

/-- Decodes the bytes of a class file. -/
def decode (data : List UInt8) : Except DecodeError ClassFile :=
  onBytes data decoder

end ClassFile

end ClassEngine
