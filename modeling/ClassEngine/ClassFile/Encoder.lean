import ClassEngine.ClassFile.Basic
import ClassEngine.Text.ModifiedUtf8

/-!
Encoding a class in the binary class-file format. The names that a class uses need not be in its
pool: the encoder works on a copy of the pool that grows as the body is written, and writes that
copy in front of the body.
-/

namespace ClassEngine

namespace ClassFile

/-- Why a class has no binary form. -/
inductive EncodeError where
  /-- A handler of the named method protects no instruction. -/
  | emptyHandler (method : Text) (start stop : UInt16)
  | poolTooLarge (owner : Text) (entries : Nat)
  | textTooLong (owner : Text) (entry : Nat)
  | unknownTag (owner : Text) (entry : Nat) (tag : UInt8)
  deriving DecidableEq

/-- The wording of a refusal. -/
def EncodeError.message : EncodeError → Text
  | emptyHandler method start stop =>
    method ++ ": handler [" ++ Text.ofNat start.toNat ++ ", " ++ Text.ofNat stop.toNat ++
      ") is empty"
  | poolTooLarge owner entries =>
    owner ++ ": constant pool too large (" ++ Text.ofNat entries ++ " entries)"
  | textTooLong owner entry => owner ++ ": constant " ++ Text.ofNat entry ++ ": Utf8 too long"
  | unknownTag owner entry tag =>
    owner ++ ": constant " ++ Text.ofNat entry ++ ": cannot encode tag " ++ Text.ofNat tag.toNat

/-- A number in two bytes, most significant first. -/
def u2Bytes (v : UInt16) : List UInt8 :=
  [(v.toNat / 256).toUInt8, v.toNat.toUInt8]

/-- A number in four bytes, most significant first. -/
def u4Bytes (v : UInt32) : List UInt8 :=
  [(v.toNat / 16777216).toUInt8, (v.toNat / 65536).toUInt8, (v.toNat / 256).toUInt8,
    v.toNat.toUInt8]

/-- A number in eight bytes, most significant first. -/
def u8Bytes (v : UInt64) : List UInt8 :=
  u4Bytes (v.toNat / 4294967296).toUInt32 ++ u4Bytes v.toNat.toUInt32

/-- The low sixteen bits of a count. -/
def countBytes (n : Nat) : List UInt8 :=
  u2Bytes n.toUInt16

/-- The growing pool, with the index under which each text and class name is found. -/
structure PoolState where
  pool : Array Constant
  texts : List (Text × UInt16)
  classes : List (Text × UInt16)

namespace PoolState

/-- Keys and indices of the entries that `key?` picks, in pool order. -/
def indexed (key? : Constant → Option Text) (pool : Array Constant) : List (Text × UInt16) :=
  (pool.toList.zipIdx).filterMap fun (k, i) => (key? k).map fun t => (t, i.toUInt16)

/-- The starting pool of a class; an empty one gets its entry 0. -/
def ofPool (given : Array Constant) : PoolState :=
  let pool := if given.isEmpty then #[.blank] else given
  let textKey : Constant → Option Text
    | .utf8 t => some t
    | _ => none
  let classKey : Constant → Option Text
    | .link .classRef first _ => (pool[first.toNat]?).map Constant.textOf
    | _ => none
  ⟨pool, indexed textKey pool, indexed classKey pool⟩

end PoolState

/-- A step of encoding. -/
abbrev Encoder (α : Type) := StateT PoolState (Except EncodeError) α

/-- The index of a text, which is added to the pool when it is new. -/
def textIndex (t : Text) : Encoder UInt16 := fun s =>
  match s.texts.lookup t with
  | some i => .ok (i, s)
  | none =>
    let i := s.pool.size.toUInt16
    .ok (i, { s with pool := s.pool.push (.utf8 t), texts := (t, i) :: s.texts })

/-- The index of a class name, which is added to the pool when it is new. -/
def classIndex (name : Text) : Encoder UInt16 := do
  match (← get).classes.lookup name with
  | some i => pure i
  | none => do
    let nameIndex ← textIndex name
    let s ← get
    let i := s.pool.size.toUInt16
    set { s with
      pool := s.pool.push (.link .classRef nameIndex 0)
      classes := (name, i) :: s.classes }
    pure i

/-- The index of a class name, or 0 for the empty name. -/
def optionalClassIndex (name : Text) : Encoder UInt16 :=
  if name.isEmpty then pure 0 else classIndex name

/-- Encodes the items of a list one after the other. -/
def encodeAll {α : Type} (f : α → Encoder (List UInt8)) (items : List α) : Encoder (List UInt8) := do
  let parts ← items.mapM f
  pure parts.flatten

/-- A field, with its constant value as an attribute. -/
def encodeField (f : Field) : Encoder (List UInt8) := do
  let name ← textIndex f.name
  let descriptor ← textIndex f.descriptor
  let head := u2Bytes f.flags.bits ++ u2Bytes name ++ u2Bytes descriptor
  if f.constantValue = 0 then pure (head ++ u2Bytes 0)
  else do
    let attr ← textIndex "ConstantValue"
    pure (head ++ u2Bytes 1 ++ u2Bytes attr ++ u4Bytes 2 ++ u2Bytes f.constantValue)

/-- One entry of the exception table of the named method. -/
def encodeHandler (method : Text) (h : Handler) : Encoder (List UInt8) := do
  if h.stop ≤ h.start then throw (.emptyHandler method h.start h.stop)
  else do
    let catchIndex ← optionalClassIndex h.catchType
    pure (u2Bytes h.start ++ u2Bytes h.stop ++ u2Bytes h.target ++ u2Bytes catchIndex)

/-- The line table as an attribute of a body. -/
def encodeLines (lines : List LineNumber) : Encoder (List UInt8) := do
  if lines.isEmpty then pure (u2Bytes 0)
  else do
    let attr ← textIndex "LineNumberTable"
    pure (u2Bytes 1 ++ u2Bytes attr ++ u4Bytes (2 + 4 * lines.length).toUInt32 ++
      countBytes lines.length ++ lines.flatMap fun l => u2Bytes l.start ++ u2Bytes l.line)

/-- The body of the named method. -/
def encodeCode (method : Text) (c : Code) : Encoder (List UInt8) := do
  let handlers ← encodeAll (encodeHandler method) c.handlers
  let lines ← encodeLines c.lines
  pure (u2Bytes c.maxStack ++ u2Bytes c.maxLocals ++ u4Bytes c.bytecode.size.toUInt32 ++
    c.bytecode.toList ++ countBytes c.handlers.length ++ handlers ++ lines)

/-- The body of a method as an attribute; nothing without a body. -/
def encodeBody (method : Text) : Option Code → Encoder (List UInt8)
  | none => pure []
  | some c => do
    let code ← encodeCode method c
    let attr ← textIndex "Code"
    pure (u2Bytes attr ++ u4Bytes code.length.toUInt32 ++ code)

/-- The declared exceptions as an attribute; nothing when there are none. -/
def encodeThrows (names : List Text) : Encoder (List UInt8) := do
  if names.isEmpty then pure []
  else do
    let attr ← textIndex "Exceptions"
    let indices ← encodeAll (fun n => do pure (u2Bytes (← classIndex n))) names
    pure (u2Bytes attr ++ u4Bytes (2 + 2 * names.length).toUInt32 ++ countBytes names.length ++
      indices)

/-- A method of the named class. -/
def encodeMethod (owner : Text) (m : MethodInfo) : Encoder (List UInt8) := do
  let name ← textIndex m.name
  let descriptor ← textIndex m.descriptor
  let attributes := (if m.code.isSome then 1 else 0) + (if m.throws.isEmpty then 0 else 1)
  let body ← encodeBody (owner ++ "." ++ m.name ++ m.descriptor) m.code
  let declared ← encodeThrows m.throws
  pure (u2Bytes m.flags.bits ++ u2Bytes name ++ u2Bytes descriptor ++ countBytes attributes ++
    body ++ declared)

/-- The source file as the only class attribute. -/
def encodeSource (source : Text) : Encoder (List UInt8) := do
  if source.isEmpty then pure (u2Bytes 0)
  else do
    let attr ← textIndex "SourceFile"
    let value ← textIndex source
    pure (u2Bytes 1 ++ u2Bytes attr ++ u4Bytes 2 ++ u2Bytes value)

/-- All that follows the pool. -/
def encodeRest (c : ClassFile) : Encoder (List UInt8) := do
  let this ← classIndex c.name
  let superIndex ← optionalClassIndex c.superName
  let interfaces ← encodeAll (fun n => do pure (u2Bytes (← classIndex n))) c.interfaces
  let fields ← encodeAll encodeField c.fields
  let methods ← encodeAll (encodeMethod c.name) c.methods
  let source ← encodeSource c.sourceFile
  pure (u2Bytes c.flags.bits ++ u2Bytes this ++ u2Bytes superIndex ++
    countBytes c.interfaces.length ++ interfaces ++ countBytes c.fields.length ++ fields ++
    countBytes c.methods.length ++ methods ++ source)

/-- The entry at position `i` of the pool of the named class. -/
def encodeConstant (owner : Text) (i : Nat) : Constant → Except EncodeError (List UInt8)
  | .utf8 t =>
    let data := ModifiedUtf8.encode t
    if 65535 < data.length then .error (.textTooLong owner i)
    else .ok (1 :: countBytes data.length ++ data)
  | .integer v => .ok (3 :: u4Bytes v.toInt32.toUInt32)
  | .float bits => .ok (4 :: u4Bytes (Ieee.narrow bits))
  | .long v => .ok (5 :: u8Bytes v.toUInt64)
  | .double bits => .ok (6 :: u8Bytes bits)
  | .link kind first second =>
    .ok (kind.tag :: match kind.shape with
      | .one => u2Bytes first
      | .two => u2Bytes first ++ u2Bytes second
      | .handle => first.toUInt8 :: u2Bytes second)
  | k => .error (.unknownTag owner i k.tag)

/-- Puts the entries from position `i` on behind the parts of `acc`, which are in reverse order.
The slot after a long or double is not written. -/
def encodeEntriesOnto (owner : Text) (acc : List (List UInt8)) :
    Nat → List Constant → Except EncodeError (List (List UInt8))
  | _, [] => .ok acc.reverse
  | i, [k] => do
    let part ← encodeConstant owner i k
    pure (part :: acc).reverse
  | i, k :: next :: rest => do
    let part ← encodeConstant owner i k
    if k.isWide then encodeEntriesOnto owner (part :: acc) (i + 2) rest
    else encodeEntriesOnto owner (part :: acc) (i + 1) (next :: rest)

/-- The constant pool of the named class: its size and its entries from 1 on. -/
def encodePool (owner : Text) (pool : Array Constant) : Except EncodeError (List UInt8) := do
  let parts ← encodeEntriesOnto owner [] 1 (pool.toList.drop 1)
  pure (countBytes pool.size ++ parts.flatten)

/-- The version written for a class: one whose major number is 0 gets the default version. -/
def versionBytes (c : ClassFile) : List UInt8 :=
  if c.major = 0 then u2Bytes 0 ++ u2Bytes defaultMajor else u2Bytes c.minor ++ u2Bytes c.major

/-- Encodes a class. -/
def encode (c : ClassFile) : Except EncodeError (List UInt8) := do
  let (rest, s) ← (encodeRest c).run (.ofPool c.pool)
  if 65535 < s.pool.size then throw (.poolTooLarge c.name s.pool.size)
  else do
    let pool ← encodePool c.name s.pool
    pure (u4Bytes magic ++ versionBytes c ++ pool ++ rest)

end ClassFile

end ClassEngine
