import ClassEngine.Failure
import ClassEngine.Text.Quoted
import ClassEngine.Bundle.Format

/-!
Bundle files: a magic word, a version and the classes in one item. Classes are written by name, so a
set of classes has one bundle.
-/

namespace ClassEngine

namespace Bundle

/-- The bytes that open a bundle. -/
def magic : Text := "JVLB"

def version : Nat := 1

/-- The ending of the names of bundle files. -/
def extension : Text := ".jvb"

/-- A number as `width` bytes, least significant first. -/
def littleEndian : Nat → Nat → Text
  | 0, _ => []
  | width + 1, n => (n % 256).toUInt8 :: littleEndian width (n / 256)

/-- The number that bytes stand for, least significant first. -/
def ofLittleEndian : Text → Nat
  | [] => 0
  | b :: rest => b.toNat + 256 * ofLittleEndian rest

/-- Why classes cannot be bundled. -/
inductive WriteError where
  | duplicate (name : Text)
  /-- A place without a class among others, which has no name to be sorted by. -/
  | absentClass
  deriving DecidableEq

/-- The wording of a refusal to bundle. -/
def WriteError.message : WriteError → Text
  | duplicate name => "bundle: duplicate class " ++ name
  | absentClass => "runtime error"

/-- The classes by name. -/
def sortClasses (classes : List ClassFile) : List ClassFile :=
  classes.mergeSort fun a b => Text.ble a.name b.name

/-- The first name that two neighbours share. -/
def duplicate? : List ClassFile → Option Text
  | a :: b :: rest => if a.name = b.name then some b.name else duplicate? (b :: rest)
  | _ => none

/-- The bytes of a bundle with the given item. -/
def frame (item : Cbor.Item) : Text :=
  magic ++ littleEndian 4 version ++ item.encode

/-- The bytes of a bundle of classes. -/
def encode (classes : List ClassFile) : Except WriteError Text :=
  let sorted := sortClasses classes
  match duplicate? sorted with
  | some name => .error (.duplicate name)
  | none => .ok (frame (payloadItem (sorted.map some)))

/-- The bytes of a bundle with places that may be empty. -/
def encodePlaces (places : List (Option ClassFile)) : Except WriteError Text :=
  match places with
  | [none] => .ok (frame (payloadItem [none]))
  | _ =>
    match places.mapM id with
    | some classes => encode classes
    | none => .error .absentClass

/-- Why bytes are no bundle. -/
inductive ReadError where
  | truncatedHeader
  | badMagic (found : Text)
  | badVersion (found : Nat)
  | undecodable
  | unnamedClass
  deriving DecidableEq

/-- The failure to read the bundle with a label. -/
def ReadError.failure (label : Text) : ReadError → Failure
  | truncatedHeader => .plain ("bundle " ++ label ++ ": truncated header")
  | badMagic found =>
    (Failure.plain "invalid bundle magic: expected JVLB").within
      ("bundle " ++ label ++ ": got " ++ Quoted.quote found)
  | badVersion found =>
    (Failure.plain "unsupported bundle version").within
      ("bundle " ++ label ++ ": version " ++ Text.ofNat found)
  | undecodable => .plain ("bundle " ++ label ++ ": decode")
  | unnamedClass => .plain ("bundle " ++ label ++ ": unnamed class")

/-- Adds a class; one of the same name gives way. -/
def addClass (classes : List ClassFile) (c : ClassFile) : List ClassFile :=
  classes.filter (fun d => d.name != c.name) ++ [c]

/-- The class at a place, which must be there and have a name. -/
def named (place : Option ClassFile) : Except ReadError ClassFile :=
  match place with
  | none => .error .unnamedClass
  | some c => if c.name.isEmpty then .error .unnamedClass else .ok c

/-- The classes of a bundle by name. Of two with the same name the later one stays. -/
def decode (bs : Text) : Except ReadError (List ClassFile) :=
  if bs.length < 8 then .error .truncatedHeader
  else if bs.take 4 ≠ magic then .error (.badMagic (bs.take 4))
  else if ofLittleEndian ((bs.drop 4).take 4) ≠ version then
    .error (.badVersion (ofLittleEndian ((bs.drop 4).take 4)))
  else match (Cbor.decode (bs.drop 8)).bind readPayload with
    | none => .error .undecodable
    | some places =>
      (places.mapM named).map fun classes => sortClasses (classes.foldl addClass [])

end Bundle

end ClassEngine
