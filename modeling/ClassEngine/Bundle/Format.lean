import ClassEngine.ClassFile.Basic
import ClassEngine.Cbor.Decode
import ClassEngine.Cbor.Reader

/-!
Class files as items of a bundle. Fields that are empty are left out where the format allows it.
-/

namespace ClassEngine

namespace Bundle

open Cbor (Item)

/-- A field that is always written. -/
def always (name : Text) (i : Item) : List (Text × Item) := [(name, i)]

/-- A field that is left out when it says nothing. -/
def omitWhen (absent : Bool) (name : Text) (i : Item) : List (Text × Item) :=
  if absent then [] else [(name, i)]

def word (v : UInt16) : Item := .uint v.toNat

/-- A text field that is left out when empty. -/
def optionalText (name t : Text) : List (Text × Item) :=
  omitWhen t.isEmpty name (.string t)

/-- A list field that is left out when empty. -/
def optionalList (name : Text) (items : List Item) : List (Text × Item) :=
  omitWhen items.isEmpty name (.array items)

/-- A number field that is left out when zero. -/
def optionalWord (name : Text) (v : UInt16) : List (Text × Item) :=
  omitWhen (v == 0) name (word v)

def constantItem (k : Constant) : Item :=
  .record (always "t" (.uint k.tag.toNat) ++
    match k with
    | .blank => []
    | .utf8 t => optionalText "s" t
    | .integer v => omitWhen (v == 0) "i" (.ofInt v.toInt)
    | .long v => omitWhen (v == 0) "i" (.ofInt v.toInt)
    | .float bits => omitWhen (Ieee.isZero bits) "f" (.float bits)
    | .double bits => omitWhen (Ieee.isZero bits) "f" (.float bits)
    | .link _ a b => optionalWord "a" a ++ optionalWord "b" b
    | .foreign _ a b => optionalWord "a" a ++ optionalWord "b" b)

def fieldItem (f : Field) : Item :=
  .record (always "name" (.string f.name) ++ always "desc" (.string f.descriptor) ++
    always "flags" (word f.flags.bits) ++ optionalWord "cv" f.constantValue)

def handlerItem (h : Handler) : Item :=
  .record (always "start" (word h.start) ++ always "end" (word h.stop) ++
    always "handler" (word h.target) ++ optionalText "catch" h.catchType)

def lineItem (l : LineNumber) : Item :=
  .record (always "pc" (word l.start) ++ always "line" (word l.line))

def codeItem (c : Code) : Item :=
  .record (always "stack" (word c.maxStack) ++ always "locals" (word c.maxLocals) ++
    always "bc" (.bytes c.bytecode.toList) ++ optionalList "handlers" (c.handlers.map handlerItem) ++
    optionalList "lines" (c.lines.map lineItem))

def methodItem (m : MethodInfo) : Item :=
  .record (always "name" (.string m.name) ++ always "desc" (.string m.descriptor) ++
    always "flags" (word m.flags.bits) ++
    (match m.code with
      | none => []
      | some c => always "code" (codeItem c)) ++
    optionalList "throws" (m.throws.map .string))

/-- A list that is written as null when it is empty. -/
def listOrNull (items : List Item) : Item :=
  if items.isEmpty then .null else .array items

def classItem (c : ClassFile) : Item :=
  .record (always "minor" (word c.minor) ++ always "major" (word c.major) ++
    always "pool" (listOrNull (c.pool.toList.map constantItem)) ++
    always "flags" (word c.flags.bits) ++ always "name" (.string c.name) ++
    optionalText "super" c.superName ++ optionalList "interfaces" (c.interfaces.map .string) ++
    optionalList "fields" (c.fields.map fieldItem) ++
    optionalList "methods" (c.methods.map methodItem) ++ optionalText "source" c.sourceFile)

/-- The item of a bundle; a place without a class is null. -/
def payloadItem (classes : List (Option ClassFile)) : Item :=
  .record (always "classes" (listOrNull (classes.map fun c => c.elim .null classItem)))

/-! Reading back. -/

/-- Only what the tag of a constant calls for is kept. -/
def constantOf (tag : UInt8) (text : Text) (number : Int64) (bits : UInt64) (a b : UInt16) :
    Constant :=
  if tag = 1 then .utf8 text
  else if tag = 3 then .integer number
  else if tag = 4 then .float bits
  else if tag = 5 then .long number
  else if tag = 6 then .double bits
  else .ofTag tag a b

def readConstant (i : Item) : Option Constant := do
  let fs ← i.toFields? ["t", "s", "i", "f", "a", "b"]
  let entry (name : Text) : Item := Cbor.field fs name
  let tag ← (entry "t").toUInt8?
  let text ← (entry "s").toText?
  let number ← (entry "i").toInt64?
  let bits ← (entry "f").toDouble?
  let a ← (entry "a").toUInt16?
  let b ← (entry "b").toUInt16?
  some (constantOf tag text number bits a b)

def readField (i : Item) : Option Field := do
  let fs ← i.toFields? ["name", "desc", "flags", "cv"]
  some ⟨← (Cbor.field fs "name").toText?, ← (Cbor.field fs "desc").toText?,
    ⟨← (Cbor.field fs "flags").toUInt16?⟩, ← (Cbor.field fs "cv").toUInt16?⟩

def readHandler (i : Item) : Option Handler := do
  let fs ← i.toFields? ["start", "end", "handler", "catch"]
  some ⟨← (Cbor.field fs "start").toUInt16?, ← (Cbor.field fs "end").toUInt16?,
    ← (Cbor.field fs "handler").toUInt16?, ← (Cbor.field fs "catch").toText?⟩

def readLine (i : Item) : Option LineNumber := do
  let fs ← i.toFields? ["pc", "line"]
  some ⟨← (Cbor.field fs "pc").toUInt16?, ← (Cbor.field fs "line").toUInt16?⟩

def readCode (i : Item) : Option Code := do
  let fs ← i.toFields? ["stack", "locals", "bc", "handlers", "lines"]
  some ⟨← (Cbor.field fs "stack").toUInt16?, ← (Cbor.field fs "locals").toUInt16?,
    (← (Cbor.field fs "bc").toBytes?).toArray, ← (Cbor.field fs "handlers").toList? readHandler,
    ← (Cbor.field fs "lines").toList? readLine⟩

def readMethod (i : Item) : Option MethodInfo := do
  let fs ← i.toFields? ["name", "desc", "flags", "code", "throws"]
  let body := Cbor.field fs "code"
  let code ← if body.isNull then some none else (readCode body).map some
  some ⟨← (Cbor.field fs "name").toText?, ← (Cbor.field fs "desc").toText?,
    ⟨← (Cbor.field fs "flags").toUInt16?⟩, code, ← (Cbor.field fs "throws").toList? Item.toText?⟩

def readClass (i : Item) : Option ClassFile := do
  let fs ← i.toFields? ["minor", "major", "pool", "flags", "name", "super", "interfaces", "fields",
    "methods", "source"]
  some ⟨← (Cbor.field fs "minor").toUInt16?, ← (Cbor.field fs "major").toUInt16?,
    (← (Cbor.field fs "pool").toList? readConstant).toArray,
    ⟨← (Cbor.field fs "flags").toUInt16?⟩, ← (Cbor.field fs "name").toText?,
    ← (Cbor.field fs "super").toText?, ← (Cbor.field fs "interfaces").toList? Item.toText?,
    ← (Cbor.field fs "fields").toList? readField, ← (Cbor.field fs "methods").toList? readMethod,
    ← (Cbor.field fs "source").toText?⟩

/-- The classes of a bundle; a place may hold none. -/
def readPayload (i : Item) : Option (List (Option ClassFile)) := do
  let fs ← i.toFields? ["classes"]
  (Cbor.field fs "classes").toList? fun j =>
    if j.isNull then some none else (readClass j).map some

end Bundle

end ClassEngine
