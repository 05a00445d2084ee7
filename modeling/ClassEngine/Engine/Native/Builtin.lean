import ClassEngine.Text.Digits
import ClassEngine.Numeric.Power
import ClassEngine.Engine.Arrays
import ClassEngine.Engine.Trace

/-!
What the natives of the bootstrap library do. A native gets its arguments laid out like the locals
of a frame: the receiver first, a long or double in two slots.
-/

namespace ClassEngine

namespace Builtin

open Exec Linking Resolution Allocation

/-- An argument slot. -/
def arg (locals : Array Value) (i : Nat) : Exec Value :=
  match locals[i]? with
  | some v => pure v
  | none => panic .broken

def argInt (locals : Array Value) (i : Nat) : Exec Int32 := do
  check (FrameM.asInt (← arg locals i))

def argRef (locals : Array Value) (i : Nat) : Exec (Option Ref) := do
  check (FrameM.asRef (← arg locals i))

def argLong (locals : Array Value) (i : Nat) : Exec Int64 := do
  Display.asLong (← arg locals i)

def argDouble (locals : Array Value) (i : Nat) : Exec UInt64 := do
  Display.asDouble (← arg locals i)

/-- A reference that must not be null. -/
def argObject (locals : Array Value) (i : Nat) : Exec Ref := do
  match ← argRef locals i with
  | some r => pure r
  | none => panic .broken

/-- A new guest string as a result. -/
def stringResult (t : Text) : Exec Value := do
  pure (.ref (← newString t))

/-- The class name and the hash that the object itself gives. -/
def objectString (r : Ref) : Exec Value := do
  let type := (← objectAt r).type
  let hash ← invoke (Descriptor.className type) "hashCode" "()I" [.ref r]
  let n ← check (FrameM.asInt hash)
  stringResult (Descriptor.reflectName type ++ "@" ++ Text.hex n.toUInt32.toNat)

/-- The text of a class mirror. -/
def classString (c : RuntimeClass) : Exec Value :=
  let name := Descriptor.reflectName c.descriptor
  if c.isPrimitive then stringResult name
  else if c.isInterface then stringResult ("interface " ++ name)
  else stringResult ("class " ++ name)

/-- Reads an int from a guest string. -/
def parseIntOf (v : Value) : Exec Value := do
  match v with
  | .null => throwNew "java/lang/NumberFormatException" "Cannot parse null string: null"
  | v => do
    let t ← hostText v
    match Text.decimalInt? t with
    | some n =>
      if (Int32.ofInt n).toInt = n then pure (.int (Int32.ofInt n))
      else throwNew "java/lang/NumberFormatException" ("For input string: " ++ Quoted.quote t)
    | none => throwNew "java/lang/NumberFormatException" ("For input string: " ++ Quoted.quote t)

/-- Whether two references are to strings with the same contents. -/
def stringsEqual (self other : Option Ref) : Exec Bool := do
  if self == other then pure true
  else match other with
    | none => pure false
    | some o => do
      let a ← objectOf self
      let b ← objectAt o
      if a.type != b.type then pure false
      else do
        let s ← hostText (self.elim .null .ref)
        let t ← hostText (.ref o)
        pure (s == t)

/-- The unit at an index of a string. -/
def charAt (t : Text) (i : Int32) : Exec Value :=
  let units := Utf16.units t
  match (if i < 0 then none else units[i.toInt.toNat]?) with
  | some u => pure (.int (Int32.ofNat u.toNat))
  | none =>
    throwNew "java/lang/StringIndexOutOfBoundsException"
      ("Index " ++ Text.ofInt i.toInt ++ " out of bounds for length " ++ Text.ofNat units.length)

/-- The number of units of a text, as an int. -/
def unitCount (t : Text) : Value :=
  .int (Int32.ofNat (Utf16.units t).length)

/-- The buffer of a string builder, made on first use. -/
def bufferOf (r : Ref) : Exec Nat := do
  match (← objectAt r).payload with
  | .buffer n => pure n
  | _ => do
    let n := (← get).buffers.size
    modify fun m => { m with buffers := m.buffers.push [] }
    modifyObject r fun o => { o with payload := .buffer n }
    pure n

/-- Appends to the buffer of a string builder. -/
def appendTo (r : Ref) (t : Text) : Exec Unit := do
  let n ← bufferOf r
  modify fun m => { m with buffers := m.buffers.modify n fun b => b ++ t }

/-- The contents of a string builder. -/
def bufferText (r : Ref) : Exec Text := do
  let n ← bufferOf r
  pure (((← get).buffers[n]?).getD [])

/-- Writes to the stream that a print stream stands for: the error stream for descriptor 2, else the
output. -/
def writeTo (stream : Ref) (t : Text) : Exec Unit := do
  let o ← objectAt stream
  if o.getField "java/io/PrintStream" "fd" = .int 2 then Trace.writeError t
  else modify fun m => { m with output := m.output ++ t }

/-- Runs a built-in native on its locals. -/
def run (b : Builtin) (locals : Array Value) : Exec Value :=
  match b with
  | objectHashCode => do
    pure (.int (Int32.ofNat (← argObject locals 0).number))
  | objectGetClass => do
    let r ← argObject locals 0
    pure (.ref (← classMirror (← objectAt r).type))
  | objectClone => do
    pure (.ref (← Arrays.clone (← argRef locals 0)))
  | objectToString => do
    objectString (← argObject locals 0)
  | arraycopy => do
    let src ← argRef locals 0
    let srcPos ← argInt locals 1
    let dst ← argRef locals 2
    let dstPos ← argInt locals 3
    let length ← argInt locals 4
    Arrays.copy src srcPos dst dstPos length
    pure .null
  | currentTimeMillis => do
    pure (.long (← read).host.currentTimeMillis)
  | nanoTime => do
    pure (.long (← read).host.nanoTime)
  | identityHashCode => do
    match ← argRef locals 0 with
    | none => pure (.int 0)
    | some r => pure (.int (Int32.ofNat r.number))
  | classIsInterface => do
    pure (Value.ofBool (← mirroredClass (← argRef locals 0)).isInterface)
  | classIsArray => do
    pure (Value.ofBool (← mirroredClass (← argRef locals 0)).isArray)
  | classToString => do
    classString (← mirroredClass (← argRef locals 0))
  | fillInStackTrace => do
    Trace.record (← argRef locals 0)
  | printStackTrace => do
    Trace.print (← argRef locals 0)
    pure .null
  | throwableToString => do
    stringResult (← Trace.describe (← argRef locals 0))
  | parseInt => do
    parseIntOf (← arg locals 0)
  | intToString => do
    stringResult (Text.ofInt (← argInt locals 0).toInt)
  | absInt => do
    let x ← argInt locals 0
    pure (.int (if x < 0 then -x else x))
  | absLong => do
    let x ← argLong locals 0
    pure (.long (if x < 0 then -x else x))
  | absDouble => do
    pure (.double (Ieee.abs (← argDouble locals 0)))
  | maxInt => do
    let x ← argInt locals 0
    let y ← argInt locals 1
    pure (.int (if x < y then y else x))
  | minInt => do
    let x ← argInt locals 0
    let y ← argInt locals 1
    pure (.int (if y < x then y else x))
  | maxLong => do
    let x ← argLong locals 0
    let y ← argLong locals 2
    pure (.long (if x < y then y else x))
  | minLong => do
    let x ← argLong locals 0
    let y ← argLong locals 2
    pure (.long (if y < x then y else x))
  | maxDouble => do
    let x ← argDouble locals 0
    let y ← argDouble locals 2
    pure (.double (Ieee.max x y))
  | minDouble => do
    let x ← argDouble locals 0
    let y ← argDouble locals 2
    pure (.double (Ieee.min x y))
  | sqrt => do
    pure (.double (Ieee.sqrt (← argDouble locals 0)))
  | pow => do
    let x ← argDouble locals 0
    let y ← argDouble locals 2
    pure (.double (Ieee.power x y))
  | stringIntern => do
    let r ← argRef locals 0
    intern (r.elim .null .ref)
  | stringEquals => do
    let self ← argRef locals 0
    let other ← argRef locals 1
    pure (Value.ofBool (← stringsEqual self other))
  | stringHashCode => do
    pure (.int (Utf16.hash (← hostText (← arg locals 0))))
  | stringLength => do
    pure (unitCount (← hostText (← arg locals 0)))
  | stringIsEmpty => do
    pure (Value.ofBool (← hostText (← arg locals 0)).isEmpty)
  | stringCharAt => do
    let t ← hostText (← arg locals 0)
    let i ← argInt locals 1
    charAt t i
  | stringConcat => do
    match ← arg locals 1 with
    | .null => throwNew "java/lang/NullPointerException" "concat of null"
    | other => do
      let s ← hostText (← arg locals 0)
      let t ← hostText other
      stringResult (s ++ t)
  | stringValueOf type => do
    stringResult (← Display.valueText type (← arg locals 0))
  | builderInit => do
    let _ ← bufferOf (← argObject locals 0)
    pure .null
  | builderInitString => do
    let t ← hostText (← arg locals 1)
    appendTo (← argObject locals 0) t
    pure .null
  | builderAppend type => do
    let self ← argRef locals 0
    let t ← Display.valueText type (← arg locals 1)
    match self with
    | none => panic .broken
    | some r => do
      appendTo r t
      pure (.ref r)
  | builderLength => do
    pure (unitCount (← bufferText (← argObject locals 0)))
  | builderToString => do
    stringResult (← bufferText (← argObject locals 0))
  | print type newline => do
    let t ← Display.valueText type (← arg locals 1)
    writeTo (← argObject locals 0) (if newline then t ++ "\n" else t)
    pure .null
  | printNewline => do
    writeTo (← argObject locals 0) "\n"
    pure .null
  | writeByte => do
    let stream ← argObject locals 0
    let b ← argInt locals 1
    writeTo stream [b.toUInt32.toUInt8]
    pure .null
  | flush => pure .null

end Builtin

end ClassEngine
