import ClassEngine.Engine.Display

/-!
Stack traces: recording the active call chain on a throwable, and printing it. A trace leaves out
the frames that are only busy making the throwable.
-/

namespace ClassEngine

namespace Trace

open Exec Linking Resolution Allocation

def elementClass : Text := "java/lang/StackTraceElement"

/-- Whether a frame only makes the throwable: recording the trace, or running its constructors. -/
def isHidden (throwable : Option Ref) (f : Frame) : Bool :=
  f.method.name == ("fillInStackTrace" : Text) ||
    (f.method.name == MemberRef.constructorName && throwable.isSome &&
      f.locals[0]? == throwable.map Value.ref)

/-- The frames of a trace, innermost first. -/
def visibleFrames (throwable : Option Ref) (frames : List Frame) : List Frame :=
  frames.dropWhile (isHidden throwable)

/-- The line that a trace shows for a frame. -/
def lineOf (f : Frame) : Int32 :=
  if f.method.isNative then -2 else Int32.ofNat f.line

/-- The trace element of a frame. -/
def element (c : RuntimeClass) (f : Frame) : Exec Value := do
  let owner ← newString (Descriptor.sourceName f.method.owner)
  let method ← newString f.method.name
  let source := (← classAt f.method.owner).sourceFile
  let file : Value ← if source.isEmpty then pure Value.null else do
    let s ← newString source
    pure (Value.ref s)
  let r ← construct c "(Ljava/lang/String;Ljava/lang/String;Ljava/lang/String;I)V"
    [.ref owner, .ref method, file, .int (lineOf f)]
  pure (.ref r)

/-- Records the active call chain on a throwable. -/
def record (throwable : Option Ref) : Exec Value := do
  let frames := visibleFrames throwable (← get).frames
  let c ← loadClass elementClass
  let elements ← frames.mapM (element c)
  let trace ← newArrayOf (Descriptor.ofInternal elementClass) elements
  match throwable with
  | none => panic .broken
  | some r => do
    let name := Descriptor.className (← objectAt r).type
    let _ ← invoke name "setStackTrace" "([Ljava/lang/StackTraceElement;)V" [.ref r, .ref trace]
    pure (.ref r)

/-- The class of a throwable, followed by its message, if it has one. -/
def describe (throwable : Option Ref) : Exec Text := do
  match throwable with
  | none => panic .broken
  | some r => do
    let type := (← objectAt r).type
    let message ← invoke (Descriptor.className type) "getMessage" "()Ljava/lang/String;" [.ref r]
    match message with
    | .null => pure (Descriptor.sourceName type)
    | v => do
      let t ← hostText v
      pure (Descriptor.sourceName type ++ ": " ++ t)

/-- A string field of a trace element; a missing one is empty. -/
def elementField (o : Object) (name : Text) : Exec Text := do
  match o.getField elementClass name with
  | .null => pure []
  | v => hostText v

/-- The place inside a method that a trace element names. -/
def place (file : Text) (line : Int32) : Text :=
  if line = -2 then "Native Method"
  else if file.isEmpty then "Unknown Source"
  else if 0 < line then file ++ ":" ++ Text.ofInt line.toInt
  else file

/-- The text of a trace element. -/
def elementText (v : Value) : Exec Text := do
  match ← check (FrameM.asRef v) with
  | none => pure "null"
  | some r => do
    let o ← objectAt r
    let owner ← elementField o "declaringClass"
    let method ← elementField o "methodName"
    let file ← elementField o "fileName"
    let line : Int32 := match o.getField elementClass "lineNumber" with
      | .int n => n
      | _ => 0
    pure (owner ++ "." ++ method ++ "(" ++ place file line ++ ")")

/-- The lines of a recorded trace. -/
def elementLines : List Value → Exec Text
  | [] => pure []
  | v :: rest => do
    let t ← elementText v
    let more ← elementLines rest
    pure ("\tat " ++ t ++ "\n" ++ more)

/-- Writes to the guest's error stream. -/
def writeError (t : Text) : Exec Unit :=
  modify fun m => { m with errorOutput := m.errorOutput ++ t }

/-- Writes the description of a throwable and its trace to the error stream. -/
def print (throwable : Option Ref) : Exec Unit := do
  let head ← describe throwable
  match throwable with
  | none => panic .broken
  | some r => do
    let name := Descriptor.className (← objectAt r).type
    let trace ← invoke name "getStackTrace" "()[Ljava/lang/StackTraceElement;" [.ref r]
    let lines ← match ← check (FrameM.asRef trace) with
      | none => pure []
      | some a => do elementLines (← objectAt a).elements.toList
    writeError (head ++ "\n" ++ lines)

end Trace

end ClassEngine
