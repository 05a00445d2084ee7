import ClassEngine.Engine.View
import ClassEngine.Engine.Native.Builtin

/-!
Running a native method in its own frame.
-/

namespace ClassEngine

namespace Native

open Exec Linking Resolution Allocation

def note (n : Note) : Exec Unit :=
  modify fun m => { m with notes := n :: m.notes }

/-- What is noted of a frame. -/
def frameView (f : Frame) : FrameView :=
  ⟨f.text, f.depth, f.line, f.method.isNative⟩

/-- Runs a native on its locals. -/
def run (n : Native) (locals : Array Value) : Exec Value :=
  match n with
  | builtin b => b.run locals
  | constant v => pure v
  | noteLocals v => do
    let m ← get
    note (.locals (locals.toList.map (m.view 1)))
    pure v
  | noteFrames v => do
    let m ← get
    note (.frames (m.frames.map frameView))
    pure v
  | fail message => throw (.failure message)
  | forward owner name descriptor => invoke owner name descriptor locals.toList
  | throwNew owner => do
    let c ← loadClass owner
    let r ← construct c "()V" []
    throw (.thrown r)

/-- Runs the native bound to a method; its result is cut down to the declared type. -/
def call (method : Method) (locals : Array Value) : Exec Value := do
  mark
  match (← get).natives.find? method.ownerName method.name method.descriptor with
  | none =>
    unresolved .native
      (method.text ++ " (" ++ mangle method.ownerName method.name ++ ")") none
  | some n => do
    let result ← n.run locals
    if Descriptor.isVoid method.signature.result then pure .null
    else pure (Value.coerce method.signature.result result)

end Native

end ClassEngine
