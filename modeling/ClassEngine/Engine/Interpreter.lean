import ClassEngine.Engine.Step
import ClassEngine.Engine.Native.Call

/-!
Running methods: laying out the locals of a frame, the execution loop with its search for exception
handlers, and the guard on the depth of the call chain.
-/

namespace ClassEngine

namespace Interpreter

open Exec Linking Resolution Allocation

/-- The arguments in their slots: each cut down to its type, a wide one twice. -/
def argumentSlots : List Descriptor → List Value → List Value
  | t :: ts, v :: vs =>
    let w := Value.coerce t v
    (if Descriptor.isWide t then [w, w] else [w]) ++ argumentSlots ts vs
  | _, _ => []

/-- The locals at the start of a method: the receiver, if there is one, then the arguments, then
nulls up to the declared number; `none` for a wrong number of arguments. -/
def layoutLocals (m : Method) (args : List Value) : Option (Array Value) :=
  let receiver := if m.isStatic then 0 else 1
  if args.length ≠ m.signature.arguments.length + receiver then none
  else
    let slots := args.take receiver ++ argumentSlots m.signature.arguments (args.drop receiver)
    let declared := m.code.elim 0 fun c => c.maxLocals.toNat
    some ((slots ++ List.replicate (declared - slots.length) Value.null).toArray)

/-- Reads the next opcode. -/
def fetch : Exec UInt8 := do
  let f ← currentFrame
  if (f.bytecode.size : Int) ≤ f.pc then
    giveUp (.malformed ⟨f.method.text, f.pc, "execution ran past end of code", none⟩)
  note (.executing f.method.owner)
  onFrame (modify fun f => { f with opPc := f.pc })
  onFrame FrameM.u1

/-- The first handler that covers the current instruction and accepts the class of an object. -/
def findHandler (pc : Int) (type : Descriptor) : List Handler → Exec (Option Handler)
  | [] => pure none
  | h :: rest => do
    if !h.covers pc then findHandler pc type rest
    else if h.catchType.isEmpty then pure (some h)
    else do
      let _ ← loadClass h.catchType
      if ← assignable type (Descriptor.ofInternal h.catchType) then pure (some h)
      else findHandler pc type rest

/-- Continues at a handler for a thrown object, which becomes the whole stack; without a handler the
object stays thrown. -/
def resume (r : Ref) : Option Handler → Exec Outcome
  | none => throw (.thrown r)
  | some h => do
    mark
    onFrame (modify fun f => { f with stack := [.ref r], pc := h.target.toNat })
    pure .next

/-- Looks for a handler for a thrown object. What the search throws is not handled in this frame. -/
def dispatch (r : Ref) : Exec Outcome := do
  let f ← currentFrame
  let handlers := f.method.code.elim [] Code.handlers
  match ← attempt (findHandler f.opPc (← objectAt r).type handlers) with
  | .ok found => resume r found
  | .error (.thrown other) => do
    note (.abandoned other (← get).frames)
    throw (.thrown other)
  | .error e => throw e

/-- Takes up what the current instruction has thrown. -/
def handle (r : Ref) : Exec Outcome := do
  note (.arrived r (← get).frames)
  dispatch r

/-- Executes one instruction, or moves to the handler of what it throws. -/
def advance : Exec Outcome := do
  let byte ← fetch
  match ← attempt (Step.run byte) with
  | .ok o => pure o
  | .error (.thrown r) => handle r
  | .error e => throw e

/-- Executes instructions until the method returns. -/
def loop : Nat → Exec Value
  | 0 => throw .exhausted
  | fuel + 1 => fun ctx m =>
    match advance ctx m with
    | .ok .next m' => loop fuel ctx m'
    | .ok (.result v) m' => .ok v m'
    | .error e m' => .error e m'

/-- Blames a fault on the current instruction. -/
def blame (f : Fault) : Exec Value := do
  let frame ← currentFrame
  let cause := if f = .stackUnderflow then some Cause.underflow else none
  giveUp (.malformed ⟨frame.method.text, frame.opPc, f.message, cause⟩)

/-- Executes the innermost frame. A fault in it, or in a native that it called, is the fault of its
code. -/
def execute : Exec Value := do
  match ← attempt (loop (← read).fuel) with
  | .ok v => pure v
  | .error (.panic f) => blame f
  | .error e => throw e

/-- Runs a computation on top of a new frame, which is gone afterwards however it ends. -/
def withFrame {α : Type} (f : Frame) (x : Exec α) : Exec α := fun ctx m =>
  let callers := m.frames
  match x ctx { m with frames := f :: callers } with
  | .ok a m' => .ok a { m' with frames := callers }
  | .error (.thrown r) m' =>
    .error (.thrown r) ({ m' with frames := callers }.note (.unwound r callers))
  | .error e m' => .error e { m' with frames := callers }

/-- Throws the error for too deep a call chain; the guard is lifted while it is made. -/
def stackOverflow {α : Type} : Exec α := fun ctx m =>
  match throwNew "java/lang/StackOverflowError" "" ctx { m with handlingOverflow := true } with
  | .ok a m' => .ok a { m' with handlingOverflow := false }
  | .error e m' => .error e { m' with handlingOverflow := false }

/-- Counts a run of a method, if there is a profiler. -/
def profile (m : Method) : Exec Unit :=
  modify fun s =>
    match s.profiler with
    | none => s
    | some p =>
      let (hot, p') := p.record m
      { s with profiler := some p', becameHot := if hot then m.text :: s.becameHot else s.becameHot }

/-- Runs the body of a method in its frame. -/
def runBody (m : Method) (locals : Array Value) : Exec Value := do
  profile m
  if m.isNative then Native.call m locals
  else if (m.code.elim 0 fun c => c.bytecode.size) = 0 then
    giveUp (.malformed ⟨m.text, 0, "method has no code", none⟩)
  else execute

/-- Runs a method in a new frame on top of the active ones. -/
def activate (m : Method) (args : List Value) : Exec Value := do
  match layoutLocals m args with
  | none =>
    let want := m.signature.arguments.length + (if m.isStatic then 0 else 1)
    throw (.failure (m.text ++ ": expected " ++ Text.ofNat want ++ " arguments, got " ++
      Text.ofNat args.length))
  | some locals => do
    withFrame (Frame.enter m locals (← get).frames) (runBody m locals)

/-- Whether one more frame is one too many. -/
def atLimit : Exec Bool := do
  let s ← get
  let depth : Int := (s.frames.head?.elim 0 Frame.depth) + 1
  pure (s.maxDepth < depth && !s.handlingOverflow)

/-- Runs a method on top of the active frames. -/
def invoke (m : Method) (args : List Value) : Exec Value := do
  if m.flags.isAbstract then unresolved .method m.text (some "abstract method invoked")
  else if ← atLimit then stackOverflow
  else activate m args

end Interpreter

end ClassEngine
