import ClassEngine.Engine.Frame

/-!
Instructions that rearrange the operand stack. A long or double is one entry of this stack, so each
form is chosen by the sizes of the values it meets.
-/

namespace ClassEngine

namespace FrameM

/-- The stack instructions. -/
inductive StackOp where
  | pop
  | pop2
  | dup
  | dupX1
  | dupX2
  | dup2
  | dup2X1
  | dup2X2
  | swap
  deriving DecidableEq

/-- Executes a stack instruction. -/
def stackOp : StackOp → FrameM Unit
  | .pop => do
    let _ ← pop
    pure ()
  | .pop2 => do
    let v1 ← pop
    if v1.isWide then pure ()
    else do
      let _ ← pop
      pure ()
  | .dup => do
    push (← peek)
  | .dupX1 => do
    let v1 ← pop
    let v2 ← pop
    pushAll [v1, v2, v1]
  | .dupX2 => do
    let v1 ← pop
    let v2 ← pop
    if v2.isWide then pushAll [v1, v2, v1]
    else do
      let v3 ← pop
      pushAll [v1, v3, v2, v1]
  | .dup2 => do
    let v1 ← pop
    if v1.isWide then pushAll [v1, v1]
    else do
      let v2 ← pop
      pushAll [v2, v1, v2, v1]
  | .dup2X1 => do
    let v1 ← pop
    let v2 ← pop
    if v1.isWide then pushAll [v1, v2, v1]
    else do
      let v3 ← pop
      pushAll [v2, v1, v3, v2, v1]
  | .dup2X2 => do
    let v1 ← pop
    let v2 ← pop
    if v1.isWide then
      if v2.isWide then pushAll [v1, v2, v1]
      else do
        let v3 ← pop
        pushAll [v1, v3, v2, v1]
    else do
      let v3 ← pop
      if v3.isWide then pushAll [v2, v1, v3, v2, v1]
      else do
        let v4 ← pop
        pushAll [v2, v1, v4, v3, v2, v1]
  | .swap => do
    let v1 ← pop
    let v2 ← pop
    pushAll [v1, v2]

end FrameM

end ClassEngine
