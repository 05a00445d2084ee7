import ClassEngine.Engine.Frame

/-!
Local variables by operand, and transfer of control inside a method. Operands are read before the
stack is touched, except that a switch reads its table only as far as it needs.
-/

namespace ClassEngine

namespace FrameM

/-- The comparisons of conditional branches. -/
inductive Condition where
  | eq
  | ne
  | lt
  | ge
  | gt
  | le
  deriving DecidableEq

/-- Whether two ints satisfy a condition. -/
def Condition.holds (c : Condition) (a b : Int32) : Bool :=
  match c with
  | .eq => a == b
  | .ne => a != b
  | .lt => a < b
  | .ge => b ≤ a
  | .gt => b < a
  | .le => a ≤ b

/-- Branches if an int compares with zero as asked. -/
def branchInt (c : Condition) : FrameM Unit := do
  let offset ← s2
  let a ← popInt
  if c.holds a 0 then branch offset.toInt

/-- Branches if two ints compare as asked. -/
def branchInts (c : Condition) : FrameM Unit := do
  let offset ← s2
  let b ← popInt
  let a ← popInt
  if c.holds a b then branch offset.toInt

/-- Branches if two references are the same, or are not. -/
def branchRefs (same : Bool) : FrameM Unit := do
  let offset ← s2
  let b ← popRef
  let a ← popRef
  if (a == b) == same then branch offset.toInt

/-- Branches if a reference is null, or is not. -/
def branchNull (isNull : Bool) : FrameM Unit := do
  let offset ← s2
  let a ← popRef
  if a.isNone == isNull then branch offset.toInt

def goto : FrameM Unit := do
  let offset ← s2
  branch offset.toInt

def gotoWide : FrameM Unit := do
  let offset ← s4
  branch offset.toInt

/-- A switch over a range of keys. -/
def tableswitch : FrameM Unit := do
  align
  let dflt ← s4
  let low ← s4
  let high ← s4
  if high < low then fail (.emptyTable high low)
  let key ← popInt
  if key < low ∨ high < key then branch dflt.toInt
  else do
    skip (4 * (key - low).toInt)
    let offset ← s4
    branch offset.toInt

/-- Looks for a key among the next `n` pairs of a switch. -/
def lookupPairs (key : Int32) (dflt : Int) : Nat → FrameM Unit
  | 0 => branch dflt
  | n + 1 => do
    let candidate ← s4
    let offset ← s4
    if candidate = key then branch offset.toInt else lookupPairs key dflt n

/-- A switch over listed keys. -/
def lookupswitch : FrameM Unit := do
  align
  let dflt ← s4
  let pairs ← s4
  if pairs < 0 then fail (.negativePairs pairs)
  let key ← popInt
  lookupPairs key dflt.toInt pairs.toInt.toNat

/-- Adds to an int local. -/
def increment (slot : Nat) (delta : Int32) : FrameM Unit := do
  let v ← liftM (asInt (← load slot))
  store slot (.int (v + delta))

def iinc : FrameM Unit := do
  let slot ← u1
  let delta ← s1
  increment slot.toNat delta.toInt32

/-- Stores the top of the stack in a local. -/
def storeTop (slot : Nat) : FrameM Unit := do
  store slot (← pop)

/-- The wide form of a local variable instruction. -/
def wide : FrameM Unit := do
  let byte ← u1
  let slot ← u2
  match Opcode.ofByte? byte with
  | some .iload | some .lload | some .fload | some .dload | some .aload =>
    push (← load slot.toNat)
  | some .istore | some .lstore | some .fstore | some .dstore | some .astore =>
    storeTop slot.toNat
  | some .iinc => do
    let delta ← s2
    increment slot.toNat delta.toInt32
  | _ => fail (.noWideForm byte)

end FrameM

end ClassEngine
