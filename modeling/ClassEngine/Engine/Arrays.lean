import ClassEngine.Engine.Allocation

/-!
Arrays: allocation in several dimensions, shallow copies, element access and the check on stores of
references.
-/

namespace ClassEngine

namespace Arrays

open Exec Linking Resolution Allocation

/-- Runs a computation `n` times. -/
def replicateOnto (x : Exec Value) (acc : Array Value) : Nat → Exec (Array Value)
  | 0 => pure acc
  | n + 1 => do
    let v ← x
    replicateOnto x (acc.push v) n

/-- A new array of class `d` with a length for each of its outer dimensions. Each outer array is
allocated before its components; dimensions without a length stay null. -/
def build (d : Descriptor) : List Nat → Exec Ref
  | [] => panic .broken
  | [n] => allocate (.array d (Array.replicate n (Value.default (Descriptor.component d))))
  | n :: inner => do
    let r ← allocate (.array d (Array.replicate n .null))
    let c ← classFor (Descriptor.component d)
    let parts ← replicateOnto (do pure (.ref (← build c.descriptor inner))) #[] n
    modifyObject r fun o => { o with elements := parts }
    pure r

/-- A new array, unless a length is negative. -/
def alloc (d : Descriptor) (counts : List Int32) : Exec Ref := do
  match counts.find? (· < 0) with
  | some n => throwNew "java/lang/NegativeArraySizeException" (Text.ofInt n.toInt)
  | none => build d (counts.map fun n => n.toInt.toNat)

/-- A new array of class `c` with a length for every dimension. -/
def newArray (c : RuntimeClass) (counts : List Int32) : Exec Ref := do
  if !c.isArray then throw (.failure ("new array: " ++ c.name ++ " is not an array class"))
  let dims := Descriptor.dimensions c.descriptor
  if counts.length ≠ dims then
    throw (.failure ("new array: " ++ c.name ++ " has " ++ Text.ofNat dims ++ " dimensions, got " ++
      Text.ofNat counts.length ++ " counts"))
  alloc c.descriptor counts

/-- A shallow copy. Arrays can always be copied, other objects when their class allows it. -/
def clone (r : Option Ref) : Exec Ref := do
  let o ← objectOf r
  if !o.isArray then do
    if !(← instanceOf o "java/lang/Cloneable") then
      throwNew "java/lang/CloneNotSupportedException" (Descriptor.sourceName o.type)
  allocate (← objectOf r)

/-- Throws unless an object may be stored in an array with the given component type. -/
def checkStore (component : Descriptor) (r : Option Ref) : Exec Unit := do
  match r with
  | none => pure ()
  | some r => do
    let o ← objectAt r
    link component
    if !(← assignable o.type component) then
      throwNew "java/lang/ArrayStoreException" (Descriptor.sourceName o.type)

/-- Pops an index and an array and checks both. -/
def popElement : Exec (Ref × Nat) := do
  let index ← onFrame FrameM.popInt
  match ← onFrame FrameM.popRef with
  | none => throwNew "java/lang/NullPointerException" "cannot access element of null array"
  | some r => do
    let o ← objectAt r
    if !o.isArray then panic (.notArray (o.describe r))
    if index < 0 ∨ (o.elements.size : Int) ≤ index.toInt then
      throwNew "java/lang/ArrayIndexOutOfBoundsException" ("Index " ++ Text.ofInt index.toInt ++
        " out of bounds for length " ++ Text.ofNat o.elements.size)
    pure (r, index.toInt.toNat)

/-- Pushes an array element. -/
def load : Exec Unit := do
  let (r, i) ← popElement
  let o ← objectAt r
  onFrame (FrameM.push ((o.elements[i]?).getD .null))

/-- Pops a value and stores it in an array. -/
def store : Exec Unit := do
  let value ← onFrame FrameM.pop
  let (r, i) ← popElement
  let component := Descriptor.component (← objectAt r).type
  if !Descriptor.isPrimitive component then
    checkStore component (← check (FrameM.asRef value))
  modifyObject r fun o => { o with
    elements := o.elements.setIfInBounds i (Value.coerce component value) }

/-- Writes elements from index `i` on. -/
def overwrite (i : Nat) (vs : List Value) (elements : Array Value) : Array Value :=
  (vs.foldl (fun (p : Nat × Array Value) v => (p.1 + 1, p.2.setIfInBounds p.1 v)) (i, elements)).2

/-- Stores elements one by one, each after its check. -/
def storeEach (component : Descriptor) (dst : Ref) : Nat → List Value → Exec Unit
  | _, [] => pure ()
  | i, v :: rest => do
    checkStore component (← check (FrameM.asRef v))
    modifyObject dst fun o => { o with elements := o.elements.setIfInBounds i v }
    storeEach component dst (i + 1) rest

/-- Copies a range of an array, as if through a temporary. Between arrays of different reference
types each element is checked, and those before a rejected one stay copied. -/
def copy (src : Option Ref) (srcPos : Int32) (dst : Option Ref) (dstPos length : Int32) :
    Exec Unit := do
  match src, dst with
  | some s, some d => do
    let so ← objectAt s
    let target ← objectAt d
    if !so.isArray || !target.isArray then
      throwNew "java/lang/ArrayStoreException" "arraycopy: argument is not an array"
    let se := Descriptor.component so.type
    let te := Descriptor.component target.type
    if (Descriptor.isPrimitive se || Descriptor.isPrimitive te) && se != te then
      throwNew "java/lang/ArrayStoreException" ("arraycopy: type mismatch: can not copy " ++
        Descriptor.reflectName so.type ++ " into " ++ Descriptor.reflectName target.type)
    let fromPos := srcPos.toInt
    let toPos := dstPos.toInt
    let n := length.toInt
    if fromPos < 0 ∨ toPos < 0 ∨ n < 0 ∨ (so.elements.size : Int) < fromPos + n ∨
        (target.elements.size : Int) < toPos + n then
      throwNew "java/lang/ArrayIndexOutOfBoundsException" ("arraycopy: range [" ++
        Text.ofInt fromPos ++ ", " ++ Text.ofInt (fromPos + n) ++ ") -> [" ++ Text.ofInt toPos ++ ", " ++
        Text.ofInt (toPos + n) ++ ") out of bounds for lengths " ++ Text.ofNat so.elements.size ++
        " and " ++ Text.ofNat target.elements.size)
    let part := (so.elements.extract fromPos.toNat (fromPos + n).toNat).toList
    if !Descriptor.isPrimitive te && so.type != target.type then
      storeEach te d toPos.toNat part
    else modifyObject d fun o => { o with elements := overwrite toPos.toNat part o.elements }
  | _, _ => throwNew "java/lang/NullPointerException" "arraycopy of null array"

end Arrays

end ClassEngine
