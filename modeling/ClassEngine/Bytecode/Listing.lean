import ClassEngine.Bytecode.Length
import ClassEngine.ClassFile.Pool
import ClassEngine.Text.Quoted
import ClassEngine.Decimal.Layout

/-!
Readable listings of method bodies: one instruction a line, branch targets as absolute addresses
and pool operands by name when a class is given.
-/

namespace ClassEngine

namespace Listing

/-- Numbers are written with the fewest digits that read back; more than six digits before the
point call for an exponent, as do more than three zeros behind it. -/
def number : Decimal.Layout where
  positionalFrom := -4
  positionalBelow := 6
  keepPoint := false
  mark := "e"
  plusSign := true
  exponentWidth := 2
  nan := "NaN"
  infinity := "+Inf"
  negativeInfinity := "-Inf"

/-- The pool entry at an index as an operand, by its number when it cannot be named. -/
def poolOperand (c : Option ClassFile) (index : UInt16) : Text :=
  let byNumber : Text := "#" ++ Text.ofNat index.toNat
  let orEmpty (r : Except PoolError Text) : Text := match r with
    | .ok t => t
    | .error _ => []
  match c with
  | none => byNumber
  | some c =>
    match c.constant index with
    | .ok (.link .classRef _ _) => orEmpty (c.className index)
    | .ok (.link .string _ _) => Quoted.quote (orEmpty (c.stringValue index))
    | .ok (.integer v) => Text.ofInt v.toInt
    | .ok (.long v) => Text.ofInt v.toInt
    | .ok (.float bits) => Decimal.textOf number .double bits.toNat
    | .ok (.double bits) => Decimal.textOf number .double bits.toNat
    | .ok (.link kind _ _) =>
      match kind.isMember, c.memberRef index with
      | true, .ok (owner, name, descriptor) =>
        owner ++ "." ++ name ++ (if kind = .fieldref then ":" else "") ++ descriptor
      | _, _ => byNumber
    | _ => byNumber

/-- Numbers separated by blanks, each with a blank before it. -/
def spaced (parts : List Text) : Text :=
  parts.flatMap fun p => 32 :: p

/-- The cases of a table switch, `key:target`, from address `p` on; `acc` holds the parts before
them in reverse order. -/
def tableCases (code : Array UInt8) (pc : Nat) (acc : List Text) : Nat → Int → Nat → Option Text
  | 0, _, _ => some acc.reverse.flatten
  | n + 1, key, p => do
    let offset ← Bytecode.s4At? code p
    let item := 32 :: Text.ofInt key ++ ":" ++ Text.ofInt (pc + offset.toInt)
    tableCases code pc (item :: acc) n (key + 1) (p + 4)

/-- The cases of a look-up switch, `key:target`, from address `p` on; `acc` holds the parts before
them in reverse order. -/
def lookupCases (code : Array UInt8) (pc : Nat) (acc : List Text) : Nat → Nat → Option Text
  | 0, _ => some acc.reverse.flatten
  | n + 1, p => do
    let key ← Bytecode.s4At? code p
    let offset ← Bytecode.s4At? code (p + 4)
    let item := 32 :: Text.ofInt key.toInt ++ ":" ++ Text.ofInt (pc + offset.toInt)
    lookupCases code pc (item :: acc) n (p + 8)

/-- The operands of an instruction at `pc`, or `none` when the code ends before them. -/
def operands (code : Array UInt8) (pc : Nat) (c : Option ClassFile) (op : Opcode) : Option Text :=
  let u1 (i : Nat) : Option Text := (Bytecode.byteAt? code (pc + i)).map fun b => Text.ofNat b.toNat
  let s1 (i : Nat) : Option Text :=
    (Bytecode.byteAt? code (pc + i)).map fun b => Text.ofInt b.toInt8.toInt
  let u2 (i : Nat) : Option Text := (Bytecode.u2At? code (pc + i)).map fun v => Text.ofNat v.toNat
  let s2 (i : Nat) : Option Text := (Bytecode.s2At? code (pc + i)).map fun v => Text.ofInt v.toInt
  let pool2 : Option Text := (Bytecode.u2At? code (pc + 1)).map (poolOperand c)
  match op with
  | .gotoW | .jsrW => do
    let offset ← Bytecode.s4At? code (pc + 1)
    pure (spaced [Text.ofInt (pc + offset.toInt)])
  | .bipush => do pure (spaced [← s1 1])
  | .sipush => do pure (spaced [← s2 1])
  | .ldc => do
    let i ← Bytecode.byteAt? code (pc + 1)
    pure (spaced [poolOperand c i.toUInt16])
  | .ldcW | .ldc2W | .getstatic | .putstatic | .getfield | .putfield | .invokevirtual
  | .invokespecial | .invokestatic | .invokeinterface | .invokedynamic | .newObject | .anewarray
  | .checkcast | .instanceof => do pure (spaced [← pool2])
  | .multianewarray => do
    let name ← pool2
    let dims ← u1 3
    pure (spaced [name, dims])
  | .newarray => do
    let code ← Bytecode.byteAt? code (pc + 1)
    pure (spaced [(arrayTypeDescriptor? code).getD []])
  | .iinc => do
    let slot ← u1 1
    let delta ← s1 2
    pure (spaced [slot, delta])
  | .wide => do
    let inner ← Bytecode.byteAt? code (pc + 1)
    let slot ← u2 2
    if inner = Opcode.iinc.byte then do
      let delta ← s2 4
      pure (spaced [Opcode.nameOf inner, slot, delta])
    else pure (spaced [Opcode.nameOf inner, slot])
  | .tableswitch => do
    let p := Bytecode.align (pc + 1)
    let low ← Bytecode.s4At? code (p + 4)
    let high ← Bytecode.s4At? code (p + 8)
    let dflt ← Bytecode.s4At? code p
    let head := 32 :: Text.ofInt low.toInt ++ ".." ++ Text.ofInt high.toInt ++ " default=" ++
      Text.ofInt (pc + dflt.toInt)
    tableCases code pc [head] (high.toInt - low.toInt + 1).toNat low.toInt (p + 12)
  | .lookupswitch => do
    let p := Bytecode.align (pc + 1)
    let pairs ← Bytecode.s4At? code (p + 4)
    let dflt ← Bytecode.s4At? code p
    lookupCases code pc [" default=" ++ Text.ofInt (pc + dflt.toInt)] pairs.toInt.toNat (p + 8)
  | op =>
    if op.isBranch then do
      let offset ← Bytecode.s2At? code (pc + 1)
      pure (spaced [Text.ofInt (pc + offset.toInt)])
    else if op.operands = .fixed 1 then do pure (spaced [← u1 1])
    else some []

/-- The address column of a line. -/
def address (pc : Nat) : Text :=
  Text.padZero 4 (Text.ofNat pc) ++ "  "

/-- The line of the instruction at `pc`, or `none` when the code ends before its operands. -/
def instruction (code : Array UInt8) (pc : Int) (c : Option ClassFile) : Option Text :=
  if pc < 0 then none
  else do
    let b ← Bytecode.byteAt? code pc.toNat
    match Opcode.ofByte? b with
    | none => pure (address pc.toNat ++ Opcode.nameOf b)
    | some op => do
      let rest ← operands code pc.toNat c op
      pure (address pc.toNat ++ op.mnemonic ++ rest)

/-- The lines from `pc` on. The first address without a whole instruction ends the listing with
its fault. -/
def linesFrom (code : Array UInt8) (c : Option ClassFile) (acc : List Text) :
    Nat → Nat → List Text
  | 0, _ => acc.reverse
  | fuel + 1, pc =>
    if code.size ≤ pc then acc.reverse
    else match Bytecode.length code pc with
      | .error e => ((address pc ++ "<" ++ e.message ++ ">") :: acc).reverse
      | .ok n => linesFrom code c ((instruction code pc c).getD [] :: acc) fuel (pc + n)

/-- A whole body, one instruction a line. -/
def listing (code : Array UInt8) (c : Option ClassFile) : Text :=
  Text.join [10] (linesFrom code c [] code.size 0)

end Listing

end ClassEngine
