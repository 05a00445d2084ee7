import ClassEngine.Bytecode.Opcode

/-!
The size of an instruction in a body, operands and switch padding included. A size is given only
when all its bytes are there.
-/

namespace ClassEngine

namespace Bytecode

/-- Why there is no whole instruction at an address. -/
inductive LengthError where
  | outside (pc : Int) (size : Nat)
  | unknownOpcode (byte : UInt8) (pc : Nat)
  | truncated (name : Text) (pc : Nat)
  | emptyTable (pc : Nat) (high low : Int32)
  | negativePairs (pc : Nat)
  deriving DecidableEq

/-- The wording of the fault. -/
def LengthError.message : LengthError → Text
  | outside pc size =>
    "pc " ++ Text.ofInt pc ++ " outside code of length " ++ Text.ofNat size
  | unknownOpcode byte pc =>
    "unknown opcode 0x" ++ Text.padZero 2 (Text.hex byte.toNat) ++ " at pc " ++ Text.ofNat pc
  | truncated name pc => "truncated " ++ name ++ " at pc " ++ Text.ofNat pc
  | emptyTable pc high low =>
    "tableswitch at pc " ++ Text.ofNat pc ++ ": high " ++ Text.ofInt high.toInt ++ " < low " ++
      Text.ofInt low.toInt
  | negativePairs pc => "lookupswitch at pc " ++ Text.ofNat pc ++ ": negative pair count"

/-- A byte of the code. -/
def byteAt? (code : Array UInt8) (i : Nat) : Option UInt8 :=
  code[i]?

/-- A big-endian number of two bytes. -/
def u2At? (code : Array UInt8) (i : Nat) : Option UInt16 := do
  let a ← byteAt? code i
  let b ← byteAt? code (i + 1)
  pure (a.toNat * 256 + b.toNat).toUInt16

/-- A big-endian signed number of two bytes. -/
def s2At? (code : Array UInt8) (i : Nat) : Option Int16 :=
  (u2At? code i).map UInt16.toInt16

/-- A big-endian signed number of four bytes. -/
def s4At? (code : Array UInt8) (i : Nat) : Option Int32 := do
  let hi ← u2At? code i
  let lo ← u2At? code (i + 2)
  pure (hi.toNat * 65536 + lo.toNat).toUInt32.toInt32

/-- The next multiple of four, where the operands of a switch begin. -/
def align (p : Nat) : Nat :=
  (p + 3) / 4 * 4

/-- The size that the instruction at `pc` claims, before it is compared with the code. -/
def claimedLength (code : Array UInt8) (pc : Nat) (op : Opcode) : Except LengthError Nat :=
  match op with
  | .wide =>
    match byteAt? code (pc + 1) with
    | none => .error (.truncated "wide" pc)
    | some b => .ok (if b = Opcode.iinc.byte then 6 else 4)
  | .tableswitch =>
    let p := align (pc + 1)
    match s4At? code (p + 4), s4At? code (p + 8) with
    | some low, some high =>
      if high < low then .error (.emptyTable pc high low)
      else .ok (p + 12 + 4 * (high.toInt - low.toInt + 1).toNat - pc)
    | _, _ => .error (.truncated "tableswitch" pc)
  | .lookupswitch =>
    let p := align (pc + 1)
    match s4At? code (p + 4) with
    | some pairs =>
      if pairs < 0 then .error (.negativePairs pc) else .ok (p + 8 + 8 * pairs.toInt.toNat - pc)
    | none => .error (.truncated "lookupswitch" pc)
  | op => match op.operands with
    | .fixed n => .ok (1 + n)
    | .varying => .ok 1

/-- The size of the instruction at `pc`. -/
def length (code : Array UInt8) (pc : Int) : Except LengthError Nat :=
  if pc < 0 then .error (.outside pc code.size)
  else match byteAt? code pc.toNat with
    | none => .error (.outside pc code.size)
    | some b =>
      match Opcode.ofByte? b with
      | none => .error (.unknownOpcode b pc.toNat)
      | some op => do
        let n ← claimedLength code pc.toNat op
        if code.size < pc.toNat + n then .error (.truncated op.mnemonic pc.toNat) else .ok n

end Bytecode

end ClassEngine
