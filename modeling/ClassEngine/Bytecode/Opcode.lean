import ClassEngine.Text.Basic

/-!
The instruction set: opcodes, their mnemonics and the sizes of their operands.
-/

namespace ClassEngine

/-- The defined instructions, in the order of their bytes from `0x00` to `0xc9`. -/
inductive Opcode where
  | nop | aconstNull | iconstM1 | iconst0 | iconst1 | iconst2 | iconst3 | iconst4 | iconst5
  | lconst0 | lconst1 | fconst0 | fconst1 | fconst2 | dconst0 | dconst1 | bipush | sipush | ldc
  | ldcW | ldc2W | iload | lload | fload | dload | aload | iload0 | iload1 | iload2 | iload3
  | lload0 | lload1 | lload2 | lload3 | fload0 | fload1 | fload2 | fload3 | dload0 | dload1
  | dload2 | dload3 | aload0 | aload1 | aload2 | aload3 | iaload | laload | faload | daload
  | aaload | baload | caload | saload | istore | lstore | fstore | dstore | astore | istore0
  | istore1 | istore2 | istore3 | lstore0 | lstore1 | lstore2 | lstore3 | fstore0 | fstore1
  | fstore2 | fstore3 | dstore0 | dstore1 | dstore2 | dstore3 | astore0 | astore1 | astore2
  | astore3 | iastore | lastore | fastore | dastore | aastore | bastore | castore | sastore
  | pop | pop2 | dup | dupX1 | dupX2 | dup2 | dup2X1 | dup2X2 | swap | iadd | ladd | fadd
  | dadd | isub | lsub | fsub | dsub | imul | lmul | fmul | dmul | idiv | ldiv | fdiv | ddiv
  | irem | lrem | frem | drem | ineg | lneg | fneg | dneg | ishl | lshl | ishr | lshr | iushr
  | lushr | iand | land | ior | lor | ixor | lxor | iinc | i2l | i2f | i2d | l2i | l2f | l2d
  | f2i | f2l | f2d | d2i | d2l | d2f | i2b | i2c | i2s | lcmp | fcmpl | fcmpg | dcmpl | dcmpg
  | ifeq | ifne | iflt | ifge | ifgt | ifle | ifIcmpeq | ifIcmpne | ifIcmplt | ifIcmpge
  | ifIcmpgt | ifIcmple | ifAcmpeq | ifAcmpne | goto | jsr | ret | tableswitch | lookupswitch
  | ireturn | lreturn | freturn | dreturn | areturn | returnVoid | getstatic | putstatic
  | getfield | putfield | invokevirtual | invokespecial | invokestatic | invokeinterface
  | invokedynamic | newObject | newarray | anewarray | arraylength | athrow | checkcast
  | instanceof | monitorenter | monitorexit | wide | multianewarray | ifnull | ifnonnull
  | gotoW | jsrW
  deriving DecidableEq, Hashable

namespace Opcode

/-- All opcodes, each at the position of its byte. -/
def all : Array Opcode := #[
  .nop, .aconstNull, .iconstM1, .iconst0, .iconst1, .iconst2, .iconst3, .iconst4, .iconst5,
  .lconst0, .lconst1, .fconst0, .fconst1, .fconst2, .dconst0, .dconst1, .bipush, .sipush, .ldc,
  .ldcW, .ldc2W, .iload, .lload, .fload, .dload, .aload, .iload0, .iload1, .iload2, .iload3,
  .lload0, .lload1, .lload2, .lload3, .fload0, .fload1, .fload2, .fload3, .dload0, .dload1,
  .dload2, .dload3, .aload0, .aload1, .aload2, .aload3, .iaload, .laload, .faload, .daload,
  .aaload, .baload, .caload, .saload, .istore, .lstore, .fstore, .dstore, .astore, .istore0,
  .istore1, .istore2, .istore3, .lstore0, .lstore1, .lstore2, .lstore3, .fstore0, .fstore1,
  .fstore2, .fstore3, .dstore0, .dstore1, .dstore2, .dstore3, .astore0, .astore1, .astore2,
  .astore3, .iastore, .lastore, .fastore, .dastore, .aastore, .bastore, .castore, .sastore,
  .pop, .pop2, .dup, .dupX1, .dupX2, .dup2, .dup2X1, .dup2X2, .swap, .iadd, .ladd, .fadd,
  .dadd, .isub, .lsub, .fsub, .dsub, .imul, .lmul, .fmul, .dmul, .idiv, .ldiv, .fdiv, .ddiv,
  .irem, .lrem, .frem, .drem, .ineg, .lneg, .fneg, .dneg, .ishl, .lshl, .ishr, .lshr, .iushr,
  .lushr, .iand, .land, .ior, .lor, .ixor, .lxor, .iinc, .i2l, .i2f, .i2d, .l2i, .l2f, .l2d,
  .f2i, .f2l, .f2d, .d2i, .d2l, .d2f, .i2b, .i2c, .i2s, .lcmp, .fcmpl, .fcmpg, .dcmpl, .dcmpg,
  .ifeq, .ifne, .iflt, .ifge, .ifgt, .ifle, .ifIcmpeq, .ifIcmpne, .ifIcmplt, .ifIcmpge,
  .ifIcmpgt, .ifIcmple, .ifAcmpeq, .ifAcmpne, .goto, .jsr, .ret, .tableswitch, .lookupswitch,
  .ireturn, .lreturn, .freturn, .dreturn, .areturn, .returnVoid, .getstatic, .putstatic,
  .getfield, .putfield, .invokevirtual, .invokespecial, .invokestatic, .invokeinterface,
  .invokedynamic, .newObject, .newarray, .anewarray, .arraylength, .athrow, .checkcast,
  .instanceof, .monitorenter, .monitorexit, .wide, .multianewarray, .ifnull, .ifnonnull,
  .gotoW, .jsrW]

/-- The mnemonics, each at the position of its opcode's byte. -/
def mnemonics : Array String := #[
  "nop", "aconst_null", "iconst_m1", "iconst_0", "iconst_1", "iconst_2", "iconst_3",
  "iconst_4", "iconst_5", "lconst_0", "lconst_1", "fconst_0", "fconst_1", "fconst_2",
  "dconst_0", "dconst_1", "bipush", "sipush", "ldc", "ldc_w", "ldc2_w", "iload", "lload",
  "fload", "dload", "aload", "iload_0", "iload_1", "iload_2", "iload_3", "lload_0", "lload_1",
  "lload_2", "lload_3", "fload_0", "fload_1", "fload_2", "fload_3", "dload_0", "dload_1",
  "dload_2", "dload_3", "aload_0", "aload_1", "aload_2", "aload_3", "iaload", "laload",
  "faload", "daload", "aaload", "baload", "caload", "saload", "istore", "lstore", "fstore",
  "dstore", "astore", "istore_0", "istore_1", "istore_2", "istore_3", "lstore_0", "lstore_1",
  "lstore_2", "lstore_3", "fstore_0", "fstore_1", "fstore_2", "fstore_3", "dstore_0",
  "dstore_1", "dstore_2", "dstore_3", "astore_0", "astore_1", "astore_2", "astore_3",
  "iastore", "lastore", "fastore", "dastore", "aastore", "bastore", "castore", "sastore",
  "pop", "pop2", "dup", "dup_x1", "dup_x2", "dup2", "dup2_x1", "dup2_x2", "swap", "iadd",
  "ladd", "fadd", "dadd", "isub", "lsub", "fsub", "dsub", "imul", "lmul", "fmul", "dmul",
  "idiv", "ldiv", "fdiv", "ddiv", "irem", "lrem", "frem", "drem", "ineg", "lneg", "fneg",
  "dneg", "ishl", "lshl", "ishr", "lshr", "iushr", "lushr", "iand", "land", "ior", "lor",
  "ixor", "lxor", "iinc", "i2l", "i2f", "i2d", "l2i", "l2f", "l2d", "f2i", "f2l", "f2d", "d2i",
  "d2l", "d2f", "i2b", "i2c", "i2s", "lcmp", "fcmpl", "fcmpg", "dcmpl", "dcmpg", "ifeq",
  "ifne", "iflt", "ifge", "ifgt", "ifle", "if_icmpeq", "if_icmpne", "if_icmplt", "if_icmpge",
  "if_icmpgt", "if_icmple", "if_acmpeq", "if_acmpne", "goto", "jsr", "ret", "tableswitch",
  "lookupswitch", "ireturn", "lreturn", "freturn", "dreturn", "areturn", "return", "getstatic",
  "putstatic", "getfield", "putfield", "invokevirtual", "invokespecial", "invokestatic",
  "invokeinterface", "invokedynamic", "new", "newarray", "anewarray", "arraylength", "athrow",
  "checkcast", "instanceof", "monitorenter", "monitorexit", "wide", "multianewarray", "ifnull",
  "ifnonnull", "goto_w", "jsr_w"]

/-- The instruction byte. -/
def byte (op : Opcode) : UInt8 :=
  op.ctorIdx.toUInt8

/-- The opcode of an instruction byte, if it is defined. -/
def ofByte? (b : UInt8) : Option Opcode :=
  all[b.toNat]?

/-- The name under which an instruction is written. -/
def mnemonic (op : Opcode) : Text :=
  (mnemonics[op.ctorIdx]?).getD ""

/-- The opcode with a given mnemonic. -/
def ofMnemonic? (name : String) : Option Opcode :=
  (mnemonics.findIdx? (· == name)).bind (all[·]?)

/-- How many operand bytes follow an opcode. -/
inductive Operands where
  | fixed (bytes : Nat)
  /-- The length depends on alignment or on the modified instruction. -/
  | varying
  deriving DecidableEq

/-- The operands of an opcode. -/
def operands : Opcode → Operands
  | .tableswitch | .lookupswitch | .wide => .varying
  | .bipush | .ldc | .iload | .lload | .fload | .dload | .aload | .istore | .lstore | .fstore
  | .dstore | .astore | .ret | .newarray => .fixed 1
  | .sipush | .ldcW | .ldc2W | .iinc | .ifeq | .ifne | .iflt | .ifge | .ifgt | .ifle
  | .ifIcmpeq | .ifIcmpne | .ifIcmplt | .ifIcmpge | .ifIcmpgt | .ifIcmple | .ifAcmpeq
  | .ifAcmpne | .goto | .jsr | .getstatic | .putstatic | .getfield | .putfield | .invokevirtual
  | .invokespecial | .invokestatic | .newObject | .anewarray | .checkcast | .instanceof
  | .ifnull | .ifnonnull => .fixed 2
  | .multianewarray => .fixed 3
  | .invokeinterface | .invokedynamic | .gotoW | .jsrW => .fixed 4
  | _ => .fixed 0

/-- Whether the operand is a branch offset relative to the instruction. -/
def isBranch : Opcode → Bool
  | .ifeq | .ifne | .iflt | .ifge | .ifgt | .ifle | .ifIcmpeq | .ifIcmpne | .ifIcmplt
  | .ifIcmpge | .ifIcmpgt | .ifIcmple | .ifAcmpeq | .ifAcmpne | .goto | .jsr | .ifnull
  | .ifnonnull | .gotoW | .jsrW => true
  | _ => false

/-- Whether an instruction byte leaves the frame normally. -/
def isReturn (b : UInt8) : Bool :=
  0xac ≤ b && b ≤ 0xb1

/-- The mnemonic of an instruction byte; undefined ones are named by their number. -/
def nameOf (b : UInt8) : Text :=
  match ofByte? b with
  | some op => op.mnemonic
  | none => "unknown_" ++ Text.padZero 2 (Text.hex b.toNat)

end Opcode

/-- The element descriptor of a type code of the primitive array instruction. -/
def arrayTypeDescriptor? : UInt8 → Option Text
  | 4 => some "Z"
  | 5 => some "C"
  | 6 => some "F"
  | 7 => some "D"
  | 8 => some "B"
  | 9 => some "S"
  | 10 => some "I"
  | 11 => some "J"
  | _ => none

end ClassEngine
