import ClassEngine.Library.Basic

/-!
The core classes of the bootstrap library. What needs the engine is declared native; all else is
bytecode.
-/

namespace ClassEngine

namespace Library

/-- The root class. -/
def objectClass : ClassSource :=
  describe objectName [] openClass [] [] [
    method publicFlag "<init>" "()V" 0 1 [.plain .returnVoid],
    method publicFlag "equals" ("(" ++ objectType ++ ")Z") 2 2 [
      .plain .aload0, .plain .aload1, .jump .ifAcmpne "differ",
      .plain .iconst1, .plain .ireturn,
      .label "differ", .plain .iconst0, .plain .ireturn],
    native publicFlag "hashCode" "()I",
    native (publicFlag.adding AccessFlags.finalBit) "getClass" ("()" ++ typeOf className),
    native publicFlag "toString" ("()" ++ stringType),
    native ⟨AccessFlags.protectedBit⟩ "clone" ("()" ++ objectType)]

def charSequence : ClassSource :=
  describe charSequenceName objectName interfaceClass [] [] [
    abstract "length" "()I",
    abstract "charAt" "(I)C"]

/-- Copies a range between arrays. -/
def arraycopyType : Text := "(" ++ objectType ++ "I" ++ objectType ++ "II)V"

/-- Strings keep UTF-8 bytes. The constructor copies its argument, so that later writes to the
array do not change the string. -/
def stringClass : ClassSource :=
  describe stringName objectName finalClass [charSequenceName]
    [field privateFinal "value" "[B"]
    ([method publicFlag "<init>" "([B)V" 5 3 (superInit objectName ++ [
        .plain .aload1, .plain .arraylength, .u1 .newarray 8, .plain .astore2,
        .plain .aload1, .plain .iconst0, .plain .aload2, .plain .iconst0, .plain .aload2,
        .plain .arraylength,
        .invoke .invokestatic systemName "arraycopy" arraycopyType,
        .plain .aload0, .plain .aload2, .field .putfield stringName "value" "[B",
        .plain .returnVoid]),
      getter stringName "getBytes" "value" "[B" .areturn,
      method publicFlag "toString" ("()" ++ stringType) 1 1 [.plain .aload0, .plain .areturn],
      native publicFlag "intern" ("()" ++ stringType),
      native publicFlag "equals" ("(" ++ objectType ++ ")Z"),
      native publicFlag "hashCode" "()I",
      native publicFlag "length" "()I",
      native publicFlag "isEmpty" "()Z",
      native publicFlag "charAt" "(I)C",
      native publicFlag "concat" ("(" ++ stringType ++ ")" ++ stringType)] ++
    printableTypes.map fun t => native publicStatic "valueOf" ("(" ++ t ++ ")" ++ stringType))

/-- Class mirrors carry the reflective name. -/
def classClass : ClassSource :=
  describe className objectName finalClass [] [field privateFinal "name" stringType] [
    method publicFlag "<init>" ("(" ++ stringType ++ ")V") 2 2 (superInit objectName ++ [
      .plain .aload0, .plain .aload1, .field .putfield className "name" stringType,
      .plain .returnVoid]),
    getter className "getName" "name" stringType .areturn,
    native publicFlag "isInterface" "()Z",
    native publicFlag "isArray" "()Z",
    native publicFlag "toString" ("()" ++ stringType)]

/-- Stores a new stream on a descriptor number into a field of the system class. -/
def openStream (fieldName : Text) (number : Int32) : List Directive :=
  [.typeOp .newObject printStreamName, .plain .dup, .pushInt number,
    .invoke .invokespecial printStreamName "<init>" "(I)V",
    .field .putstatic systemName fieldName printStreamType]

def systemClass : ClassSource :=
  describe systemName objectName finalClass []
    [field constantFlags "out" printStreamType, field constantFlags "err" printStreamType] [
    method ⟨AccessFlags.staticBit⟩ "<clinit>" "()V" 3 0
      (openStream "out" 1 ++ openStream "err" 2 ++ [.plain .returnVoid]),
    native publicStatic "arraycopy" arraycopyType,
    native publicStatic "currentTimeMillis" "()J",
    native publicStatic "nanoTime" "()J",
    native publicStatic "identityHashCode" ("(" ++ objectType ++ ")I")]

def integerClass : ClassSource :=
  describe integerName objectName finalClass []
    [⟨"MAX_VALUE", "I", constantFlags, some (.int 2147483647)⟩,
      ⟨"MIN_VALUE", "I", constantFlags, some (.int (-2147483648))⟩,
      field privateFinal "value" "I"] [
    method publicFlag "<init>" "(I)V" 2 2 (superInit objectName ++ [
      .plain .aload0, .plain .iload1, .field .putfield integerName "value" "I",
      .plain .returnVoid]),
    method publicStatic "valueOf" ("(I)" ++ typeOf integerName) 3 1 [
      .typeOp .newObject integerName, .plain .dup, .plain .iload0,
      .invoke .invokespecial integerName "<init>" "(I)V", .plain .areturn],
    getter integerName "intValue" "value" "I" .ireturn,
    getter integerName "hashCode" "value" "I" .ireturn,
    method publicFlag "equals" ("(" ++ objectType ++ ")Z") 2 2 [
      .plain .aload1, .typeOp .instanceof integerName, .jump .ifeq "no",
      .plain .aload0, .field .getfield integerName "value" "I",
      .plain .aload1, .typeOp .checkcast integerName, .field .getfield integerName "value" "I",
      .jump .ifIcmpne "no",
      .plain .iconst1, .plain .ireturn,
      .label "no", .plain .iconst0, .plain .ireturn],
    method publicFlag "toString" ("()" ++ stringType) 1 1 [
      .plain .aload0, .field .getfield integerName "value" "I",
      .invoke .invokestatic integerName "toString" ("(I)" ++ stringType), .plain .areturn],
    native publicStatic "parseInt" ("(" ++ stringType ++ ")I"),
    native publicStatic "toString" ("(I)" ++ stringType)]

/-- String builders keep their buffer in the engine. -/
def stringBuilderClass : ClassSource :=
  describe stringBuilderName objectName finalClass [charSequenceName] []
    ([native publicFlag "<init>" "()V", native publicFlag "<init>" ("(" ++ stringType ++ ")V")] ++
    (printableTypes ++ [stringType]).map (fun t =>
      native publicFlag "append" ("(" ++ t ++ ")" ++ typeOf stringBuilderName)) ++ [
      native publicFlag "length" "()I",
      method publicFlag "charAt" "(I)C" 2 2 [
        .plain .aload0, .invoke .invokevirtual stringBuilderName "toString" ("()" ++ stringType),
        .plain .iload1, .invoke .invokevirtual stringName "charAt" "(I)C", .plain .ireturn],
      native publicFlag "toString" ("()" ++ stringType)])

def mathClass : ClassSource :=
  describe mathName objectName finalClass []
    [⟨"PI", "D", constantFlags, some (.double 0x400921FB54442D18)⟩,
      ⟨"E", "D", constantFlags, some (.double 0x4005BF0A8B145769)⟩]
    (([("abs", "(I)I"), ("abs", "(J)J"), ("abs", "(D)D"), ("max", "(II)I"), ("max", "(JJ)J"),
      ("max", "(DD)D"), ("min", "(II)I"), ("min", "(JJ)J"), ("min", "(DD)D"), ("sqrt", "(D)D"),
      ("pow", "(DD)D")] : List (String × String)).map fun (name, descriptor) =>
        native publicStatic name descriptor)

/-- Streams write to the standard output or, on number 2, to the standard error. -/
def printStreamClass : ClassSource :=
  describe printStreamName objectName openClass [] [field privateFinal "fd" "I"]
    ([method publicFlag "<init>" "(I)V" 2 2 (superInit objectName ++ [
        .plain .aload0, .plain .iload1, .field .putfield printStreamName "fd" "I",
        .plain .returnVoid])] ++
    (printableTypes ++ [stringType]).flatMap (fun t =>
      [native publicFlag "print" ("(" ++ t ++ ")V"),
        native publicFlag "println" ("(" ++ t ++ ")V")]) ++ [
      native publicFlag "println" "()V",
      native publicFlag "write" "(I)V",
      native publicFlag "flush" "()V"])

end Library

end ClassEngine
