import ClassEngine.Library.Basic

/-!
Exceptions of the bootstrap library. Both constructors of the root record the call chain of the
place of allocation.
-/

namespace ClassEngine

namespace Library

/-- The call that records the stack trace, and the end of a constructor. -/
def recordTrace : List Directive :=
  [.plain .aload0,
    .invoke .invokevirtual throwableName "fillInStackTrace" ("()" ++ throwableType),
    .plain .pop, .plain .returnVoid]

def throwableClass : ClassSource :=
  describe throwableName objectName openClass []
    [field privateFlag "message" stringType, field privateFlag "stackTrace" traceType] [
    method publicFlag "<init>" "()V" 1 1 (superInit objectName ++ recordTrace),
    method publicFlag "<init>" ("(" ++ stringType ++ ")V") 2 2 (superInit objectName ++ [
      .plain .aload0, .plain .aload1, .field .putfield throwableName "message" stringType] ++
      recordTrace),
    getter throwableName "getMessage" "message" stringType .areturn,
    getter throwableName "getStackTrace" "stackTrace" traceType .areturn,
    method publicFlag "setStackTrace" ("(" ++ traceType ++ ")V") 2 2 [
      .plain .aload0, .plain .aload1, .field .putfield throwableName "stackTrace" traceType,
      .plain .returnVoid],
    native publicFlag "fillInStackTrace" ("()" ++ throwableType),
    native publicFlag "printStackTrace" "()V",
    native publicFlag "toString" ("()" ++ stringType)]

/-- The fields of a trace element, in the order of its constructor's arguments. -/
def traceFields : List (Text × Text) :=
  [("declaringClass", stringType), ("methodName", stringType), ("fileName", stringType),
    ("lineNumber", "I")]

def traceElementClass : ClassSource :=
  describe traceElementName objectName finalClass []
    (traceFields.map fun (name, descriptor) => field privateFinal name descriptor) [
    method publicFlag "<init>" ("(" ++ stringType ++ stringType ++ stringType ++ "I)V") 2 5
      (superInit objectName ++
        (traceFields.zipIdx.flatMap fun ((name, descriptor), i) =>
          [.plain .aload0,
            .load (if descriptor == ("I" : Text) then .iload else .aload) (i + 1 : Nat),
            .field .putfield traceElementName name descriptor]) ++
        [.plain .returnVoid]),
    getter traceElementName "getClassName" "declaringClass" stringType .areturn,
    getter traceElementName "getMethodName" "methodName" stringType .areturn,
    getter traceElementName "getFileName" "fileName" stringType .areturn,
    getter traceElementName "getLineNumber" "lineNumber" "I" .ireturn]

/-- An exception class with the two usual constructors. -/
def exceptionClass (name superName : Text) : ClassSource :=
  describe name superName openClass [] [] [
    method publicFlag "<init>" "()V" 1 1 (superInit superName ++ [.plain .returnVoid]),
    method publicFlag "<init>" ("(" ++ stringType ++ ")V") 2 2 [
      .plain .aload0, .plain .aload1,
      .invoke .invokespecial superName "<init>" ("(" ++ stringType ++ ")V"),
      .plain .returnVoid]]

/-- The exceptions and their superclasses, each after its superclass. -/
def exceptionHierarchy : List (String × String) :=
  [("Exception", "Throwable"),
    ("Error", "Throwable"),
    ("RuntimeException", "Exception"),
    ("CloneNotSupportedException", "Exception"),
    ("ArithmeticException", "RuntimeException"),
    ("NullPointerException", "RuntimeException"),
    ("ClassCastException", "RuntimeException"),
    ("NegativeArraySizeException", "RuntimeException"),
    ("ArrayStoreException", "RuntimeException"),
    ("IllegalStateException", "RuntimeException"),
    ("UnsupportedOperationException", "RuntimeException"),
    ("IndexOutOfBoundsException", "RuntimeException"),
    ("ArrayIndexOutOfBoundsException", "IndexOutOfBoundsException"),
    ("StringIndexOutOfBoundsException", "IndexOutOfBoundsException"),
    ("IllegalArgumentException", "RuntimeException"),
    ("NumberFormatException", "IllegalArgumentException"),
    ("LinkageError", "Error"),
    ("NoClassDefFoundError", "LinkageError"),
    ("VirtualMachineError", "Error"),
    ("StackOverflowError", "VirtualMachineError")]

def exceptionClasses : List ClassSource :=
  exceptionHierarchy.map fun (name, superName) =>
    exceptionClass ("java/lang/" ++ name) ("java/lang/" ++ superName)

end Library

end ClassEngine
