import ClassEngine.Assembly.Source

/-!
Shared pieces of the bootstrap library: names, flags and the few shapes of method that recur.
-/

namespace ClassEngine

namespace Library

def objectName : Text := "java/lang/Object"
def stringName : Text := "java/lang/String"
def className : Text := "java/lang/Class"
def systemName : Text := "java/lang/System"
def integerName : Text := "java/lang/Integer"
def stringBuilderName : Text := "java/lang/StringBuilder"
def mathName : Text := "java/lang/Math"
def charSequenceName : Text := "java/lang/CharSequence"
def cloneableName : Text := "java/lang/Cloneable"
def throwableName : Text := "java/lang/Throwable"
def traceElementName : Text := "java/lang/StackTraceElement"
def printStreamName : Text := "java/io/PrintStream"
def serializableName : Text := "java/io/Serializable"

/-- The descriptor of a class. -/
def typeOf (name : Text) : Text := "L" ++ name ++ ";"

def objectType : Text := typeOf objectName
def stringType : Text := typeOf stringName
def throwableType : Text := typeOf throwableName
def traceType : Text := "[" ++ typeOf traceElementName
def printStreamType : Text := typeOf printStreamName

def publicFlag : AccessFlags := ⟨AccessFlags.publicBit⟩
def privateFlag : AccessFlags := ⟨AccessFlags.privateBit⟩
def privateFinal : AccessFlags := privateFlag.adding AccessFlags.finalBit
def publicStatic : AccessFlags := publicFlag.adding AccessFlags.staticBit
def constantFlags : AccessFlags := publicStatic.adding AccessFlags.finalBit
def openClass : AccessFlags := publicFlag.adding AccessFlags.superBit
def finalClass : AccessFlags := openClass.adding AccessFlags.finalBit
def interfaceClass : AccessFlags :=
  (publicFlag.adding AccessFlags.interfaceBit).adding AccessFlags.abstractBit

/-- A class whose source file carries its simple name. -/
def describe (name superName : Text) (flags : AccessFlags) (interfaces : List Text)
    (fields : List FieldSource) (methods : List MethodSource) : ClassSource :=
  ⟨name, superName, flags, interfaces, Text.afterLast (Text.ofAscii '/') name ++ ".java", 0,
    fields, methods⟩

/-- A field without constant value. -/
def field (flags : AccessFlags) (name descriptor : Text) : FieldSource :=
  ⟨name, descriptor, flags, none⟩

/-- A method with a body. -/
def method (flags : AccessFlags) (name descriptor : Text) (stack locals : UInt16)
    (lines : List Directive) : MethodSource :=
  ⟨name, descriptor, flags, .code stack locals lines, []⟩

/-- A method that the engine implements. -/
def native (flags : AccessFlags) (name descriptor : Text) : MethodSource :=
  ⟨name, descriptor, flags, .native, []⟩

/-- A method of an interface. -/
def abstract (name descriptor : Text) : MethodSource :=
  ⟨name, descriptor, publicFlag, .abstract, []⟩

/-- The call of a superclass constructor without arguments. -/
def superInit (superName : Text) : List Directive :=
  [.plain .aload0, .invoke .invokespecial superName "<init>" "()V"]

/-- A method that returns a field of its own class. -/
def getter (owner name fieldName descriptor : Text) (leave : Opcode) : MethodSource :=
  method publicFlag name ("()" ++ descriptor) 1 1
    [.plain .aload0, .field .getfield owner fieldName descriptor, .plain leave]

/-- The argument types of the overloads that take any printable value. -/
def printableTypes : List Text :=
  ["Z", "C", "I", "J", "F", "D", objectType]

/-- An interface without members. -/
def markerInterface (name : Text) : ClassSource :=
  describe name objectName interfaceClass [] [] []

end Library

end ClassEngine
