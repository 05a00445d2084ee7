import ClassEngine.Engine.Machine

/-!
The table of natives that every engine starts with.
-/

namespace ClassEngine

namespace Builtin

/-- The types that text conversion, appending and printing are overloaded for. -/
def textTypes : List Descriptor :=
  [Descriptor.boolean, Descriptor.char, Descriptor.int, Descriptor.long, Descriptor.float,
    Descriptor.double, Descriptor.object, Descriptor.string]

/-- The bindings of single methods. -/
def singleBindings : List (String × String × String × Builtin) :=
  [("java/lang/Object", "hashCode", "()I", objectHashCode),
    ("java/lang/Object", "getClass", "()Ljava/lang/Class;", objectGetClass),
    ("java/lang/Object", "clone", "()Ljava/lang/Object;", objectClone),
    ("java/lang/Object", "toString", "()Ljava/lang/String;", objectToString),
    ("java/lang/Class", "isInterface", "()Z", classIsInterface),
    ("java/lang/Class", "isArray", "()Z", classIsArray),
    ("java/lang/Class", "toString", "()Ljava/lang/String;", classToString),
    ("java/lang/Throwable", "fillInStackTrace", "()Ljava/lang/Throwable;", fillInStackTrace),
    ("java/lang/Throwable", "printStackTrace", "()V", printStackTrace),
    ("java/lang/Throwable", "toString", "()Ljava/lang/String;", throwableToString),
    ("java/lang/Integer", "parseInt", "(Ljava/lang/String;)I", parseInt),
    ("java/lang/Integer", "toString", "(I)Ljava/lang/String;", intToString),
    ("java/lang/Math", "abs", "(I)I", absInt),
    ("java/lang/Math", "abs", "(J)J", absLong),
    ("java/lang/Math", "abs", "(D)D", absDouble),
    ("java/lang/Math", "max", "(II)I", maxInt),
    ("java/lang/Math", "min", "(II)I", minInt),
    ("java/lang/Math", "max", "(JJ)J", maxLong),
    ("java/lang/Math", "min", "(JJ)J", minLong),
    ("java/lang/Math", "max", "(DD)D", maxDouble),
    ("java/lang/Math", "min", "(DD)D", minDouble),
    ("java/lang/Math", "sqrt", "(D)D", sqrt),
    ("java/lang/Math", "pow", "(DD)D", pow),
    ("java/lang/String", "intern", "()Ljava/lang/String;", stringIntern),
    ("java/lang/String", "equals", "(Ljava/lang/Object;)Z", stringEquals),
    ("java/lang/String", "hashCode", "()I", stringHashCode),
    ("java/lang/String", "length", "()I", stringLength),
    ("java/lang/String", "isEmpty", "()Z", stringIsEmpty),
    ("java/lang/String", "charAt", "(I)C", stringCharAt),
    ("java/lang/String", "concat", "(Ljava/lang/String;)Ljava/lang/String;", stringConcat),
    ("java/lang/StringBuilder", "<init>", "()V", builderInit),
    ("java/lang/StringBuilder", "<init>", "(Ljava/lang/String;)V", builderInitString),
    ("java/lang/StringBuilder", "length", "()I", builderLength),
    ("java/lang/StringBuilder", "toString", "()Ljava/lang/String;", builderToString),
    ("java/io/PrintStream", "println", "()V", printNewline),
    ("java/io/PrintStream", "write", "(I)V", writeByte),
    ("java/io/PrintStream", "flush", "()V", flush)]

/-- The bindings of methods that are overloaded by type. -/
def overloadBindings : List (String × String × Text × Builtin) :=
  ((textTypes.filter (· != Descriptor.string)).map fun (t : Text) =>
    ("java/lang/String", "valueOf", "(" ++ t ++ ")Ljava/lang/String;", stringValueOf t)) ++
  (textTypes.map fun (t : Text) =>
    ("java/lang/StringBuilder", "append", "(" ++ t ++ ")Ljava/lang/StringBuilder;",
      builderAppend t)) ++
  (textTypes.flatMap fun (t : Text) =>
    [("java/io/PrintStream", "print", "(" ++ t ++ ")V", print t false),
      ("java/io/PrintStream", "println", "(" ++ t ++ ")V", print t true)])

/-- The bindings by mangled name. -/
def mangledBindings : List (String × Builtin) :=
  [("arraycopy", arraycopy), ("currentTimeMillis", currentTimeMillis), ("nanoTime", nanoTime),
    ("identityHashCode", identityHashCode)]

/-- The table of all built-in natives. -/
def table : NativeTable Native :=
  let single := singleBindings.foldl
    (fun t (owner, name, descriptor, b) => t.register owner name descriptor (.builtin b))
    NativeTable.empty
  let exact := overloadBindings.foldl
    (fun t (owner, name, descriptor, b) => t.register owner name descriptor (.builtin b)) single
  mangledBindings.foldl
    (fun t (name, b) => t.registerMangled (mangle "java/lang/System" name) (.builtin b)) exact

end Builtin

end ClassEngine
