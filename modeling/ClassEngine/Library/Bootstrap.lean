import ClassEngine.Library.Lang
import ClassEngine.Library.Throwable

/-!
The bootstrap library as a whole: the classes the engine itself depends on.
-/

namespace ClassEngine

namespace Library

/-- The descriptions of all library classes. -/
def sources : List ClassSource :=
  [objectClass, markerInterface cloneableName, charSequence, stringClass, classClass, systemClass,
    integerClass, stringBuilderClass, mathClass, throwableClass, traceElementClass] ++
  exceptionClasses ++
  [printStreamClass, markerInterface serializableName]

/-- All library classes. -/
def classes : List ClassFile :=
  sources.filterMap fun s => s.build.toOption

/-- The library class with a given internal name. -/
def find? (name : Text) : Option ClassFile :=
  classes.find? fun c => c.name == name

/-- The names of all library classes, sorted. -/
def names : List Text :=
  Text.sort (classes.map (·.name))

end Library

end ClassEngine
