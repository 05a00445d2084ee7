import ClassEngine.Text.Utf8
import ClassEngine.Text.Uppercase
import Std.Data.HashMap

/-!
The table of native methods. A binding is for one exact method, or under a mangled name for all
overloads of a method of a class; the exact one wins.
-/

namespace ClassEngine

/-- One exact native method. -/
structure NativeKey where
  owner : Text
  name : Text
  descriptor : Text
  deriving DecidableEq, Hashable

/-- The symbol of a native method: underscores for package and inner-class separators, `jni_` before
the simple class name, and a capital at the start. -/
def mangle (owner method : Text) : Text :=
  let simple := Text.afterLast (Text.ofAscii '/') owner
  let joined : Text := match Text.beforeLast? (Text.ofAscii '/') owner with
    | some package =>
      Text.replaceByte (Text.ofAscii '/') (Text.ofAscii '_') package ++ "_jni_" ++ simple
    | none => "jni_" ++ simple
  let flat := Text.replaceByte (Text.ofAscii '$') (Text.ofAscii '_') joined
  let capital : List Char := match Utf8.chars flat with
    | [] => []
    | c :: cs => toUppercase c :: cs
  Utf8.encode capital ++ "_" ++ method

/-- Bindings of native methods to implementations. -/
structure NativeTable (α : Type) where
  exact : Std.HashMap NativeKey α
  mangled : Std.HashMap Text α

namespace NativeTable

variable {α : Type}

def empty : NativeTable α := ⟨{}, {}⟩

/-- Binds one exact method. -/
def register (t : NativeTable α) (owner name descriptor : Text) (f : α) : NativeTable α :=
  { t with exact := t.exact.insert ⟨owner, name, descriptor⟩ f }

/-- Binds all overloads under a mangled name. -/
def registerMangled (t : NativeTable α) (symbol : Text) (f : α) : NativeTable α :=
  { t with mangled := t.mangled.insert symbol f }

/-- The implementation of a native method. -/
def find? (t : NativeTable α) (owner name descriptor : Text) : Option α :=
  match t.exact[(⟨owner, name, descriptor⟩ : NativeKey)]? with
  | some f => some f
  | none => t.mangled[mangle owner name]?

/-- The number of bindings of both kinds. -/
def size (t : NativeTable α) : Nat :=
  t.exact.size + t.mangled.size

end NativeTable

end ClassEngine
