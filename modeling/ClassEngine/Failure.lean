import ClassEngine.Text.Basic

/-!
Failures with the contexts in which they arose.
-/

namespace ClassEngine

/-- A cause and the contexts around it, innermost first. -/
structure Failure where
  cause : Text
  contexts : List Text
  deriving DecidableEq

namespace Failure

/-- A failure without context. -/
def plain (cause : Text) : Failure :=
  ⟨cause, []⟩

/-- Puts a context around a failure. -/
def within (f : Failure) (context : Text) : Failure :=
  { f with contexts := f.contexts ++ [context] }

/-- One line: the outermost context first, the cause last. -/
def message (f : Failure) : Text :=
  Text.join ": " (f.contexts.reverse ++ [f.cause])

/-- One line for the cause and one for each context, outermost last. -/
def report (f : Failure) : Text :=
  Text.join "\n" (f.cause :: f.contexts)

end Failure

end ClassEngine
