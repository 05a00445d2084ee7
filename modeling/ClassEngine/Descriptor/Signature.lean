import ClassEngine.Descriptor.Basic
import ClassEngine.Text.Quoted

/-!
Reading descriptors. A field type is any number of brackets followed by a primitive letter or by
`L`, a name without semicolon, and `;`. A method descriptor has field types in parentheses and a
result that may also be void.
-/

namespace ClassEngine

namespace Descriptor

/-- Why a text is no descriptor; positions count bytes from its start. -/
inductive ParseError where
  | unexpectedEnd (text : Text) (position : Nat)
  | arrayOfVoid (text : Text)
  | unterminatedName (text : Text) (position : Nat)
  | invalidCharacter (text : Text) (byte : UInt8) (position : Nat)
  | trailing (text type : Text)
  | voidField (text : Text)
  | missingArguments (text : Text)
  | voidArgument (text : Text)
  | unterminatedArguments (text : Text)
  | trailingAfterResult (text : Text)
  deriving DecidableEq

/-- The wording of the fault. -/
def ParseError.message : ParseError → Text
  | unexpectedEnd text position =>
    "descriptor " ++ Quoted.quote text ++ ": unexpected end at " ++ Text.ofNat position
  | arrayOfVoid text => "descriptor " ++ Quoted.quote text ++ ": array of void"
  | unterminatedName text position =>
    "descriptor " ++ Quoted.quote text ++ ": unterminated class name at " ++ Text.ofNat position
  | invalidCharacter text byte position =>
    "descriptor " ++ Quoted.quote text ++ ": invalid type character " ++ Quoted.quoteByte byte ++
      " at " ++ Text.ofNat position
  | trailing text type =>
    "descriptor " ++ Quoted.quote text ++ ": trailing characters after " ++ Quoted.quote type
  | voidField text => "descriptor " ++ Quoted.quote text ++ ": void is not a field type"
  | missingArguments text =>
    "method descriptor " ++ Quoted.quote text ++ ": missing argument list"
  | voidArgument text => "method descriptor " ++ Quoted.quote text ++ ": void argument"
  | unterminatedArguments text =>
    "method descriptor " ++ Quoted.quote text ++ ": unterminated argument list"
  | trailingAfterResult text =>
    "method descriptor " ++ Quoted.quote text ++ ": trailing characters"

/-- Reads one type, or void, at the start of `rest`, which stands at `position` of `whole`. Gives
the type and what follows it. -/
def nextType (whole : Text) (position : Nat) (rest : Text) :
    Except ParseError (Descriptor × Text) :=
  let brackets := rest.takeWhile (· == Text.ofAscii '[')
  let here := position + brackets.length
  match rest.dropWhile (· == Text.ofAscii '[') with
  | [] => .error (.unexpectedEnd whole here)
  | b :: after =>
    if primitives.any fun p => p.letter == b then .ok (brackets ++ [b], after)
    else if b = Text.ofAscii 'V' then
      if brackets.isEmpty then .ok ([b], after) else .error (.arrayOfVoid whole)
    else if b = Text.ofAscii 'L' then
      let name := after.takeWhile (· != Text.ofAscii ';')
      match after.dropWhile (· != Text.ofAscii ';') with
      | semicolon :: after' =>
        if name.isEmpty then .error (.unterminatedName whole here)
        else .ok (brackets ++ b :: name ++ [semicolon], after')
      | [] => .error (.unterminatedName whole here)
    else .error (.invalidCharacter whole b here)

/-- Checks that a text is one complete field type. -/
def parseType (s : Text) : Except ParseError Descriptor := do
  let (t, rest) ← nextType s 0 s
  if !rest.isEmpty then .error (.trailing s t)
  else if t == void then .error (.voidField s)
  else .ok t

end Descriptor

/-- A method descriptor taken apart. -/
structure Signature where
  arguments : List Descriptor
  result : Descriptor
  text : Text
  deriving DecidableEq

namespace Signature

open Descriptor

/-- Reads argument types up to the closing parenthesis; gives what follows it. `fuel` bounds the
number of arguments. -/
def nextArguments (whole : Text) (acc : List Descriptor) :
    Nat → Text → Except ParseError (List Descriptor × Text)
  | 0, _ => .error (.unterminatedArguments whole)
  | _ + 1, [] => .error (.unterminatedArguments whole)
  | fuel + 1, b :: rest =>
    if b = Text.ofAscii ')' then .ok (acc.reverse, rest)
    else do
      let (t, after) ← nextType whole (whole.length - (rest.length + 1)) (b :: rest)
      if t == void then .error (.voidArgument whole)
      else nextArguments whole (t :: acc) fuel after

/-- Reads a method descriptor. -/
def parse (s : Text) : Except ParseError Signature :=
  match s with
  | b :: rest =>
    if s.length < 3 ∨ b ≠ Text.ofAscii '(' then .error (.missingArguments s)
    else do
      let (arguments, after) ← nextArguments s [] s.length rest
      let (result, left) ← nextType s (s.length - after.length) after
      if !left.isEmpty then .error (.trailingAfterResult s)
      else .ok ⟨arguments, result, s⟩
  | [] => .error (.missingArguments s)

/-- The number of local slots the arguments take, wide ones counting twice. -/
def argumentSlots (g : Signature) : Nat :=
  g.arguments.foldl (fun n t => n + if isWide t then 2 else 1) 0

/-- Whether a call leaves a result. -/
def returnsValue (g : Signature) : Bool :=
  g.result != void

end Signature

/-- A symbolic reference to a field or method: the class named at the place of use, and the name
and type of the member. -/
structure MemberRef where
  owner : Text
  name : Text
  descriptor : Text
  deriving DecidableEq, Hashable

namespace MemberRef

/-- Methods are written with their descriptor, fields with a colon before their type. -/
def text (r : MemberRef) : Text :=
  if r.descriptor.head? == some (Text.ofAscii '(') then r.owner ++ "." ++ r.name ++ r.descriptor
  else r.owner ++ "." ++ r.name ++ ":" ++ r.descriptor

/-- The name of instance initializers. -/
def constructorName : Text := "<init>"

/-- Whether the reference names an instance initializer. -/
def isConstructor (r : MemberRef) : Bool :=
  r.name == constructorName

end MemberRef

end ClassEngine
