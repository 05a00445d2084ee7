import ClassEngine.Bytecode.Listing

/-!
Readable listings of whole classes.
-/

namespace ClassEngine

namespace ClassListing

/-- Flags as four hexadecimal digits. -/
def flagsText (f : AccessFlags) : Text :=
  "(flags 0x" ++ Text.padZero 4 (Text.hex f.bits.toNat) ++ ")"

/-- A line of a listing. -/
def line (t : Text) : Text :=
  t ++ "\n"

/-- The line that opens a listing. -/
def headline (c : ClassFile) : Text :=
  let interfaces : Text :=
    if c.interfaces.isEmpty then [] else " implements " ++ Text.join ", " c.interfaces
  "class " ++ c.name ++ " extends " ++ c.superName ++ interfaces

/-- Text without the line ends at its end. -/
def dropLineEnds (t : Text) : Text :=
  (t.reverse.dropWhile (· == Text.ofAscii '\n')).reverse

/-- The line for an exception handler. -/
def handlerLine (h : Handler) : Text :=
  let caught : Text := if h.catchType.isEmpty then "any" else h.catchType
  "    handler [" ++ Text.ofNat h.start.toNat ++ ", " ++ Text.ofNat h.stop.toNat ++ ") -> " ++
    Text.ofNat h.target.toNat ++ " " ++ caught

/-- The lines for the body of a method. -/
def codeLines (c : ClassFile) (code : Code) : List Text :=
  let body := dropLineEnds (Listing.listing code.bytecode (some c))
  ["    stack=" ++ Text.ofNat code.maxStack.toNat ++ " locals=" ++
      Text.ofNat code.maxLocals.toNat] ++
    (Text.splitByte (Text.ofAscii '\n') body).map (("    " : Text) ++ ·) ++
    code.handlers.map handlerLine

/-- The lines for a method. -/
def methodLines (c : ClassFile) (m : MethodInfo) : List Text :=
  let title : Text := "  method " ++ m.name ++ m.descriptor ++ " " ++ flagsText m.flags
  [[], title] ++ (m.code.map (codeLines c)).getD []

/-- The listing of a class. -/
def listing (c : ClassFile) : Text :=
  let fields := c.fields.map fun f =>
    ("  field " ++ f.name ++ " " ++ f.descriptor ++ " " ++ flagsText f.flags : Text)
  ((headline c :: fields) ++ c.methods.flatMap (methodLines c)).flatMap line

end ClassListing

end ClassEngine
