import ClassEngine.Text.Utf8
import ClassEngine.Toml.Scalar

/-!
The grammar of configuration files: keys, strings, arrays, inline tables, and the statements they
make up. Bytes outside of strings and comments are ASCII.
-/

namespace ClassEngine

namespace Toml

/-- A key: names that lead from table to table. -/
abbrev Key := List Text

/-- A value as it is written; an inline table still has its keys as paths. -/
inductive Expr where
  | value (v : Value)
  | array (items : List Expr)
  | inlineTable (pairs : List (Key × Expr))

/-- A line of a file. -/
inductive Statement where
  | header (key : Key)
  | repeatedHeader (key : Key)
  | pair (key : Key) (e : Expr)

def newline : UInt8 := 10
def quote : UInt8 := 34
def apostrophe : UInt8 := 39
def backslash : UInt8 := 92
def hashMark : UInt8 := 35

/-- Whether a byte may not stand in a file: a control character other than tab and the ends of
lines, or a carriage return without its line feed. -/
def isForbidden (b : UInt8) (rest : Text) : Bool :=
  if b = 13 then rest.head? != some newline
  else (b < 32 && b != 9 && b != newline) || b == 127

/-- Whether all bytes may stand in a file. -/
def isClean : Text → Bool
  | [] => true
  | b :: rest => !isForbidden b rest && isClean rest

def isSpace (b : UInt8) : Bool := b == 32 || b == 9

def isLineEnd (b : UInt8) : Bool := b == newline || b == 13

def skipSpaces (t : Text) : Text := t.dropWhile isSpace

/-- Passes over a comment up to the end of its line. -/
def skipComment (t : Text) : Text :=
  if t.head? = some hashMark then t.dropWhile (· ≠ newline) else t

/-- Passes over blank lines, comments and spaces. -/
def skipFiller : Nat → Text → Text
  | 0, t => t
  | fuel + 1, t =>
    match t.dropWhile fun b => isSpace b || isLineEnd b with
    | 35 :: rest => skipFiller fuel (rest.dropWhile (· ≠ newline))
    | t' => t'

/-- The UTF-8 bytes of the code point that hexadecimal digits give. -/
def codePoint? (digits : Text) : Option Text := do
  let n ← Text.natIn? 16 digits
  if n < 0xD800 ∨ (0xDFFF < n ∧ n < 0x110000) then some (String.utf8EncodeChar (Char.ofNat n))
  else none

/-- Reads a code point of `width` digits. -/
def takeCodePoint (width : Nat) (t : Text) : Option (Text × Text) :=
  if t.length < width then none
  else (codePoint? (t.take width)).map fun bs => (bs, t.drop width)

/-- Reads what follows a backslash. -/
def takeEscape : Text → Option (Text × Text)
  | 98 :: r => some ([8], r)
  | 116 :: r => some ([9], r)
  | 110 :: r => some ([10], r)
  | 102 :: r => some ([12], r)
  | 114 :: r => some ([13], r)
  | 101 :: r => some ([27], r)
  | 34 :: r => some ([34], r)
  | 92 :: r => some ([92], r)
  | 120 :: r => takeCodePoint 2 r
  | 117 :: r => takeCodePoint 4 r
  | 85 :: r => takeCodePoint 8 r
  | _ => none

/-- Reads a quoted string behind its opening quote. `acc` is what was read, in reverse order. -/
def takeBasic : Nat → Text → Text → Option (Text × Text)
  | 0, _, _ => none
  | _ + 1, _, [] => none
  | fuel + 1, acc, b :: rest =>
    if b = quote then some (acc.reverse, rest)
    else if isLineEnd b then none
    else if b = backslash then do
      let (bs, r) ← takeEscape rest
      takeBasic fuel (bs.reverse ++ acc) r
    else takeBasic fuel (b :: acc) rest

/-- Reads a literal string behind its opening apostrophe. -/
def takeLiteral (t : Text) : Option (Text × Text) :=
  let body := t.takeWhile (· ≠ apostrophe)
  if body.any isLineEnd then none
  else match t.drop body.length with
    | _ :: rest => some (body, rest)
    | [] => none

/-- Passes over the end of a line at the start of a string of several lines. -/
def dropFirstLineEnd : Text → Text
  | 10 :: rest => rest
  | 13 :: 10 :: rest => rest
  | t => t

/-- The number of marks at the start of a text. -/
def countMarks (mark : UInt8) (t : Text) : Nat :=
  (t.takeWhile (· == mark)).length

/-- At three or more marks: up to two of them belong to the string and the last three close it. -/
def closing (mark : UInt8) (t : Text) : Option (Text × Text) :=
  let n := countMarks mark t
  if n < 3 ∨ 5 < n then none
  else some (List.replicate (n - 3) mark, t.drop n)

/-- What follows the rest of a line that ends in a backslash, if only spaces stand there. -/
def afterLineEnd? (t : Text) : Option Text :=
  match skipSpaces t with
  | 10 :: rest => some (rest.dropWhile fun b => isSpace b || isLineEnd b)
  | 13 :: rest => some (rest.dropWhile fun b => isSpace b || isLineEnd b)
  | _ => none

/-- Reads a quoted string of several lines. -/
def takeMultiBasic : Nat → Text → Text → Option (Text × Text)
  | 0, _, _ => none
  | _ + 1, _, [] => none
  | fuel + 1, acc, b :: rest =>
    if b = quote then
      if countMarks quote (b :: rest) < 3 then takeMultiBasic fuel (b :: acc) rest
      else (closing quote (b :: rest)).map fun (extra, r) => (acc.reverse ++ extra, r)
    else if b = backslash then
      match afterLineEnd? rest with
      | some r => takeMultiBasic fuel acc r
      | none => do
        let (bs, r) ← takeEscape rest
        takeMultiBasic fuel (bs.reverse ++ acc) r
    else takeMultiBasic fuel (b :: acc) rest

/-- Reads a literal string of several lines. -/
def takeMultiLiteral : Nat → Text → Text → Option (Text × Text)
  | 0, _, _ => none
  | _ + 1, _, [] => none
  | fuel + 1, acc, b :: rest =>
    if b = apostrophe ∧ 3 ≤ countMarks apostrophe (b :: rest) then
      (closing apostrophe (b :: rest)).map fun (extra, r) => (acc.reverse ++ extra, r)
    else takeMultiLiteral fuel (b :: acc) rest

/-- Reads a string that may have several lines. -/
def takeString (t : Text) : Option (Text × Text) :=
  match t with
  | 34 :: 34 :: 34 :: rest => takeMultiBasic (rest.length + 1) [] (dropFirstLineEnd rest)
  | 34 :: rest => takeBasic (rest.length + 1) [] rest
  | 39 :: 39 :: 39 :: rest => takeMultiLiteral (rest.length + 1) [] (dropFirstLineEnd rest)
  | 39 :: rest => takeLiteral rest
  | _ => none

/-- Whether a byte may stand in a key without quotes. -/
def isBareByte (b : UInt8) : Bool :=
  (65 ≤ b && b ≤ 90) || (97 ≤ b && b ≤ 122) || isDecimal b || b == 95 || b == 45

/-- Reads one name of a key. -/
def takeName (t : Text) : Option (Text × Text) :=
  match t with
  | 34 :: rest => takeBasic (rest.length + 1) [] rest
  | 39 :: rest => takeLiteral rest
  | _ =>
    let name := t.takeWhile isBareByte
    if name.isEmpty then none else some (name, t.drop name.length)

/-- Reads a key: names with points between them. -/
def takeKey : Nat → Text → Option (Key × Text)
  | 0, _ => none
  | fuel + 1, t => do
    let (name, rest) ← takeName (skipSpaces t)
    match skipSpaces rest with
    | 46 :: more => do
      let (names, r) ← takeKey fuel more
      some (name :: names, r)
    | r => some ([name], r)

/-- Whether a byte ends a word. -/
def endsWord (b : UInt8) : Bool :=
  isSpace b || isLineEnd b || b == 44 || b == 93 || b == 125 || b == hashMark

/-- Reads a word. A date may have its time behind a blank. -/
def takeWord (t : Text) : Text × Text :=
  let word := t.takeWhile (!endsWord ·)
  let rest := t.drop word.length
  match rest with
  | 32 :: d :: more =>
    if isDate word && isDecimal d then
      let time := (d :: more).takeWhile (!endsWord ·)
      (word ++ [32] ++ time, (d :: more).drop time.length)
    else (word, rest)
  | _ => (word, rest)

mutual

/-- Reads a value. -/
def takeExpr : Nat → Text → Option (Expr × Text)
  | 0, _ => none
  | fuel + 1, t =>
    match skipSpaces t with
    | 91 :: rest => (takeItems fuel rest).map fun (es, r) => (.array es, r)
    | 123 :: rest => (takePairs fuel rest).map fun (ps, r) => (.inlineTable ps, r)
    | 34 :: rest => (takeString (34 :: rest)).map fun (s, r) => (.value (.string s), r)
    | 39 :: rest => (takeString (39 :: rest)).map fun (s, r) => (.value (.string s), r)
    | t' =>
      let (word, rest) := takeWord t'
      (scalar? word).map fun v => (.value v, rest)

/-- Reads the items of an array up to its end; a comma may stand behind the last one. -/
def takeItems : Nat → Text → Option (List Expr × Text)
  | 0, _ => none
  | fuel + 1, t =>
    match skipFiller t.length t with
    | 93 :: rest => some ([], rest)
    | t' =>
      match takeExpr fuel t' with
      | none => none
      | some (e, rest) =>
        match skipFiller rest.length rest with
        | 44 :: more => (takeItems fuel more).map fun (es, r) => (e :: es, r)
        | 93 :: more => some ([e], more)
        | _ => none

/-- Reads the pairs of an inline table up to its end; a comma may stand behind the last one. -/
def takePairs : Nat → Text → Option (List (Key × Expr) × Text)
  | 0, _ => none
  | fuel + 1, t =>
    match skipFiller t.length t with
    | 125 :: rest => some ([], rest)
    | t' =>
      match takePair fuel t' with
      | none => none
      | some (p, rest) =>
        match skipFiller rest.length rest with
        | 44 :: more => (takePairs fuel more).map fun (ps, r) => (p :: ps, r)
        | 125 :: more => some ([p], more)
        | _ => none

/-- Reads a key and its value. -/
def takePair : Nat → Text → Option ((Key × Expr) × Text)
  | 0, _ => none
  | fuel + 1, t =>
    match takeKey t.length t with
    | some (key, 61 :: rest) => (takeExpr fuel rest).map fun (e, r) => ((key, e), r)
    | _ => none

end

/-- Reads a statement. -/
def takeStatement (t : Text) : Option (Statement × Text) :=
  match t with
  | 91 :: 91 :: rest =>
    match takeKey rest.length rest with
    | some (key, 93 :: 93 :: r) => some (.repeatedHeader key, r)
    | _ => none
  | 91 :: rest =>
    match takeKey rest.length rest with
    | some (key, 93 :: r) => some (.header key, r)
    | _ => none
  | _ => (takePair (2 * t.length + 2) t).map fun ((key, e), r) => (.pair key e, r)

/-- Passes over the rest of a line, which may only hold a comment. -/
def takeLineEnd (t : Text) : Option Text :=
  match skipComment (skipSpaces t) with
  | [] => some []
  | b :: rest => if isLineEnd b then some rest else none

/-- Reads the statements of a file. -/
def takeStatements : Nat → Text → Option (List Statement)
  | 0, _ => none
  | fuel + 1, t =>
    match skipFiller t.length t with
    | [] => some []
    | t' => do
      let (s, rest) ← takeStatement t'
      let rest' ← takeLineEnd rest
      let more ← takeStatements fuel rest'
      some (s :: more)

/-- Removes a byte order mark, also one of an encoding with wider units. -/
def dropMark : Text → Text
  | 0xEF :: 0xBB :: 0xBF :: rest => rest
  | 0xFF :: 0xFE :: rest => rest
  | 0xFE :: 0xFF :: rest => rest
  | t => t

/-- The statements of a file. -/
def parseStatements (t : Text) : Option (List Statement) :=
  let body := dropMark t
  if !Utf8.isValid body || !isClean body then none
  else takeStatements (body.length + 1) body

end Toml

end ClassEngine
