import ClassEngine.Text.Basic

/-!
Slash-separated paths, as texts: cleaning, joining and taking apart without looking at any files.
-/

namespace ClassEngine

namespace Path

def slash : UInt8 := Text.ofAscii '/'
def dot : Text := "."
def dotDot : Text := ".."

def isAbsolute (p : Text) : Bool :=
  p.head? == some slash

/-- Goes through the parts of a path, keeping a reversed list of those that remain: a part before
`..` is undone, and above the root there is nothing to undo. -/
def reduce (rooted : Bool) : List Text → List Text → List Text
  | kept, [] => kept.reverse
  | kept, part :: rest =>
    if part.isEmpty || part == dot then reduce rooted kept rest
    else if part == dotDot then
      match kept with
      | top :: below =>
        if top == dotDot then reduce rooted (dotDot :: kept) rest else reduce rooted below rest
      | [] => if rooted then reduce rooted [] rest else reduce rooted [dotDot] rest
    else reduce rooted (part :: kept) rest

/-- The parts of a path that remain after cleaning. -/
def parts (p : Text) : List Text :=
  reduce (isAbsolute p) [] (Text.splitByte slash p)

/-- The shortest path that means the same. -/
def clean (p : Text) : Text :=
  let joined := Text.join "/" (parts p)
  if isAbsolute p then slash :: joined
  else if joined.isEmpty then dot
  else joined

/-- The clean path of the non-empty pieces one below the other. -/
def join (pieces : List Text) : Text :=
  match pieces.filter fun p => !p.isEmpty with
  | [] => []
  | ps => clean (Text.join "/" ps)

/-- The path made absolute at a working directory. -/
def absolute (cwd p : Text) : Text :=
  if isAbsolute p then clean p else join [cwd, p]

/-- The directory that holds a path. -/
def parent (p : Text) : Text :=
  clean ((p.reverse.dropWhile (· ≠ slash)).reverse)

/-- The ending of the last part of a path, from its last point on. -/
def extension (p : Text) : Text :=
  let last := Text.afterLast slash p
  match Text.beforeLast? (Text.ofAscii '.') last with
  | none => []
  | some stem => last.drop stem.length

end Path

end ClassEngine
