import ClassEngine.Toml.Syntax

/-!
Building the table of a file from its statements. A name may be defined once; a table that only came
into being on the way to another one may still get its own header.
-/

namespace ClassEngine

namespace Toml

/-- A table under construction. -/
structure Document where
  root : Table
  /-- The tables that were only passed through so far. -/
  implicit : List Key
  /-- The table that pairs go to. -/
  context : Key

namespace Document

def empty : Document := ⟨[], [], []⟩

/-- Defines a name in the current table. What was only passed through stays what it is and counts as
defined from now on, unless an array is involved, which gives way to the new value or takes the place
of the old one. -/
def define (d : Document) (name : Text) (v : Value) : Option Document := do
  let here ← d.root.find? d.context
  let key := d.context ++ [name]
  match here.lookup name with
  | none => do
    let root ← Table.update (fun t => some (t ++ [(name, v)])) d.context d.root
    some { d with root := root }
  | some old =>
    if !d.implicit.contains key then none
    else do
      let root ← if old.isArray || v.isArray
        then Table.update (fun t => some (t.replace name v)) d.context d.root
        else some d.root
      some { d with root := root, implicit := d.implicit.filter (· != key) }

/-- Makes sure that the tables on the way to a key are there. -/
def passThrough (d : Document) : Key → Key → Option Document
  | _, [] => some d
  | above, name :: rest => do
    let here ← d.root.find? above
    let d' ← match here.lookup name with
      | none => do
        let root ← Table.update (fun t => some (t ++ [(name, .table [])])) above d.root
        some { d with root := root, implicit := (above ++ [name]) :: d.implicit }
      | some (.table _) => some d
      | some (.tables _) => some d
      | some _ => none
    d'.passThrough (above ++ [name]) rest

/-- Opens the table with a header. -/
def openTable (d : Document) (key : Key) : Option Document := do
  let name ← key.getLast?
  let d ← d.passThrough [] key.dropLast
  let d ← { d with context := key.dropLast }.define name (.table [])
  some { d with context := key }

/-- Opens a further table of a repeated header. -/
def openRepeated (d : Document) (key : Key) : Option Document := do
  let name ← key.getLast?
  let d ← d.passThrough [] key.dropLast
  let here ← d.root.find? key.dropLast
  let add : Table → Option Table ← match here.lookup name with
    | none => some fun t => some (t ++ [(name, .tables [[]])])
    | some (.tables us) => some fun t => some (t.replace name (.tables (us ++ [[]])))
    | some _ => none
  let root ← Table.update add key.dropLast d.root
  some { d with root := root, context := key }

/-- Opens the tables of a dotted key below the current one. -/
def enter (d : Document) : Key → Option Document
  | [] => some d
  | name :: rest => do
    let key := d.context ++ [name]
    let d ← { d with implicit := key :: d.implicit }.openTable key
    d.enter rest

/-- Defines a name by the value of a pair. An inline table is complete as it stands and never joins
what was there before. -/
def assign (d : Document) (name : Text) (v : Value) : Option Document := do
  let here ← d.root.find? d.context
  if v.isTable && (here.lookup name).isSome then none
  d.define name v

/-- Adds a pair to the current table. -/
def addValue (d : Document) (key : Key) (v : Value) : Option Document := do
  let name ← key.getLast?
  let outer := d.context
  let d ← d.enter key.dropLast
  let d ← d.assign name v
  some { d with context := outer }

end Document

mutual

/-- The value of an expression; an inline table is a table of its own. -/
def Expr.eval : Expr → Option Value
  | .value v => some v
  | .array items => (evalAll items).map .array
  | .inlineTable pairs => (evalPairs .empty pairs).map fun d => .table d.root

/-- The values of expressions. -/
def evalAll : List Expr → Option (List Value)
  | [] => some []
  | e :: rest => do
    let v ← e.eval
    let vs ← evalAll rest
    some (v :: vs)

/-- Adds the pairs of an inline table. -/
def evalPairs (d : Document) : List (Key × Expr) → Option Document
  | [] => some d
  | (key, e) :: rest => do
    let v ← e.eval
    let d ← d.addValue key v
    evalPairs d rest

end

/-- Adds a statement. -/
def Document.add (d : Document) : Statement → Option Document
  | .header key => d.openTable key
  | .repeatedHeader key => d.openRepeated key
  | .pair key e => do
    let v ← e.eval
    d.addValue key v

/-- The table of a file. -/
def parse (t : Text) : Option Table := do
  let statements ← parseStatements t
  let d ← statements.foldlM Document.add Document.empty
  some d.root

end Toml

end ClassEngine
