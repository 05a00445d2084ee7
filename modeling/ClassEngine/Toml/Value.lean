import ClassEngine.Text.Basic

/-!
The values of a configuration file.
-/

namespace ClassEngine

namespace Toml

/-- A value. Tables keep their keys in the order of their definition. -/
inductive Value where
  | string (t : Text)
  | integer (n : Int)
  | float
  | boolean (b : Bool)
  /-- A date, a time or both. -/
  | moment
  | array (items : List Value)
  /-- The tables of a repeated header, latest last. -/
  | tables (items : List (List (Text × Value)))
  | table (pairs : List (Text × Value))

namespace Value

/-- Whether the value is an array in brackets. -/
def isArray : Value → Bool
  | array _ => true
  | _ => false

/-- Whether the value is a single table. -/
def isTable : Value → Bool
  | table _ => true
  | _ => false

end Value

/-- Pairs of keys and values. -/
abbrev Table := List (Text × Value)

namespace Table

/-- Replaces the value of a key. -/
def replace (t : Table) (key : Text) (v : Value) : Table :=
  t.map fun p => if p.1 == key then (key, v) else p

/-- Changes the table that a path leads to. A repeated header stands for its latest table. -/
def update (f : Table → Option Table) : List Text → Table → Option Table
  | [], t => f t
  | k :: ks, t =>
    match t.lookup k with
    | some (.table u) => (update f ks u).map fun u' => replace t k (.table u')
    | some (.tables us) =>
      match us.getLast? with
      | none => none
      | some u => (update f ks u).map fun u' => replace t k (.tables (us.dropLast ++ [u']))
    | _ => none

/-- The table that a path leads to. -/
def find? : List Text → Table → Option Table
  | [], t => some t
  | k :: ks, t =>
    match t.lookup k with
    | some (.table u) => find? ks u
    | some (.tables us) => us.getLast?.bind (find? ks)
    | _ => none

end Table

end Toml

end ClassEngine
