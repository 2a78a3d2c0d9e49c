/-!
# TOML values and tables

A document is a table. What may be added to a table depends on how it came about: a header opens a
table once, dotted keys extend only tables that dotted keys made, and an inline table is closed.
-/

namespace Handoff.Toml

/-- How a table came about. -/
inductive Origin where
  /-- A header of its own. -/
  | header
  /-- The header of a table inside it. -/
  | implied
  /-- A dotted key. -/
  | dotted
  /-- Braces. -/
  | inline
deriving DecidableEq, Repr

inductive Value where
  | string (text : String)
  | integer (n : Int)
  | boolean (b : Bool)
  /-- A float, as written. -/
  | float (text : String)
  /-- A date, a time or both, as written. -/
  | moment (text : String)
  | array (items : List Value)
  /-- The tables of headers in double brackets. -/
  | tables (items : List (List (String × Value)))
  | table (origin : Origin) (entries : List (String × Value))

/-- The entries of a table in the order in which they were made. -/
abbrev Table := List (String × Value)

namespace Table

def get? (t : Table) (key : String) : Option Value :=
  t.lookup key

/-- Gives a key a value, in its place if it has one already. -/
def set (key : String) (v : Value) : Table → Table
  | [] => [(key, v)]
  | (k, w) :: t => if k = key then (k, v) :: t else (k, w) :: set key v t

/-- Defines a key that is reached by a path of dotted keys; none if that is not allowed. -/
def define (key : String) (v : Value) : List String → Table → Option Table
  | [], t => if (t.get? key).isSome then none else some (t.set key v)
  | k :: path, t =>
    match t.get? k with
    | none => (define key v path []).map fun inner => t.set k (.table .dotted inner)
    | some (.table .dotted inner) =>
      (define key v path inner).map fun inner => t.set k (.table .dotted inner)
    | some _ => none

/-- Changes the table at the path of a header, made on the way if need be; the last of several
tables counts. -/
def within (f : Table → Option Table) : List String → Table → Option Table
  | [], t => f t
  | k :: path, t =>
    match t.get? k with
    | none => (within f path []).map fun inner => t.set k (.table .implied inner)
    | some (.table origin inner) =>
      if origin = .inline then none
      else (within f path inner).map fun inner => t.set k (.table origin inner)
    | some (.tables items) => do
      let last ← items.getLast?
      let changed ← within f path last
      return t.set k (.tables (items.dropLast ++ [changed]))
    | some _ => none

/-- Opens the table of a header, which must be new or only implied so far. -/
def openTable (key : String) (t : Table) : Option Table :=
  match t.get? key with
  | none => some (t.set key (.table .header []))
  | some (.table .implied inner) => some (t.set key (.table .header inner))
  | some _ => none

/-- Adds a table to those of a header in double brackets. -/
def addTable (key : String) (t : Table) : Option Table :=
  match t.get? key with
  | none => some (t.set key (.tables [[]]))
  | some (.tables items) => some (t.set key (.tables (items ++ [[]])))
  | some _ => none

end Table

end Handoff.Toml
