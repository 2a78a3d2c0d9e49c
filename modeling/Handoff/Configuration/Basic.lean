import Handoff.Error
import Handoff.Spawner.Basic
import Handoff.Toml.Document

/-!
# Configuration files

A configuration has the sections `checkers` and `analysis` and the spawners of the project. It is
read from a TOML document without unknown keys. A section may also be written as an array of its
values in order.
-/

namespace Handoff

open Toml (Value Table)

/-- A spawner as configured. -/
structure SpawnerSpec where
  target : String
  callback : Nat
  isVariadic : Bool
  wrapper : Option String
  wrapperCallback : Nat
deriving DecidableEq, Repr

structure Configuration where
  /-- Names of checkers that are off. -/
  disabled : List String
  /-- The text of the derivation requirement. -/
  derive : Option String
  /-- Types that carry a context. -/
  carriers : List String
  /-- Whether to ask the capture graph; unset means yes. -/
  precise : Option Bool
  /-- Whether directories are searched for test files as well. -/
  tests : Bool
  spawners : List SpawnerSpec
deriving DecidableEq, Repr

namespace SpawnerSpec

def spawner (s : SpawnerSpec) : Except SettingsError Spawner :=
  Spawner.ofSpec s.target s.callback s.isVariadic (s.wrapper.map fun w => (w, s.wrapperCallback))

end SpawnerSpec

/-- The values of a section by name. -/
structure Section where
  values : Table
  /-- The section was written as an array. -/
  isArray : Bool

namespace Section

/-- The section that a value is. In a table every key has to be one of the names; in an array the
values belong to the names in order. -/
def ofValue (names : List String) : Value → Option Section
  | .table _ entries =>
    if entries.all fun (k, _) => names.contains k then some ⟨entries, false⟩ else none
  | .array items => some ⟨names.zip items, true⟩
  | .tables items => some ⟨names.zip (items.map (.table .header)), true⟩
  | _ => none

variable {α : Type}

/-- The value of a name, or the default where there is none. -/
def getD (s : Section) (name : String) (read : Value → Option α) (default : α) : Option α :=
  match s.values.get? name with
  | some v => read v
  | none => some default

/-- The value of a name that must have one. -/
def get (s : Section) (name : String) (read : Value → Option α) : Option α :=
  (s.values.get? name).bind read

/-- The value of a name that a table may leave out; an array cannot. -/
def get? (s : Section) (name : String) (read : Value → Option α) : Option (Option α) :=
  match s.values.get? name with
  | some v => (read v).map some
  | none => if s.isArray then none else some none

end Section

namespace Configuration

/-- The configuration without any entry. -/
def empty : Configuration := ⟨[], none, [], none, false, []⟩

def readText : Value → Option String
  | .string text => some text
  | _ => none

def readFlag : Value → Option Bool
  | .boolean b => some b
  | _ => none

/-- A position among arguments, as far as a machine word counts. -/
def readPosition : Value → Option Nat
  | .integer n => if 0 ≤ n && n.toNat < UInt64.size then some n.toNat else none
  | _ => none

def readList {α : Type} (read : Value → Option α) : Value → Option (List α)
  | .array items => items.mapM read
  | .tables items => items.mapM fun entries => read (.table .header entries)
  | _ => none

def readSpawner (v : Value) : Option SpawnerSpec := do
  let s ← Section.ofValue
      ["target", "callback", "variadic", "constructor", "constructor_callback"] v
  return {
    target := ← s.get "target" readText
    callback := ← s.getD "callback" readPosition 0
    isVariadic := ← s.getD "variadic" readFlag false
    wrapper := ← s.get? "constructor" readText
    wrapperCallback := ← s.getD "constructor_callback" readPosition 0 }

/-- The section `checkers`. -/
def readCheckers (v : Value) : Option (List String) := do
  let s ← Section.ofValue ["disabled"] v
  s.getD "disabled" (readList readText) []

/-- The section `analysis`, added to a configuration. -/
def readAnalysis (c : Configuration) (v : Value) : Option Configuration := do
  let s ← Section.ofValue ["derive", "carriers", "precise", "tests"] v
  return { c with
    derive := ← s.get? "derive" readText
    carriers := ← s.getD "carriers" (readList readText) []
    precise := ← s.get? "precise" readFlag
    tests := ← s.getD "tests" readFlag false }

/-- The configuration that a document is. -/
def ofTable (t : Table) : Option Configuration := do
  let s ← Section.ofValue ["checkers", "analysis", "spawners"] (.table .header t)
  let disabled ← s.getD "checkers" readCheckers []
  let spawners ← s.getD "spawners" (readList readSpawner) []
  let base := { empty with disabled, spawners }
  s.getD "analysis" (readAnalysis base) base

/-- Reads the text of a configuration file. -/
def parse (text : String) : Except SettingsError Configuration :=
  match (Toml.parse text).bind ofTable with
  | some c => .ok c
  | none => .error .document

/-- The configured spawners; the first that is wrong is an error. -/
def spawnerList (c : Configuration) : Except SettingsError (List Spawner) :=
  c.spawners.mapM SpawnerSpec.spawner

/-- Whether to ask the capture graph. -/
def isPrecise (c : Configuration) : Bool :=
  c.precise.getD true

end Configuration

end Handoff
