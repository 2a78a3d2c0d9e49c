import Handoff.Checker.Basic
import Handoff.Error
import Handoff.Text.Blank

/-!
# Sets of checkers

A run has a set of enabled checkers. `CheckerSet.select` builds it from the names to keep, to skip
and to disable.
-/

namespace Handoff

@[ext]
structure CheckerSet where
  has : Checker → Bool

namespace CheckerSet

def all : CheckerSet := ⟨fun _ => true⟩

def none : CheckerSet := ⟨fun _ => false⟩

def insert (c : Checker) (s : CheckerSet) : CheckerSet :=
  ⟨fun d => d == c || s.has d⟩

def erase (c : Checker) (s : CheckerSet) : CheckerSet :=
  ⟨fun d => d != c && s.has d⟩

/-- The enabled checkers in the order of `Checker.all`. -/
def toList (s : CheckerSet) : List Checker :=
  Checker.all.filter s.has

@[simp]
theorem mem_toList {s : CheckerSet} {c : Checker} : c ∈ s.toList ↔ s.has c = true := by
  simp [toList, Checker.mem_all]

@[simp]
theorem has_insert (c d : Checker) (s : CheckerSet) :
    (s.insert c).has d = (d == c || s.has d) := rfl

@[simp]
theorem has_erase (c d : Checker) (s : CheckerSet) :
    (s.erase c).has d = (d != c && s.has d) := rfl

def ofList (cs : List Checker) : CheckerSet :=
  cs.foldl (fun s c => s.insert c) none

def eraseAll (cs : List Checker) (s : CheckerSet) : CheckerSet :=
  cs.foldl (fun s c => s.erase c) s

/-- The checkers that the names stand for, blanks around a name aside. -/
def resolve (names : List String) : Except SettingsError (List Checker) :=
  names.mapM fun name =>
    match Checker.named (trimmed name) with
    | some c => .ok c
    | Option.none => .error (.unknownChecker name)

/-- The checkers of `only` (all when it is empty) without those of `skip` and `disabled`. -/
def select (only skip disabled : List String) : Except SettingsError CheckerSet := do
  let only ← resolve only
  let skip ← resolve skip
  let disabled ← resolve disabled
  let start := if only.isEmpty then all else ofList only
  return (start.eraseAll skip).eraseAll disabled

end CheckerSet

end Handoff
