import Handoff.Checker.Set
import Handoff.Requirement.Basic
import Handoff.Spawner.Basic
import Handoff.TypeName

/-!
# Settings of an analysis

Everything besides the source that decides what is reported.
-/

namespace Handoff

structure Settings where
  checkers : CheckerSet
  /-- The calls that a spawned closure has to make. -/
  requirement : Option Requirement
  /-- Types that carry a context, besides the context itself. -/
  carriers : Carriers
  /-- Ask the capture graph before searching. -/
  precise : Bool
  /-- The spawners a call is matched against, in order. -/
  spawners : List Spawner

namespace Settings

/-- All checkers and no requirement. -/
def standard : Settings :=
  ⟨.all, none, [], true, Spawner.builtin⟩

/-- The requirement, if it is checked. -/
def checkedRequirement (s : Settings) : Option Requirement :=
  if s.checkers.has .derive then s.requirement else none

end Settings

end Handoff
