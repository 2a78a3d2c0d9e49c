import Handoff.Configuration.Basic
import Handoff.Settings

/-!
# Settings from a configuration

The command line can narrow the checkers, replace the requirement, add carriers and switch the
capture graph off. `Configuration.settings` combines the two and reports the first thing that is
wrong.
-/

namespace Handoff

/-- What the command line adds to the configuration. -/
structure Overrides where
  only : List String
  skip : List String
  derive : Option String
  carriers : List String
  noPrecise : Bool
deriving DecidableEq, Repr

namespace Overrides

def none : Overrides := ⟨[], [], .none, [], false⟩

end Overrides

/-- The type that a carrier text names. -/
def parseCarrier (spec : String) : Except SettingsError QualifiedName :=
  match QualifiedName.parse spec with
  | some name => .ok name
  | none => .error (.invalidCarrier spec)

namespace Configuration

/-- The settings under some overrides. An override of the requirement counts even if it is empty. -/
def settings (c : Configuration) (o : Overrides) : Except SettingsError Settings := do
  let checkers ← CheckerSet.select o.only o.skip c.disabled
  let requirement ← (o.derive <|> c.derive).mapM Requirement.parse
  let carriers ← (c.carriers ++ o.carriers).mapM parseCarrier
  let spawners ← c.spawnerList
  return { checkers, requirement, carriers
           precise := c.isPrecise && !o.noPrecise
           spawners := Spawner.builtin ++ spawners }

end Configuration

end Handoff
