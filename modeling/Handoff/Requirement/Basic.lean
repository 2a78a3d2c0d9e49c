import Handoff.Error
import Handoff.Name.Qualified

/-!
# Derivation requirements

The text `A+B,C` asks for calls of `A` and `B`, or of `C`: alternatives between commas, each a group
of functions joined by plus signs.
-/

namespace Handoff

open Text

structure Requirement where
  /-- Alternatives, each of which is met by calls of all its members. -/
  groups : List (List QualifiedName)
  /-- The text as configured, without blanks at its ends. -/
  text : String
deriving DecidableEq, Repr

namespace Requirement

/-- One member of a group; `text` is the whole requirement, for the error. -/
def parseMember (text : String) (member : List Char) : Except SettingsError QualifiedName :=
  let member := trim member
  if member.isEmpty then .error (.emptyMember text)
  else
    match QualifiedName.ofChars member with
    | some name => .ok name
    | none => .error (.invalidMember text (String.ofList member))

def parseGroup (text : String) (group : List Char) : Except SettingsError (List QualifiedName) :=
  (pieces '+' group).mapM (parseMember text)

def parse (text : String) : Except SettingsError Requirement := do
  let body := trim text.toList
  if body.isEmpty then throw (.emptyRequirement text)
  let groups ← (pieces ',' body).mapM (parseGroup text)
  return ⟨groups, String.ofList body⟩

/-- The requirement with short package names, as messages show it. -/
def label (r : Requirement) : String :=
  ",".intercalate (r.groups.map fun group => "+".intercalate (group.map QualifiedName.label))

/-- All members, group by group. -/
def members (r : Requirement) : List QualifiedName :=
  r.groups.flatten

end Requirement

end Handoff
