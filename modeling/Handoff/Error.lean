/-!
# Rejected settings

Analysis never fails; settings do, before any file is read. Each constructor is a cause, `kind` says
which part of the settings it concerns and `message` is its wording.
-/

namespace Handoff

inductive SettingsErrorKind where
  | configuration
  | requirement
  | spawner
deriving DecidableEq, Repr

inductive SettingsError where
  /-- The text is no document of the expected form. -/
  | document
  | unknownChecker (name : String)
  | invalidCarrier (spec : String)
  | emptyRequirement (text : String)
  | emptyMember (text : String)
  | invalidMember (text member : String)
  | invalidTarget (spec : String)
  | localTarget (spec : String)
  | invalidConstructor (spec : String)
deriving DecidableEq, Repr

namespace SettingsError

def kind : SettingsError → SettingsErrorKind
  | .document | .unknownChecker _ | .invalidCarrier _ => .configuration
  | .emptyRequirement _ | .emptyMember _ | .invalidMember _ _ => .requirement
  | .invalidTarget _ | .localTarget _ | .invalidConstructor _ => .spawner

def configuration (reason : String) : String :=
  "invalid configuration: " ++ reason

def requirement (text reason : String) : String :=
  "invalid derivation requirement `" ++ text ++ "`: " ++ reason

def spawner (spec reason : String) : String :=
  "invalid spawner spec `" ++ spec ++ "`: " ++ reason

def message : SettingsError → String
  | .document => configuration "TOML parse error"
  | .unknownChecker name => configuration ("unknown checker: " ++ name)
  | .invalidCarrier spec => configuration ("invalid carrier type: " ++ spec)
  | .emptyRequirement text => requirement text "requirement is empty"
  | .emptyMember text => requirement text "empty function name"
  | .invalidMember text member => requirement text ("invalid function name `" ++ member ++ "`")
  | .invalidTarget spec => spawner spec "expected pkg/path.Func or pkg/path.Type.Method"
  | .localTarget spec =>
    spawner spec
      "configured spawners need a package path; mark local functions with //ctxflow:spawner"
  | .invalidConstructor spec => spawner spec "invalid constructor name"

end SettingsError

end Handoff
