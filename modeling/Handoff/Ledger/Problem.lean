import Handoff.Ledger.Basic

/-!
# Directives that do nothing

After a run, the ledger reports directives that are malformed, that silenced nothing, or that name a
checker which does not exist or is not enabled.
-/

namespace Handoff

inductive DirectiveProblem where
  | malformed
  | unused
  | unusedFor (checker : Checker)
  | unknownChecker (name : String)
  | notEnabled (checker : Checker)
deriving DecidableEq, Repr

namespace DirectiveProblem

def message : DirectiveProblem → String
  | .malformed => "malformed ignore directive: empty checker name"
  | .unused => "unused ignore directive"
  | .unusedFor c => "unused ignore directive for checker \"" ++ c.name ++ "\""
  | .unknownChecker name => "unknown checker \"" ++ name ++ "\" in ignore directive"
  | .notEnabled c => "checker \"" ++ c.name ++ "\" in ignore directive is not enabled"

end DirectiveProblem

namespace Directive

/-- The problem with one name in the list of a directive. -/
def problemWith (d : Directive) (enabled : CheckerSet) (name : String) :
    Option DirectiveProblem :=
  match Checker.named name with
  | none => some (.unknownChecker name)
  | some c =>
    if !enabled.has c then some (.notEnabled c)
    else if !d.used.has c then some (.unusedFor c)
    else none

def problems (d : Directive) (enabled : CheckerSet) : List DirectiveProblem :=
  (if d.malformed then [.malformed] else []) ++
    match d.checkers with
    | none => if !d.malformed && !d.isUsed then [.unused] else []
    | some names => names.filterMap (d.problemWith enabled)

end Directive

namespace Ledger

/-- The problems with each directive, in source order. -/
def problems (l : Ledger) (enabled : CheckerSet) : List (Directive × DirectiveProblem) :=
  l.directives.flatMap fun d => (d.problems enabled).map fun p => (d, p)

/-- The problems as findings, if they are to be reported. -/
def unusedDirectives (l : Ledger) (enabled : CheckerSet) : List Finding :=
  if enabled.has .unusedIgnore then
    (l.problems enabled).map fun (d, p) => ⟨.unusedIgnore, d.span, p.message⟩
  else []

end Ledger

end Handoff
