import Handoff.Checker.Message
import Handoff.Ledger.Problem
import Handoff.Resolution.Build
import Handoff.Settings
import Handoff.Syntax.Grammar.File
import Handoff.Verdict.Precise
import Handoff.Verdict.Search

/-!
# The inspection of a file

Every `go` statement and every call in a token scope is a site. A spawned closure has to use a
context and, if there is a requirement, to make the required calls at its start; the capture graph
decides where it can, the search everywhere else. Findings then pass through the ledger of ignore
directives, and what is wrong with the directives themselves is added.
-/

namespace Handoff

open Syntax

/-- A file with all that is needed to inspect it. -/
structure Inspection where
  settings : Settings
  resolution : Resolution
  /-- The spawners of the settings and those the file marks. -/
  spawners : List Spawner
  graph : Option CaptureGraph

namespace Inspection

/-- The inspection of a tree; `marks` are the lines that mark spawners. -/
def ofTree (settings : Settings) (root : Node) (marks : List Nat) : Inspection :=
  let resolution := Resolution.ofFile root
  { settings, resolution
    spawners := settings.spawners ++ Spawner.ofMarks root marks
    graph := if settings.precise then CaptureGraph.build resolution else none }

/-- Whether an expression mentions a context; function literals in it count. -/
def passesToken (i : Inspection) (expr : Node) : Bool :=
  mentionsToken i.resolution i.settings.carriers true expr

/-- The verdict of the capture graph. -/
def trace (i : Inspection) (expr : Node) : Capture :=
  traceCapture i.graph i.resolution i.settings.carriers expr

/-- Whether the closure of a `go` statement uses a context. -/
def goUsesToken (i : Inspection) (callee statement : Node) : Bool :=
  match i.trace callee with
  | .satisfied => true
  | .unsatisfied => false
  | .indeterminate =>
    Search.closure i.resolution (captureTest i.resolution i.settings.carriers) callee statement

/-- Where the closure of a `go` statement makes the required calls. -/
def goOutcome (i : Inspection) (requirement : Requirement) (callee statement : Node) : Outcome :=
  match traceOutcome i.graph i.resolution requirement callee with
  | some outcome => outcome
  | none => Search.closure i.resolution (outcomeTest i.resolution requirement) callee statement

/-- Whether the graph can speak about a callback: it is a closure itself, neither a task nor a
collection. -/
def isPlain (site : SpawnSite) (callback : Callback) : Bool :=
  !callback.spread && site.spawner.constructor.isNone

/-- Whether a callback uses a context. -/
def callbackUsesToken (i : Inspection) (site : SpawnSite) (callback : Callback) (call : Node) :
    Bool :=
  match if isPlain site callback then i.trace callback.expr else .indeterminate with
  | .satisfied => true
  | .unsatisfied => false
  | .indeterminate =>
    Search.callback i.resolution (captureTest i.resolution i.settings.carriers) site.spawner
      callback call

/-- Where a callback makes the required calls. -/
def callbackOutcome (i : Inspection) (requirement : Requirement) (site : SpawnSite)
    (callback : Callback) (call : Node) : Outcome :=
  let traced :=
    if isPlain site callback then
      traceOutcome i.graph i.resolution requirement callback.expr
    else none
  match traced with
  | some outcome => outcome
  | none =>
    Search.callback i.resolution (outcomeTest i.resolution requirement) site.spawner callback call

/-- The finding about required calls at a place, if there is one. -/
def outcomeFinding (requirement : Requirement) (node : Node) (place : String) :
    Outcome → List Finding
  | .atStart => []
  | .deferred => [⟨.derive, node.span, derivationDeferred place requirement.label⟩]
  | .missing => [⟨.derive, node.span, derivationMissing place requirement.label⟩]

/-- The call of a `go` statement with its callee. -/
def spawnedCall (statement : Node) : Option (Node × Node) := do
  let call ← statement.parts.head?
  if call.kind = .callExpression then return (call, ← call.child? .function) else none

/-- The findings about a `go` statement; `contexts` are the names in scope. -/
def goFindings (i : Inspection) (contexts : List String) (statement : Node) : List Finding :=
  match spawnedCall statement with
  | none => []
  | some (call, callee) =>
    let propagation :=
      if i.settings.checkers.has .goroutine && !call.arguments.any i.passesToken &&
          !i.goUsesToken callee statement then
        [⟨.goroutine, statement.span, Checker.goroutine.propagationMessage "" contexts none⟩]
      else []
    let derivation :=
      match i.settings.checkedRequirement with
      | some requirement =>
        outcomeFinding requirement statement "goroutine" (i.goOutcome requirement callee statement)
      | none => []
    propagation ++ derivation

/-- The findings about one callback of a spawn site. -/
def callbackFindings (i : Inspection) (contexts : List String) (site : SpawnSite) (call : Node)
    (callback : Callback) : List Finding :=
  let checker := site.spawner.checker
  let label := site.spawner.label
  let propagation :=
    if i.settings.checkers.has checker && !i.callbackUsesToken site callback call then
      [⟨checker, callback.expr.span, checker.propagationMessage label contexts callback.ordinal⟩]
    else []
  let derivation :=
    match i.settings.checkedRequirement with
    | some requirement =>
      outcomeFinding requirement callback.expr (callbackPlace label callback.ordinal)
        (i.callbackOutcome requirement site callback call)
    | none => []
  propagation ++ derivation

/-- The findings about a call. -/
def callFindings (i : Inspection) (contexts : List String) (call : Node) : List Finding :=
  match SpawnSite.ofCall i.spawners i.resolution call with
  | none => []
  | some site => site.callbacks.flatMap (i.callbackFindings contexts site call)

/-- Whether a node is a site. -/
def isSite (n : Node) : Bool :=
  n.kind == .goStatement || n.kind == .callExpression

/-- The findings about a node, if it is a site in a token scope. -/
def siteFindings (i : Inspection) (n : Node) : List Finding :=
  let r := i.resolution
  if isSite n then
    match TokenScope.around r.root r.imports i.settings.carriers n with
    | none => []
    | some scope =>
      if n.kind = .goStatement then i.goFindings scope.names n
      else i.callFindings scope.names n
  else []

/-- All findings about the file's sites, in source order. -/
def findings (i : Inspection) : List Finding :=
  i.resolution.root.preorder.flatMap i.siteFindings

/-- The report on a file under a ledger. -/
def report (i : Inspection) (ledger : Ledger) : List Finding :=
  let (kept, final) := ledger.suppress i.findings
  inReportOrder (kept ++ final.unusedDirectives i.settings.checkers)

end Inspection

/-- The report on the tree of a file, with the marks and directives in its comments. -/
def checkFile (settings : Settings) (root : Node) : List Finding :=
  let ledger := Ledger.ofTree root
  (Inspection.ofTree settings root ledger.marks).report ledger

/-- The report on a Go source. -/
def check (settings : Settings) (source : String) : List Finding :=
  checkFile settings (Syntax.parse source)

end Handoff
