import Handoff.Resolution.Basic

/-!
# Resolving a file

Names are resolved in two rounds: the declarations of the package first, then the bodies and initial
values in source order. Scopes nest as in Go: the package, a function with its parameters and body,
a block, a statement such as `if` or `for`, a case clause. A frame holds the names declared so far
in one scope.
-/

namespace Handoff

open Syntax

/-- The names declared so far in one scope; the first entry of a name counts. -/
structure Frame where
  scope : Node
  names : List (String × Nat)

/-- A resolution in the making, with the frames that are open, innermost first. -/
structure Resolver where
  facts : Resolution
  frames : List Frame

namespace Resolver

def start (root : Node) : Resolver :=
  ⟨⟨root, .ofFile root, [], [], [], []⟩, [⟨root, []⟩]⟩

/-- The binding that a name means here. -/
def lookup (s : Resolver) (name : String) : Option Nat :=
  s.frames.findSome? fun frame => frame.names.lookup name

/-- The scope that new bindings belong to. -/
def scope (s : Resolver) : Node :=
  (s.frames.head?.map Frame.scope).getD s.facts.root

def use (s : Resolver) (ident : Node) (i : Nat) : Resolver :=
  { s with facts.uses := (ident.id, i) :: s.facts.uses }

/-- Adds a binding to the innermost scope. -/
def declare (s : Resolver) (owner : Option Node) (ident : Node) (kind : BindingKind)
    (type : Option TypeName) : Resolver :=
  let i := s.facts.bindings.length
  let binding : Binding := ⟨ident.text, kind, ident, owner, s.scope, type, []⟩
  let frames :=
    match s.frames with
    | frame :: rest => { frame with names := (ident.text, i) :: frame.names } :: rest
    | [] => []
  use ⟨{ s.facts with bindings := s.facts.bindings ++ [binding] }, frames⟩ ident i

def modify (s : Resolver) (i : Nat) (f : Binding → Binding) : Resolver :=
  { s with facts.bindings := s.facts.bindings.modify i f }

/-- Records a use of a name that is in scope. -/
def recordUse (s : Resolver) (ident : Node) : Resolver :=
  if ident.text = "_" then s
  else
    match s.lookup ident.text with
    | some i => s.use ident i
    | none => s

/-- Records a write to a binding. -/
def recordWrite (s : Resolver) (i : Nat) (site : Node) (value : Option Node) : Resolver :=
  s.modify i fun b =>
    { b with writes := b.writes ++ [⟨site, value, isConditional s.facts.root site b.scope⟩] }

/-- Gives a type to a binding that has none. -/
def refineType (s : Resolver) (i : Nat) (type : Option TypeName) : Resolver :=
  s.modify i fun b => { b with type := b.type.or type }

/-- Runs a step in a scope of its own. -/
def inScope (s : Resolver) (scope : Node) (step : Resolver → Resolver) : Resolver :=
  let s := step { s with frames := ⟨scope, []⟩ :: s.frames }
  { s with frames := s.frames.tail }

/-- Declares names of one kind and type; a blank name declares nothing. -/
def declareAll (owner : Option Node) (kind : BindingKind) (type : Option TypeName)
    (names : List Node) (s : Resolver) : Resolver :=
  names.foldl (fun s name =>
    if name.text = "_" then s else s.declare owner name kind type) s

/-- Declares receiver, parameters and named results of a function. -/
def declareParameters (function : Node) (s : Resolver) : Resolver :=
  let lists := ([Field.receiver, .parameters, .result].filterMap function.child?).filter
    (·.kind == .parameterList)
  (lists.flatMap Node.parameters).foldl (fun s d =>
    s.declareAll (some function) .parameter (s.facts.imports.declaredType d) (d.inField .name)) s

/-- Declares the identifiers of a list of targets as variables without a type. -/
def declareTargets (owner : Option Node) (targets : Node) (s : Resolver) : Resolver :=
  s.declareAll owner (.localVariable false) none
    (targets.expressions.filter (·.kind == .identifier))

/-- The expressions in a field. -/
def valuesIn (n : Node) (field : Field) : List Node :=
  ((n.child? field).map Node.expressions).getD []

/-- A name on the left of `:=`: it is declared unless its scope already has it. -/
def shortTarget (owner : Option Node) (site : Node) (index : Nat) (ident : Node)
    (s : Resolver) : Resolver :=
  if ident.text = "_" then s
  else
    let values := valuesIn site .right
    let count := (valuesIn site .left).length
    let value := if values.length = count then values[index]? else none
    match s.frames.head?.bind fun frame => frame.names.lookup ident.text with
    | some i => (s.use ident i).recordWrite i site value
    | none =>
      let i := s.facts.bindings.length
      (s.declare owner ident (.localVariable false)
        (s.facts.typeOfTarget values index count)).recordWrite i site value

/-- A name of a value spec. In the package it is already declared and only gets its type and
write. -/
def specName (owner : Option Node) (spec : Node) (index : Nat) (ident : Node)
    (s : Resolver) : Resolver :=
  if ident.text = "_" then s
  else
    let values := valuesIn spec .value
    let count := (spec.inField .name).length
    let type := (s.facts.imports.declaredType spec).or (s.facts.typeOfTarget values index count)
    let value := if values.length = count then values[index]? else none
    let written (i : Nat) (s : Resolver) :=
      if values.isEmpty then s else s.recordWrite i spec value
    if s.frames.length = 1 then
      match s.lookup ident.text with
      | some i => written i (s.refineType i type)
      | none => s
    else
      written s.facts.bindings.length (s.declare owner ident (.localVariable true) type)

/-- The names of a value spec, after its values. -/
def specNames (owner : Option Node) (spec : Node) (s : Resolver) : Resolver :=
  (spec.inField .name).zipIdx.foldl (fun s (ident, index) => s.specName owner spec index ident) s

/-- Records what an assignment writes to names, after both sides were visited. -/
def recordAssignment (site : Node) (s : Resolver) : Resolver :=
  if (site.child? .operator).map Node.text != some "=" then s
  else
    let targets := valuesIn site .left
    let values := valuesIn site .right
    targets.zipIdx.foldl (fun s (target, index) =>
      let target := target.bare
      if target.kind != .identifier then s
      else
        match s.facts.useOf target with
        | none => s
        | some i =>
          let value := if values.length = targets.length then values[index]? else none
          let type := s.facts.typeOfTarget values index targets.length
          (s.refineType i type).recordWrite i site value) s

/-- Declares the targets of a range or receive clause with `:=`. -/
def clauseTargets (owner : Option Node) (clause : Node) (s : Resolver) : Resolver :=
  match clause.child? .left with
  | some left => s.declareTargets owner left
  | none => s

/-- Declares the name of a type switch. -/
def switchAlias (owner : Option Node) (switch : Node) (s : Resolver) : Resolver :=
  match switch.child? .guardAlias with
  | some found => s.declareTargets owner found
  | none => s

/-- Whether a part of a composite literal is a field name, not an expression. -/
def isFieldName (part : Node) : Bool :=
  part.element.kind == .identifier || part.element.kind == .fieldIdentifier

mutual

/-- Resolves the names in a node. -/
def visit (owner : Option Node) : Node → Resolver → Resolver
  | n@⟨label, children⟩, s =>
    match label.kind with
    | .functionDeclaration | .methodDeclaration | .funcLiteral =>
      s.inScope n fun s => visitBody (some n) children (s.declareParameters n)
    | .typeSwitchStatement =>
      s.inScope n fun s =>
        let s := visitField owner .initializer children s
        let s := visitField owner .value children s
        visitClauses owner children (s.switchAlias owner n)
    | .block | .ifStatement | .forStatement | .expressionSwitchStatement | .selectStatement
    | .expressionCase | .typeCase | .defaultCase | .communicationCase =>
      s.inScope n fun s => visitAll owner children s
    | .shortVarDeclaration => visitLeft owner n children (visitField owner .right children s)
    | .varDeclaration | .constDeclaration => visitSpecs owner children s
    | .assignmentStatement =>
      (visitField owner .left children (visitField owner .right children s)).recordAssignment n
    | .rangeClause | .receiveStatement =>
      let s := visitField owner .right children s
      if n.hasToken ":=" then s.clauseTargets owner n else visitField owner .left children s
    | .identifier => s.recordUse n
    | .selectorExpression => visitField owner .operand children s
    | .keyedElement => visitKeyed owner (1 < n.parts.length) children s
    | .functionType | .parameterList | .interfaceType | .structType | .typeDeclaration
    | .typeArguments | .comment => s
    | _ => visitAll owner children s

/-- Every part of a list of children, in order. -/
def visitAll (owner : Option Node) : List Node → Resolver → Resolver
  | [], s => s
  | c :: cs, s => visitAll owner cs (if c.isPart then visit owner c s else s)

/-- The first child in a field. -/
def visitField (owner : Option Node) (field : Field) : List Node → Resolver → Resolver
  | [], s => s
  | c :: cs, s => if c.field == some field then visit owner c s else visitField owner field cs s

/-- The statements of a function body, which share the scope of the parameters. -/
def visitBody (owner : Option Node) : List Node → Resolver → Resolver
  | [], s => s
  | ⟨label, inner⟩ :: cs, s =>
    if label.field == some .body then visitAll owner inner s else visitBody owner cs s

/-- The left side of a short declaration. -/
def visitLeft (owner : Option Node) (site : Node) : List Node → Resolver → Resolver
  | [], s => s
  | c :: cs, s =>
    if c.field == some .left then
      if c.kind = .expressionList then visitTargetList owner site c s
      else if c.kind = .identifier then s.shortTarget owner site 0 c
      else visit owner c s
    else visitLeft owner site cs s

/-- The targets in an expression list. -/
def visitTargetList (owner : Option Node) (site : Node) : Node → Resolver → Resolver
  | ⟨_, inner⟩, s => visitTargets owner site 0 inner s

/-- The targets of a short declaration, counted from `index`. -/
def visitTargets (owner : Option Node) (site : Node) (index : Nat) :
    List Node → Resolver → Resolver
  | [], s => s
  | c :: cs, s =>
    if c.isPart then
      visitTargets owner site (index + 1) cs
        (if c.kind = .identifier then s.shortTarget owner site index c else visit owner c s)
    else visitTargets owner site index cs s

/-- The value specs of a declaration: values first, then names. -/
def visitSpecs (owner : Option Node) : List Node → Resolver → Resolver
  | [], s => s
  | c@⟨label, inner⟩ :: cs, s =>
    if label.kind = .varSpec || label.kind = .constSpec then
      visitSpecs owner cs ((visitField owner .value inner s).specNames owner c)
    else visitSpecs owner cs s

/-- A key and its value; `mayName` says that the next part may be a field name. -/
def visitKeyed (owner : Option Node) (mayName : Bool) : List Node → Resolver → Resolver
  | [], s => s
  | c :: cs, s =>
    if c.isPart then
      visitKeyed owner false cs (if mayName && isFieldName c then s else visit owner c s)
    else visitKeyed owner mayName cs s

/-- The clauses of a type switch. -/
def visitClauses (owner : Option Node) : List Node → Resolver → Resolver
  | [], s => s
  | c :: cs, s =>
    visitClauses owner cs
      (if c.kind = .typeCase || c.kind = .defaultCase then visit owner c s else s)

end

/-- The result types that a function declares. -/
def declaredResults (imports : Imports) (result : Node) : List (Option TypeName) :=
  if result.kind = .parameterList then imports.parameterTypes result else [imports.typeOf result]

/-- Declares a function of the package and its results. -/
def declareFunction (declaration : Node) (s : Resolver) : Resolver :=
  match declaration.child? .name with
  | none => s
  | some name =>
    let s := s.declare none name (.function declaration) none
    match declaration.child? .result with
    | none => s
    | some result =>
      let results := (name.text, declaredResults s.facts.imports result) :: s.facts.results
      { s with facts.results := results }

def isValueSpec (n : Node) : Bool :=
  n.kind == .varSpec || n.kind == .constSpec

/-- Declares the variables and constants of a package declaration. -/
def declareValues (declaration : Node) (s : Resolver) : Resolver :=
  (declaration.parts.filter isValueSpec).foldl (fun s spec =>
    s.declareAll none .packageVariable (s.facts.imports.declaredType spec) (spec.inField .name)) s

/-- The fields of a struct type spec with their types. -/
def structFields (imports : Imports) (spec : Node) : List ((String × String) × TypeName) :=
  match spec.child? .name, spec.child? .type with
  | some name, some type =>
    if type.kind != .structType then []
    else
      match type.parts.find? (·.kind == .fieldDeclarationList) with
      | none => []
      | some list =>
        list.parts.flatMap fun field =>
          match imports.declaredType field with
          | none => []
          | some fieldType =>
            (field.inField .name).map fun fieldName => ((name.text, fieldName.text), fieldType)
  | _, _ => []

/-- Records the struct fields of a type declaration. -/
def declareTypes (declaration : Node) (s : Resolver) : Resolver :=
  let found := (declaration.parts.filter (·.kind == .typeSpec)).flatMap
    (structFields s.facts.imports)
  { s with facts.fieldTypes := found.reverse ++ s.facts.fieldTypes }

/-- The first round: what the package declares. -/
def declarePackage (s : Resolver) (declaration : Node) : Resolver :=
  match declaration.kind with
  | .functionDeclaration => s.declareFunction declaration
  | .varDeclaration | .constDeclaration => s.declareValues declaration
  | .typeDeclaration => s.declareTypes declaration
  | _ => s

/-- Declarations with a body or values to resolve. -/
def hasBody (declaration : Node) : Bool :=
  [Kind.functionDeclaration, .methodDeclaration, .varDeclaration, .constDeclaration].contains
    declaration.kind

end Resolver

/-- The resolution of a file. -/
def Resolution.ofFile (root : Node) : Resolution :=
  let declared := root.parts.foldl Resolver.declarePackage (.start root)
  let resolved := (root.parts.filter Resolver.hasBody).foldl (fun s d => s.visit none d) declared
  resolved.facts

end Handoff
