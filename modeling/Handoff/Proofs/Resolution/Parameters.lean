import Handoff.Proofs.Resolution.Declared
import Handoff.Proofs.Resolution.Writes
import Mathlib.Data.List.Forall2
import Mathlib.Logic.Relation

/-!
# The parameters that a resolution declares

Apart from local variables, a resolution has the bindings of the package and those of parameters.
The first round makes the former. The latter come in the second round, function by function: where
the names in a node are resolved, each function among the places it leads to declares all its
parameters, once and in order. A binding keeps its name, its kind, the places it belongs to, and the
type it was declared with.

## Main definitions

* `Node.resolvedParts`: where the resolution of a node goes on.
* `Node.resolvedFunctions`: the functions that the resolution of a node gets to.
* `Resolver.parameterBindings`: the bindings that a function declares.
* `Resolver.Records`: one resolver comes from another by steps that declare the parameters of some
  functions.

## Main statements

* `Resolver.records_visit`: a visit declares the parameters of the functions that it gets to.
* `Resolution.lasting_ofFile`: the bindings of a file, local variables apart.
-/

namespace Handoff

open Syntax Node

namespace Syntax.Node

variable {n m : Node} {f : Field}

/-- The places below a node at which the resolution of its names goes on, in the order of
resolution. Signatures and the types of functions, structs and interfaces are left out, and so are
the names that a construct declares and those that select a field. -/
def resolvedParts (n : Node) : List Node :=
  match n.kind with
  | .functionDeclaration | .methodDeclaration | .funcLiteral => ((n.child? .body).map parts).getD []
  | .typeSwitchStatement =>
    (n.child? .initializer).toList ++ (n.child? .value).toList ++
      n.children.filter fun c => c.kind = .typeCase || c.kind = .defaultCase
  | .shortVarDeclaration => (n.child? .right).toList ++ Resolver.valuesIn n .left
  | .varDeclaration | .constDeclaration =>
    (n.children.filter Resolver.isValueSpec).flatMap fun spec => (spec.child? .value).toList
  | .assignmentStatement => (n.child? .right).toList ++ (n.child? .left).toList
  | .rangeClause | .receiveStatement =>
    (n.child? .right).toList ++ if n.hasToken ":=" then [] else (n.child? .left).toList
  | .selectorExpression => (n.child? .operand).toList
  | .keyedElement =>
    if 1 < n.parts.length && n.parts.head?.any Resolver.isFieldName then n.parts.tail else n.parts
  | .identifier | .functionType | .parameterList | .interfaceType | .structType | .typeDeclaration
  | .typeArguments | .comment => []
  | _ => n.parts

theorem inner_of_mem_valuesIn (h : m ∈ Resolver.valuesIn n f) : m ∈ n.inner := by
  obtain ⟨c, hc, h⟩ := Resolver.mem_valuesIn h
  exact inner_of_preorder (inner_of_child (mem_children_of_child? hc).1) (expressions_subset h)

/-- The resolution goes down the tree. -/
theorem resolvedParts_subset : n.resolvedParts ⊆ n.inner := by
  have hfield (g : Field) : (n.child? g).toList ⊆ n.inner := child?_subset
  have hparts : n.parts ⊆ n.inner := fun c hc => inner_of_mem_filter hc
  unfold resolvedParts
  split
  case h_1 | h_2 | h_3 =>
    cases hbody : n.child? .body with
    | none => exact List.nil_subset _
    | some body => exact fun c hc =>
        inner_trans (inner_of_child (mem_children_of_child? hbody).1) (inner_of_mem_filter hc)
  case h_4 =>
    refine List.append_subset.2 ⟨List.append_subset.2 ⟨hfield _, hfield _⟩, fun c hc => ?_⟩
    exact inner_of_mem_filter hc
  case h_5 => exact List.append_subset.2 ⟨hfield _, fun _ hc => inner_of_mem_valuesIn hc⟩
  case h_6 | h_7 =>
    intro c hc
    obtain ⟨spec, hspec, hc⟩ := List.mem_flatMap.1 hc
    exact inner_trans (inner_of_mem_filter hspec) (child?_subset hc)
  case h_8 => exact List.append_subset.2 ⟨hfield _, hfield _⟩
  case h_9 | h_10 =>
    refine List.append_subset.2 ⟨hfield _, ?_⟩
    split
    · exact List.nil_subset _
    · exact hfield _
  case h_11 => exact hfield _
  case h_12 =>
    split
    · exact List.Subset.trans (List.tail_subset _) hparts
    · exact hparts
  case h_21 => exact hparts
  all_goals exact List.nil_subset _

def resolvedFunctions (n : Node) : List Node :=
  (if n.kind.isFunction then [n] else []) ++ n.resolvedParts.attach.flatMap fun c =>
    c.1.resolvedFunctions
termination_by sizeOf n
decreasing_by exact sizeOf_lt_of_inner (resolvedParts_subset c.2)

theorem resolvedFunctions_eq (n : Node) : n.resolvedFunctions =
    (if n.kind.isFunction then [n] else []) ++ n.resolvedParts.flatMap resolvedFunctions := by
  have hparts : n.resolvedParts.attach.flatMap (fun c => c.1.resolvedFunctions) =
      n.resolvedParts.flatMap resolvedFunctions := by
    rw [← List.flatMap_map, List.attach_map_subtype_val]
  rw [resolvedFunctions, hparts]

theorem resolvedFunctions_of_isFunction (h : n.kind.isFunction = true) :
    n.resolvedFunctions = n :: n.resolvedParts.flatMap resolvedFunctions := by
  rw [resolvedFunctions_eq, if_pos h, List.singleton_append]

theorem resolvedFunctions_of_not_isFunction (h : n.kind.isFunction = false) :
    n.resolvedFunctions = n.resolvedParts.flatMap resolvedFunctions := by
  rw [resolvedFunctions_eq, h, if_neg Bool.false_ne_true, List.nil_append]

/-- A resolution gets to a function through one place after the other. -/
theorem mem_resolvedFunctions : m ∈ n.resolvedFunctions ↔
    m.kind.isFunction = true ∧ Relation.ReflTransGen (fun n c => c ∈ n.resolvedParts) n m := by
  induction n using innerInduction with
  | step n ih =>
    have hself : m ∈ (if n.kind.isFunction then [n] else []) ↔
        m.kind.isFunction = true ∧ n = m := by
      split
      next hkind =>
        rw [List.mem_singleton]
        exact ⟨fun h => ⟨h ▸ hkind, h.symm⟩, fun h => h.2.symm⟩
      next hkind =>
        refine ⟨fun h => absurd h List.not_mem_nil, ?_⟩
        rintro ⟨hm, rfl⟩
        exact absurd hm hkind
    rw [resolvedFunctions_eq, List.mem_append, hself, List.mem_flatMap,
      Relation.ReflTransGen.cases_head_iff]
    constructor
    · rintro (⟨hm, rfl⟩ | ⟨c, hc, hm⟩)
      · exact ⟨hm, .inl rfl⟩
      · obtain ⟨hm, hpath⟩ := (ih c (resolvedParts_subset hc)).1 hm
        exact ⟨hm, .inr ⟨c, hc, hpath⟩⟩
    · rintro ⟨hm, rfl | ⟨c, hc, hpath⟩⟩
      · exact .inl ⟨hm, rfl⟩
      · exact .inr ⟨c, hc, (ih c (resolvedParts_subset hc)).2 ⟨hm, hpath⟩⟩

theorem preorder_of_mem_resolvedFunctions (h : m ∈ n.resolvedFunctions) : m ∈ n.preorder := by
  obtain ⟨-, hpath⟩ := mem_resolvedFunctions.1 h
  clear h
  induction hpath with
  | refl => exact self_mem_preorder n
  | tail _ hc ih => exact preorder_trans ih (preorder_of_inner (resolvedParts_subset hc))

end Syntax.Node

/-- A binding after further steps: only its type, if it had none, and its writes may differ. -/
structure Binding.Refines (b b' : Binding) : Prop where
  view : b'.view = b.view
  owner : b'.owner = b.owner
  typed : ∀ t, b.type = some t → b'.type = some t

namespace Binding.Refines

variable {a b c : Binding} {l l' l'' : List Binding}

theorem refl (b : Binding) : b.Refines b := ⟨rfl, rfl, fun _ h => h⟩

theorem trans (h : a.Refines b) (h' : b.Refines c) : a.Refines c :=
  ⟨h'.view.trans h.view, h'.owner.trans h.owner, fun t ht => h'.typed t (h.typed t ht)⟩

theorem name_eq (h : a.Refines b) : b.name = a.name := congrArg View.name h.view

theorem kind_eq (h : a.Refines b) : b.kind = a.kind := congrArg View.kind h.view

theorem decl_eq (h : a.Refines b) : b.decl = a.decl := congrArg View.decl h.view

theorem forall₂_refl (l : List Binding) : List.Forall₂ Refines l l :=
  List.forall₂_same.2 fun b _ => refl b

theorem forall₂_trans (h : List.Forall₂ Refines l l') (h' : List.Forall₂ Refines l' l'') :
    List.Forall₂ Refines l l'' := by
  induction h generalizing l'' with
  | nil => exact h'
  | cons hab _ ih =>
    cases h' with
    | cons hbc hrest => exact .cons (hab.trans hbc) (ih hrest)

theorem map_eq {α : Type} {g : Binding → α} (hg : ∀ {a b : Binding}, a.Refines b → g b = g a)
    (h : List.Forall₂ Refines l l') : l'.map g = l.map g := by
  induction h with
  | nil => rfl
  | cons hab _ ih => rw [List.map_cons, List.map_cons, hg hab, ih]

theorem exists_of_mem (h : List.Forall₂ Refines l l') (hb : b ∈ l') : ∃ a ∈ l, a.Refines b := by
  induction h with
  | nil => cases hb
  | cons hab _ ih =>
    obtain rfl | hb := List.mem_cons.1 hb
    · exact ⟨_, List.mem_cons_self, hab⟩
    · obtain ⟨a, ha, hab⟩ := ih hb
      exact ⟨a, List.mem_cons_of_mem _ ha, hab⟩

end Binding.Refines

namespace Resolver

variable {n site : Node} {fs gs : List Node} {s t u : Resolver} {owner : Option Node}
  {kind : BindingKind} {type : Option TypeName} {i : Nat}

/-- The bindings that a function makes of one parameter declaration: one for each name that is not
blank. -/
def declaredBindings (imports : Imports) (f d : Node) : List Binding :=
  ((d.inField .name).filter (·.text ≠ "_")).map fun name =>
    ⟨name.text, .parameter, name, some f, f, imports.declaredType d, []⟩

def parameterBindings (imports : Imports) (f : Node) : List Binding :=
  (((parameterLists f).filter (·.kind == .parameterList)).flatMap Node.parameters).flatMap
    (declaredBindings imports f)

/-- The bindings so far, local variables left out. -/
def lasting (s : Resolver) : List Binding :=
  s.facts.bindings.filter fun b => !b.kind.isLocal

/-- One resolver comes from another by steps that declare the parameters of some functions. -/
structure Records (fs : List Node) (s t : Resolver) : Prop where
  imports_eq : t.facts.imports = s.facts.imports
  lasting : List.Forall₂ Binding.Refines
    (s.lasting ++ fs.flatMap (parameterBindings s.facts.imports)) t.lasting

namespace Records

theorem refl (s : Resolver) : Records [] s s :=
  ⟨rfl, by simpa using Binding.Refines.forall₂_refl s.lasting⟩

theorem trans (h : Records fs s t) (h' : Records gs t u) : Records (fs ++ gs) s u := by
  refine ⟨h'.imports_eq.trans h.imports_eq, ?_⟩
  rw [List.flatMap_append, ← List.append_assoc]
  have hgs := h'.lasting
  rw [h.imports_eq] at hgs
  exact Binding.Refines.forall₂_trans
    (List.rel_append h.lasting (Binding.Refines.forall₂_refl _)) hgs

/-- Steps that declare nothing, before and after others. -/
theorem after (h' : Records fs t u) (h : Records [] s t) : Records fs s u :=
  h.trans h'

theorem before (h : Records fs s t) (h' : Records [] t u) : Records fs s u := by
  simpa using h.trans h'

/-- Steps that declare at most local variables. -/
theorem of_lasting (himports : t.facts.imports = s.facts.imports) (h : t.lasting = s.lasting) :
    Records [] s t :=
  ⟨himports, by simpa [h] using Binding.Refines.forall₂_refl s.lasting⟩

theorem foldl {α : Type} {l : List α} {step : Resolver → α → Resolver} {place : α → List Node}
    (h : ∀ a ∈ l, ∀ t, Records (place a) t (step t a)) (s : Resolver) :
    Records (l.flatMap place) s (l.foldl step s) := by
  induction l generalizing s with
  | nil => exact refl s
  | cons a l ih =>
    obtain ⟨hfirst, hrest⟩ := List.forall_mem_cons.1 h
    exact (hfirst s).trans (ih hrest (step s a))

theorem foldl_nil {α : Type} {l : List α} {step : Resolver → α → Resolver}
    (h : ∀ a ∈ l, ∀ t, Records [] t (step t a)) (s : Resolver) : Records [] s (l.foldl step s) := by
  have hfold := foldl h s
  rwa [List.flatMap_eq_nil_iff.2 fun _ _ => rfl] at hfold

end Records

/-! ### Single steps -/

theorem records_modify {g : Binding → Binding} (hg : ∀ b : Binding, b.Refines (g b)) :
    Records [] s (s.modify i g) := by
  refine ⟨rfl, ?_⟩
  have hall : List.Forall₂ Binding.Refines s.facts.bindings (s.facts.bindings.modify i g) := by
    refine List.forall₂_iff_get.2 ⟨(List.length_modify ..).symm, fun j _ _ => ?_⟩
    rw [List.get_eq_getElem, List.get_eq_getElem, List.getElem_modify]
    split
    · exact hg _
    · exact .refl _
  rw [List.flatMap_nil, List.append_nil]
  refine List.rel_filter (fun a b hab => ?_) hall
  change (!a.kind.isLocal) = true ↔ (!b.kind.isLocal) = true
  rw [hab.kind_eq]

theorem records_refineType : Records [] s (s.refineType i type) :=
  records_modify fun _ => ⟨rfl, rfl, fun t ht => by rw [ht, Option.some_or]⟩

theorem records_recordWrite {value : Option Node} : Records [] s (s.recordWrite i site value) :=
  records_modify fun _ => ⟨rfl, rfl, fun _ ht => ht⟩

theorem records_use : Records [] s (s.use n i) := .of_lasting rfl rfl

theorem records_enter : Records [] s (s.enter n) := .of_lasting rfl rfl

theorem records_leave : Records [] s s.leave := .of_lasting rfl rfl

theorem records_recordUse : Records [] s (s.recordUse n) := by
  unfold recordUse
  split
  · exact .refl s
  · split
    · exact records_use
    · exact .refl s

/-- A new local variable. -/
theorem records_declare (hlocal : kind.isLocal = true) :
    Records [] s (s.declare owner n kind type) := by
  refine .of_lasting rfl ?_
  simp [Resolver.lasting, declare, use, hlocal]

theorem records_declareTargets {targets : Node} : Records [] s (s.declareTargets owner targets) :=
  .foldl_nil (fun name _ t => by
    split
    · exact .refl t
    · exact records_declare rfl) s

theorem records_clauseTargets : Records [] s (s.clauseTargets owner n) := by
  unfold clauseTargets
  split
  · exact records_declareTargets
  · exact .refl s

theorem records_switchAlias : Records [] s (s.switchAlias owner n) := by
  unfold switchAlias
  split
  · exact records_declareTargets
  · exact .refl s

theorem records_shortTarget {index : Nat} {ident : Node} :
    Records [] s (s.shortTarget owner site index ident) := by
  unfold shortTarget
  split
  · exact .refl s
  · dsimp only
    split
    · exact records_use.trans records_recordWrite
    · exact (records_declare rfl).trans records_recordWrite

theorem records_specName {index : Nat} {ident : Node} :
    Records [] s (s.specName owner site index ident) := by
  have hwritten (values : List Node) (value : Option Node) (i : Nat) (t : Resolver) :
      Records [] t (if values.isEmpty then t else t.recordWrite i site value) := by
    split
    · exact .refl t
    · exact records_recordWrite
  unfold specName
  split
  · exact .refl s
  · dsimp only
    split
    · split
      · exact records_refineType.trans (hwritten ..)
      · exact .refl s
    · exact (records_declare rfl).trans (hwritten ..)

theorem records_specNames : Records [] s (s.specNames owner site) :=
  .foldl_nil (fun _ _ _ => records_specName) s

theorem records_recordAssignment : Records [] s (s.recordAssignment site) := by
  unfold recordAssignment
  split
  · exact .refl s
  · refine .foldl_nil (fun _ _ t => ?_) s
    dsimp only
    split
    · exact .refl t
    · split
      · exact .refl t
      · exact records_refineType.trans records_recordWrite

/-- The parameters of a function, in its own scope. -/
theorem records_declareParameters (hscope : s.scope = n) :
    Records [n] s (s.declareParameters n) := by
  obtain ⟨-, himports, -, -, hbindings⟩ := foldl_declareAll (some n) .parameter
    (((parameterLists n).filter (·.kind == .parameterList)).flatMap Node.parameters) s
  rw [hscope] at hbindings
  refine ⟨himports, ?_⟩
  have hlocal : ∀ b ∈ parameterBindings s.facts.imports n, (!b.kind.isLocal) = true := by
    intro b hb
    obtain ⟨d, -, hb⟩ := List.mem_flatMap.1 hb
    obtain ⟨name, -, rfl⟩ := List.mem_map.1 hb
    rfl
  have hlasting : (s.declareParameters n).lasting = s.lasting ++
      parameterBindings s.facts.imports n := by
    rw [Resolver.lasting, ← List.filter_eq_self.2 hlocal, Resolver.lasting, ← List.filter_append]
    exact congrArg _ hbindings
  rw [hlasting, List.flatMap_singleton]
  exact Binding.Refines.forall₂_refl _

/-! ### Visits -/

def Recorded (n : Node) : Prop :=
  ∀ owner s, Records n.resolvedFunctions s (visit owner n s)

theorem records_foldl_visit {cs : List Node} (hv : ∀ c ∈ cs, Recorded c) :
    Records (cs.flatMap resolvedFunctions) s (cs.foldl (fun s c => visit owner c s) s) :=
  .foldl (fun c hc t => hv c hc owner t) s

theorem records_visitAll (hv : ∀ c ∈ n.parts, Recorded c) :
    Records (n.parts.flatMap resolvedFunctions) s (visitAll owner n.children s) := by
  rw [visitAll_eq_foldl]
  exact records_foldl_visit hv

theorem records_visitField {f : Field} (hv : ∀ c ∈ n.children, Recorded c) :
    Records ((n.child? f).toList.flatMap resolvedFunctions) s
      (visitField owner f n.children s) := by
  rw [visitField_eq]
  change Records _ s (((n.child? f).map _).getD _)
  cases hc : n.child? f with
  | none => exact .refl s
  | some c =>
    rw [Option.toList_some, List.flatMap_singleton]
    exact hv c (mem_children_of_child? hc).1 owner s

/-- A function declares its own parameters, and then its body is visited. -/
theorem records_visitFunction (hv : ∀ m ∈ n.inner, Recorded m) :
    Records (n :: ((n.child? .body).map parts |>.getD []).flatMap resolvedFunctions) s
      (s.inScope n fun s => visitBody (some n) n.children (s.declareParameters n)) := by
  have hparameters : Records [n] s ((s.enter n).declareParameters n) :=
    (records_declareParameters rfl).after records_enter
  rw [inScope_eq, visitBody_eq]
  change Records _ s (leave (((n.child? .body).map _).getD _))
  cases hbody : n.child? .body with
  | none => exact hparameters.before records_leave
  | some body =>
    have hchild := inner_of_child (mem_children_of_child? hbody).1
    exact (hparameters.trans (records_visitAll fun c hc =>
      hv c (inner_trans hchild (inner_of_mem_filter hc)))).before records_leave

/-- The targets of a short declaration; names among them lead to no function. -/
theorem records_visitLeft (hv : ∀ m ∈ n.inner, Recorded m) :
    Records ((valuesIn n .left).flatMap resolvedFunctions) s (visitLeft owner n n.children s) := by
  rw [visitLeft_eq_foldl]
  have hname : ∀ c : Node, c.kind = .identifier → c.resolvedFunctions = [] := by
    intro c hc
    rw [resolvedFunctions_eq, resolvedParts, hc]
    rfl
  have hstep : ∀ e ∈ (valuesIn n .left).zipIdx, ∀ t : Resolver, Records e.1.resolvedFunctions t
      (if e.1.kind = .identifier then t.shortTarget owner n e.2 e.1 else visit owner e.1 t) := by
    intro e he t
    split
    next hident =>
      rw [hname _ hident]
      exact records_shortTarget
    next => exact hv e.1 (inner_of_mem_valuesIn (List.fst_mem_of_mem_zipIdx he)) owner t
  have hfold := Records.foldl hstep s
  have hplaces : (valuesIn n .left).zipIdx.flatMap (fun e => e.1.resolvedFunctions) =
      (valuesIn n .left).flatMap resolvedFunctions := by
    rw [← List.flatMap_map, List.zipIdx_map_fst]
  rwa [hplaces] at hfold

/-- The specs of a declaration: values first, then names. -/
theorem records_visitSpecs (hv : ∀ m ∈ n.inner, Recorded m) :
    Records
      (((n.children.filter isValueSpec).flatMap fun spec => (spec.child? .value).toList).flatMap
        resolvedFunctions) s (visitSpecs owner n.children s) := by
  rw [visitSpecs_eq_foldl, List.flatMap_assoc]
  refine .foldl (fun spec hspec t => ?_) s
  have hvalue : Records ((spec.child? .value).toList.flatMap resolvedFunctions) t
      (visitField owner .value spec.children t) :=
    records_visitField fun c hc =>
      hv c (inner_trans (inner_of_mem_filter hspec) (inner_of_child hc))
  exact hvalue.before records_specNames

/-- A key and its value, the key unless it may be a field name. -/
theorem records_visitKeyed (hv : ∀ c ∈ n.parts, Recorded c) :
    Records ((if 1 < n.parts.length && n.parts.head?.any isFieldName then n.parts.tail
        else n.parts).flatMap resolvedFunctions) s
      (visitKeyed owner (1 < n.parts.length) n.children s) := by
  rw [visitKeyed_eq, show n.children.filter isPart = n.parts from rfl]
  generalize decide (1 < n.parts.length) = several
  generalize n.parts = cs at hv
  cases cs with
  | nil => simpa using Records.refl s
  | cons c rest =>
    obtain ⟨hc, hrest⟩ := List.forall_mem_cons.1 hv
    dsimp only
    rw [List.head?_cons, Option.any_some, List.tail_cons]
    split
    · exact records_foldl_visit hrest
    · exact (hc owner s).trans (records_foldl_visit hrest)

/-- A visit declares the parameters of the functions that it gets to. -/
theorem records_visit (n : Node) : Recorded n := by
  induction n using innerInduction with
  | step n ih =>
    intro owner s
    have hchild : ∀ c ∈ n.children, Recorded c := fun c hc => ih c (inner_of_child hc)
    have hparts : ∀ c ∈ n.parts, Recorded c := fun c hc => ih c (inner_of_mem_filter hc)
    have hfield (f : Field) (t : Resolver) :
        Records ((n.child? f).toList.flatMap resolvedFunctions) t
          (visitField owner f n.children t) := records_visitField hchild
    have hother := resolvedFunctions_of_not_isFunction (n := n)
    obtain ⟨label, children⟩ := n
    rw [visit.eq_def]
    dsimp only
    -- the kinds in the order of `visit`: functions, scopes, declarations, statements, then
    -- expressions
    split
    case h_1 hk | h_2 hk | h_3 hk =>
      rw [resolvedFunctions_of_isFunction (by rw [kind, hk]; rfl), resolvedParts, kind, hk]
      exact records_visitFunction ih
    case h_4 hk =>
      rw [hother (by rw [kind, hk]; rfl), resolvedParts, kind, hk, inScope_eq,
        visitClauses_eq_foldl]
      simp only [List.flatMap_append]
      have hheader := ((hfield .initializer _).trans (hfield .value _)).after
        (records_enter (s := s) (n := ⟨label, children⟩))
      exact ((hheader.before records_switchAlias).trans (records_foldl_visit fun c hc =>
        hchild c (List.mem_of_mem_filter hc))).before records_leave
    case h_5 hk | h_6 hk | h_7 hk | h_8 hk | h_9 hk | h_10 hk | h_11 hk | h_12 hk | h_13 hk =>
      rw [hother (by rw [kind, hk]; rfl), resolvedParts, kind, hk, inScope_eq]
      exact ((records_visitAll hparts).after records_enter).before records_leave
    case h_14 hk =>
      rw [hother (by rw [kind, hk]; rfl), resolvedParts, kind, hk]
      simp only [List.flatMap_append]
      exact (hfield .right s).trans (records_visitLeft ih)
    case h_15 hk | h_16 hk =>
      rw [hother (by rw [kind, hk]; rfl), resolvedParts, kind, hk]
      exact records_visitSpecs ih
    case h_17 hk =>
      rw [hother (by rw [kind, hk]; rfl), resolvedParts, kind, hk]
      simp only [List.flatMap_append]
      exact ((hfield .right s).trans (hfield .left _)).before records_recordAssignment
    case h_18 hk | h_19 hk =>
      rw [hother (by rw [kind, hk]; rfl), resolvedParts, kind, hk]
      simp only [List.flatMap_append]
      split
      · exact (hfield .right s).trans records_clauseTargets
      · exact (hfield .right s).trans (hfield .left _)
    case h_20 hk =>
      rw [hother (by rw [kind, hk]; rfl), resolvedParts, kind, hk]
      exact records_recordUse
    case h_21 hk =>
      rw [hother (by rw [kind, hk]; rfl), resolvedParts, kind, hk]
      exact hfield .operand s
    case h_22 hk =>
      rw [hother (by rw [kind, hk]; rfl), resolvedParts, kind, hk]
      exact records_visitKeyed hparts
    case h_23 hk | h_24 hk | h_25 hk | h_26 hk | h_27 hk | h_28 hk | h_29 hk =>
      rw [hother (by rw [kind, hk]; rfl), resolvedParts, kind, hk]
      exact .refl s
    case h_30 =>
      have hplain : resolvedParts ⟨label, children⟩ = parts ⟨label, children⟩ := by
        unfold resolvedParts
        split <;> first | rfl | contradiction
      rw [hother (by unfold Kind.isFunction; split <;> first | rfl | contradiction), hplain]
      exact records_visitAll hparts

end Resolver

namespace BindingKind

def isParameter (k : BindingKind) : Bool :=
  !k.isLocal && !k.isPackageLevel

end BindingKind

namespace Resolution

variable {root d f : Node} {b : Binding}

/-- The functions of a file whose parameters a resolution declares. -/
def functions (root : Node) : List Node :=
  (root.parts.filter Resolver.hasBody).flatMap resolvedFunctions

def parametersOf (r : Resolution) (f : Node) : List Binding :=
  r.bindings.filter fun b => b.kind.isParameter && b.owner.any (·.id == f.id)

/-- The bindings of a file, local variables apart: those of the package, and those of the functions
that the resolution gets to. -/
theorem lasting_ofFile (root : Node) : (ofFile root).imports = .ofFile root ∧
    List.Forall₂ Binding.Refines
      (root.parts.flatMap (Resolver.packageBindings root (.ofFile root)) ++
        (functions root).flatMap (Resolver.parameterBindings (.ofFile root)))
      ((ofFile root).bindings.filter fun b => !b.kind.isLocal) := by
  have hvisits : Resolver.Records (functions root) (Resolver.declared root)
      ((root.parts.filter Resolver.hasBody).foldl (fun s d => s.visit none d)
        (Resolver.declared root)) :=
    Resolver.records_foldl_visit fun d _ => Resolver.records_visit d
  have himports : (Resolver.declared root).facts.imports = .ofFile root :=
    (Resolver.collects_declared root).imports_eq
  have hlocal : ∀ b ∈ (Resolver.declared root).facts.bindings, (!b.kind.isLocal) = true := by
    intro b hb
    rw [Resolver.bindings_declared] at hb
    obtain ⟨d, -, hb⟩ := List.mem_flatMap.1 hb
    obtain ⟨-, name, -, rfl⟩ | ⟨-, spec, -, -, name, -, -, rfl⟩ := Resolver.packageBindings_cases hb
    · rfl
    · rfl
  have hlasting : (Resolver.declared root).lasting =
      root.parts.flatMap (Resolver.packageBindings root (.ofFile root)) := by
    rw [Resolver.lasting, List.filter_eq_self.2 hlocal, Resolver.bindings_declared]
  have hall := hvisits.lasting
  rw [hlasting, himports] at hall
  exact ⟨hvisits.imports_eq.trans himports, hall⟩

/-- What stands for a function is declared by the name of the function. -/
theorem function_of_kind (hb : b ∈ (ofFile root).bindings) (hkind : b.kind = .function d) :
    d ∈ root.parts ∧ d.kind = .functionDeclaration ∧ d.child? .name = some b.decl := by
  have hmem : b ∈ (ofFile root).bindings.filter fun b => !b.kind.isLocal :=
    List.mem_filter.2 ⟨hb, by rw [hkind]; rfl⟩
  obtain ⟨a, ha, hab⟩ := Binding.Refines.exists_of_mem (lasting_ofFile root).2 hmem
  have hkind : a.kind = .function d := hab.kind_eq ▸ hkind
  obtain ha | ha := List.mem_append.1 ha
  · obtain ⟨e, he, ha⟩ := List.mem_flatMap.1 ha
    obtain ⟨hfunction, name, hname, rfl⟩ | ⟨-, spec, -, -, name, -, -, rfl⟩ :=
      Resolver.packageBindings_cases ha
    · cases hkind
      exact ⟨he, hfunction, by rw [hname, hab.decl_eq]⟩
    · cases hkind
  · obtain ⟨e, -, ha⟩ := List.mem_flatMap.1 ha
    obtain ⟨p, -, ha⟩ := List.mem_flatMap.1 ha
    obtain ⟨name, -, rfl⟩ := List.mem_map.1 ha
    cases hkind

theorem functions_subset (root : Node) : functions root ⊆ root.preorder := by
  intro g hg
  obtain ⟨d, hd, hg⟩ := List.mem_flatMap.1 hg
  exact preorder_trans (preorder_of_inner (inner_of_mem_filter (List.mem_of_mem_filter hd)))
    (preorder_of_mem_resolvedFunctions hg)

/-- No name declares two bindings. -/
theorem nodup_decl (wf : root.WellFormed) : ((ofFile root).bindings.map Binding.decl).Nodup := by
  obtain ⟨s, hs, hsound⟩ := Resolver.sound_ofFile wf
  rw [← hs, List.Nodup, List.pairwise_map, List.pairwise_iff_getElem]
  intro i j hi hj hij heq
  have huse : ∀ k (hk : k < s.facts.bindings.length),
      s.facts.useOf s.facts.bindings[k].decl = some k :=
    fun k hk => (hsound.declared k s.facts.bindings[k].view (by simp [Resolver.views, hk])).1
  have hi := huse i hi
  rw [heq, huse j hj] at hi
  exact Nat.ne_of_lt hij (Option.some.inj hi).symm

theorem owner_of_mem_parameterBindings {imports : Imports}
    (hb : b ∈ Resolver.parameterBindings imports f) :
    b.kind.isParameter = true ∧ b.owner = some f := by
  obtain ⟨d, -, hb⟩ := List.mem_flatMap.1 hb
  obtain ⟨name, -, rfl⟩ := List.mem_map.1 hb
  exact ⟨rfl, rfl⟩

/-- The bindings of a function's parameters are the ones that it declares, refined. -/
theorem parametersOf_refines (root f : Node) : List.Forall₂ Binding.Refines
    (((functions root).filter (·.id == f.id)).flatMap (Resolver.parameterBindings (.ofFile root)))
    ((ofFile root).parametersOf f) := by
  have hall :=
    List.rel_filter (p := fun b : Binding => b.kind.isParameter && b.owner.any (·.id == f.id))
      (q := fun b : Binding => b.kind.isParameter && b.owner.any (·.id == f.id))
    (fun a b hab => by
      change (_ = true) ↔ (_ = true)
      rw [hab.kind_eq, hab.owner]) (lasting_ofFile root).2
  -- bindings of the package have no owner, and those of other functions another one
  have hpackage : (root.parts.flatMap (Resolver.packageBindings root (.ofFile root))).filter
      (fun b : Binding => b.kind.isParameter && b.owner.any (·.id == f.id)) = [] := by
    refine List.filter_eq_nil_iff.2 fun b hb => ?_
    obtain ⟨d, -, hb⟩ := List.mem_flatMap.1 hb
    obtain ⟨-, name, -, rfl⟩ | ⟨-, spec, -, -, name, -, -, rfl⟩ := Resolver.packageBindings_cases hb
    all_goals simp
  have hfunctions : ((functions root).flatMap (Resolver.parameterBindings (.ofFile root))).filter
      (fun b : Binding => b.kind.isParameter && b.owner.any (·.id == f.id)) =
      ((functions root).filter (·.id == f.id)).flatMap
        (Resolver.parameterBindings (.ofFile root)) := by
    rw [List.filter_flatMap]
    induction functions root with
    | nil => rfl
    | cons g gs ih =>
      rw [List.flatMap_cons, ih, List.filter_cons]
      split
      next hid =>
        rw [List.flatMap_cons, List.filter_eq_self.2 fun b hb => ?_]
        obtain ⟨hkind, howner⟩ := owner_of_mem_parameterBindings hb
        simpa [hkind, howner] using hid
      next hid =>
        rw [List.filter_eq_nil_iff.2 fun b hb => ?_, List.nil_append]
        obtain ⟨hkind, howner⟩ := owner_of_mem_parameterBindings hb
        simpa [hkind, howner] using hid
  have hparameters : ((ofFile root).bindings.filter fun b => !b.kind.isLocal).filter
      (fun b : Binding => b.kind.isParameter && b.owner.any (·.id == f.id)) =
        (ofFile root).parametersOf f := by
    rw [List.filter_filter, parametersOf]
    refine List.filter_congr fun b _ => ?_
    cases hk : b.kind <;> simp [BindingKind.isParameter, BindingKind.isLocal]
  rwa [List.filter_append, hpackage, List.nil_append, hfunctions, hparameters] at hall

/-- A function that the resolution gets to has a binding for each of its parameters, in order. -/
theorem parametersOf_of_mem (wf : root.WellFormed) (hf : f ∈ functions root) :
    List.Forall₂ Binding.Refines (Resolver.parameterBindings (.ofFile root) f)
      ((ofFile root).parametersOf f) := by
  have hrefines := parametersOf_refines root f
  have hself : ∀ g ∈ (functions root).filter (·.id == f.id), g = f := fun g hg =>
    wf.distinct.eq_of_id (functions_subset root (List.mem_of_mem_filter hg))
      (functions_subset root hf) (by simpa using (List.mem_filter.1 hg).2)
  have hmem : f ∈ (functions root).filter (·.id == f.id) :=
    List.mem_filter.2 ⟨hf, beq_self_eq_true f.id⟩
  obtain ⟨g, gs, hgs⟩ := List.exists_cons_of_ne_nil (List.ne_nil_of_mem hmem)
  rw [hgs] at hrefines hself
  obtain ⟨rfl, hself⟩ := List.forall_mem_cons.1 hself
  rw [List.flatMap_cons] at hrefines
  -- The function is visited once, or else its parameters would be declared again by the same names.
  have honce : gs.flatMap (Resolver.parameterBindings (.ofFile root)) = [] := by
    refine List.eq_nil_iff_forall_not_mem.2 fun b hb => ?_
    obtain ⟨h, hh, hb'⟩ := List.mem_flatMap.1 hb
    obtain rfl := hself h hh
    have hnodup : ((Resolver.parameterBindings (.ofFile root) h ++
        gs.flatMap (Resolver.parameterBindings (.ofFile root))).map Binding.decl).Nodup := by
      have hmap : ((ofFile root).parametersOf h).map Binding.decl = _ :=
        Binding.Refines.map_eq (fun h => h.decl_eq) hrefines
      rw [← hmap]
      exact (nodup_decl wf).sublist (List.filter_sublist.map _)
    rw [List.map_append] at hnodup
    exact List.disjoint_of_nodup_append hnodup (List.mem_map_of_mem hb') (List.mem_map_of_mem hb)
  rwa [honce, List.append_nil] at hrefines

theorem parametersOf_of_not_mem (wf : root.WellFormed) (hmem : f ∈ root.preorder)
    (hf : f ∉ functions root) : (ofFile root).parametersOf f = [] := by
  have hrefines := parametersOf_refines root f
  have hnone : (functions root).filter (·.id == f.id) = [] := by
    refine List.filter_eq_nil_iff.2 fun g hg hid => hf ?_
    rwa [← wf.distinct.eq_of_id (functions_subset root hg) hmem (by simpa using hid)]
  rw [hnone] at hrefines
  exact List.forall₂_nil_left_iff.1 hrefines

end Resolution

end Handoff
