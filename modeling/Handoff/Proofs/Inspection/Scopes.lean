import Handoff.Proofs.Inspection.Literal
import Handoff.Proofs.Resolution.Parameters

/-!
# Token scopes and what is reported in them

A token scope belongs to the innermost function around a node that has a named parameter which is a
context. Two parts of the program read parameter lists on their own: the scope takes the names of
the context parameters, and the resolution declares a binding for each parameter. They agree: the
names of a scope are those of the bindings that its owner's parameters are declared with, in their
order in the source. Findings come only from sites in token scopes, and list the names of the scope.

## Main definitions

* `TokenScope.IsOwner`: a function with a named context parameter.
* `Resolution.tokenParametersOf`: the bindings of the context parameters of a function.
* `Finding.Lists`: what a finding can say.

## Main statement

* `Inspection.check_inScope`: scopes, the bindings of their owners, and the findings in them.
-/

namespace Handoff

open Syntax Node

variable {root n f : Node} {imports : Imports} {carriers : Carriers}

namespace TokenScope

/-- A function with a named parameter, not a blank one, whose type is a context. -/
def IsOwner (imports : Imports) (carriers : Carriers) (f : Node) : Prop :=
  f.kind.isFunction = true ∧ ∃ list, f.child? .parameters = some list ∧
    ∃ d ∈ list.parameters, (∃ t, imports.declaredType d = some t ∧ carriers.isToken t = true) ∧
      ∃ name ∈ d.inField .name, name.text ≠ "_"

theorem tokenNames_eq_nil_iff : tokenNames imports carriers f = [] ↔
    declaresToken imports carriers f = false := by
  simp [tokenNames, declaresToken, List.filterMap_eq_nil_iff]

/-- A node opens a scope if it is an owner. -/
theorem ofNode_eq_some {scope : TokenScope} : ofNode imports carriers f = some scope ↔
    IsOwner imports carriers f ∧ scope = ⟨f, tokenNames imports carriers f⟩ := by
  have howner : IsOwner imports carriers f ↔ f.kind.isFunction = true ∧
      tokenNames imports carriers f ≠ [] := by
    rw [IsOwner, ← declaresToken_iff, Ne, tokenNames_eq_nil_iff, Bool.not_eq_false]
  rw [howner, ofNode]
  split
  next hkind =>
    split
    next hnone => simp [hnone]
    next hsome =>
      rw [Option.some.injEq, eq_comm]
      exact ⟨fun h => ⟨⟨hkind, hsome⟩, h⟩, fun h => h.2⟩
  next hkind => simp [hkind]

theorem ofNode_eq_none : ofNode imports carriers f = none ↔ ¬ IsOwner imports carriers f := by
  rw [Option.eq_none_iff_forall_ne_some]
  constructor
  · exact fun h howner => h _ (ofNode_eq_some.2 ⟨howner, rfl⟩)
  · exact fun h scope hscope => h (ofNode_eq_some.1 hscope).1

theorem isSome_around_iff : (around root imports carriers n).isSome = true ↔
    ∃ f ∈ n :: root.ancestors n, IsOwner imports carriers f := by
  rw [around, List.findSome?_isSome_iff]
  refine exists_congr fun f => and_congr_right fun _ => ?_
  rw [← Option.ne_none_iff_isSome, Ne, ofNode_eq_none, not_not]

/-- The scope around a node is that of the innermost owner. -/
theorem around_eq_some {scope : TokenScope} (h : around root imports carriers n = some scope) :
    (∃ inside outside, n :: root.ancestors n = inside ++ scope.owner :: outside ∧
      IsOwner imports carriers scope.owner ∧ ∀ f ∈ inside, ¬ IsOwner imports carriers f) ∧
    scope.names = tokenNames imports carriers scope.owner := by
  obtain ⟨inside, f, outside, hpath, hf, hinside⟩ := List.findSome?_eq_some_iff.1 h
  obtain ⟨howner, rfl⟩ := ofNode_eq_some.1 hf
  exact ⟨⟨inside, outside, hpath, howner, fun g hg => ofNode_eq_none.1 (hinside g hg)⟩, rfl⟩

/-- A function with context parameters is in its own scope. -/
theorem around_self {names : List String} (hkind : f.kind.isFunction = true)
    (hnames : tokenNames imports carriers f = names) (hne : names ≠ []) :
    around root imports carriers f = some ⟨f, names⟩ := by
  obtain ⟨name, names, rfl⟩ := List.exists_cons_of_ne_nil hne
  simp [around, ofNode, hkind, hnames]

end TokenScope

/-! ### Context parameters -/

def Syntax.Node.parameterDeclarations (f : Node) : List Node :=
  (f.child? .parameters).toList.flatMap parameters

def isTokenDeclaration (imports : Imports) (carriers : Carriers) (d : Node) : Bool :=
  (imports.declaredType d).any carriers.isToken

def isTokenParameter (imports : Imports) (carriers : Carriers) (f : Node) (b : Binding) : Bool :=
  (f.parameterDeclarations.filter (isTokenDeclaration imports carriers)).any fun d =>
    (d.inField .name).any (·.id == b.decl.id)

def Resolution.tokenParametersOf (r : Resolution) (carriers : Carriers) (f : Node) : List Binding :=
  (r.parametersOf f).filter (isTokenParameter r.imports carriers f)

/-- The names of a function's context parameters, declaration by declaration. -/
theorem tokenNames_eq (imports : Imports) (carriers : Carriers) (f : Node) :
    tokenNames imports carriers f =
    (f.parameterDeclarations.filter (isTokenDeclaration imports carriers)).flatMap fun d =>
      ((d.inField .name).filter (·.text ≠ "_")).map Node.text := by
  have hnames : ∀ names : List Node,
      (names.map fun name : Node => if name.text = "_" then none else some name.text).filterMap
        (fun name => name) = (names.filter (·.text ≠ "_")).map Node.text := by
    intro names
    induction names with
    | nil => rfl
    | cons name names ih => by_cases hblank : name.text = "_" <;> simp_all
  rw [tokenNames, tokenParameters, parameterDeclarations]
  cases f.child? .parameters with
  | none => rfl
  | some list =>
    rw [Option.toList_some, List.flatMap_singleton]
    dsimp only
    induction list.parameters with
    | nil => rfl
    | cons d ds ih =>
      rw [List.flatMap_cons, List.filterMap_append, ih, List.filter_cons, isTokenDeclaration]
      split
      next =>
        rw [List.flatMap_cons, ← hnames]
        split
        next hnone => rw [hnone]; rfl
        next => rfl
      next => rfl

theorem mem_parameterDeclarations {d : Node} : d ∈ f.parameterDeclarations ↔
    ∃ list, f.child? .parameters = some list ∧ d ∈ list.parameters := by
  simp [parameterDeclarations]

section Lists

variable {d other : Node} {b : Binding} (wf : root.WellFormed) (hf : f ∈ root.preorder)

theorem isTokenParameter_iff : isTokenParameter imports carriers f b = true ↔
    ∃ d ∈ f.parameterDeclarations, isTokenDeclaration imports carriers d = true ∧
      ∃ name ∈ d.inField .name, name.id = b.decl.id := by
  simp [isTokenParameter]

include wf hf

/-- A parameter of the list is a context if its declaration says so. -/
theorem isTokenParameter_of_mem (hd : d ∈ f.parameterDeclarations) (hb : b.decl ∈ d.inField .name) :
    isTokenParameter imports carriers f b = isTokenDeclaration imports carriers d := by
  have hname : ∀ d : Node, ∀ name ∈ d.inField .name, name ∈ d.preorder := fun d name hname =>
    preorder_of_inner (inner_of_mem_filter hname)
  rw [Bool.eq_iff_iff, isTokenParameter_iff]
  constructor
  · rintro ⟨d', hd', htoken, name, hname', hid⟩
    obtain ⟨list, hlist, hd⟩ := mem_parameterDeclarations.1 hd
    obtain ⟨list', hlist', hd'⟩ := mem_parameterDeclarations.1 hd'
    obtain rfl : list = list' := Option.some.inj (hlist.symm.trans hlist')
    have hmem : list ∈ root.preorder := preorder_trans hf (preorder_of_child? hlist)
    have hsame : d' = d :=
      (wf.distinct.of_mem hmem).child_eq (List.mem_of_mem_filter (List.mem_of_mem_filter hd'))
        (List.mem_of_mem_filter (List.mem_of_mem_filter hd)) (hname d' name hname')
        (hname d b.decl hb) hid
    rwa [← hsame]
  · exact fun htoken => ⟨d, hd, htoken, b.decl, hb, rfl⟩

/-- Receivers and results are no parameters of the list. -/
theorem isTokenParameter_of_other (hother : other ∈ f.children)
    (hne : f.child? .parameters ≠ some other) (hb : b.decl ∈ other.preorder) :
    isTokenParameter imports carriers f b = false := by
  rw [Bool.eq_false_iff, Ne, isTokenParameter_iff]
  rintro ⟨d, hd, -, name, hname, hid⟩
  obtain ⟨list, hlist, hd⟩ := mem_parameterDeclarations.1 hd
  have hin : name ∈ list.preorder := preorder_trans
    (preorder_of_inner (inner_of_mem_filter (List.mem_of_mem_filter hd)))
    (preorder_of_inner (inner_of_mem_filter hname))
  have hsame : other = list :=
    (wf.distinct.of_mem hf).child_eq hother (mem_children_of_child? hlist).1 hb hin hid.symm
  exact hne (hsame ▸ hlist)

/-- The bindings that the context parameters of a function are declared with. -/
theorem filter_parameterBindings :
    (Resolver.parameterBindings imports f).filter (isTokenParameter imports carriers f) =
      (f.parameterDeclarations.filter (isTokenDeclaration imports carriers)).flatMap
        (Resolver.declaredBindings imports f) := by
  have hlists : (Resolver.parameterLists f).filter (·.kind == .parameterList) =
      (f.child? .receiver).toList.filter (·.kind == .parameterList) ++
        (f.child? .parameters).toList ++ (f.child? .result).toList.filter
          (·.kind == .parameterList) := by
    have hkind : ∀ list ∈ (f.child? .parameters).toList, (list.kind == .parameterList) = true :=
        fun list hlist => by
      rw [wf.kind_parameters hf (Option.mem_toList.1 hlist)]
      rfl
    have hall : Resolver.parameterLists f =
        (f.child? .receiver).toList ++ (f.child? .parameters).toList ++
          (f.child? .result).toList := by
      cases hreceiver : f.child? .receiver <;> cases hlist : f.child? .parameters <;>
        cases hresult : f.child? .result <;>
          simp [Resolver.parameterLists, hlist, hreceiver, hresult]
    rw [hall, List.filter_append, List.filter_append, List.filter_eq_self.2 hkind]
  -- of the three lists only that of the parameters has context parameters
  have hother : ∀ field, field ≠ .parameters →
      (((f.child? field).toList.filter (·.kind == .parameterList)).flatMap fun l =>
        (l.parameters.flatMap (Resolver.declaredBindings imports f)).filter
          (isTokenParameter imports carriers f)) = [] := by
    intro field hfield
    refine List.flatMap_eq_nil_iff.2 fun l hl => List.filter_eq_nil_iff.2 fun b hb => ?_
    have hl := Option.mem_toList.1 (List.mem_of_mem_filter hl)
    obtain ⟨d, hd, hb⟩ := List.mem_flatMap.1 hb
    obtain ⟨name, hname, rfl⟩ := List.mem_map.1 hb
    rw [isTokenParameter_of_other wf hf (mem_children_of_child? hl).1 fun h =>
      ne_of_child? hl h hfield rfl]
    · exact Bool.false_ne_true
    · exact preorder_trans (preorder_of_inner (inner_of_mem_filter (List.mem_of_mem_filter hd)))
        (preorder_of_inner (inner_of_mem_filter (List.mem_of_mem_filter hname)))
  -- all names of a declaration are context parameters, or none
  have hself : ∀ ds ⊆ f.parameterDeclarations,
      (ds.flatMap (Resolver.declaredBindings imports f)).filter
        (isTokenParameter imports carriers f) =
          (ds.filter (isTokenDeclaration imports carriers)).flatMap
            (Resolver.declaredBindings imports f) := by
    intro ds
    induction ds with
    | nil => exact fun _ => rfl
    | cons d ds ih =>
      intro hds
      obtain ⟨hd, hds⟩ := List.cons_subset.1 hds
      have htoken : ∀ b ∈ Resolver.declaredBindings imports f d,
          isTokenParameter imports carriers f b = isTokenDeclaration imports carriers d := by
        intro b hb
        obtain ⟨name, hname, rfl⟩ := List.mem_map.1 hb
        exact isTokenParameter_of_mem wf hf hd (List.mem_of_mem_filter hname)
      rw [List.flatMap_cons, List.filter_append, ih hds, List.filter_congr htoken, List.filter_cons]
      split
      next hd => rw [hd, List.flatMap_cons, List.filter_true]
      next hd => rw [Bool.eq_false_iff.2 hd, List.filter_false, List.nil_append]
  rw [Resolver.parameterBindings, List.flatMap_assoc, List.filter_flatMap, hlists,
    List.flatMap_append, List.flatMap_append, hother .receiver (by decide), hother .result
      (by decide), List.nil_append, List.append_nil,
    ← hself _ (List.Subset.refl _), parameterDeclarations, List.flatMap_assoc, List.filter_flatMap]

/-- Children that are no comments start one after the other. -/
theorem pairwise_start_children {q : Node → Bool}
    (hq : ∀ c ∈ f.children, q c = true → c.kind ≠ .comment) :
    (f.children.filter q).Pairwise fun c k => c.stop ≤ k.start := by
  have hordered := List.pairwise_filter.1 (wf.ordered f hf)
  refine List.pairwise_filter.2 (hordered.imp_of_mem fun {c k} hc hk h hqc hqk => ?_)
  exact h (by simpa using hq c hc hqc) (by simpa using hq k hk hqk)

/-- The parameters of a list stand in the order in which they are declared. -/
theorem pairwise_start_parameters {q p : Node → Bool} :
    ((f.parameterDeclarations.filter q).flatMap fun d => (d.inField .name).filter p).Pairwise
      fun a b => a.start ≤ b.start := by
  have hdeclaration : ∀ d ∈ f.parameterDeclarations.filter q, d ∈ root.preorder := fun d hd => by
    obtain ⟨list, hlist, hd⟩ := mem_parameterDeclarations.1 (List.mem_of_mem_filter hd)
    exact preorder_trans hf (preorder_trans (preorder_of_child? hlist)
      (preorder_of_inner (inner_of_mem_filter (List.mem_of_mem_filter hd))))
  -- the names of one declaration, then those of different ones
  refine List.pairwise_flatMap.2 ⟨fun d hd => ?_, ?_⟩
  · have hnames : (d.inField .name).Pairwise fun c k => c.stop ≤ k.start := by
      refine pairwise_start_children wf (hdeclaration d hd) fun c hc hfield hcomment => ?_
      have hnone :=
        wf.comments c (preorder_trans (hdeclaration d hd) (child_mem_preorder hc)) hcomment
      simp [hnone] at hfield
    refine (hnames.sublist List.filter_sublist).imp_of_mem fun {c k} hc _ hck => ?_
    have hc : c ∈ root.inner :=
      inner_of_preorder_inner (hdeclaration d hd) (inner_of_mem_filter (List.mem_of_mem_filter hc))
    exact (wf.forward c hc).trans hck
  · have hlists : (f.parameterDeclarations.filter q).Pairwise fun c k => c.stop ≤ k.start := by
      refine List.Pairwise.sublist List.filter_sublist ?_
      rw [parameterDeclarations]
      cases hlist : f.child? .parameters with
      | none => exact .nil
      | some list =>
        rw [Option.toList_some, List.flatMap_singleton]
        have hparts :=
          pairwise_start_children (q := isPart) wf (preorder_trans hf (preorder_of_child? hlist))
            fun c _ hpart hcomment => by simp [isPart, hcomment] at hpart
        exact hparts.sublist List.filter_sublist
    refine hlists.imp_of_mem fun {d e} hd he hde a ha b hb => ?_
    have hin : ∀ d x : Node, x ∈ (d.inField .name).filter p → x ∈ d.inner := fun d x hx =>
      inner_of_mem_filter (List.mem_of_mem_filter hx)
    have hstart := wf.start_le (hdeclaration d hd) (preorder_of_inner (hin d a ha))
    have hstop := wf.start_le (hdeclaration e he) (preorder_of_inner (hin e b hb))
    have hforward := wf.forward a (inner_of_preorder_inner (hdeclaration d hd) (hin d a ha))
    omega

end Lists

namespace Resolution

variable {b : Binding} (wf : root.WellFormed) (hf : f ∈ functions root)
include wf hf

/-- The bindings of the context parameters, as they were declared. -/
theorem tokenParametersOf_refines : List.Forall₂ Binding.Refines
    ((f.parameterDeclarations.filter (isTokenDeclaration (ofFile root).imports carriers)).flatMap
      (Resolver.declaredBindings (ofFile root).imports f))
    ((ofFile root).tokenParametersOf carriers f) := by
  have hall := parametersOf_of_mem wf hf
  rw [← (lasting_ofFile root).1] at hall
  rw [← filter_parameterBindings wf (functions_subset root hf)]
  refine List.rel_filter (fun a b hab => ?_) hall
  change (_ = true) ↔ (_ = true)
  rw [isTokenParameter, isTokenParameter, hab.decl_eq]

/-- The two readings of a parameter list agree on the names. -/
theorem map_name_tokenParametersOf : ((ofFile root).tokenParametersOf carriers f).map Binding.name =
    tokenNames (ofFile root).imports carriers f := by
  rw [Binding.Refines.map_eq (fun h => h.name_eq) (tokenParametersOf_refines wf hf), tokenNames_eq,
    List.map_flatMap]
  refine List.flatMap_congr fun d _ => ?_
  rw [Resolver.declaredBindings, List.map_map]
  rfl

theorem isToken_of_mem_tokenParametersOf (hb : b ∈ (ofFile root).tokenParametersOf carriers f) :
    ∃ t, b.type = some t ∧ carriers.isToken t = true := by
  obtain ⟨a, ha, hab⟩ := Binding.Refines.exists_of_mem (tokenParametersOf_refines wf hf) hb
  obtain ⟨d, hd, ha⟩ := List.mem_flatMap.1 ha
  obtain ⟨t, ht, htoken⟩ := (Option.any_eq_true _ _).1 (List.mem_filter.1 hd).2
  obtain ⟨name, -, rfl⟩ := List.mem_map.1 ha
  exact ⟨t, hab.typed t ht, htoken⟩

theorem pairwise_start_tokenParametersOf :
    ((ofFile root).tokenParametersOf carriers f).Pairwise fun a b => a.decl.start ≤
      b.decl.start := by
  have hdecl : ∀ d, (Resolver.declaredBindings (ofFile root).imports f d).map Binding.decl =
      (d.inField .name).filter (·.text ≠ "_") := fun d => by
    rw [Resolver.declaredBindings, List.map_map]
    exact List.map_id _
  refine (List.pairwise_map (R := fun a b : Node => a.start ≤ b.start)).1 ?_
  rw [Binding.Refines.map_eq (fun h => h.decl_eq) (tokenParametersOf_refines wf hf),
    List.map_flatMap]
  simp only [hdecl]
  exact pairwise_start_parameters wf (functions_subset root hf)

end Resolution

/-! ### Findings -/

/-- What a finding about a site says: that a closure uses none of some contexts, or that required
calls are not made at its start. -/
def Finding.Lists (contexts : List String) (f : Finding) : Prop :=
  (∃ label ordinal, f.message = f.checker.propagationMessage label contexts ordinal) ∨
    f.checker = .derive ∧ ∃ place requirement,
      f.message = derivationMissing place requirement ∨
        f.message = derivationDeferred place requirement

namespace Inspection

variable {i : Inspection} {finding : Finding} {contexts : List String}

theorem lists_of_mem_outcomeFinding {requirement : Requirement} {place : String} {outcome : Outcome}
    (h : finding ∈ outcomeFinding requirement n place outcome) : finding.Lists contexts := by
  cases outcome with
  | atStart => cases h
  | deferred =>
    obtain rfl := List.mem_singleton.1 h
    exact .inr ⟨rfl, place, requirement.label, .inr rfl⟩
  | missing =>
    obtain rfl := List.mem_singleton.1 h
    exact .inr ⟨rfl, place, requirement.label, .inl rfl⟩

theorem lists_of_mem_goFindings (h : finding ∈ i.goFindings contexts n) :
    finding.Lists contexts := by
  unfold goFindings at h
  split at h
  next => cases h
  next call callee _ =>
    obtain h | h := List.mem_append.1 h
    · split at h
      next =>
        obtain rfl := List.mem_singleton.1 h
        exact .inl ⟨"", none, rfl⟩
      next => cases h
    · split at h
      next => exact lists_of_mem_outcomeFinding h
      next => cases h

theorem lists_of_mem_callbackFindings {site : SpawnSite} {call : Node} {callback : Callback}
    (h : finding ∈ i.callbackFindings contexts site call callback) : finding.Lists contexts := by
  obtain h | h := List.mem_append.1 h
  · split at h
    next =>
      obtain rfl := List.mem_singleton.1 h
      exact .inl ⟨site.spawner.label, callback.ordinal, rfl⟩
    next => cases h
  · split at h
    next => exact lists_of_mem_outcomeFinding h
    next => cases h

/-- A finding about a site lists the names of the scope that the site is in. -/
theorem lists_of_mem_siteFindings (h : finding ∈ i.siteFindings n) :
    isSite n = true ∧ ∃ scope,
      TokenScope.around i.resolution.root i.resolution.imports i.settings.carriers n = some scope ∧
      finding.Lists scope.names := by
  obtain ⟨scope, hscope, ⟨hkind, h⟩ | ⟨hkind, site, -, callback, -, h⟩⟩ := mem_siteFindings h
  · exact ⟨by simp [isSite, hkind], scope, hscope, lists_of_mem_goFindings h⟩
  · exact ⟨by simp [isSite, hkind], scope, hscope, lists_of_mem_callbackFindings h⟩

/-- A node is in a token scope if a function at or above it has a named context parameter, and the
innermost such function owns the scope. If the resolution gets to the owner, then the names of the
scope are those of the bindings of the owner's context parameters, as they stand in the source; if
not, then the owner has no such bindings. Findings about anything but directives come from sites in
token scopes, and list the names of the scope. -/
theorem check_inScope (settings : Settings) (wf : root.WellFormed) :
    let r := Resolution.ofFile root
    let around := TokenScope.around root r.imports settings.carriers
    let IsOwner := TokenScope.IsOwner r.imports settings.carriers
    (∀ n ∈ root.preorder, (around n).isSome = true ↔ ∃ f ∈ n :: root.ancestors n, IsOwner f) ∧
    (∀ n ∈ root.preorder, ∀ scope, around n = some scope →
      (∃ inside outside, n :: root.ancestors n = inside ++ scope.owner :: outside ∧
        IsOwner scope.owner ∧ ∀ f ∈ inside, ¬ IsOwner f) ∧
      (scope.owner ∈ Resolution.functions root →
        scope.names = (r.tokenParametersOf settings.carriers scope.owner).map Binding.name ∧
        (r.tokenParametersOf settings.carriers scope.owner).Pairwise
          (fun a b => a.decl.start ≤ b.decl.start) ∧
        ∀ b ∈ r.tokenParametersOf settings.carriers scope.owner,
          ∃ t, b.type = some t ∧ settings.carriers.isToken t = true) ∧
      (scope.owner ∉ Resolution.functions root → r.parametersOf scope.owner = [])) ∧
    ∀ f ∈ checkFile settings root, f.checker ≠ .unusedIgnore →
      ∃ n ∈ root.preorder, isSite n = true ∧ f ∈ (ofFile settings root).siteFindings n ∧
        ∃ scope, around n = some scope ∧ f.Lists scope.names := by
  intro r around IsOwner
  have hroot : r.root = root := Resolution.root_ofFile wf
  refine ⟨fun n _ => TokenScope.isSome_around_iff, fun n hn scope hscope =>
    ?_, fun f hf hproper => ?_⟩
  · obtain ⟨howner, hnames⟩ := TokenScope.around_eq_some hscope
    refine ⟨howner, fun hmem => ⟨?_, ?_, fun b hb => ?_⟩, fun hmem => ?_⟩
    · rw [hnames, Resolution.map_name_tokenParametersOf wf hmem]
    · exact Resolution.pairwise_start_tokenParametersOf wf hmem
    · exact Resolution.isToken_of_mem_tokenParametersOf wf hmem hb
    · obtain ⟨inside, outside, hpath, -⟩ := howner
      have hmem' : scope.owner ∈ n :: root.ancestors n := by rw [hpath]; simp
      refine Resolution.parametersOf_of_not_mem wf ?_ hmem
      obtain h | h := List.mem_cons.1 hmem'
      · exact h ▸ hn
      · exact ((wf.distinct.mem_ancestors hn).1 h).1
  · have hfound : f ∈ (ofFile settings root).findings := mem_findings_of_mem_report hf hproper
    obtain ⟨n, hn, hf⟩ := List.mem_flatMap.1 hfound
    obtain ⟨hsite, scope, hscope, hlists⟩ := lists_of_mem_siteFindings hf
    change n ∈ r.root.preorder at hn
    change TokenScope.around r.root _ _ n = _ at hscope
    rw [hroot] at hn hscope
    exact ⟨n, hn, hsite, hf, scope, hscope, hlists⟩

/-- A parameter gets the type of a context only by an assignment, and a function literal stands in a
statement outside of all declarations. -/
def lateContexts : String :=
  "package p\nimport \"context\"\nfunc run(ctx context.Context, x interface\x7b\x7d) \x7b\n" ++
    "\tx = ctx\n\tgo func(a, b context.Context) \x7b\x7d()\n\x7d\n" ++
    "start := func(ctx context.Context) \x7b\x7d\n"

set_option maxRecDepth 4000 in
theorem check_inScope_lateContexts :
    ∃ f ∈ Resolution.functions (parse lateContexts),
      TokenScope.around (parse lateContexts) (Resolution.ofFile (parse lateContexts)).imports
        Settings.standard.carriers f = some ⟨f, ["a", "b"]⟩ ∧
      ((Resolution.ofFile (parse lateContexts)).tokenParametersOf Settings.standard.carriers f).map
        Binding.name = ["a", "b"] := by
  have hfound : ((parse lateContexts).parts.filter Resolver.hasBody).any
      (fun d => d.resolvedParts.any fun statement => statement.resolvedParts.any fun call =>
        call.resolvedParts.any fun f => f.kind.isFunction && tokenNames
          (.ofFile (parse lateContexts)) Settings.standard.carriers f == ["a", "b"]) = true := by
    decide +kernel
  rw [← (Resolution.lasting_ofFile (parse lateContexts)).1] at hfound
  simp only [List.any_eq_true, Bool.and_eq_true, beq_iff_eq] at hfound
  obtain ⟨d, hd, statement, hstatement, call, hcall, f, hf, hkind, hnames⟩ := hfound
  have hpath : Relation.ReflTransGen (fun n c => c ∈ n.resolvedParts) d f :=
    ((Relation.ReflTransGen.single hstatement).tail hcall).tail hf
  have hmem : f ∈ Resolution.functions (parse lateContexts) :=
    List.mem_flatMap.2 ⟨d, hd, mem_resolvedFunctions.2 ⟨hkind, hpath⟩⟩
  have haround :
      TokenScope.around (parse lateContexts) (Resolution.ofFile (parse lateContexts)).imports
        Settings.standard.carriers f = some ⟨f, ["a", "b"]⟩ :=
          TokenScope.around_self hkind hnames (by simp)
  have hscope := (check_inScope .standard (parse_wellFormed lateContexts)).2.1 f
    (Resolution.functions_subset _ hmem) _ haround
  exact ⟨f, hmem, haround, ((hscope.2.1 hmem).1).symm⟩

set_option maxRecDepth 4000 in
/-- The scope of the literal outside of all declarations has a name and the literal no bindings. The
scope of the function has one name, and two bindings of its parameters end up with the type of a
context. -/
theorem names_ne_lateContexts :
    let root := parse lateContexts
    let r := Resolution.ofFile root
    let around := TokenScope.around root r.imports Settings.standard.carriers
    (∃ f ∈ root.preorder, (root.ancestors f).map Node.kind =
      [.expressionList, .shortVarDeclaration, .sourceFile] ∧ around f = some ⟨f, ["ctx"]⟩ ∧
        r.parametersOf f = []) ∧
    ∃ f ∈ root.parts, around f = some ⟨f, ["ctx"]⟩ ∧
      ((r.parametersOf f).filter fun b => b.type.any Settings.standard.carriers.isToken).map
        Binding.name = ["ctx", "x"] := by
  intro root r around
  have hfound : (root.preorder.any (fun f => f.kind.isFunction &&
        tokenNames (.ofFile root) Settings.standard.carriers f == ["ctx"] &&
        (root.ancestors f).map Node.kind == [.expressionList, .shortVarDeclaration, .sourceFile] &&
        (r.parametersOf f).isEmpty) &&
      root.parts.any (fun f => f.kind.isFunction &&
        tokenNames (.ofFile root) Settings.standard.carriers f == ["ctx"] &&
        ((r.parametersOf f).filter fun b => b.type.any Settings.standard.carriers.isToken).map
          Binding.name == ["ctx", "x"])) = true := by
    decide +kernel
  rw [← (Resolution.lasting_ofFile root).1] at hfound
  simp only [List.any_eq_true, Bool.and_eq_true, beq_iff_eq, List.isEmpty_iff] at hfound
  obtain ⟨⟨f, hf, ⟨⟨hkind, hnames⟩, hancestors⟩, hnone⟩, g, hg, ⟨hkind', hnames'⟩, hlate⟩ := hfound
  exact ⟨⟨f, hf, hancestors, TokenScope.around_self hkind hnames (by simp), hnone⟩,
    g, hg, TokenScope.around_self hkind' hnames' (by simp), hlate⟩

end Inspection

end Handoff
