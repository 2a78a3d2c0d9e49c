import Handoff.Proofs.Resolution.Correspondence
import Handoff.Proofs.Resolution.Lexical

/-!
# Resolving like declarations

The resolution of a file goes over its declarations twice, in source order. Over like declarations
it finds the same, whatever else the two files hold. The order is a parameter here:
`Resolution.inOrder` resolves the declarations of a file in any order.

## Main definitions

* `Resolution.inOrder`: the resolution of a file, its declarations taken in a given order.

## Main statement

* `Resolution.like_inOrder`: like declarations in the same order are resolved alike.
-/

namespace Handoff

open Syntax Node

/-! ### Imports -/

namespace Imports

variable {N : Node → Node → Prop} {n n' : Node} (L : Likeness N)

include L

theorem specs_like (h : N n n') (hkind : n.kind = .importDeclaration) :
    List.Forall₂ N (specs n) (specs n') := by
  refine List.rel_flatMap (L.parts h (by rw [hkind]; decide)) fun part part' hpart => ?_
  rw [L.kind hpart]
  split
  · exact .cons hpart .nil
  · split
    next hlist => exact L.filter (p := (· == .importSpec)) (L.parts hpart (by rw [hlist]; decide))
    next => exact .nil

theorem ofSpec_like (h : N n n') : ofSpec n' = ofSpec n := by
  unfold ofSpec
  have hpath := L.text_child? h (f := .path) rfl
  have hname := L.text_child? h (f := .name) rfl
  obtain ⟨hp, hp'⟩ | ⟨p, p', hp, hp', -⟩ := rel_cases (L.child? h .path)
  · rw [hp, hp']
    rfl
  · rw [hp, hp'] at hpath ⊢
    simp only [bind, Option.bind]
    rw [Option.some.inj hpath]
    obtain ⟨hc, hc'⟩ | ⟨c, c', hc, hc', hN⟩ := rel_cases (L.child? h .name)
    · rw [hc, hc']
    · rw [hc, hc'] at hname ⊢
      dsimp only
      rw [L.kind hN, Option.some.inj hname]

/-- Like import declarations introduce the same names. -/
theorem ofFile_like {root root' : Node}
    (h : List.Forall₂ N (root.parts.filter (·.kind == .importDeclaration))
      (root'.parts.filter (·.kind == .importDeclaration))) : ofFile root' = ofFile root := by
  unfold ofFile
  have hkind : ∀ d ∈ root.parts.filter (·.kind == .importDeclaration), d.kind =
      .importDeclaration :=
    fun d hd => by simpa using (List.mem_filter.1 hd).2
  dsimp only
  generalize root.parts.filter (·.kind == .importDeclaration) = ds,
    root'.parts.filter (·.kind == .importDeclaration) = ds' at h hkind
  have hspecs : List.Forall₂ N (ds.flatMap specs) (ds'.flatMap specs) := by
    induction h with
    | nil => exact .nil
    | cons hd _ ih =>
      obtain ⟨hkind, hrest⟩ := List.forall_mem_cons.1 hkind
      exact List.rel_append (specs_like L hd hkind) (ih hrest)
  congr 2
  generalize ds.flatMap specs = specs, ds'.flatMap specs = specs' at hspecs
  induction hspecs with
  | nil => rfl
  | cons hspec _ ih => rw [List.filterMap_cons, List.filterMap_cons, ofSpec_like L hspec, ih]

end Imports

/-! ### The first round -/

namespace Resolver

variable {root root' : Node} {M : Correspondence root root'} {N : Node → Node → Prop} {n n' : Node}
  {d : Nat} {s t : Resolver}

theorem declaredResults_like (L : Likeness N) (imports : Imports) (hN : N n n') :
    declaredResults imports n' = declaredResults imports n := by
  unfold declaredResults
  rw [L.kind hN, Imports.parameterTypes_like L imports hN, Imports.typeOf_like L imports hN]

theorem structFields_like (L : Likeness N) (imports : Imports) (hN : N n n') :
    structFields imports n' = structFields imports n := by
  unfold structFields
  have hname := L.text_child? hN (f := .name) rfl
  obtain ⟨hc, hc'⟩ | ⟨name, name', hc, hc', -⟩ := rel_cases (L.child? hN .name)
  · rw [hc, hc']
  rw [hc, hc'] at hname ⊢
  obtain ⟨ht, ht'⟩ | ⟨type, type', ht, ht', htype⟩ := rel_cases (L.child? hN .type)
  · rw [ht, ht']
  rw [ht, ht']
  dsimp only
  rw [Option.some.inj hname, L.kind htype]
  split
  · rfl
  next hstruct =>
  have hstruct : type.kind = .structType := by simpa using hstruct
  have hlist : Option.Rel N (type.parts.find? (·.kind == .fieldDeclarationList))
      (type'.parts.find? (·.kind == .fieldDeclarationList)) := by
    rw [← List.head?_filter, ← List.head?_filter]
    exact rel_head? (L.filter (p := (· == .fieldDeclarationList))
      (L.parts htype (by rw [hstruct]; decide)))
  obtain ⟨hl, hl'⟩ | ⟨list, list', hl, hl', hlist⟩ := rel_cases hlist
  · rw [hl, hl']
  · rw [hl, hl']
    have hkind : list.kind = .fieldDeclarationList := by simpa using List.find?_some hl
    have hfields := L.parts hlist (by rw [hkind]; decide)
    dsimp only
    generalize list.parts = fields, list'.parts = fields' at hfields
    induction hfields with
    | nil => rfl
    | @cons field field' _ _ hfield _ ih =>
      rw [List.flatMap_cons, List.flatMap_cons, ih, Imports.declaredType_like L imports hfield]
      congr 1
      split
      · rfl
      next fieldType _ =>
        have hmap : ∀ names : List Node, (names.map fun n => ((name.text, n.text), fieldType)) =
            (names.map Node.text).map fun text => ((name.text, text), fieldType) := fun names => by
          rw [List.map_map]
          rfl
        rw [hmap, hmap, L.texts_names hfield]

namespace Like

theorem declareFunction (hN : M.node n n') (hkind : n.kind = .functionDeclaration)
    (h : s.Like M (d + 1) t) : (s.declareFunction n).Like M (d + 1) (t.declareFunction n') := by
  unfold Resolver.declareFunction
  have hname := M.like.text_child? hN (f := .name) rfl
  obtain ⟨hc, hc'⟩ | ⟨name, name', hc, hc', hNname⟩ := rel_cases (M.like.child? hN .name)
  · rw [hc, hc']
    exact h
  rw [hc, hc'] at hname ⊢
  have htext := Option.some.inj hname
  have hdeclared : (s.declare none name (.function n) none).Like M (d + 1)
      (t.declare none name' (.function n') none) :=
    h.declare .none hNname (fun _ => ⟨n, M.mem hN, hkind, (mem_children_of_child? hc).1⟩) htext
      (.function (M.content_of_node hN)) fun _ => rfl
  dsimp only
  obtain ⟨hr, hr'⟩ | ⟨result, result', hr, hr', hresult⟩ := rel_cases (M.like.child? hN .result)
  · rw [hr, hr']
    exact hdeclared
  · rw [hr, hr']
    refine ⟨{ hdeclared.facts with results := fun hname => ?_ }, hdeclared.frames,
      hdeclared.depth_eq, hdeclared.fresh, hdeclared.compared, hdeclared.unwritten,
        hdeclared.unwritten'⟩
    dsimp only
    rw [List.lookup_cons, List.lookup_cons, hdeclared.facts.results hname, hdeclared.facts.imports,
      htext, declaredResults_like M.like _ hresult]

theorem declareValues (hN : M.node n n') (hkind : n.kind ≠ .argumentList) (h : s.Like M (d + 1) t) :
    (s.declareValues n).Like M (d + 1) (t.declareValues n') := by
  have hspecs : List.Forall₂ M.node (n.parts.filter isValueSpec) (n'.parts.filter isValueSpec) :=
    M.like.filter (p := fun k => k == .varSpec || k == .constSpec) (M.like.parts hN hkind)
  refine foldl hspecs h fun hspec h => declareAll .none (names_like hspec) .packageVariable ?_ h
  rw [h.facts.imports]
  exact Imports.declaredType_like M.like _ hspec

theorem declareTypes (hN : M.node n n') (hkind : n.kind ≠ .argumentList) (h : s.Like M d t) :
    (s.declareTypes n).Like M d (t.declareTypes n') := by
  have hspecs : List.Forall₂ M.node (n.parts.filter (·.kind == .typeSpec))
      (n'.parts.filter (·.kind == .typeSpec)) :=
    M.like.filter (p := (· == .typeSpec)) (M.like.parts hN hkind)
  have hfields : (n'.parts.filter (·.kind == .typeSpec)).flatMap (structFields t.facts.imports) =
      (n.parts.filter (·.kind == .typeSpec)).flatMap (structFields s.facts.imports) := by
    rw [h.facts.imports]
    generalize n.parts.filter (·.kind == .typeSpec) = specs, n'.parts.filter (·.kind == .typeSpec) =
      specs' at hspecs
    induction hspecs with
    | nil => rfl
    | cons hspec _ ih =>
      rw [List.flatMap_cons, List.flatMap_cons, ih, structFields_like M.like _ hspec]
  refine ⟨{ h.facts with fieldTypes := fun key => ?_ }, h.frames, h.depth_eq, h.fresh, h.compared,
    h.unwritten, h.unwritten'⟩
  simp only [Resolver.declareTypes]
  rw [hfields, List.lookup_append, List.lookup_append, h.facts.fieldTypes]

theorem declarePackage (hN : M.node n n') (h : s.Like M (d + 1) t) :
    (s.declarePackage n).Like M (d + 1) (t.declarePackage n') := by
  unfold Resolver.declarePackage
  rw [M.like.kind hN]
  split
  next hk => exact declareFunction hN hk h
  next hk => exact declareValues hN (by rw [hk]; decide) h
  next hk => exact declareValues hN (by rw [hk]; decide) h
  next hk => exact declareTypes hN (by rw [hk]; decide) h
  next => exact h

end Like

/-! ### The second round -/

theorem isPart_of_isValueSpec {c : Node} (h : isValueSpec c = true) : c.isPart = true := by
  rcases isValueSpec_iff.1 h with hc | hc <;> rw [isPart, hc] <;> rfl

theorem hasBody_iff : hasBody n = true ↔
    (n.kind = .functionDeclaration ∨ n.kind = .methodDeclaration) ∨ n.kind = .varDeclaration ∨
      n.kind = .constDeclaration := by
  simp [hasBody, or_assoc]

/-- Visits of like declarations keep a relation that the names of specs keep in the package, too. -/
theorem Lockstep.visitDeclaration {N : Node → Node → Prop} {Rel : Nat → Resolver → Resolver → Prop}
    (L : Likeness N) (hRel : Lockstep N Rel)
    (hspec : ∀ {spec spec' s t}, n.kind = .varDeclaration ∨ n.kind = .constDeclaration →
      spec ∈ n.children → N spec spec' → isValueSpec spec = true → Rel 1 s t →
      Rel 1 (s.specNames none spec) (t.specNames none spec'))
    (wf : n.WellFormed) (hN : N n n') (hbody : hasBody n = true) (h : Rel 1 s t) :
    Rel 1 (Resolver.visit none n s) (Resolver.visit none n' t) := by
  obtain hfunction | hvalues := hasBody_iff.1 hbody
  · refine Lockstep.visit L hRel wf hN .none (.inl ?_) h
    rcases hfunction with hk | hk <;> rw [hk] <;> rfl
  · rw [visit_values _ _ hvalues, visit_values _ _ (L.kind hN ▸ hvalues), visitSpecs_eq_foldl,
      visitSpecs_eq_foldl, filter_eq_filter_parts fun _ => isPart_of_isValueSpec,
      filter_eq_filter_parts fun _ => isPart_of_isValueSpec]
    have hspecs : List.Forall₂ N (n.parts.filter isValueSpec) (n'.parts.filter isValueSpec) :=
      L.filter (p := fun k => k == .varSpec || k == .constSpec)
        (L.parts hN (by rcases hvalues with hk | hk <;> rw [hk] <;> decide))
    have hmem : ∀ c ∈ n.parts.filter isValueSpec, c ∈ n.children ∧ isValueSpec c = true :=
      fun c hc => ⟨List.mem_of_mem_filter (List.mem_of_mem_filter hc), (List.mem_filter.1 hc).2⟩
    generalize n.parts.filter isValueSpec = specs, n'.parts.filter isValueSpec =
      specs' at hspecs hmem
    induction hspecs generalizing s t with
    | nil => exact h
    | cons hc _ ih =>
      obtain ⟨⟨hchild, hvalue⟩, hmem⟩ := List.forall_mem_cons.1 hmem
      have wfspec := wf.child hchild
      refine ih (hspec hvalues hchild hc hvalue ?_) hmem
      refine Lockstep.visitField L (fun c hc => Lockstep.visit L hRel (wfspec.child hc)) .value hc
        .none (fun c hc => .inl (wfspec.plain _ (self_mem_preorder _) ?_ c hc)) h
      rcases isValueSpec_iff.1 hvalue with hk | hk <;> rw [hk] <;> rfl

/-- Like declarations are resolved alike. -/
theorem Like.visitDeclaration (hN : M.node n n') (hbody : hasBody n = true) (h : s.Like M 1 t) :
    (visit none n s).Like M 1 (visit none n' t) :=
  Lockstep.visitDeclaration M.like (lockstep_like M)
    (fun _ _ hspec _ h => Like.specNames hspec .none h) (M.wellFormed hN) hN hbody h

end Resolver

/-! ### Both rounds -/

namespace Resolution

def inOrder (root : Node) (declarations : List Node) : Resolution :=
  let declared := declarations.foldl Resolver.declarePackage (.start root)
  ((declarations.filter Resolver.hasBody).foldl (fun s d => s.visit none d) declared).facts

theorem ofFile_eq_inOrder (root : Node) : ofFile root = inOrder root root.parts := rfl

variable {root root' : Node} {M : Correspondence root root'} {ds ds' : List Node}

/-- Like declarations in the same order are resolved alike. -/
theorem like_inOrder (hds : List.Forall₂ M.node ds ds')
    (himports : Imports.ofFile root' = Imports.ofFile root) (hnumber : ∀ i, M.number i i)
    (hcompared : ∀ i, M.compared i) (hearlier : ∀ i, M.earlier i = [])
    (hearlier' : ∀ i, M.earlier' i = []) : (inOrder root ds).Like M (inOrder root' ds') := by
  have hstart : (Resolver.start root).Like M 1 (Resolver.start root') :=
    { facts :=
        { root_eq := rfl
          root_eq' := rfl
          imports := himports
          results := fun {_} _ => rfl
          fieldTypes := fun _ => rfl
          uses := fun _ => .none
          bindings := fun _ => .none
          writes := fun _ => .none
          types := fun _ _ _ => .none
          blank := fun _ huse => by cases huse }
      frames := .cons ⟨M.scope_root, fun {_} _ => .none⟩ .nil
      depth_eq := rfl
      fresh := fun k => hnumber _
      compared := fun k => hcompared _
      unwritten := fun k => hearlier _
      unwritten' := fun k => hearlier' _ }
  have hdeclared := Resolver.Like.foldl hds hstart fun hd h => Resolver.Like.declarePackage hd h
  have hbodies : List.Forall₂ (fun d d' => M.node d d' ∧ Resolver.hasBody d = true)
      (ds.filter Resolver.hasBody) (ds'.filter Resolver.hasBody) := by
    have hfilter : List.Forall₂ M.node (ds.filter Resolver.hasBody) (ds'.filter Resolver.hasBody) :=
      M.like.filter (p := fun k => [Kind.functionDeclaration, .methodDeclaration, .varDeclaration,
        .constDeclaration].contains k) hds
    refine List.forall₂_iff_zip.2 ⟨hfilter.length_eq, fun {d d'} hmem => ?_⟩
    exact ⟨(List.forall₂_iff_zip.1 hfilter).2 hmem, (List.mem_filter.1 (List.of_mem_zip hmem).1).2⟩
  exact (Resolver.Like.foldl hbodies hdeclared fun hd h =>
    Resolver.Like.visitDeclaration hd.1 hd.2 h).facts

end Resolution

end Handoff
