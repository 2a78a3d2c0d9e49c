import Handoff.Proofs.Resolution.Package
import Handoff.Proofs.Syntax.Comments
import Handoff.Proofs.Verdict.Repeats

/-!
# Comments mean nothing to names

A file without some of its comments repeats the file: names stand for the same bindings, and these
are declared and written in the same places.

## Main definitions

* `Syntax.Node.LeftOf`: a node that is no comment, and what is left of it.
* `Binding.without`: a binding in a file without some of its comments.

## Main statements

* `Resolution.bindings_without`: the bindings are the same.
* `Resolution.repeats_without`: the file without some of its comments repeats the file.
-/

namespace Handoff

open Syntax Node

variable {gone : Node → Bool} {root n n' : Node}

/-! ### Nodes -/

namespace Syntax.Node

/-- A node that is no comment, and what is left of it. -/
structure LeftOf (gone : Node → Bool) (root n n' : Node) : Prop where
  mem : n ∈ root.preorder
  kind : n.kind ≠ .comment
  eq : n.without gone = n'

theorem leftOf_of_child {c : Node} (hn : n ∈ root.preorder) (hc : c ∈ n.children)
    (hkind : c.kind ≠ .comment) : LeftOf gone root c (c.without gone) :=
  ⟨preorder_trans hn (child_mem_preorder hc), hkind, rfl⟩

variable (wf : root.WellFormed) (hgone : OnlyComments gone root)

include wf hgone

/-- What is left of a tree without some of its comments is a replica of it. -/
theorem replica_without : Replica (LeftOf gone root) where
  kind h := by rw [← h.eq, kind_without]
  field h := by rw [← h.eq, field_without]
  text h := by rw [← h.eq, text_without]
  parts h := by
    rw [← h.eq, parts_without wf hgone h.mem, List.forall₂_map_right_iff, List.forall₂_same]
    intro c hc
    obtain ⟨hchild, hpart⟩ := mem_parts.1 hc
    refine leftOf_of_child h.mem hchild fun hkind => ?_
    simp [isPart, hkind] at hpart
  inField f h := by
    rw [← h.eq, inField_without wf hgone h.mem, List.forall₂_map_right_iff, List.forall₂_same]
    intro c hc
    obtain ⟨hchild, hfield⟩ := List.mem_filter.1 hc
    refine leftOf_of_child h.mem hchild fun hkind => ?_
    have hmem := preorder_trans h.mem (child_mem_preorder hchild)
    simp [wf.comments c hmem hkind] at hfield
  hasToken h := by rw [← h.eq, hasToken_without wf hgone h.mem]

omit wf in
theorem leftOf_filter_preorder {p : Node → Bool} (hp : ∀ m, p (m.without gone) = p m)
    (hcomment : ∀ m, m.kind = .comment → p m = false) :
    List.Forall₂ (LeftOf gone root) (root.preorder.filter p)
      ((root.without gone).preorder.filter p) := by
  rw [filter_preorder_without hgone hp fun m _ => hcomment m, List.forall₂_map_right_iff,
    List.forall₂_same]
  intro n hn
  obtain ⟨hmem, hpn⟩ := List.mem_filter.1 hn
  refine ⟨hmem, fun hkind => ?_, rfl⟩
  simp [hcomment n hkind] at hpn

theorem isConditional_without {scope : Node} (hn : n ∈ root.preorder) (hkind : n.kind ≠ .comment) :
    isConditional (root.without gone) (n.without gone) (scope.without gone) =
      isConditional root n scope := by
  simp [isConditional, ancestors_without wf hgone hn hkind, List.takeWhile_map, Function.comp_def]

end Syntax.Node

variable (wf : root.WellFormed) (hgone : OnlyComments gone root)

def Correspondence.without : Correspondence root (root.without gone) where
  node := LeftOf gone root
  content := LeftOf gone root
  scope n n' := n.without gone = n'
  owner o o' := o.map (Node.without gone) = o'
  number := Eq
  compared _ := True
  earlier _ := []
  earlier' _ := []
  like := (replica_without wf hgone).likeness
  root_wellFormed := wf
  mem h := h.mem
  content_of_node h := h
  scope_of_node h _ := h.eq
  scope_root := rfl
  owner_of_node h := by
    cases h with
    | none => rfl
    | some h => rw [Option.map_some, h.eq]
  ids h h' := by rw [← h.eq, ← h'.eq, id_without, id_without]
  numbers hi hj := Eq.congr hi hj
  conditional := by
    rintro n _ m _ ⟨hn, hkind, rfl⟩ rfl
    exact isConditional_without wf hgone hn hkind

/-! ### Bindings -/

def Write.without (gone : Node → Bool) (w : Write) : Write :=
  { w with site := w.site.without gone, value := w.value.map (Node.without gone) }

def BindingKind.without (gone : Node → Bool) : BindingKind → BindingKind
  | .function declaration => .function (declaration.without gone)
  | .packageVariable => .packageVariable
  | .parameter => .parameter
  | .localVariable bySpec => .localVariable bySpec

def Binding.without (gone : Node → Bool) (b : Binding) : Binding :=
  { b with
    kind := b.kind.without gone
    decl := b.decl.without gone
    owner := b.owner.map (Node.without gone)
    scope := b.scope.without gone
    writes := b.writes.map (Write.without gone) }

theorem BindingKind.without_eq {kind kind' : BindingKind}
    (h : BindingKind.Alike (LeftOf gone root) kind kind') : kind.without gone = kind' := by
  cases h with
  | function hd => rw [BindingKind.without, hd.eq]
  | packageVariable | parameter | localVariable => rfl

theorem Write.without_eq {w w' : Write} (h : Write.Alike (LeftOf gone root) w w') :
    w.without gone = w' := by
  obtain ⟨site, value, conditional⟩ := w
  obtain ⟨site', value', conditional'⟩ := w'
  have hvalue : value.map (Node.without gone) = value' := by
    cases h.value with
    | none => rfl
    | some hv => rw [Option.map_some, hv.eq]
  have hconditional : conditional' = conditional := h.conditional
  rw [Write.without, hvalue, h.site.eq, hconditional]

theorem Binding.without_eq {b b' : Binding}
    (h : Binding.Alike (Correspondence.without wf hgone) b b')
    (hsame : Binding.SameContents (LeftOf gone root) b b') : b.without gone = b' := by
  have hwrites : b.writes.map (Write.without gone) = b'.writes := by
    have halike := hsame.writes
    generalize b.writes = ws, b'.writes = ws' at halike
    induction halike with
    | nil => rfl
    | cons hw _ ih => rw [List.map_cons, Write.without_eq hw, ih]
  rw [Binding.without, BindingKind.without_eq h.kind, h.decl.eq, hwrites, ← h.name, ← hsame.type]
  have howner : b.owner.map (Node.without gone) = b'.owner := h.owner
  have hscope : b.scope.without gone = b'.scope := h.scope
  rw [howner, hscope]

namespace Resolution

/-- No comment is a name. -/
theorem useOf_comment (wf : root.WellFormed)
    (hdecl : ∀ b ∈ (ofFile root).bindings, b.decl.kind ≠ .comment) (hn : n ∈ root.preorder)
    (hkind : n.kind = .comment) : (ofFile root).useOf n = none := by
  obtain ⟨s, hs, hsound⟩ := Resolver.sound_ofFile wf
  rw [← hs] at hdecl ⊢
  cases huse : s.facts.useOf n with
  | none => rfl
  | some i =>
    obtain ⟨v, hv⟩ : ∃ v, s.views[i]? = some v :=
      ⟨_, List.getElem?_eq_getElem (hsound.valid (n.id, i) (Resolver.mem_of_lookup huse))⟩
    obtain ⟨b, hb, rfl⟩ : ∃ b, s.facts.bindings[i]? = some b ∧ b.view = v := by
      simpa [Resolver.views] using hv
    by_cases hself : n = b.decl
    · exact absurd (hself ▸ hkind) (hdecl b (List.mem_of_getElem? hb))
    · have hident := ((hsound.used n hn i b.view huse hv).2.2 hself).1
      cases hkind.symm.trans hident

variable (hkind : root.kind = .sourceFile)

include wf hgone hkind

omit wf hgone in
theorem leftOf_root : LeftOf gone root root (root.without gone) :=
  ⟨self_mem_preorder root, by simp [hkind], rfl⟩

/-- What is no comment is resolved alike without some of the comments. -/
theorem mirrors_without :
    (ofFile root).Mirrors (Correspondence.without wf hgone) (ofFile (root.without gone)) := by
  have L := replica_without wf hgone
  have hparts := L.parts (leftOf_root hkind)
  have hlike : (ofFile root).Like (Correspondence.without wf hgone)
      (ofFile (root.without gone)) := by
    rw [ofFile_eq_inOrder, ofFile_eq_inOrder]
    refine like_inOrder hparts (Imports.ofFile_like L.likeness ?_) (fun _ => rfl) (fun _ => trivial)
      (fun _ => rfl) fun _ => rfl
    exact L.likeness.filter (p := (· == .importDeclaration)) hparts
  refine ⟨hlike, fun h => h, fun _ => trivial, fun _ => rfl, fun _ => rfl,
    length_eq_of_rel fun _ => hlike.bindings rfl, ?_⟩
  rintro n _ b b' ⟨-, -, rfl⟩ - - - - hdecl
  rw [← hdecl.eq, encloses_without]

/-- The bindings are the same without some of the comments. -/
theorem bindings_without :
    (ofFile (root.without gone)).bindings = (ofFile root).bindings.map (Binding.without gone) := by
  refine List.ext_getElem? fun i => ?_
  rw [List.getElem?_map]
  obtain ⟨hb, hb'⟩ | ⟨b, b', hb, hb', halike, hsame⟩ :=
    rel_cases ((mirrors_without wf hgone hkind).binding (i := i) rfl)
  · rw [hb, hb']
    rfl
  · rw [hb, hb', Option.map_some, Binding.without_eq wf hgone halike hsame]

/-- What is left of a name stands for the same binding. -/
theorem useOf_without (hn : n ∈ root.preorder) (hkept : gone n = false) :
    (ofFile (root.without gone)).useOf (n.without gone) = (ofFile root).useOf n := by
  have hmirrors := mirrors_without wf hgone hkind
  by_cases hcomment : n.kind = .comment
  · have hdecl : ∀ b ∈ (ofFile root).bindings, b.decl.kind ≠ .comment := fun b hb => by
      obtain ⟨i, hi⟩ := List.mem_iff_getElem?.1 hb
      obtain ⟨hnone, -⟩ | ⟨b, b', hb, -, halike, -⟩ := rel_cases (hmirrors.binding (i := i) rfl)
      · cases hi.symm.trans hnone
      · exact Option.some.inj (hi.symm.trans hb) ▸ halike.decl.kind
    rw [useOf_comment wf hdecl hn hcomment, useOf_comment (wf.without hgone) ?_
      (mem_preorder_without hn hkept) (by rwa [kind_without])]
    rw [bindings_without wf hgone hkind, List.forall_mem_map]
    intro b hb
    simpa [Binding.without] using hdecl b hb
  · obtain ⟨hu, hu'⟩ | ⟨i, j, hu, hu', hij⟩ :=
      rel_cases (hmirrors.uses (n := n) ⟨hn, hcomment, rfl⟩)
    · rw [hu, hu']
    · rw [hu, hu', hij]

theorem isCaptured_without {f : Node} {i : Nat} :
    FunctionUnit.isCaptured (ofFile (root.without gone)) (f.without gone) i =
      FunctionUnit.isCaptured (ofFile root) f i := by
  unfold FunctionUnit.isCaptured
  rw [bindings_without wf hgone hkind, List.getElem?_map]
  cases (ofFile root).bindings[i]? with
  | none => rfl
  | some b =>
    have hlevel : (b.kind.without gone).isPackageLevel = b.kind.isPackageLevel := by
      cases b.kind <;> rfl
    simp [Binding.without, hlevel]

/-- A file without some of its comments repeats the file. -/
theorem repeats_without :
    (ofFile root).Repeats (Correspondence.without wf hgone) (fun _ _ => True)
    (ofFile (root.without gone)) where
  toMirrors := mirrors_without wf hgone hkind
  replica := replica_without wf hgone
  reading := ⟨fun _ => trivial, fun _ _ => trivial⟩
  grounded := grounded_of_wellFormed wf (by rw [hkind]; rfl)
  grounded' := grounded_of_wellFormed (wf.without hgone) (by rw [kind_without, hkind]; rfl)
  mem' := by
    rintro n _ ⟨hn, hcomment, rfl⟩
    exact mem_preorder_without hn (hgone.kept hn hcomment)
  hasErrors := hasErrors_without hgone
  ancestors := by
    rintro n _ ⟨hn, hcomment, rfl⟩
    rw [ancestors_without wf hgone hn hcomment, List.forall₂_map_right_iff, List.forall₂_same]
    intro a ha
    obtain ⟨hmem, hin⟩ := (wf.distinct.mem_ancestors hn).1 ha
    exact .inl ⟨hmem, (wf.of_mem hmem).ne_comment_of_mem (preorder_of_inner hin) hcomment, rfl⟩
  isCaptured := by
    rintro f _ n i _ ⟨-, -, rfl⟩ - - rfl
    exact isCaptured_without wf hgone hkind
  start_le := by
    rintro i b s _ t _ - - - ⟨-, -, rfl⟩ ⟨-, -, rfl⟩
    rw [start_without, start_without]
  reaches := by
    rintro i b n s _ t _ - - - - - ⟨-, -, rfl⟩ ⟨-, -, rfl⟩
    rw [start_without, start_without, encloses_without]
    exact ⟨Iff.rfl, rfl⟩
  memberWrites := by
    rintro i j b b' key key' rfl hb hb' hkey
    have hmirrors := mirrors_without wf hgone hkind
    have hscope : b.scope.without gone = b'.scope := by
      obtain ⟨halike, -⟩ := Option.rel_some_some.1 (hb ▸ hb' ▸ hmirrors.binding (i := i) rfl)
      exact halike.scope
    rw [Search.memberWrites_eq, Search.memberWrites_eq, hmirrors.root_eq, hmirrors.root_eq']
    refine List.rel_flatMap
      (leftOf_filter_preorder hgone (fun _ => by simp) fun _ hcomment => by simp [hcomment])
      fun n n' hn => hmirrors.memberWritesAt (replica_without wf hgone) hkey rfl hscope hn

end Resolution

end Handoff
