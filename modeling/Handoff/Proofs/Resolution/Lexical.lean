import Handoff.Proofs.Resolution.Visit
import Handoff.Proofs.Syntax.Grammar.File

/-!
# Resolution is lexical

The resolution of a file starts with the names of the package and then visits one declaration after
the other. Both rounds keep the resolver sound, so an identifier of any file stands for the
innermost binding of its name that is in scope at the identifier, and the scope of a binding is
around everything that writes to it.

## Main statement

* `Resolution.ofFile_lexical`: what every resolution of a text satisfies.
-/

namespace Handoff

open Syntax Node

namespace Resolver

variable {root d : Node} {region : List Node} {s t : Resolver} {p : Nat}

/-! ### The names of the package -/

theorem sound_start (root : Node) : (start root).Sound root where
  root_eq := rfl
  head := rfl
  opened scope h := by
    obtain rfl := List.mem_singleton.1 h
    exact ⟨self_mem_preorder _, .inr rfl⟩
  nested := List.pairwise_singleton ..
  bound frame hf e he := by
    obtain rfl := List.mem_singleton.1 hf
    cases he
  known _ _ _ hv := by cases hv
  declared _ _ hv := by simp [views, start] at hv
  valid _ he := by cases he
  used _ _ _ _ hi := by simp [start, Resolution.useOf] at hi
  written _ hb := by cases hb

def packageNames (declaration : Node) : List Node :=
  match declaration.kind with
  | .functionDeclaration => (declaration.child? .name).toList
  | .varDeclaration | .constDeclaration =>
    (declaration.parts.filter isValueSpec).flatMap fun spec => spec.inField .name
  | _ => []

theorem specNames_subset :
    ((d.parts.filter isValueSpec).flatMap fun spec => spec.inField .name) ⊆ d.preorder := by
  intro x hx
  obtain ⟨spec, hspec, hx⟩ := List.mem_flatMap.1 hx
  have hspec : spec ∈ d.children := List.mem_of_mem_filter (List.mem_of_mem_filter hspec)
  exact preorder_of_inner
    (inner_trans (inner_of_child hspec) (inner_of_child (List.mem_of_mem_filter hx)))

theorem packageNames_subset : packageNames d ⊆ d.preorder := by
  unfold packageNames
  split
  · exact fun x hx => preorder_of_inner (child?_subset hx)
  · exact specNames_subset
  · exact specNames_subset
  · exact List.nil_subset _

theorem pairwise_apart_specNames (hroot : root.Distinct) (hd : d ∈ root.preorder) :
    ((d.parts.filter isValueSpec).flatMap fun spec => spec.inField .name).Pairwise Apart := by
  have hsub : (d.parts.filter isValueSpec).Sublist d.children :=
    List.filter_sublist.trans List.filter_sublist
  refine pairwise_apart_flatMap ((hroot.pairwise_apart hd).sublist hsub) fun spec hspec => ⟨?_, ?_⟩
  · exact fun x hx => child_mem_preorder (List.mem_of_mem_filter hx)
  · have hspec := preorder_trans hd (child_mem_preorder (hsub.subset hspec))
    exact (hroot.pairwise_apart hspec).sublist List.filter_sublist

theorem pairwise_apart_packageNames (hroot : root.Distinct) (hd : d ∈ root.preorder) :
    (packageNames d).Pairwise Apart := by
  unfold packageNames
  split
  · cases d.child? .name <;> simp
  · exact pairwise_apart_specNames hroot hd
  · exact pairwise_apart_specNames hroot hd
  · exact .nil

/-- What the file shows of struct fields and results plays no part in scopes. -/
theorem Declares.withTypes {names : List Node} {fields : List ((String × String) × TypeName)}
    {results : List (String × List (Option TypeName))} (h : Declares root p names s t) :
    Declares root p names s
      { t with facts := { t.facts with fieldTypes := fields, results := results } } :=
  { h with sound := { h.sound with } }

/-- The first round declares the name of a function. -/
theorem declares_declareFunction (hroot : root.Distinct)
    (h : Undeclared root 0 s (d.child? .name).toList) :
    Declares root 0 (d.child? .name).toList s (s.declareFunction d) := by
  unfold declareFunction
  cases hname : d.child? .name with
  | none => exact .refl h.sound h.before
  | some name =>
    rw [hname] at h
    have hdeclare : Declares root 0 [name] s (s.declare none name (.function d) none) :=
      Undeclared.declare h hroot fun _ _ => Nat.zero_le _
    dsimp only
    split
    · exact hdeclare
    · exact hdeclare.withTypes

theorem declares_declareValues (hroot : root.Distinct)
    (h : Undeclared root 0 s
      ((d.parts.filter isValueSpec).flatMap fun spec => spec.inField .name)) :
    Declares root 0 ((d.parts.filter isValueSpec).flatMap fun spec => spec.inField .name) s
      (s.declareValues d) :=
  h.foldl fun _ _ _ _ _ ht => ht.declareAll hroot fun _ _ _ _ => Nat.zero_le _

/-- The first round declares all names of a declaration of the package. -/
theorem declares_declarePackage (hroot : root.Distinct) (h : Undeclared root 0 s (packageNames d)) :
    Declares root 0 (packageNames d) s (s.declarePackage d) := by
  unfold declarePackage
  split
  next hk =>
    rw [packageNames, hk] at h ⊢
    exact declares_declareFunction hroot h
  next hk =>
    rw [packageNames, hk] at h ⊢
    exact declares_declareValues hroot h
  next hk =>
    rw [packageNames, hk] at h ⊢
    exact declares_declareValues hroot h
  next => exact (Declares.refl h.sound h.before).withTypes
  next => exact .refl h.sound h.before

/-- The first round declares the names of the package, and uses none. -/
theorem declares_package (wf : root.WellFormed) :
    Declares root 0 (root.parts.flatMap packageNames) (start root)
      (root.parts.foldl declarePackage (start root)) := by
  have hmem : ∀ d ∈ root.parts, d ∈ root.inner := fun d hd => inner_of_mem_filter hd
  refine Undeclared.foldl ⟨sound_start root, ?_, fun x hx => ?_, ?_⟩ fun d _ _ _ _ ht =>
    declares_declarePackage wf.distinct ht
  · rintro x - - ⟨i, v, hi, -⟩
    cases hi
  · obtain ⟨d, hd, hx⟩ := List.mem_flatMap.1 hx
    have hx := inner_of_preorder (hmem d hd) (packageNames_subset hx)
    exact ⟨preorder_of_inner hx, hx, rfl⟩
  · refine pairwise_apart_flatMap ((wf.distinct.pairwise_apart (self_mem_preorder root)).sublist
      List.filter_sublist) fun d hd => ?_
    exact ⟨packageNames_subset, pairwise_apart_packageNames wf.distinct
      (preorder_of_inner (hmem d hd))⟩

/-! ### The declarations -/

/-- A declaration of the package that the second round has yet to visit. -/
structure Pending (root : Node) (s : Resolver) (d : Node) : Prop extends Faces root s d where
  package : s.scopes = [root]
  fresh : ∀ x ∈ d.inner, x ∉ preorderAll (packageNames d) → s.facts.useOf x = none
  quiet : ∀ x ∈ d.inner, ¬ s.Mentions x

namespace Pending

theorem advance (h : Pending root s d) (ha : Advances root region s t)
    (hapart : ∀ x ∈ preorderAll region, x ∉ d.preorder) : Pending root t d where
  toFaces := h.toFaces.advance ha hapart
  package := ha.scopes_eq.trans h.package
  fresh x hx hout := by
    have hx' := preorder_of_inner hx
    rw [ha.useOf_eq x (preorder_trans h.mem hx') fun hin => hapart x hin hx']
    exact h.fresh x hx hout
  quiet x hx hm := by
    have hx' := preorder_of_inner hx
    exact h.quiet x hx
      (ha.mentions h.sound (preorder_trans h.mem hx') (fun hin => hapart x hin hx') hm)

/-- A function of the package; its name is declared already. -/
theorem visitFunction (h : Pending root s d) (wf : root.WellFormed)
    (hkind : d.kind = .functionDeclaration ∨ d.kind = .methodDeclaration) :
    Advances root [d] s
      (s.inScope d fun s => visitBody (some d) d.children (s.declareParameters d)) := by
  refine h.toFaces.visitFunction wf (fun m _ => visits wf m) ?_ h.quiet fun c hc hfield x hx => ?_
  · rcases hkind with hkind | hkind <;> rw [hkind] <;> rfl
  · refine h.fresh x (mem_inner.2 ⟨c, hc, hx⟩) fun hin => ?_
    obtain ⟨name, hname, hin⟩ := mem_preorderAll.1 hin
    rcases hkind with hkind | hkind
    · rw [packageNames, hkind] at hname
      obtain ⟨hchild, hnameField⟩ := mem_children_of_child? (Option.mem_toList.1 hname)
      refine wf.distinct.apart h.mem hchild hc ?_ x hin hx
      rintro rfl
      exact hfield hnameField
    · rw [packageNames, hkind] at hname
      cases hname

/-- The values of package variables and constants. -/
theorem awaits_value {spec value : Node} (h : Pending root s d) (wf : root.WellFormed)
    (hkind : d.kind = .varDeclaration ∨ d.kind = .constDeclaration)
    (hspec : spec ∈ d.children) (hvalue : spec.child? .value = some value) :
    Awaits root s value := by
  obtain ⟨hchild, hfield⟩ := mem_children_of_child? hvalue
  have hface := (h.toFaces.child wf.distinct hspec).child wf.distinct hchild
  refine ⟨hface, fun x hx => ?_, fun hord => ?_⟩
  · have hinner := inner_trans (inner_of_child hspec) (inner_of_child hchild)
    refine h.fresh x (inner_of_preorder hinner hx) fun hin => ?_
    obtain ⟨name, hname, hin⟩ := mem_preorderAll.1 hin
    have hname : name ∈ (d.parts.filter isValueSpec).flatMap fun spec => spec.inField .name := by
      rcases hkind with hkind | hkind <;> rwa [packageNames, hkind] at hname
    obtain ⟨spec', hspec', hname⟩ := List.mem_flatMap.1 hname
    have hspec' : spec' ∈ d.children := List.mem_of_mem_filter (List.mem_of_mem_filter hspec')
    obtain ⟨hname, hnameField⟩ := List.mem_filter.1 hname
    have hxname := preorder_of_inner (mem_inner.2 ⟨name, hname, hin⟩)
    have hxvalue := preorder_of_inner (mem_inner.2 ⟨value, hchild, hx⟩)
    obtain rfl : spec' = spec := (wf.distinct.of_mem h.mem).child_eq hspec' hspec hxname hxvalue rfl
    refine wf.distinct.apart (preorder_trans h.mem (child_mem_preorder hspec)) hname hchild
      ?_ x hin hx
    rintro rfl
    simp [hfield] at hnameField
  · rw [isOrdered_eq_false_of_isPlain (wf.fields value hface.mem .value hfield)] at hord
    cases hord

end Pending

/-- Value specs of the package: the values are visited, and the names written. -/
theorem advances_packageSpecs {specs : List Node} (wf : root.WellFormed) (hs : s.Sound root)
    (hpackage : s.scopes = [root]) (hspecs : specs ⊆ root.inner) (hapart : specs.Pairwise Apart)
    (hvalues : ∀ c ∈ specs, ∀ value, c.child? .value = some value → Awaits root s value) :
    Advances root specs s
      (specs.foldl (fun s c => (visitField none .value c.children s).specNames none c) s) := by
  induction specs generalizing s with
  | nil => exact .refl hs
  | cons c specs ih =>
    obtain ⟨hc, hspecs⟩ := List.cons_subset.1 hspecs
    obtain ⟨hcs, hapart⟩ := List.pairwise_cons.1 hapart
    have hvalue : Advances root [c] s (visitField none .value c.children s) :=
      (advances_visitField hs (fun m _ => visits wf m) (hvalues c (List.mem_cons_self ..))).up
        child?_subset
    have hnames : Advances root [c] s ((visitField none .value c.children s).specNames none c) :=
      hvalue.step (.foldl hvalue.sound fun e _ t ht =>
        advances_specName_package ht.sound ((hvalue.step ht).scopes_eq.trans hpackage) hc)
    refine hnames.trans (ih hnames.sound (hnames.scopes_eq.trans hpackage) hspecs hapart ?_)
    intro k hk value hvalue
    have hawait := hvalues k (List.mem_cons_of_mem _ hk) value hvalue
    obtain ⟨hchild, hfield⟩ := mem_children_of_child? hvalue
    refine hawait.advance wf hnames (fun x hx => ?_) fun hord => ?_
    · have hx : x ∈ c.preorder := by simpa using hx
      exact (hcs k hk).mono (self_mem_preorder c) (child_mem_preorder hchild) x hx
    · rw [isOrdered_eq_false_of_isPlain (wf.fields value hawait.mem .value hfield)] at hord
      cases hord

theorem visit_function (owner : Option Node) (s : Resolver)
    (hkind : d.kind = .functionDeclaration ∨ d.kind = .methodDeclaration) :
    visit owner d s = s.inScope d fun s => visitBody (some d) d.children
      (s.declareParameters d) := by
  obtain ⟨label, children⟩ := d
  rcases hkind with (hkind : label.kind = _) | (hkind : label.kind = _) <;> rw [visit, hkind]

theorem visit_values (owner : Option Node) (s : Resolver)
    (hkind : d.kind = .varDeclaration ∨ d.kind = .constDeclaration) :
    visit owner d s = visitSpecs owner d.children s := by
  obtain ⟨label, children⟩ := d
  rcases hkind with (hkind : label.kind = _) | (hkind : label.kind = _) <;> rw [visit, hkind]

/-- The second round visits a declaration. -/
theorem Pending.visit (h : Pending root s d) (wf : root.WellFormed) (hbody : hasBody d = true) :
    Advances root [d] s (Resolver.visit none d s) := by
  have hkinds : (d.kind = .functionDeclaration ∨ d.kind = .methodDeclaration) ∨
      d.kind = .varDeclaration ∨ d.kind = .constDeclaration := by
    simpa [hasBody, or_assoc] using hbody
  obtain hkind | hkind := hkinds
  · rw [visit_function none s hkind]
    exact h.visitFunction wf hkind
  · rw [visit_values none s hkind, visitSpecs_eq_foldl]
    refine (advances_packageSpecs wf h.sound h.package (fun c hc => ?_)
      ((wf.distinct.pairwise_apart h.mem).sublist List.filter_sublist)
      fun c hc value hvalue => ?_).up
      fun c hc => inner_of_mem_filter hc
    · exact inner_trans h.root_inner (inner_of_mem_filter hc)
    · exact h.awaits_value wf hkind (List.mem_of_mem_filter hc) hvalue

/-- The second round resolves the names of one declaration after the other. -/
theorem advances_declarations {ds : List Node} (wf : root.WellFormed) (hs : s.Sound root)
    (hbody : ∀ d ∈ ds, hasBody d = true) (hapart : ds.Pairwise Apart)
    (hpending : ∀ d ∈ ds, Pending root s d) :
    Advances root ds s (ds.foldl (fun s d => s.visit none d) s) := by
  induction ds generalizing s with
  | nil => exact .refl hs
  | cons d ds ih =>
    obtain ⟨hd, hapart⟩ := List.pairwise_cons.1 hapart
    have hstep := (hpending d (List.mem_cons_self ..)).visit wf (hbody d (List.mem_cons_self ..))
    refine hstep.trans (ih hstep.sound (fun k hk => hbody k (List.mem_cons_of_mem _ hk)) hapart
      fun k hk => ?_)
    refine (hpending k (List.mem_cons_of_mem _ hk)).advance hstep fun x hx => ?_
    exact hd k hk x (by simpa using hx)

/-- After the first round, every declaration is yet to be visited. -/
theorem pending_package (wf : root.WellFormed) (hd : d ∈ root.parts) :
    Pending root (root.parts.foldl declarePackage (start root)) d := by
  have hpackage := declares_package wf
  have hscope : ∀ v ∈ (root.parts.foldl declarePackage (start root)).views, v.scope = root := by
    intro v hv
    obtain hv | hv := hpackage.own v hv
    · cases hv
    · exact hv
  have hinner : d ∈ root.inner := inner_of_mem_filter hd
  refine { sound := hpackage.sound, mem := preorder_of_inner hinner, inside := ?_, vacant := ?_,
           settled := ?_, package := hpackage.scopes_eq, fresh := ?_, quiet := ?_ }
  · rw [hpackage.scope_eq]
    exact hinner
  · intro v hv hin
    rw [hscope v hv] at hin
    exact not_inner_self (inner_of_preorder hinner hin)
  · intro v hv _
    rw [hscope v hv, hpackage.scopes_eq]
    exact List.mem_singleton_self root
  · intro x hx hout
    rw [hpackage.useOf_eq x (preorder_of_inner (inner_trans hinner hx))]
    · rfl
    · -- the names of other declarations are in other subtrees
      intro hin
      obtain ⟨name, hname, hin⟩ := mem_preorderAll.1 hin
      obtain ⟨e, he, hname⟩ := List.mem_flatMap.1 hname
      have hxe := preorder_trans (packageNames_subset hname) hin
      obtain rfl : e = d := wf.distinct.child_eq (List.mem_of_mem_filter he)
        (List.mem_of_mem_filter hd) hxe (preorder_of_inner hx) rfl
      exact hout (mem_preorderAll.2 ⟨name, hname, hin⟩)
  · intro x hx hm
    have hx := inner_trans hinner hx
    exact absurd (hpackage.before x (preorder_of_inner hx) hx hm) (Nat.not_lt_zero _)

/-- Both rounds keep the resolver sound. -/
theorem sound_ofFile (wf : root.WellFormed) :
    ∃ s : Resolver, s.facts = Resolution.ofFile root ∧ s.Sound root :=
  ⟨_, rfl, (advances_declarations wf (declares_package wf).sound (fun _ hd => List.of_mem_filter hd)
    ((wf.distinct.pairwise_apart (self_mem_preorder root)).sublist
      (List.filter_sublist.trans List.filter_sublist))
    fun _ hd => pending_package wf (List.mem_of_mem_filter hd)).sound⟩

end Resolver

namespace Resolution

variable {root n : Node} {i : Nat} {b : Binding}

theorem root_ofFile (wf : root.WellFormed) : (ofFile root).root = root := by
  obtain ⟨s, hs, hsound⟩ := Resolver.sound_ofFile wf
  rw [← hs, hsound.root_eq]

/-- A name means the innermost binding that is in scope. -/
theorem innermost_of_useOf {s : Resolver} (hs : s.Sound root) (hroot : root.Distinct)
    (hn : n ∈ root.preorder) (huse : s.facts.useOf n = some i) (hb : s.facts.bindings[i]? = some b)
    (hne : n ≠ b.decl) :
    n.text = b.name ∧ b.scope ∈ root.ancestors n ∧
      ∀ other ∈ s.facts.bindings, other.name = b.name → other.scope ∈ root.ancestors n →
        b.scope ∈ root.ancestors other.scope → ¬ InScope root other.kind other.decl n := by
  have hv : s.views[i]? = some b.view := by simp [Resolver.views, hb]
  obtain ⟨htext, hin, hfirst⟩ := hs.used n hn i b.view huse hv
  have hscope := (hs.declared i b.view hv).2.2.2.1
  refine ⟨htext, (hroot.mem_ancestors hn).2 ⟨hscope, hin⟩, fun other hother hname hout hinner => ?_⟩
  obtain ⟨hmem, hnin⟩ := (hroot.mem_ancestors hn).1 hout
  exact (hfirst hne).2 other.view (List.mem_map_of_mem hother) hname hnin
    ((hroot.mem_ancestors hmem).1 hinner).2

/-- Looking upwards from a write finds the scope of the binding. -/
theorem find?_scope_of_write {s : Resolver} {w : Write} (hs : s.Sound root) (hroot : root.Distinct)
    (hb : b ∈ s.facts.bindings) (hw : w ∈ b.writes) :
    b.scope ∈ root.ancestors w.site ∧
      (root.ancestors w.site).find? (·.id == b.scope.id) = some b.scope := by
  obtain ⟨hsite, hin⟩ := hs.written b hb w hw
  obtain ⟨j, hj⟩ := List.mem_iff_getElem?.1 (List.mem_map_of_mem (f := Binding.view) hb)
  have hscope : b.scope ∈ root.preorder := (hs.declared j b.view hj).2.2.2.1
  have hmem := (hroot.mem_ancestors hsite).2 ⟨hscope, hin⟩
  refine ⟨hmem, ?_⟩
  cases hfind : (root.ancestors w.site).find? (·.id == b.scope.id) with
  | none => simpa using List.find?_eq_none.1 hfind b.scope hmem
  | some a =>
    have ha := ((hroot.mem_ancestors hsite).1 (List.mem_of_find?_eq_some hfind)).1
    rw [hroot.eq_of_id ha hscope (by simpa using List.find?_some hfind)]

/-- Resolution is lexical. Uses have valid numbers, declaring identifiers stand for what they
declare, and any other identifier stands for a binding of its name around it, such that no binding
of that name which is in scope at the identifier stands farther in. The scope of a binding is
properly around all that writes to it, so the walk upwards from a write meets it. -/
theorem ofFile_lexical (wf : root.WellFormed) :
    (∀ e ∈ (ofFile root).uses, e.2 < (ofFile root).bindings.length) ∧
    (∀ i b, (ofFile root).bindings[i]? = some b →
      (ofFile root).useOf b.decl = some i ∧ b.decl.text = b.name ∧
        b.scope ∈ root.ancestors b.decl) ∧
    (∀ n ∈ root.preorder, ∀ i b, (ofFile root).useOf n = some i →
      (ofFile root).bindings[i]? = some b → n ≠ b.decl →
        n.text = b.name ∧ b.scope ∈ root.ancestors n ∧
          ∀ other ∈ (ofFile root).bindings, other.name = b.name →
            other.scope ∈ root.ancestors n →
            b.scope ∈ root.ancestors other.scope →
              ¬ InScope root other.kind other.decl n) ∧
    ∀ b ∈ (ofFile root).bindings, ∀ w ∈ b.writes,
      b.scope ∈ root.ancestors w.site ∧
        (root.ancestors w.site).find? (·.id == b.scope.id) = some b.scope := by
  obtain ⟨s, hs, hsound⟩ := Resolver.sound_ofFile wf
  rw [← hs]
  refine ⟨fun e he => ?_, fun i b hb => ?_, fun n hn i b =>
    innermost_of_useOf hsound wf.distinct hn, fun b hb w hw =>
      find?_scope_of_write hsound wf.distinct hb hw⟩
  · simpa [Resolver.views] using hsound.valid e he
  · obtain ⟨hdecl, htext, hin, hscope, -⟩ := hsound.declared i b.view (by simp [Resolver.views, hb])
    exact ⟨hdecl, htext,
      (wf.distinct.mem_ancestors (preorder_of_inner (inner_of_preorder_inner hscope hin))).2
        ⟨hscope, hin⟩⟩

/-- The new name of a short declaration is not in scope in its own value. -/
def shadowing : String :=
  "package p\nfunc f(x int) \x7b\n\tif x := x; x > 0 \x7b\n\t\tx = x\n\t\x7d\n\x7d\n"

set_option maxRecDepth 4000 in
theorem ofFile_lexical_shadowing :
    let root := parse shadowing
    (root.preorder.filter fun n => n.kind == .identifier && n.text == "x").map (ofFile root).useOf =
        [some 1, some 2, some 1, some 2, some 2, some 2] ∧
      ∃ n ∈ root.preorder, ∃ b, (ofFile root).useOf n = some 1 ∧
        (ofFile root).bindings[1]? = some b ∧ n ≠ b.decl ∧ n.text = b.name ∧
          b.scope ∈ root.ancestors n ∧
        ∀ other ∈ (ofFile root).bindings, other.name = b.name → other.scope ∈ root.ancestors n →
          b.scope ∈ root.ancestors other.scope → ¬ InScope root other.kind other.decl n := by
  intro root
  obtain ⟨huses, hfound⟩ :
        (root.preorder.filter fun n => n.kind == .identifier && n.text == "x").map
          (ofFile root).useOf = [some 1, some 2, some 1, some 2, some 2, some 2] ∧
      root.preorder.any (fun n => (ofFile root).useOf n == some 1 &&
        (ofFile root).bindings[1]?.any fun b => n.id != b.decl.id) = true := by
    decide +kernel
  simp only [List.any_eq_true, Option.any_eq_true, Bool.and_eq_true, beq_iff_eq,
    bne_iff_ne] at hfound
  obtain ⟨n, hn, huse, b, hb, hid⟩ := hfound
  have hne : n ≠ b.decl := fun heq => hid (congrArg Node.id heq)
  exact ⟨huses, n, hn, b, huse, hb, hne,
    (ofFile_lexical (parse_wellFormed shadowing)).2.2.1 n hn 1 b huse hb hne⟩

end Resolution

end Handoff
