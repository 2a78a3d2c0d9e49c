import Handoff.Proofs.Resolution.Lexical

/-!
# Where bindings come from

All that a resolution knows of bindings it has from the tree. A function of the package is bound
with its declaration, a written value is an expression of the file, and a local variable is declared
by a name that stands in the body of every function around it: signatures are never visited. Each
step of a resolver keeps this, whatever names are in scope, so visits keep it as well.

## Main definitions

* `Node.InBodies`: a node stands in the body of every function around it.
* `Binding.Grounded`: the declaration and the written values of a binding come from the tree.
* `Resolution.Grounded`: a well-formed tree and bindings that come from it.

## Main statement

* `Resolution.grounded_of_isFile`: the resolution of every file is grounded.
-/

namespace Handoff

open Syntax Node

variable {root n c : Node}

namespace Syntax.Node

/-- A node stands in the body of every function around it. -/
def InBodies (root n : Node) : Prop :=
  ∀ f ∈ root.preorder, f.kind.isFunction = true → n ∈ f.inner →
    ∃ body, f.child? .body = some body ∧ n ∈ body.inner

namespace InBodies

/-- Below anything but a function, children stand where their parent does. -/
theorem child (h : InBodies root n) (hroot : root.Distinct) (hn : n ∈ root.preorder)
    (hkind : n.kind.isFunction = false) (hc : c ∈ n.children) : InBodies root c := by
  intro f hf hfunction hin
  obtain rfl | hin := mem_preorder.1 (hroot.preorder_of_child hn hc hf hin)
  · cases hkind.symm.trans hfunction
  · obtain ⟨body, hbody, hin⟩ := h f hf hfunction hin
    exact ⟨body, hbody, inner_trans hin (inner_of_child hc)⟩

/-- The statements of a function stand in its body. -/
theorem statement {body : Node} (h : InBodies root n) (wf : root.WellFormed)
    (hn : n ∈ root.preorder) (hbody : n.child? .body = some body) (hc : c ∈ body.children) :
    InBodies root c := by
  intro f hf hfunction hin
  have hchild := (mem_children_of_child? hbody).1
  have hmem := preorder_trans hn (child_mem_preorder hchild)
  obtain rfl | hin := mem_preorder.1 (wf.distinct.preorder_of_child hmem hc hf hin)
  · cases (wf.isFunction_body hn hbody).symm.trans hfunction
  obtain rfl | hin := mem_preorder.1 (wf.distinct.preorder_of_child hn hchild hf hin)
  · exact ⟨body, hbody, inner_of_child hc⟩
  · obtain ⟨outer, houter, hin⟩ := h f hf hfunction hin
    exact ⟨outer, houter, inner_trans hin (inner_trans (inner_of_child hchild) (inner_of_child hc))⟩

theorem expression {e : Node} (h : InBodies root n) (hroot : root.Distinct) (hn : n ∈ root.preorder)
    (he : e ∈ n.expressions) : InBodies root e := by
  unfold expressions at he
  split at he
  next hlist => exact h.child hroot hn (by rw [hlist]; rfl) (List.mem_of_mem_filter he)
  next =>
    obtain rfl := List.mem_singleton.1 he
    exact h

/-- No function is around what stands directly in a file. -/
theorem of_root (hroot : root.Distinct) (hkind : root.kind.isFunction = false)
    (hc : c ∈ root.children) :
    InBodies root c := by
  intro f hf hfunction hin
  obtain rfl | hroot := mem_preorder.1 (hroot.preorder_of_child (self_mem_preorder root) hc hf hin)
  · cases hkind.symm.trans hfunction
  · obtain rfl | hf := mem_preorder.1 hf
    · exact absurd hroot not_inner_self
    · exact absurd hroot (inner_asymm hf)

end InBodies

end Syntax.Node

def BindingKind.DeclaredAt (root decl : Node) : BindingKind → Prop
  | .function declaration => declaration ∈ root.preorder ∧ declaration.kind = .functionDeclaration
  | .localVariable _ => decl.kind.isName = true ∧ InBodies root decl
  | _ => True

/-- The declaration of a binding and the writes to it come from the tree. A written value stands in
the node that writes it, and so does a name. -/
structure Binding.Grounded (root : Node) (b : Binding) : Prop where
  declared : b.kind.DeclaredAt root b.decl
  site : ∀ w ∈ b.writes, w.site ∈ root.preorder
  value : ∀ w ∈ b.writes, ∀ value, w.value = some value → value ∈ w.site.preorder
  named : ∀ w ∈ b.writes, ∃ name ∈ w.site.preorder, name.kind.isName = true

theorem Binding.Grounded.written {b : Binding} (h : b.Grounded root) {w : Write} (hw : w ∈ b.writes)
    {value : Node} (hvalue : w.value = some value) : value ∈ root.preorder :=
  preorder_trans (h.site w hw) (h.value w hw value hvalue)

theorem Binding.Grounded.of_isLocal {b : Binding} (h : b.Grounded root)
    (hlocal : b.kind.isLocal = true) : b.decl.kind.isName = true ∧ InBodies root b.decl := by
  have hdeclared := h.declared
  cases hk : b.kind with
  | localVariable => rwa [hk] at hdeclared
  | function | packageVariable | parameter => simp [hk, BindingKind.isLocal] at hlocal

namespace Resolver

variable {s : Resolver} {i : Nat} {owner : Option Node} {kind : BindingKind}
  {type : Option TypeName} {ident site : Node} {value : Option Node}
    {cs names : List Node} {f : Field}

def Grounded (root : Node) (s : Resolver) : Prop :=
  ∀ b ∈ s.facts.bindings, b.Grounded root

/-! ### Single steps -/

theorem Grounded.modify {g : Binding → Binding} (h : s.Grounded root)
    (hg : ∀ b, b.Grounded root → (g b).Grounded root) : (s.modify i g).Grounded root := by
  intro b hb
  obtain hb | ⟨a, ha, rfl⟩ := mem_bindings_modify hb
  · exact h b hb
  · exact hg a (h a (List.mem_of_getElem? ha))

theorem Grounded.refineType (h : s.Grounded root) : (s.refineType i type).Grounded root :=
  h.modify fun _ hb => { hb with }

theorem Grounded.recordWrite (h : s.Grounded root) (hsite : site ∈ root.preorder)
    (hvalue : ∀ v, value = some v → v ∈ site.preorder)
    (hnamed : ∃ name ∈ site.preorder, name.kind.isName = true) :
    (s.recordWrite i site value).Grounded root := by
  refine h.modify fun b hb => ⟨hb.declared, fun w hw => ?_, fun w hw => ?_, fun w hw => ?_⟩
  all_goals obtain hw | rfl := List.mem_append.1 hw |>.imp_right List.mem_singleton.1
  · exact hb.site w hw
  · exact hsite
  · exact hb.value w hw
  · exact hvalue
  · exact hb.named w hw
  · exact hnamed

theorem Grounded.declare (h : s.Grounded root) (hident : kind.DeclaredAt root ident) :
    (s.declare owner ident kind type).Grounded root := by
  intro b hb
  obtain hb | rfl := List.mem_append.1 hb |>.imp_right List.mem_singleton.1
  · exact h b hb
  · exact ⟨hident, by simp, by simp, by simp⟩

theorem Grounded.foldl {α : Type} {l : List α} {g : Resolver → α → Resolver} (h : s.Grounded root)
    (hg : ∀ a ∈ l, ∀ t, t.Grounded root → (g t a).Grounded root) : (l.foldl g s).Grounded root :=
  List.foldlRecOn l g h fun t ht a ha => hg a ha t ht

theorem Grounded.recordUse (h : s.Grounded root) : (s.recordUse n).Grounded root := by
  unfold Resolver.recordUse
  split
  · exact h
  · split <;> exact h

theorem Grounded.declareAll (h : s.Grounded root) (hnames : ∀ n ∈ names, kind.DeclaredAt root n) :
    (s.declareAll owner kind type names).Grounded root :=
  h.foldl fun n hn t ht => by
    split
    · exact ht
    · exact ht.declare (hnames n hn)

theorem Grounded.declareParameters (h : s.Grounded root) : (s.declareParameters n).Grounded root :=
  h.foldl fun _ _ _ ht => ht.declareAll fun _ _ => trivial

/-! ### Names of local variables -/

section Variables

variable (wf : root.WellFormed) (hn : n ∈ root.preorder) (hin : InBodies root n)
  (hkind : n.kind.isFunction = false)
include hn

theorem Grounded.shortTarget {index : Nat} (h : s.Grounded root) (hmem : ident ∈ n.preorder)
    (hident : ident.kind = .identifier) (hbodies : InBodies root ident) :
    (s.shortTarget owner n index ident).Grounded root := by
  have hname : ident.kind.isName = true := by rw [hident]; rfl
  unfold Resolver.shortTarget
  split
  · exact h
  · dsimp only
    split
    · exact Grounded.recordWrite h hn (fun _ => mem_of_valuesIn) ⟨ident, hmem, hname⟩
    · exact Grounded.recordWrite (h.declare ⟨hname, hbodies⟩) hn (fun _ => mem_of_valuesIn)
        ⟨ident, hmem, hname⟩

/-- An assignment writes a value that stands in it. -/
theorem Grounded.recordAssignment (h : s.Grounded root) : (s.recordAssignment n).Grounded root := by
  unfold Resolver.recordAssignment
  split
  · exact h
  · refine h.foldl fun e he t ht => ?_
    have hmem := valuesIn_subset .left (List.fst_mem_of_mem_zipIdx he)
    dsimp only
    split
    · exact ht
    next hident =>
      split
      · exact ht
      · refine ht.refineType.recordWrite hn (fun _ => mem_of_valuesIn)
          ⟨e.1.bare, preorder_trans hmem (bare_mem_preorder _), ?_⟩
        rw [show e.1.bare.kind = .identifier by simpa using hident]
        rfl

include wf hin hkind

theorem declaredAt_child {bySpec : Bool} (hc : c ∈ n.children) (hname : c.kind.isName = true) :
    (BindingKind.localVariable bySpec).DeclaredAt root c :=
  ⟨hname, hin.child wf.distinct hn hkind hc⟩

/-- The targets in a field are declared in the bodies that their construct stands in. -/
theorem Grounded.declareTargets (h : s.Grounded root) (hc : n.child? f = some c) :
    (s.declareTargets owner c).Grounded root := by
  have hchild := (mem_children_of_child? hc).1
  have hmem := preorder_trans hn (child_mem_preorder hchild)
  refine h.declareAll fun e he => ?_
  obtain ⟨he, hident⟩ := List.mem_filter.1 he
  exact ⟨by rw [eq_of_beq hident]; rfl, (hin.child wf.distinct hn hkind hchild).expression
    wf.distinct hmem he⟩

theorem Grounded.clauseTargets (h : s.Grounded root) : (s.clauseTargets owner n).Grounded root := by
  unfold Resolver.clauseTargets
  split
  next left hleft => exact h.declareTargets wf hn hin hkind hleft
  next => exact h

theorem Grounded.switchAlias (h : s.Grounded root) : (s.switchAlias owner n).Grounded root := by
  unfold Resolver.switchAlias
  split
  next found hfound => exact h.declareTargets wf hn hin hkind hfound
  next => exact h

/-- A spec writes a value that stands in it. -/
theorem Grounded.specName {index : Nat} (h : s.Grounded root) (hc : c ∈ n.children)
    (hname : c.kind.isName = true) : (s.specName owner n index c).Grounded root := by
  have hwritten : ∀ i t, t.Grounded root → Grounded root
      (if (valuesIn n .value).isEmpty then t else t.recordWrite i n
        (if (valuesIn n .value).length = (n.inField .name).length then (valuesIn n .value)[index]?
          else none)) := by
    intro i t ht
    split
    · exact ht
    · exact ht.recordWrite hn (fun _ => mem_of_valuesIn) ⟨c, child_mem_preorder hc, hname⟩
  unfold Resolver.specName
  split
  · exact h
  · dsimp only
    split
    · split
      · exact hwritten _ _ h.refineType
      · exact h
    · exact hwritten _ _ (h.declare (declaredAt_child wf hn hin hkind hc hname))

end Variables

theorem isName_of_specName (wf : root.WellFormed) (hn : n ∈ root.preorder)
    (hspec : isValueSpec n = true) (hc : c ∈ n.inField .name) : c.kind.isName = true := by
  obtain ⟨hc, hfield⟩ := List.mem_filter.1 hc
  have hfield : c.field = some .name := eq_of_beq hfield
  have hshaped := wf.shaped n hn
  have hmem : c ∈ n.children.filter fun c => c.kind ≠ .comment ∨ c.field ≠ none :=
    List.mem_filter.2 ⟨hc, by simp [hfield]⟩
  obtain hk | hk := isValueSpec_iff.1 hspec <;> rw [hk] at hshaped
  · exact hshaped _ (List.mem_map_of_mem hmem) hfield
  · exact hshaped _ (List.mem_map_of_mem hmem) hfield

/-! ### Visits -/

def Keeps (root n : Node) : Prop :=
  ∀ owner s, s.Grounded root → (visit owner n s).Grounded root

theorem Grounded.visit (h : s.Grounded root) (hv : ∀ c ∈ cs, Keeps root c) :
    (cs.foldl (fun s c => Resolver.visit owner c s) s).Grounded root :=
  h.foldl fun c hc t ht => hv c hc owner t ht

theorem Grounded.visitAll (h : s.Grounded root) (hv : ∀ c ∈ cs, Keeps root c) :
    (visitAll owner cs s).Grounded root := by
  rw [visitAll_eq_foldl]
  exact h.visit fun c hc => hv c (List.mem_of_mem_filter hc)

theorem Grounded.visitField (h : s.Grounded root) (hv : ∀ c ∈ cs, Keeps root c) :
    (visitField owner f cs s).Grounded root := by
  rw [visitField_eq]
  cases hc : cs.find? (·.field == some f) with
  | none => exact h
  | some c => exact hv c (List.mem_of_find?_eq_some hc) owner s h

theorem Grounded.visitTargets {index : Nat} (h : s.Grounded root) (hn : n ∈ root.preorder)
    (hcs : ∀ c ∈ cs, c ∈ n.preorder ∧ InBodies root c ∧ Keeps root c) :
    (visitTargets owner n index cs s).Grounded root := by
  induction cs generalizing s index with
  | nil => rwa [Resolver.visitTargets]
  | cons c cs ih =>
    obtain ⟨⟨hmem, hbodies, hv⟩, hcs⟩ := List.forall_mem_cons.1 hcs
    rw [Resolver.visitTargets]
    split
    · refine ih ?_ hcs
      split
      next hident => exact h.shortTarget hn hmem hident hbodies
      next => exact hv owner s h
    · exact ih h hcs

section Visits

variable (wf : root.WellFormed) (hn : n ∈ root.preorder) (hin : InBodies root n)
  (hv : ∀ m ∈ n.inner, m ∈ root.preorder → InBodies root m → Keeps root m)
include wf hn hin hv

/-- Only the statements of a function are visited, not its signature. -/
theorem Grounded.visitFunction (h : s.Grounded root) :
    (s.inScope n fun s => visitBody (some n) n.children (s.declareParameters n)).Grounded root := by
  have hparameters : ((s.enter n).declareParameters n).Grounded root := Grounded.declareParameters h
  rw [inScope_eq, visitBody_eq]
  change Grounded root (Resolver.leave (((n.child? .body).map fun c => _).getD _))
  cases hbody : n.child? .body with
  | none => exact hparameters
  | some body =>
    refine Grounded.visitAll hparameters fun c hc => ?_
    have hinner := inner_trans (inner_of_child (mem_children_of_child? hbody).1) (inner_of_child hc)
    exact hv c hinner (preorder_trans hn (preorder_of_inner hinner)) (hin.statement wf hn hbody hc)

variable (hkind : n.kind.isFunction = false)
include hkind

theorem keeps_child : ∀ c ∈ n.children, Keeps root c := fun c hc =>
  hv c (inner_of_child hc) (preorder_trans hn (child_mem_preorder hc))
    (hin.child wf.distinct hn hkind hc)

theorem Grounded.visitLeft (h : s.Grounded root) :
    (visitLeft owner n n.children s).Grounded root := by
  rw [visitLeft_eq]
  change Grounded root (((n.child? .left).map fun c => _).getD _)
  cases hleft : n.child? .left with
  | none => exact h
  | some left =>
    have hchild := (mem_children_of_child? hleft).1
    have hmem := preorder_trans hn (child_mem_preorder hchild)
    have hbodies := hin.child wf.distinct hn hkind hchild
    rw [Option.map_some, Option.getD_some]
    split
    next hlist =>
      refine h.visitTargets hn fun c hc => ?_
      have hinner := inner_trans (inner_of_child hchild) (inner_of_child hc)
      have hc := hbodies.child wf.distinct hmem (by rw [hlist]; rfl) hc
      exact ⟨preorder_of_inner hinner, hc,
        hv c hinner (preorder_trans hn (preorder_of_inner hinner)) hc⟩
    next =>
      split
      next hident => exact h.shortTarget hn (child_mem_preorder hchild) hident hbodies
      next => exact keeps_child wf hn hin hv hkind left hchild owner s h

theorem Grounded.visitSpecs (h : s.Grounded root) :
    (visitSpecs owner n.children s).Grounded root := by
  rw [visitSpecs_eq_foldl]
  refine h.foldl fun spec hspec t ht => ?_
  obtain ⟨hchild, hspec⟩ := List.mem_filter.1 hspec
  have hmem := preorder_trans hn (child_mem_preorder hchild)
  have hbodies := hin.child wf.distinct hn hkind hchild
  have hkind : spec.kind.isFunction = false := by
    obtain hk | hk := isValueSpec_iff.1 hspec <;> rw [hk] <;> rfl
  have hvalue : (Resolver.visitField owner .value spec.children t).Grounded root :=
    ht.visitField (keeps_child wf hmem hbodies
      (fun m hm => hv m (inner_trans (inner_of_child hchild) hm)) hkind)
  refine Grounded.foldl hvalue fun e he t ht => ?_
  have hname := List.fst_mem_of_mem_zipIdx he
  exact ht.specName wf hmem hbodies hkind (List.mem_of_mem_filter hname)
    (isName_of_specName wf hmem hspec hname)

end Visits

/-- Visiting a node that stands in bodies keeps bindings grounded. -/
theorem keeps (wf : root.WellFormed) (n : Node) : n ∈ root.preorder → InBodies root n →
    Keeps root n := by
  induction n using innerInduction with
  | step n ih =>
    intro hn hin owner s h
    have hchild := keeps_child wf hn hin ih
    obtain ⟨label, children⟩ := n
    rw [visit.eq_def]
    dsimp only
    -- of the expressions only function literals declare names
    split
    case h_1 | h_2 | h_3 => exact h.visitFunction wf hn hin ih
    case h_4 hk =>
      have hchild := hchild (by rw [kind, hk]; rfl)
      rw [inScope_eq, visitClauses_eq_foldl]
      have hheader : (visitField owner .value children
          (visitField owner .initializer children (s.enter ⟨label, children⟩))).Grounded root :=
        Grounded.visitField (Grounded.visitField h hchild) hchild
      exact Grounded.visit (hheader.switchAlias wf hn hin (by rw [kind, hk]; rfl)) fun c hc =>
        hchild c (List.mem_of_mem_filter hc)
    case h_5 hk | h_6 hk | h_7 hk | h_8 hk | h_9 hk | h_10 hk | h_11 hk | h_12 hk | h_13 hk =>
      exact Grounded.visitAll h (hchild (by rw [kind, hk]; rfl))
    case h_14 hk =>
      have hfunction : (Node.mk label children).kind.isFunction = false := by rw [kind, hk]; rfl
      exact Grounded.visitLeft wf hn hin ih hfunction (h.visitField (hchild hfunction))
    case h_15 hk | h_16 hk => exact h.visitSpecs wf hn hin ih (by rw [kind, hk]; rfl)
    case h_17 hk =>
      have hchild := hchild (by rw [kind, hk]; rfl)
      exact Grounded.recordAssignment hn ((h.visitField hchild).visitField hchild)
    case h_18 hk | h_19 hk =>
      have hfunction : (Node.mk label children).kind.isFunction = false := by rw [kind, hk]; rfl
      have hright : (visitField owner .right children s).Grounded root :=
        h.visitField (hchild hfunction)
      split
      · exact hright.clauseTargets wf hn hin hfunction
      · exact hright.visitField (hchild hfunction)
    case h_20 => exact h.recordUse
    case h_21 hk => exact h.visitField (hchild (by rw [kind, hk]; rfl))
    case h_22 hk =>
      obtain ⟨visited, hsub, heq⟩ :=
        visitKeyed_eq_foldl owner (1 < (Node.mk label children).parts.length) children s
      rw [heq]
      exact h.visit fun c hc => hchild (by rw [kind, hk]; rfl) c
        (List.mem_of_mem_filter (hsub.subset hc))
    case h_30 =>
      refine h.visitAll (hchild ?_)
      unfold Kind.isFunction
      split <;> first | rfl | contradiction
    all_goals exact h

/-! ### Files -/

theorem Grounded.declarePackage (h : s.Grounded root) (hn : n ∈ root.preorder) :
    (s.declarePackage n).Grounded root := by
  unfold Resolver.declarePackage
  split
  next hk =>
    unfold declareFunction
    split
    · exact h
    · have hdeclare : ∀ name, (s.declare none name (.function n) none).Grounded root := fun name =>
        h.declare ⟨hn, hk⟩
      dsimp only
      split <;> exact hdeclare _
  · exact h.foldl fun _ _ _ ht => ht.declareAll fun _ _ => trivial
  · exact h.foldl fun _ _ _ ht => ht.declareAll fun _ _ => trivial
  · exact h
  · exact h

end Resolver

namespace Resolution

/-- A well-formed tree and bindings that come from it. -/
structure Grounded (r : Resolution) : Prop where
  wellFormed : r.root.WellFormed
  decl : ∀ b ∈ r.bindings, b.decl ∈ r.root.preorder
  binding : ∀ b ∈ r.bindings, b.Grounded r.root

/-- Every binding of a file is grounded. -/
theorem grounded_ofFile (wf : root.WellFormed) (hkind : root.kind.isFunction = false) :
    ∀ b ∈ (ofFile root).bindings, b.Grounded root := by
  have hstart : (Resolver.start root).Grounded root := by
    rintro b ⟨⟩
  have hpackage : (root.parts.foldl Resolver.declarePackage (.start root)).Grounded root :=
    hstart.foldl fun d hd t ht => ht.declarePackage (preorder_of_inner (inner_of_mem_filter hd))
  refine Resolver.Grounded.foldl hpackage fun d hd t ht => ?_
  have hchild : d ∈ root.children := List.mem_of_mem_filter (List.mem_of_mem_filter hd)
  exact Resolver.keeps wf d (child_mem_preorder hchild)
    (InBodies.of_root wf.distinct hkind hchild) none t ht

theorem decl_mem_preorder (wf : root.WellFormed) : ∀ b ∈ (ofFile root).bindings,
    b.decl ∈ root.preorder := by
  intro b hb
  obtain ⟨s, hs, hsound⟩ := Resolver.sound_ofFile wf
  obtain ⟨i, hi⟩ := List.mem_iff_getElem?.1 (hs ▸ hb)
  obtain ⟨-, -, hdecl, hscope, -⟩ := hsound.declared i b.view (by simp [Resolver.views, hi])
  exact preorder_trans hscope (preorder_of_inner hdecl)

theorem grounded_of_wellFormed (wf : root.WellFormed) (hkind : root.kind.isFunction = false) :
    (ofFile root).Grounded := by
  have hroot := root_ofFile wf
  have hdecl := decl_mem_preorder wf
  have hbinding := grounded_ofFile wf hkind
  generalize ofFile root = r at hroot hdecl hbinding ⊢
  rw [← hroot] at wf hdecl hbinding
  exact ⟨wf, hdecl, hbinding⟩

/-- The resolution of every file is grounded. -/
theorem grounded_of_isFile (h : root.IsFile) : (ofFile root).Grounded :=
  grounded_of_wellFormed h.wellFormed h.isFunction

end Resolution

end Handoff
