import Handoff.Proofs.Resolution.Footprint

/-!
# Writes that nothing guards

A write carries a mark: it is conditional when control flow or a function stands between it and the
scope of its binding. A write without the mark stands in branches that hold the whole scope, with
the declaration and every use of the name. One kind of branch is different: the scope of a name that
is declared in the header of an `if` statement is that statement, so its arms hold neither the
declaration nor all uses, and yet a write in one of them carries no mark.

## Main definitions

* `Node.HasArm`: the consequence or the alternative of an `if` statement.
* `Node.IsBranch`: what runs in some cases only.
* `Binding.Built`: how a binding comes about.

## Main statement

* `Resolution.unconditional_write`: where a write without a mark stands.
-/

namespace Handoff

open Syntax Node

variable {root n site scope : Node}

namespace Syntax

/-- Control flow and functions: what is in them may run when what is around them does not. -/
def Kind.guards (k : Kind) : Bool := k.isControlFlow || k.isFunction

namespace Node

def HasArm (n arm : Node) : Prop :=
  n.kind = .ifStatement ∧ (n.child? .consequence = some arm ∨ n.child? .alternative = some arm)

/-- What runs in some cases only: an arm of an `if` statement, a clause of a `switch` or `select`,
or a function. -/
def IsBranch (root branch : Node) : Prop :=
  (∃ n ∈ root.preorder, n.HasArm branch) ∨ branch.kind.isClause = true ∨
    branch.kind.isFunction = true

theorem HasArm.mem_children {arm : Node} (h : n.HasArm arm) : arm ∈ n.children :=
  h.2.elim (fun hc => (mem_children_of_child? hc).1) fun hc => (mem_children_of_child? hc).1

theorem guards_of_isClause {k : Kind} (h : k.isClause = true) : k.guards = true := by
  cases k <;> first | rfl | cases h

/-- The nodes above one that stands in a scope: some in the scope, then the scope and what is above
it. -/
theorem Distinct.ancestors_of_inner (hroot : root.Distinct) (hscope : scope ∈ root.preorder)
    (hin : site ∈ scope.inner) :
    ∃ between, root.ancestors site = between ++ scope :: root.ancestors scope ∧
      ∀ a ∈ between, a ∈ scope.inner := by
  obtain ⟨c, hc, hsite⟩ := mem_inner.1 hin
  obtain ⟨above, hpath⟩ := exists_path hscope
  obtain ⟨between, hdown⟩ := exists_path hsite
  refine ⟨between, ?_, fun a ha => mem_inner.2 ⟨c, hc, (hdown.mem_above ha).1⟩⟩
  rw [hroot.ancestors_eq (hpath.append (.down hc hdown)), hroot.ancestors_eq hpath,
    List.append_assoc]
  rfl

end Node

end Syntax

/-- A site is unconditional exactly when all control flow and all functions around it hold the
scope. -/
theorem isConditional_eq_false_iff (hroot : root.Distinct) (hscope : scope ∈ root.preorder)
    (hin : site ∈ scope.inner) :
    isConditional root site scope = false ↔
      ∀ a ∈ root.preorder, a.kind.guards = true → site ∈ a.inner → scope ∈ a.preorder := by
  obtain ⟨between, habove, hbetween⟩ := hroot.ancestors_of_inner hscope hin
  have hsite : site ∈ root.preorder := preorder_trans hscope (preorder_of_inner hin)
  have hwalk : (root.ancestors site).takeWhile (·.id != scope.id) = between := by
    rw [habove, List.takeWhile_append_of_pos, List.takeWhile_cons_of_neg, List.append_nil]
    · simp
    · intro a ha
      simpa using (hroot.of_mem hscope).ne_id_of_inner (hbetween a ha)
  rw [isConditional, hwalk, List.any_eq_false]
  constructor
  · intro h a ha hguards hsite_in
    have hmem := (hroot.mem_ancestors hsite).2 ⟨ha, hsite_in⟩
    rw [habove, List.mem_append, List.mem_cons] at hmem
    obtain hmem | rfl | hmem := hmem
    · exact absurd hguards (h a hmem)
    · exact self_mem_preorder a
    · exact preorder_of_inner ((hroot.mem_ancestors hscope).1 hmem).2
  · intro h a ha hguards
    obtain ⟨hmem, hsite_in⟩ := (hroot.mem_ancestors hsite).1 (habove ▸ List.mem_append_left _ ha)
    exact not_inner_self (inner_of_preorder (hbetween a ha) (h a hmem hguards hsite_in))

/-! ### Marks -/

/-- How a binding comes about: it is declared without writes, and then it only gets types and
writes. -/
inductive Binding.Built (root : Node) : Binding → Prop where
  | declared {b : Binding} : b.writes = [] → Built root b
  | typed {b : Binding} (type : Option TypeName) : Built root b → Built root { b with type := type }
  | written {b : Binding} (site : Node) (value : Option Node) : Built root b →
      Built root { b with writes := b.writes ++ [⟨site, value, isConditional root site b.scope⟩] }

/-- The mark of each write is as `isConditional` says. -/
theorem Binding.Built.conditional_eq {b : Binding} (h : b.Built root) :
    ∀ w ∈ b.writes, w.conditional = isConditional root w.site b.scope := by
  induction h with
  | declared hwrites => simp [hwrites]
  | typed _ _ ih => exact ih
  | written _ _ _ ih =>
    intro w hw
    obtain hw | rfl := List.mem_append.1 hw |>.imp_right List.mem_singleton.1
    · exact ih w hw
    · rfl

namespace Resolver

variable {s : Resolver} {owner : Option Node} {kind : BindingKind} {type : Option TypeName}
  {names : List Node} {i index : Nat}

structure Built (root : Node) (s : Resolver) : Prop where
  root_eq : s.facts.root = root
  binding : ∀ b ∈ s.facts.bindings, b.Built root

namespace Built

theorem modify {f : Binding → Binding} (h : s.Built root)
    (hf : ∀ b, b.Built root → (f b).Built root) : (s.modify i f).Built root := by
  refine ⟨h.root_eq, fun b hb => ?_⟩
  obtain hb | ⟨a, ha, rfl⟩ := mem_bindings_modify hb
  · exact h.binding b hb
  · exact hf a (h.binding a (List.mem_of_getElem? ha))

theorem refineType (h : s.Built root) : (s.refineType i type).Built root :=
  h.modify fun _ hb => hb.typed _

theorem recordWrite {value : Option Node} (h : s.Built root) :
    (s.recordWrite i site value).Built root :=
  h.modify fun b hb => by
    rw [h.root_eq]
    exact hb.written site value

theorem declare (h : s.Built root) : (s.declare owner n kind type).Built root := by
  refine ⟨h.root_eq, fun b hb => ?_⟩
  obtain hb | rfl := List.mem_append.1 hb |>.imp_right List.mem_singleton.1
  · exact h.binding b hb
  · exact .declared rfl

theorem foldl {α : Type} {l : List α} {g : Resolver → α → Resolver} (h : s.Built root)
    (hg : ∀ a t, t.Built root → (g t a).Built root) : (l.foldl g s).Built root :=
  List.foldlRecOn l g h fun t ht a _ => hg a t ht

theorem declareAll (h : s.Built root) : (s.declareAll owner kind type names).Built root :=
  h.foldl fun _ _ ht => by
    split
    · exact ht
    · exact ht.declare

theorem recordUse (h : s.Built root) : (s.recordUse n).Built root := by
  unfold Resolver.recordUse
  split
  · exact h
  · split <;> exact ⟨h.root_eq, h.binding⟩

theorem shortTarget (h : s.Built root) : (s.shortTarget owner site index n).Built root := by
  unfold Resolver.shortTarget
  split
  · exact h
  · dsimp only
    split
    · exact recordWrite ⟨h.root_eq, h.binding⟩
    · exact h.declare.recordWrite

theorem specName (h : s.Built root) : (s.specName owner site index n).Built root := by
  have hwritten : ∀ (t : Resolver) i value, t.Built root →
      Built root (if (valuesIn site .value).isEmpty then t else t.recordWrite i site value) := by
    intro t i value ht
    split
    · exact ht
    · exact ht.recordWrite
  unfold Resolver.specName
  split
  · exact h
  · dsimp only
    split
    · split
      · exact hwritten _ _ _ h.refineType
      · exact h
    · exact hwritten _ _ _ h.declare

theorem specNames (h : s.Built root) : (s.specNames owner n).Built root :=
  h.foldl fun _ _ ht => ht.specName

theorem recordAssignment (h : s.Built root) : (s.recordAssignment n).Built root := by
  unfold Resolver.recordAssignment
  split
  · exact h
  · refine h.foldl fun e t ht => ?_
    dsimp only
    split
    · exact ht
    · split
      · exact ht
      · exact ht.refineType.recordWrite

/-- Every step of a visit builds bindings. -/
theorem lockstep (root d : Node) :
    Lockstep (fun n n' => n = n' ∧ n ∈ preorderAll [d]) fun _ s t => s = t ∧ s.Built root where
  enter := by
    rintro n _ d s _ ⟨rfl, -⟩ - ⟨rfl, h⟩
    exact ⟨rfl, h.root_eq, h.binding⟩
  leave := by
    rintro d s _ ⟨rfl, h⟩
    exact ⟨rfl, h.root_eq, h.binding⟩
  declareParameters := by
    rintro f _ d s _ ⟨rfl, -⟩ ⟨rfl, h⟩
    exact ⟨rfl, h.foldl fun _ _ ht => ht.declareAll⟩
  declareTargets := by
    rintro targets _ owner owner' d s _ ⟨rfl, -⟩ howner ⟨rfl, h⟩
    obtain rfl := Within.eq_of_rel_self howner
    exact ⟨rfl, h.declareAll⟩
  recordUse := by
    rintro n _ d s _ ⟨rfl, -⟩ - ⟨rfl, h⟩
    exact ⟨rfl, h.recordUse⟩
  shortTarget := by
    rintro site _ ident _ owner owner' index d s _ ⟨rfl, -⟩ - ⟨rfl, -⟩ - - howner ⟨rfl, h⟩
    obtain rfl := Within.eq_of_rel_self howner
    exact ⟨rfl, h.shortTarget⟩
  specNames := by
    rintro spec _ owner owner' d s _ ⟨rfl, -⟩ - howner ⟨rfl, h⟩
    obtain rfl := Within.eq_of_rel_self howner
    exact ⟨rfl, h.specNames⟩
  recordAssignment := by
    rintro site _ d s _ ⟨rfl, -⟩ - ⟨rfl, h⟩
    exact ⟨rfl, h.recordAssignment⟩

theorem declarePackage (h : s.Built root) : (s.declarePackage n).Built root := by
  have hvalues : (s.declareValues n).Built root := h.foldl fun _ _ ht => ht.declareAll
  unfold Resolver.declarePackage
  split
  · unfold declareFunction
    split
    · exact h
    next name _ =>
      have hdeclare : (s.declare none name (.function n) none).Built root := h.declare
      dsimp only
      split
      · exact hdeclare
      · exact ⟨hdeclare.root_eq, hdeclare.binding⟩
  · exact hvalues
  · exact hvalues
  · exact ⟨h.root_eq, h.binding⟩
  · exact h

theorem visitDeclaration {d : Node} (wf : d.WellFormed) (hbody : hasBody d = true)
    (h : s.Built root) : (visit none d s).Built root :=
  (Lockstep.visitDeclaration (Within.likeness_self [d]) (lockstep root d)
    (fun _ _ hspec _ ⟨hst, ht⟩ => by
      obtain ⟨rfl, -⟩ := hspec
      obtain rfl := hst
      exact ⟨rfl, ht.specNames⟩)
    wf ⟨rfl, by simp⟩ hbody ⟨rfl, h⟩).2

end Built

end Resolver

namespace Resolution

variable {i : Nat} {b : Binding} {w : Write} {branch : Node}

/-- Every binding of a file was built in it. -/
theorem built_ofFile (wf : root.WellFormed) : ∀ b ∈ (ofFile root).bindings, b.Built root := by
  have hstart : (Resolver.start root).Built root := ⟨rfl, by rintro b ⟨⟩⟩
  have hdeclared : (root.parts.foldl Resolver.declarePackage (.start root)).Built root :=
    hstart.foldl fun _ _ ht => ht.declarePackage
  refine (List.foldlRecOn (motive := fun s : Resolver => s.Built root) _ _ hdeclared
    fun s hs d hd => ?_).binding
  obtain ⟨hd, hbody⟩ := List.mem_filter.1 hd
  exact hs.visitDeclaration (wf.child (List.mem_of_mem_filter hd)) hbody

/-- A branch around a site that holds no scope of its own is an arm of an `if` statement. -/
theorem hasArm_or_mem (hroot : root.Distinct) (hscope : scope ∈ root.preorder)
    (hin : site ∈ scope.inner)
    (hguards : ∀ a ∈ root.preorder, a.kind.guards = true → site ∈ a.inner → scope ∈ a.preorder)
    (hmem : branch ∈ root.preorder) (hbranch : root.IsBranch branch) (hsite : site ∈ branch.inner) :
    scope.HasArm branch ∨ scope ∈ branch.preorder := by
  obtain ⟨n, hn, harm⟩ | hclause | hfunction := hbranch
  · have hchild := harm.mem_children
    have hscope_in := hguards n hn (by rw [harm.1]; rfl) (inner_trans (inner_of_child hchild) hsite)
    obtain rfl | hscope_in := mem_preorder.1 hscope_in
    · exact .inl harm
    · -- The scope and the arm are both around the site, and the scope is no farther out than the
      -- statement.
      obtain h | h := hroot.mem_or_mem hscope hmem (preorder_of_inner hin) (preorder_of_inner hsite)
      · exact .inr h
      · exact absurd
          (inner_of_preorder hscope_in (hroot.preorder_of_child hn hchild hscope h)) not_inner_self
  · exact .inr (hguards branch hmem (guards_of_isClause hclause) hsite)
  · exact .inr (hguards branch hmem (by rw [Kind.guards, hfunction, Bool.or_true]) hsite)

/-- A write carries no mark exactly when all control flow and all functions around it hold the scope
of the binding. Then each branch around it holds the declaration of the name and all that stands for
it, an arm of the `if` statement apart whose header declares the name. -/
theorem unconditional_write (wf : root.WellFormed) (hb : (ofFile root).bindings[i]? = some b)
    (hw : w ∈ b.writes) :
    (w.conditional = false ↔ ∀ a ∈ root.preorder, a.kind.guards = true → w.site ∈ a.inner →
      b.scope ∈ a.preorder) ∧
    (w.conditional = false → ∀ branch ∈ root.preorder, root.IsBranch branch →
      w.site ∈ branch.inner → ¬ b.scope.HasArm branch →
        b.decl ∈ branch.inner ∧
          ∀ x ∈ root.preorder, (ofFile root).useOf x = some i → x ∈ branch.inner) := by
  obtain ⟨s, hs, hsound⟩ := Resolver.sound_ofFile wf
  have hmem : b ∈ (ofFile root).bindings := List.mem_of_getElem? hb
  have hview : s.views[i]? = some b.view := by simp [Resolver.views, hs, hb]
  obtain ⟨-, -, hdecl, hscope, -⟩ := hsound.declared i b.view hview
  obtain ⟨-, hin⟩ := hsound.written b (hs ▸ hmem) w hw
  have hmark := isConditional_eq_false_iff wf.distinct hscope hin
  rw [(built_ofFile wf b hmem).conditional_eq w hw]
  refine ⟨hmark, fun hfalse branch hbranch_mem hbranch hsite hheader => ?_⟩
  have hholds :=
    (hasArm_or_mem wf.distinct hscope hin (hmark.1 hfalse) hbranch_mem hbranch hsite).resolve_left
      hheader
  refine ⟨inner_of_preorder_inner hholds hdecl, fun x hx huse => ?_⟩
  exact inner_of_preorder_inner hholds (hsound.used x hx i b.view (hs ▸ huse) hview).2.1

/-- Whether a write without a mark stands in the consequence of an `if` statement, such that the
binding and the consequence pass a test. -/
def writesInArm (root : Node) (test : Binding → Node → Bool) : Bool :=
  (ofFile root).bindings.any fun b => b.writes.any fun w =>
    !w.conditional && root.preorder.any fun n => n.kind == .ifStatement &&
      (n.child? .consequence).any fun arm => arm.inner.any (·.id == w.site.id) && test b arm

theorem exists_of_writesInArm {test : Binding → Node → Bool} (wf : root.WellFormed)
    (h : writesInArm root test = true) :
    ∃ (i : Nat) (b : Binding) (w : Write) (arm : Node), (ofFile root).bindings[i]? = some b ∧
      w ∈ b.writes ∧ w.conditional = false ∧ root.IsBranch arm ∧ arm ∈ root.preorder ∧
        w.site ∈ arm.inner ∧
      test b arm = true := by
  simp only [writesInArm, List.any_eq_true, Bool.and_eq_true, Bool.not_eq_true', beq_iff_eq,
    Option.any_eq_true] at h
  obtain ⟨b, hb, w, hw, hfalse, n, hn, hkind, arm, harm, ⟨m, hm, hid⟩, htest⟩ := h
  obtain ⟨i, hi⟩ := List.mem_iff_getElem?.1 hb
  obtain ⟨s, hs, hsound⟩ := Resolver.sound_ofFile wf
  have hmem : arm ∈ root.preorder := preorder_trans hn (preorder_of_child? harm)
  have hsite := wf.distinct.eq_of_id (preorder_trans hmem (preorder_of_inner hm))
    (hsound.written b (hs ▸ hb) w hw).1 hid
  exact ⟨i, b, w, arm, hi, hw, hfalse, .inl ⟨n, hn, hkind, .inl harm⟩, hmem, hsite ▸ hm, htest⟩

/-- One name is declared in the header of an `if` statement and one in its consequence. Both are
written in the consequence. -/
def headerVariable : String :=
  "package p\nfunc run(c bool) \x7b\n\tif f := 1; c \x7b\n\t\tg := f\n\t\tf = g\n" ++
    "\t\x7d else \x7b\n\t\tuse(f)\n\t\x7d\n\x7d\n"

set_option maxRecDepth 4000 in
theorem unconditional_write_headerVariable :
    ∃ (i : Nat) (b : Binding) (w : Write) (branch : Node),
      (ofFile (parse headerVariable)).bindings[i]? = some b ∧ w ∈ b.writes ∧ w.conditional = false ∧
      (parse headerVariable).IsBranch branch ∧ w.site ∈ branch.inner ∧ ¬ b.scope.HasArm branch ∧
      b.decl ∈ branch.inner := by
  have wf := parse_wellFormed headerVariable
  have hfound :
      writesInArm (parse headerVariable) (fun b _ => b.scope.kind != .ifStatement) = true := by
    decide +kernel
  obtain ⟨i, b, w, arm, hb, hw, hfalse, hbranch, hmem, hsite, hkind⟩ :=
    exists_of_writesInArm wf hfound
  have harm : ¬ b.scope.HasArm arm := fun h => by simp [h.1] at hkind
  exact ⟨i, b, w, arm, hb, hw, hfalse, hbranch, hsite, harm,
    ((unconditional_write wf hb hw).2 hfalse arm hmem hbranch hsite harm).1⟩

set_option maxRecDepth 4000 in
/-- The write to the name of the header carries no mark, and its branch lacks the declaration. -/
theorem unmarked_write_headerVariable :
    ∃ (i : Nat) (b : Binding) (w : Write) (branch : Node),
      (ofFile (parse headerVariable)).bindings[i]? = some b ∧ w ∈ b.writes ∧ w.conditional = false ∧
      (parse headerVariable).IsBranch branch ∧ w.site ∈ branch.inner ∧ b.decl ∉ branch.inner := by
  have hfound :
      writesInArm (parse headerVariable)
        (fun b arm => arm.inner.all (·.id != b.decl.id)) = true := by
    decide +kernel
  obtain ⟨i, b, w, arm, hb, hw, hfalse, hbranch, -, hsite, hdecl⟩ :=
    exists_of_writesInArm (parse_wellFormed headerVariable) hfound
  exact ⟨i, b, w, arm, hb, hw, hfalse, hbranch, hsite,
    fun hin => by simpa using List.all_eq_true.1 hdecl _ hin⟩

end Resolution

end Handoff
