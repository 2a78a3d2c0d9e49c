import Handoff.Proofs.Syntax.Tree
import Handoff.Resolution.Build

/-!
# Resolving steps keep scopes sound

A resolver changes in few ways: it records a use, declares a name in the innermost scope, writes to
a binding or gives it a type, and opens and closes scopes. Each of these keeps what `Resolver.Sound`
says: every use stands for a binding of its name around it, and no binding of that name that is in
scope at the use stands farther in.

## Main definitions

* `InScope`: whether a declared name is in scope at a node.
* `Resolver.Sound`: what holds of a resolver at every step.
-/

namespace Handoff

open Syntax Node

namespace Syntax

def Kind.opensScope : Kind → Bool
  | .functionDeclaration | .methodDeclaration | .funcLiteral | .typeSwitchStatement | .block
  | .ifStatement | .forStatement | .expressionSwitchStatement | .selectStatement | .expressionCase
  | .typeCase | .defaultCase | .communicationCase => true
  | _ => false

def Kind.declaresVariables : Kind → Bool
  | .shortVarDeclaration | .varSpec | .constSpec | .rangeClause | .receiveStatement
  | .typeSwitchStatement => true
  | _ => false

namespace Node

def fieldStop (n : Node) (f : Field) : Nat :=
  ((n.child? f).map stop).getD 0

/-- The byte from which the names that a construct declares are in scope: its end, and for a type
switch the end of its header. -/
def declaredFrom (construct : Node) : Nat :=
  if construct.kind = .typeSwitchStatement then
    max (construct.fieldStop .initializer)
      (max (construct.fieldStop .guardAlias) (construct.fieldStop .value))
  else construct.stop

end Node

end Syntax

/-- Whether a name is in scope at a node inside its scope: parameters and names of the package are,
a local variable is once the construct that declares it has ended. -/
def InScope (root : Node) (kind : BindingKind) (decl n : Node) : Prop :=
  match kind with
  | .localVariable _ => ∃ construct,
      (root.ancestors decl).find? (·.kind.declaresVariables) = some construct ∧
        construct.declaredFrom ≤ n.start
  | _ => True

namespace Binding

/-- What the resolution of names depends on in a binding. -/
structure View where
  name : String
  kind : BindingKind
  decl : Node
  scope : Node

def view (b : Binding) : View := ⟨b.name, b.kind, b.decl, b.scope⟩

end Binding

theorem Resolution.bindingOf_eq_some {r : Resolution} {n : Node} {i : Nat} {b : Binding} :
    r.bindingOf n = some (i, b) ↔ r.useOf n = some i ∧ r.bindings[i]? = some b := by
  simp [bindingOf, Option.bind_eq_some_iff]

namespace Resolver

def views (s : Resolver) : List Binding.View := s.facts.bindings.map Binding.view

def scopes (s : Resolver) : List Node := s.frames.map Frame.scope

def enter (s : Resolver) (scope : Node) : Resolver :=
  { s with frames := ⟨scope, []⟩ :: s.frames }

def leave (s : Resolver) : Resolver :=
  { s with frames := s.frames.tail }

def Mentions (s : Resolver) (n : Node) : Prop :=
  ∃ i v, s.facts.useOf n = some i ∧ s.views[i]? = some v ∧ n ≠ v.decl

/-- What holds of a resolver at every step. -/
structure Sound (root : Node) (s : Resolver) : Prop where
  root_eq : s.facts.root = root
  head : s.scopes.head? = some s.scope
  opened : ∀ scope ∈ s.scopes, scope ∈ root.preorder ∧ (scope.kind.opensScope = true ∨ scope = root)
  nested : s.scopes.Pairwise fun inside outside => inside ∈ outside.inner
  bound : ∀ frame ∈ s.frames, ∀ e ∈ frame.names, ∃ v, s.views[e.2]? = some v ∧ v.name = e.1 ∧
    v.scope = frame.scope
  known : ∀ frame ∈ s.frames, ∀ v ∈ s.views, v.scope = frame.scope →
    (frame.names.lookup v.name).isSome = true
  declared : ∀ i v, s.views[i]? = some v → s.facts.useOf v.decl = some i ∧ v.decl.text = v.name ∧
    v.decl ∈ v.scope.inner ∧ v.scope ∈ root.preorder ∧
      (v.scope.kind.opensScope = true ∨ v.scope = root)
  valid : ∀ e ∈ s.facts.uses, e.2 < s.views.length
  used : ∀ n ∈ root.preorder, ∀ i v, s.facts.useOf n = some i → s.views[i]? = some v →
    n.text = v.name ∧ n ∈ v.scope.inner ∧ (n ≠ v.decl → n.kind = .identifier ∧
      ∀ w ∈ s.views, w.name = v.name → n ∈ w.scope.inner → w.scope ∈ v.scope.inner →
        ¬ InScope root w.kind w.decl n)
  written : ∀ b ∈ s.facts.bindings, ∀ w ∈ b.writes, w.site ∈ root.preorder ∧ w.site ∈ b.scope.inner

variable {root n : Node} {s : Resolver} {i : Nat}

theorem mem_of_lookup {α β : Type} [BEq α] [LawfulBEq α] {l : List (α × β)} {a : α} {b : β}
    (h : l.lookup a = some b) : (a, b) ∈ l := by
  obtain ⟨before, after, rfl, -⟩ := List.lookup_eq_some_iff.1 h
  simp

theorem useOf_use (n m : Node) :
    (s.use n i).facts.useOf m = if m.id = n.id then some i else s.facts.useOf m := by
  simp only [use, Resolution.useOf, List.lookup_cons]
  split
  next h => rw [if_pos (by simpa using h)]
  next h => rw [if_neg (by simpa using h)]

theorem scope_congr {t : Resolver} (h : t.scopes = s.scopes) (hroot : t.facts.root = s.facts.root) :
    t.scope = s.scope := by
  have hhead := congrArg List.head? h
  simp only [scopes, List.head?_map] at hhead
  rw [scope, scope, hhead, hroot]

section Declare

variable (owner : Option Node) (kind : BindingKind) (type : Option TypeName)

theorem views_declare : (s.declare owner n kind type).views =
    s.views ++ [⟨n.text, kind, n, s.scope⟩] := by
  simp [declare, use, views, Binding.view]

theorem useOf_declare (m : Node) : (s.declare owner n kind type).facts.useOf m =
    if m.id = n.id then some s.views.length else s.facts.useOf m := by
  rw [declare, useOf_use]
  simp [views, Resolution.useOf]

theorem getElem?_views_declare {v : Binding.View} : (s.declare owner n kind type).views[i]? =
    some v ↔ s.views[i]? = some v ∨ (i = s.views.length ∧ v = ⟨n.text, kind, n, s.scope⟩) := by
  rw [views_declare, List.getElem?_append]
  split
  next hi => simp [Nat.ne_of_lt hi]
  next hi =>
    rw [List.getElem?_eq_none (Nat.le_of_not_lt hi), List.getElem?_singleton]
    have : i - s.views.length = 0 ↔ i = s.views.length := by omega
    simp [this, eq_comm]

theorem frames_declare : (s.declare owner n kind type).frames =
    match s.frames with
    | frame :: rest => { frame with names := (n.text, s.views.length) :: frame.names } :: rest
    | [] => [] := by
  cases hframes : s.frames <;> simp [declare, use, views, hframes]

theorem scopes_declare : (s.declare owner n kind type).scopes = s.scopes := by
  rw [scopes, frames_declare, scopes]
  cases s.frames <;> rfl

end Declare

theorem views_modify {f : Binding → Binding} (h : ∀ b, (f b).view = b.view) :
    (s.modify i f).views = s.views := by
  refine List.ext_getElem? fun j => ?_
  simp only [views, modify, List.getElem?_map, List.getElem?_modify, Functor.map, Option.map_map]
  congr 1
  funext b
  simp only [Function.comp_apply]
  split
  · exact h b
  · rfl

/-- A changed binding comes from the one with its number. -/
theorem mem_bindings_modify {f : Binding → Binding} {b : Binding}
    (h : b ∈ (s.modify i f).facts.bindings) :
    b ∈ s.facts.bindings ∨ ∃ a, s.facts.bindings[i]? = some a ∧ b = f a := by
  obtain ⟨j, hj⟩ := List.mem_iff_getElem?.1 h
  simp only [modify, List.getElem?_modify, Functor.map, Option.map_eq_some_iff] at hj
  obtain ⟨a, ha, rfl⟩ := hj
  split
  next hij => exact .inr ⟨a, hij ▸ ha, rfl⟩
  next => exact .inl (List.mem_iff_getElem?.2 ⟨j, ha⟩)

namespace Sound

theorem view_of_useOf (h : s.Sound root) (hn : s.facts.useOf n = some i) :
    ∃ v, s.views[i]? = some v := by
  exact ⟨_, List.getElem?_eq_getElem (h.valid _ (mem_of_lookup hn))⟩

theorem exists_frames (h : s.Sound root) :
    ∃ frame rest, s.frames = frame :: rest ∧ frame.scope = s.scope := by
  have hhead := h.head
  rw [scopes, List.head?_map, Option.map_eq_some_iff] at hhead
  obtain ⟨frame, hframe, hscope⟩ := hhead
  obtain ⟨rest, hrest⟩ := List.head?_eq_some_iff.1 hframe
  exact ⟨frame, rest, hrest, hscope⟩

/-- Changing what no name depends on. -/
theorem modify {f : Binding → Binding} (h : s.Sound root) (hview : ∀ b, (f b).view = b.view)
    (hwrites : ∀ b, s.facts.bindings[i]? = some b → ∀ w ∈ (f b).writes,
      w ∈ b.writes ∨ (w.site ∈ root.preorder ∧ w.site ∈ b.scope.inner)) :
    (s.modify i f).Sound root := by
  have hviews : (s.modify i f).views = s.views := views_modify hview
  refine { h with bound := ?_, known := ?_, declared := ?_, valid := ?_, used := ?_, written := ?_ }
  · rw [hviews]
    exact h.bound
  · rw [hviews]
    exact h.known
  · rw [hviews]
    exact h.declared
  · rw [hviews]
    exact h.valid
  · rw [hviews]
    exact h.used
  · intro b hb w hw
    obtain hb | ⟨a, ha, rfl⟩ := mem_bindings_modify hb
    · exact h.written b hb w hw
    · have hscope : (f a).scope = a.scope := congrArg Binding.View.scope (hview a)
      rw [hscope]
      obtain hw | hw := hwrites a ha w hw
      · exact h.written a (List.mem_iff_getElem?.2 ⟨i, ha⟩) w hw
      · exact hw

theorem refineType (h : s.Sound root) (type : Option TypeName) : (s.refineType i type).Sound root :=
  h.modify (fun _ => rfl) fun _ _ _ hw => .inl hw

theorem recordWrite {site : Node} (h : s.Sound root) (value : Option Node)
    (hsite : site ∈ root.preorder) (hscope : ∀ v, s.views[i]? = some v → site ∈ v.scope.inner) :
    (s.recordWrite i site value).Sound root := by
  refine h.modify (fun _ => rfl) fun b hb w hw => ?_
  obtain hw | rfl := List.mem_append.1 hw |>.imp_right List.mem_singleton.1
  · exact .inl hw
  · exact .inr ⟨hsite, hscope b.view (by simp [views, hb])⟩

/-- An identifier in a scope, all of whose inner scopes lack its name. -/
theorem use {v : Binding.View} (h : s.Sound root) (hroot : root.Distinct) (hn : n ∈ root.preorder)
    (hkind : n.kind = .identifier) (hfresh : s.facts.useOf n = none) (hv : s.views[i]? = some v)
    (htext : n.text = v.name) (hscope : n ∈ v.scope.inner)
    (hfirst : ∀ w ∈ s.views, w.name = v.name → n ∈ w.scope.inner → w.scope ∉ v.scope.inner) :
    (s.use n i).Sound root := by
  have hother : ∀ m, s.facts.useOf m ≠ none → (s.use n i).facts.useOf m = s.facts.useOf m := by
    intro m hm
    rw [useOf_use, if_neg]
    intro hid
    apply hm
    rw [Resolution.useOf, hid]
    exact hfresh
  refine { h with declared := fun j w hw => ?_, valid := ?_, used := fun m hm j w hj hw => ?_ }
  · obtain ⟨hdecl, hrest⟩ := h.declared j w hw
    exact ⟨by rw [hother _ (by simp [hdecl]), hdecl], hrest⟩
  · intro e he
    obtain rfl | he := List.mem_cons.1 he
    · exact (List.getElem?_eq_some_iff.1 hv).1
    · exact h.valid e he
  · rw [useOf_use] at hj
    split at hj
    next hid =>
      obtain rfl : m = n := hroot.eq_of_id hm hn hid
      obtain rfl : i = j := Option.some.inj hj
      obtain rfl : v = w := Option.some.inj (hv.symm.trans hw)
      exact ⟨htext, hscope, fun _ =>
        ⟨hkind, fun w hw hname hin hinner _ => hfirst w hw hname hin hinner⟩⟩
    next => exact h.used m hm j w hj hw

section Declare

variable (owner : Option Node) (kind : BindingKind) (type : Option TypeName)

/-- A frame after a declaration: the innermost one with the new name, or one of the others. -/
theorem mem_frames_declare {f : Frame} (h : s.Sound root)
    (hf : f ∈ (s.declare owner n kind type).frames) :
    (∃ frame ∈ s.frames, frame.scope = s.scope ∧
        f = { frame with names := (n.text, s.views.length) :: frame.names }) ∨
      (f ∈ s.frames ∧ f.scope ≠ s.scope) := by
  obtain ⟨frame, rest, hs, hframe⟩ := h.exists_frames
  rw [frames_declare, hs] at hf
  obtain rfl | hf := List.mem_cons.1 hf
  · exact .inl ⟨frame, by simp [hs], hframe, rfl⟩
  · refine .inr ⟨by simp [hs, hf], fun hself => ?_⟩
    -- The scopes around the innermost one are other nodes.
    have hin := h.nested
    rw [scopes, hs, List.map_cons, List.pairwise_cons, hframe] at hin
    exact not_inner_self (hself ▸ hin.1 f.scope (List.mem_map_of_mem hf))

/-- A new name is entered in the innermost frame for its binding. -/
theorem bound_declare (h : s.Sound root) :
    ∀ frame ∈ (s.declare owner n kind type).frames, ∀ e ∈ frame.names,
      ∃ v, (s.declare owner n kind type).views[e.2]? = some v ∧ v.name = e.1 ∧
        v.scope = frame.scope := by
  intro f hf e he
  have hold : ∀ frame ∈ s.frames, e ∈ frame.names →
      ∃ v, (s.declare owner n kind type).views[e.2]? = some v ∧ v.name = e.1 ∧
        v.scope = frame.scope := by
    intro frame hmem he
    obtain ⟨v, hv, hrest⟩ := h.bound frame hmem e he
    exact ⟨v, (getElem?_views_declare ..).2 (.inl hv), hrest⟩
  obtain ⟨frame, hmem, hframe, rfl⟩ | ⟨hmem, -⟩ := h.mem_frames_declare owner kind type hf
  · obtain rfl | he := List.mem_cons.1 he
    · exact ⟨_, (getElem?_views_declare ..).2 (.inr ⟨rfl, rfl⟩), rfl, hframe.symm⟩
    · exact hold frame hmem he
  · exact hold f hmem he

/-- Every binding of an open scope can be found in the frame of the scope. -/
theorem known_declare (h : s.Sound root) :
    ∀ frame ∈ (s.declare owner n kind type).frames, ∀ v ∈ (s.declare owner n kind type).views,
      v.scope = frame.scope → (frame.names.lookup v.name).isSome = true := by
  intro f hf v hv hscope
  rw [views_declare, List.mem_append, List.mem_singleton] at hv
  obtain ⟨frame, hmem, hframe, rfl⟩ | ⟨hmem, hne⟩ := h.mem_frames_declare owner kind type hf
  · rw [List.lookup_cons]
    split
    next => rfl
    next hne =>
      obtain hv | rfl := hv
      · exact h.known frame hmem v hv hscope
      · simp at hne
  · obtain hv | rfl := hv
    · exact h.known f hmem v hv hscope
    · exact absurd hscope.symm hne

variable {kind}

/-- Uses mean what they meant before, if none of them could have meant the new name. -/
theorem used_declare (h : s.Sound root) (hroot : root.Distinct) (hn : n ∈ root.preorder)
    (hscope : n ∈ s.scope.inner)
    (hlate : ∀ m ∈ root.preorder, m ∈ s.scope.inner → s.Mentions m → ¬ InScope root kind n m) :
    ∀ m ∈ root.preorder, ∀ j v, (s.declare owner n kind type).facts.useOf m = some j →
      (s.declare owner n kind type).views[j]? = some v →
      m.text = v.name ∧ m ∈ v.scope.inner ∧ (m ≠ v.decl → m.kind = .identifier ∧
        ∀ w ∈ (s.declare owner n kind type).views, w.name = v.name → m ∈ w.scope.inner →
          w.scope ∈ v.scope.inner → ¬ InScope root w.kind w.decl m) := by
  intro m hm j v hj hv
  have hnew := (getElem?_views_declare (s := s) (n := n) owner kind type).2 (.inr ⟨rfl, rfl⟩)
  rw [useOf_declare] at hj
  split at hj
  next hid =>
    obtain rfl : m = n := hroot.eq_of_id hm hn hid
    obtain rfl : s.views.length = j := Option.some.inj hj
    obtain rfl := Option.some.inj (hnew.symm.trans hv)
    exact ⟨rfl, hscope, fun hne => absurd rfl hne⟩
  next =>
    obtain ⟨v', hv'⟩ := h.view_of_useOf hj
    obtain rfl := Option.some.inj (((getElem?_views_declare ..).2 (.inl hv')).symm.trans hv)
    obtain ⟨htext, hin, hmention⟩ := h.used m hm j v' hj hv'
    refine ⟨htext, hin, fun hne => ⟨(hmention hne).1, fun w hw hname hmw hwv => ?_⟩⟩
    rw [views_declare, List.mem_append, List.mem_singleton] at hw
    obtain hw | rfl := hw
    · exact (hmention hne).2 w hw hname hmw hwv
    · exact hlate m hm hmw ⟨j, v', hj, hv', hne⟩

/-- A new name in the innermost scope, which none of the uses in that scope could have meant. -/
theorem declare (h : s.Sound root) (hroot : root.Distinct) (hn : n ∈ root.preorder)
    (hfresh : s.facts.useOf n = none) (hscope : n ∈ s.scope.inner)
    (hlate : ∀ m ∈ root.preorder, m ∈ s.scope.inner → s.Mentions m → ¬ InScope root kind n m) :
    (s.declare owner n kind type).Sound root where
  root_eq := h.root_eq
  head := by rw [scope_congr (scopes_declare ..) rfl, scopes_declare, h.head]
  opened := by
    rw [scopes_declare]
    exact h.opened
  nested := by
    rw [scopes_declare]
    exact h.nested
  bound := h.bound_declare owner kind type
  known := h.known_declare owner kind type
  used := h.used_declare owner type hroot hn hscope hlate
  -- an older declaration keeps its number, as the new one has not been used before
  declared j v hv := by
    rw [useOf_declare]
    obtain hv | ⟨rfl, rfl⟩ := (getElem?_views_declare ..).1 hv
    · obtain ⟨hdecl, hrest⟩ := h.declared j v hv
      refine ⟨?_, hrest⟩
      rw [if_neg, hdecl]
      intro hid
      rw [Resolution.useOf, hid] at hdecl
      cases hfresh.symm.trans hdecl
    · exact ⟨if_pos rfl, rfl, hscope, h.opened s.scope (List.mem_of_mem_head? h.head)⟩
  valid e he := by
    rw [views_declare, List.length_append]
    obtain rfl | he := List.mem_cons.1 he
    · simp [views]
    · exact Nat.lt_of_lt_of_le (h.valid e he) (Nat.le_add_right ..)
  written b hb w hw := by
    obtain hb | rfl := List.mem_append.1 hb |>.imp_right List.mem_singleton.1
    · exact h.written b hb w hw
    · simp at hw

end Declare

/-- What stands in the innermost scope stands in all open scopes. -/
theorem inner_of_scopes {a : Node} (h : s.Sound root) (hn : n ∈ s.scope.inner) (ha : a ∈ s.scopes) :
    n ∈ a.inner := by
  obtain ⟨outer, hscopes⟩ := List.head?_eq_some_iff.1 h.head
  have hnested := h.nested
  rw [hscopes, List.pairwise_cons] at hnested
  rw [hscopes] at ha
  obtain rfl | ha := List.mem_cons.1 ha
  · exact hn
  · exact inner_trans (hnested.1 a ha) hn

/-- A resolver stays sound when it opens a scope in which nothing has been declared. -/
theorem enter (h : s.Sound root) (hn : n ∈ root.preorder) (hkind : n.kind.opensScope = true)
    (hin : n ∈ s.scope.inner) (hvacant : ∀ v ∈ s.views, v.scope ≠ n) : (s.enter n).Sound root := by
  refine { h with head := rfl, opened := ?_, nested := ?_, bound := ?_, known := ?_ }
  · intro a ha
    obtain rfl | ha := List.mem_cons.1 ha
    · exact ⟨hn, .inl hkind⟩
    · exact h.opened a ha
  · exact List.pairwise_cons.2 ⟨fun a ha => h.inner_of_scopes hin ha, h.nested⟩
  · intro f hf e he
    obtain rfl | hf := List.mem_cons.1 hf
    · simp at he
    · exact h.bound f hf e he
  · intro f hf v hv hscope
    obtain rfl | hf := List.mem_cons.1 hf
    · exact absurd hscope (hvacant v hv)
    · exact h.known f hf v hv hscope

/-- A resolver stays sound when it closes the scope that it opened. -/
theorem leave {outer : Resolver} (h : s.Sound root) (houter : outer.Sound root)
    (hscopes : s.scopes = (outer.enter n).scopes) : s.leave.Sound root := by
  have htail : s.leave.scopes = outer.scopes := by
    rw [scopes, Resolver.leave, List.map_tail]
    exact congrArg List.tail hscopes
  have hsub : s.leave.scopes.Sublist s.scopes := (List.tail_sublist _).map _
  have hframes : ∀ f ∈ s.leave.frames, f ∈ s.frames := fun f hf => List.mem_of_mem_tail hf
  refine { h with head := ?_, opened := ?_, nested := ?_, bound := ?_, known := ?_ }
  · rw [scope_congr htail (h.root_eq.trans houter.root_eq.symm), htail, houter.head]
  · exact fun a ha => h.opened a (hsub.subset ha)
  · exact h.nested.sublist hsub
  · exact fun f hf => h.bound f (hframes f hf)
  · exact fun f hf => h.known f (hframes f hf)

end Sound

theorem inScope_eq (s : Resolver) (scope : Node) (step : Resolver → Resolver) :
    s.inScope scope step = (step (s.enter scope)).leave :=
  rfl

end Resolver

end Handoff
