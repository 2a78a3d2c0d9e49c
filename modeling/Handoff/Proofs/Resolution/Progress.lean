import Handoff.Proofs.Resolution.Scope
import Handoff.Proofs.Syntax.Walk

/-!
# Progress of a resolver

Resolving the names in a subtree changes nothing about the rest of the file: it records uses in the
subtree only, and declares names in the innermost scope or in scopes of the subtree. So a node that
a resolver has yet to visit stays so while its siblings are visited.

## Main definitions

* `Resolver.Before`: the uses in a scope start before some byte.
* `Resolver.Advances`: one resolver comes from another by resolving names in some subtrees.
* `Resolver.Faces`: a node lies in the open scopes, and no scope of the node has been opened yet.
* `Resolver.Awaits`: a resolver has yet to visit a node.
-/

namespace Handoff

open Syntax Node

/-- Statements that declare in, or pass on, the scope around them. -/
def Syntax.Kind.isOrdered (k : Kind) : Bool := k.isStatement && !k.opensScope

theorem Syntax.Kind.holdsStatements_eq_false {k : Kind} (hopens : k.opensScope = false)
    (hordered : k.isOrdered = false) : k.holdsStatements = false := by
  have hfunction : k.isFunction = false := by
    cases k <;> first | rfl | cases hopens
  rw [isOrdered, hopens, Bool.not_false, Bool.and_true] at hordered
  rw [holdsStatements, hordered, hfunction, Bool.or_false]

namespace Resolver

variable {root n c k x scope : Node} {region region' : List Node} {s t u : Resolver} {p i : Nat}

/-- The uses in a scope, declarations left out, all start before a byte. -/
def Before (root scope : Node) (p : Nat) (s : Resolver) : Prop :=
  ∀ x ∈ root.preorder, x ∈ scope.inner → s.Mentions x → x.start < p

/-- One resolver comes from another by resolving names in some subtrees. -/
structure Advances (root : Node) (region : List Node) (s t : Resolver) : Prop where
  sound : t.Sound root
  root_eq : t.facts.root = s.facts.root
  scopes_eq : t.scopes = s.scopes
  kept : s.views <+: t.views
  placed : ∀ v ∈ t.views, v ∈ s.views ∨ v.scope = s.scope ∨ v.scope ∈ preorderAll region
  useOf_eq : ∀ x ∈ root.preorder, x ∉ preorderAll region → t.facts.useOf x = s.facts.useOf x

namespace Advances

theorem refl (h : s.Sound root) : Advances root region s s :=
  ⟨h, rfl, rfl, List.prefix_rfl, fun _ hv => .inl hv, fun _ _ _ => rfl⟩

theorem scope_eq (h : Advances root region s t) : t.scope = s.scope :=
  scope_congr h.scopes_eq h.root_eq

theorem length_eq (h : Advances root region s t) : t.frames.length = s.frames.length := by
  simpa [scopes] using congrArg List.length h.scopes_eq

theorem mono (h : Advances root region s t) (hsub : preorderAll region ⊆ preorderAll region') :
    Advances root region' s t :=
  { h with
    placed := fun v hv => (h.placed v hv).imp_right fun hv => hv.imp_right fun hv => hsub hv
    useOf_eq := fun x hx hout => h.useOf_eq x hx fun hin => hout (hsub hin) }

/-- One resolver comes from another by resolving names in two lists of subtrees. -/
theorem trans (h : Advances root region s t) (h' : Advances root region' t u) :
    Advances root (region ++ region') s u := by
  have happ : preorderAll (region ++ region') = preorderAll region ++ preorderAll region' := by
    simp [preorderAll_eq_flatMap]
  refine ⟨h'.sound, h'.root_eq.trans h.root_eq, h'.scopes_eq.trans h.scopes_eq,
    h.kept.trans h'.kept, fun v hv => ?_, fun x hx hout => ?_⟩
  · rw [happ, List.mem_append]
    obtain hv | hv | hv := h'.placed v hv
    · obtain hv | hv | hv := h.placed v hv
      · exact .inl hv
      · exact .inr (.inl hv)
      · exact .inr (.inr (.inl hv))
    · exact .inr (.inl (hv.trans h.scope_eq))
    · exact .inr (.inr (.inr hv))
  · rw [happ, List.mem_append, not_or] at hout
    rw [h'.useOf_eq x hx hout.2, h.useOf_eq x hx hout.1]

/-- Two steps in the same subtrees. -/
theorem step (h : Advances root region s t) (h' : Advances root region t u) :
    Advances root region s u :=
  (h.trans h').mono (by simp [preorderAll_eq_flatMap])

theorem modify {f : Binding → Binding} (h : (s.modify i f).Sound root)
    (hview : ∀ b, (f b).view = b.view) : Advances root region s (s.modify i f) where
  sound := h
  root_eq := rfl
  scopes_eq := rfl
  kept := (views_modify hview).symm ▸ List.prefix_rfl
  placed v hv := .inl (by rwa [views_modify hview] at hv)
  useOf_eq _ _ _ := rfl

theorem use (h : (s.use n i).Sound root) (hroot : root.Distinct) (hn : n ∈ root.preorder) :
    Advances root [n] s (s.use n i) where
  sound := h
  root_eq := rfl
  scopes_eq := rfl
  kept := List.prefix_rfl
  placed _ hv := .inl hv
  useOf_eq x hx hout := by
    rw [useOf_use, if_neg]
    intro hid
    simp [hroot.eq_of_id hx hn hid] at hout

theorem declare {owner : Option Node} {kind : BindingKind} {type : Option TypeName}
    (h : (s.declare owner n kind type).Sound root) (hroot : root.Distinct)
    (hn : n ∈ root.preorder) : Advances root [n] s (s.declare owner n kind type) where
  sound := h
  root_eq := rfl
  scopes_eq := scopes_declare ..
  kept := by
    rw [views_declare]
    exact List.prefix_append ..
  placed v hv := by
    rw [views_declare, List.mem_append, List.mem_singleton] at hv
    obtain hv | rfl := hv
    · exact .inl hv
    · exact .inr (.inl rfl)
  useOf_eq x hx hout := by
    rw [useOf_declare, if_neg]
    intro hid
    simp [hroot.eq_of_id hx hn hid] at hout

/-- Steps in a scope of its own, which is closed again. -/
theorem leave (hs : s.Sound root) (h : Advances root region (s.enter n) t)
    (hsub : preorderAll region ⊆ n.preorder) : Advances root [n] s t.leave where
  sound := h.sound.leave hs h.scopes_eq
  root_eq := h.root_eq
  scopes_eq := by
    rw [scopes, Resolver.leave, List.map_tail]
    exact congrArg List.tail h.scopes_eq
  kept := h.kept
  placed v hv := by
    obtain hv | hv | hv := h.placed v hv
    · exact .inl hv
    · refine .inr (.inr ?_)
      rw [hv]
      simp [Resolver.enter, Resolver.scope]
    · exact .inr (.inr (by simpa using hsub hv))
  useOf_eq x hx hout := h.useOf_eq x hx fun hin => hout (by simpa using hsub hin)

theorem view_eq {v : Binding.View} (h : Advances root region s t) (hs : s.Sound root)
    (hi : s.facts.useOf x = some i) (hv : t.views[i]? = some v) : s.views[i]? = some v := by
  obtain ⟨added, hadded⟩ := h.kept
  obtain ⟨v', hv'⟩ := hs.view_of_useOf hi
  rwa [← hadded, List.getElem?_append_left (List.getElem?_eq_some_iff.1 hv').1] at hv

/-- Names outside the subtrees stand for what they stood for. -/
theorem mentions (h : Advances root region s t) (hs : s.Sound root) (hx : x ∈ root.preorder)
    (hout : x ∉ preorderAll region) (hm : t.Mentions x) : s.Mentions x := by
  obtain ⟨i, v, hi, hv, hne⟩ := hm
  rw [h.useOf_eq x hx hout] at hi
  exact ⟨i, v, hi, h.view_eq hs hi hv, hne⟩

end Advances

namespace Before

theorem mono {q : Nat} (h : Before root scope p s) (hpq : p ≤ q) : Before root scope q s :=
  fun x hx hin hm => Nat.lt_of_lt_of_le (h x hx hin hm) hpq

/-- Uses that are added in subtrees before the byte start before it. -/
theorem advance (h : Before root scope p s) (wf : root.WellFormed) (hs : s.Sound root)
    (ha : Advances root region s t) (hregion : ∀ c ∈ region, c ∈ root.preorder ∧ c.stop ≤ p) :
    Before root scope p t := by
  intro x hx hin hm
  by_cases hout : x ∈ preorderAll region
  · obtain ⟨c, hc, hxc⟩ := mem_preorderAll.1 hout
    obtain ⟨hcroot, hstop⟩ := hregion c hc
    obtain ⟨i, v, hi, hv, hne⟩ := hm
    have hident := ((ha.sound.used x hx i v hi hv).2.2 hne).1
    have := wf.nonempty x hx (by rw [hident]; rfl)
    have := (wf.start_le hcroot hxc).2
    omega
  · exact h x hx hin (ha.mentions hs hx hout hm)

/-- A declaration is no use. -/
theorem declare {owner : Option Node} {kind : BindingKind} {type : Option TypeName}
    (h : Before root scope p s) (hs : s.Sound root) (hroot : root.Distinct) (hn : n ∈ root.preorder)
    (ha : (s.declare owner n kind type).Sound root) :
    Before root scope p (s.declare owner n kind type) := by
  intro x hx hin hm
  by_cases hxn : x = n
  · obtain ⟨i, v, hi, hv, hne⟩ := hm
    rw [useOf_declare, if_pos (by rw [hxn])] at hi
    obtain hv | ⟨-, rfl⟩ := (getElem?_views_declare ..).1 hv
    · rw [← Option.some.inj hi, List.getElem?_eq_none (Nat.le_refl _)] at hv
      cases hv
    · exact absurd hxn hne
  · obtain ⟨i, v, hi, hv, hne⟩ := hm
    rw [useOf_declare, if_neg fun hid => hxn (hroot.eq_of_id hx hn hid)] at hi
    have hadv := Advances.declare ha hroot hn
    exact h x hx hin ⟨i, v, hi, hadv.view_eq hs hi hv, hne⟩

theorem modify {f : Binding → Binding} (h : Before root scope p s)
    (hview : ∀ b, (f b).view = b.view) : Before root scope p (s.modify i f) := by
  rintro x hx hin ⟨j, v, hj, hv, hne⟩
  rw [views_modify hview] at hv
  exact h x hx hin ⟨j, v, hj, hv, hne⟩

end Before

/-- A node lies in the open scopes, and no name has been declared in a scope of the node. -/
structure Faces (root : Node) (s : Resolver) (n : Node) : Prop where
  sound : s.Sound root
  mem : n ∈ root.preorder
  inside : n ∈ s.scope.inner
  vacant : ∀ v ∈ s.views, v.scope ∉ n.preorder
  settled : ∀ v ∈ s.views, n ∈ v.scope.inner → v.scope ∈ s.scopes

namespace Faces

theorem around_of_child {v : Binding.View} (h : Faces root s n) (hroot : root.Distinct)
    (hc : c ∈ n.children) (hv : v ∈ s.views) (hin : c ∈ v.scope.inner) : v.scope ∈ s.scopes := by
  obtain ⟨i, hi⟩ := List.mem_iff_getElem?.1 hv
  have hscope := (h.sound.declared i v hi).2.2.2.1
  obtain hn | hn := mem_preorder.1 (hroot.preorder_of_child h.mem hc hscope hin)
  · exact absurd (hn ▸ self_mem_preorder n) (h.vacant v hv)
  · exact h.settled v hv hn

theorem child (h : Faces root s n) (hroot : root.Distinct) (hc : c ∈ n.children) :
    Faces root s c where
  sound := h.sound
  mem := preorder_trans h.mem (child_mem_preorder hc)
  inside := inner_trans h.inside (inner_of_child hc)
  vacant v hv hin := h.vacant v hv (preorder_of_inner (mem_inner.2 ⟨c, hc, hin⟩))
  settled _ hv hin := h.around_of_child hroot hc hv hin

theorem sound_enter (h : Faces root s n) (hkind : n.kind.opensScope = true) :
    (s.enter n).Sound root :=
  h.sound.enter h.mem hkind h.inside fun v hv hscope => h.vacant v hv (hscope ▸ self_mem_preorder _)

theorem enter (h : Faces root s n) (hroot : root.Distinct) (hkind : n.kind.opensScope = true)
    (hc : c ∈ n.children) : Faces root (s.enter n) c where
  sound := h.sound_enter hkind
  mem := preorder_trans h.mem (child_mem_preorder hc)
  inside := inner_of_child hc
  vacant v hv hin := h.vacant v hv (preorder_of_inner (mem_inner.2 ⟨c, hc, hin⟩))
  settled _ hv hin := List.mem_cons_of_mem _ (h.around_of_child hroot hc hv hin)

/-- Steps in other subtrees declare nothing in or around a node but in the open scopes. -/
theorem advance (h : Faces root s n) (ha : Advances root region s t)
    (hapart : ∀ x ∈ preorderAll region, x ∉ n.preorder) : Faces root t n where
  sound := ha.sound
  mem := h.mem
  inside := by
    rw [ha.scope_eq]
    exact h.inside
  vacant v hv hin := by
    obtain hv | hv | hv := ha.placed v hv
    · exact h.vacant v hv hin
    · rw [hv] at hin
      exact not_inner_self (inner_of_preorder h.inside hin)
    · exact hapart _ hv hin
  settled v hv hin := by
    rw [ha.scopes_eq]
    obtain hv | hv | hv := ha.placed v hv
    · exact h.settled v hv hin
    · rw [hv]
      exact List.mem_of_mem_head? h.sound.head
    · obtain ⟨c, hc, hvc⟩ := mem_preorderAll.1 hv
      have hn := mem_preorderAll.2 ⟨c, hc, preorder_of_inner (inner_of_preorder_inner hvc hin)⟩
      exact absurd (self_mem_preorder n) (hapart n hn)

end Faces

/-- A resolver has yet to visit a node: none of its names are resolved, and a statement that
declares in the scope around it comes after all uses in that scope. -/
structure Awaits (root : Node) (s : Resolver) (n : Node) : Prop extends Faces root s n where
  fresh : ∀ x ∈ n.preorder, s.facts.useOf x = none
  ordered : n.kind.isOrdered = true → Before root s.scope n.start s ∧ s.frames.length ≠ 1

namespace Awaits

/-- The children of an expression, or of a statement without a scope of its own. -/
theorem child (h : Awaits root s n) (wf : root.WellFormed) (hkind : n.kind.opensScope = false)
    (hc : c ∈ n.children) : Awaits root s c where
  toFaces := h.toFaces.child wf.distinct hc
  fresh x hx := h.fresh x (preorder_of_inner (mem_inner.2 ⟨c, hc, hx⟩))
  ordered hord := by
    have hstart := (wf.start_le h.mem (child_mem_preorder hc)).1
    by_cases hn : n.kind.isOrdered = true
    · exact (h.ordered hn).imp_left fun hbefore => hbefore.mono hstart
    · -- the children of an expression are no statements
      have hholds := Kind.holdsStatements_eq_false hkind (Bool.eq_false_iff.2 hn)
      have hplain := wf.plain n h.mem hholds c hc
      simp [Kind.isOrdered, Kind.isPlain] at hord hplain
      simp [hplain] at hord

/-- The children of a node with a scope of its own. -/
theorem enter (h : Awaits root s n) (hroot : root.Distinct) (hkind : n.kind.opensScope = true)
    (hc : c ∈ n.children) : Awaits root (s.enter n) c where
  toFaces := h.toFaces.enter hroot hkind hc
  fresh x hx := h.fresh x (preorder_of_inner (mem_inner.2 ⟨c, hc, hx⟩))
  ordered _ := by
    refine ⟨fun x _ hin hm => ?_, ?_⟩
    · obtain ⟨i, v, hi, -⟩ := hm
      have hnone := h.fresh x (preorder_of_inner hin)
      rw [Resolver.enter] at hi
      rw [hnone] at hi
      cases hi
    · obtain ⟨frame, rest, hs, -⟩ := h.sound.exists_frames
      simp [Resolver.enter, hs]

/-- Visiting other subtrees; a statement has to come after them. -/
theorem advance (h : Awaits root s n) (wf : root.WellFormed) (ha : Advances root region s t)
    (hapart : ∀ x ∈ preorderAll region, x ∉ n.preorder)
    (hlater : n.kind.isOrdered = true → ∀ c ∈ region, c ∈ root.preorder ∧ c.stop ≤ n.start) :
    Awaits root t n where
  toFaces := h.toFaces.advance ha hapart
  fresh x hx := by
    rw [ha.useOf_eq x (preorder_trans h.mem hx) fun hin => hapart x hin hx]
    exact h.fresh x hx
  ordered hord := by
    rw [ha.scope_eq, ha.length_eq]
    exact (h.ordered hord).imp_left fun hbefore => hbefore.advance wf h.sound ha (hlater hord)

end Awaits

structure AwaitsAll (root : Node) (s : Resolver) (cs : List Node) : Prop where
  sound : s.Sound root
  each : ∀ c ∈ cs, Awaits root s c
  apart : cs.Pairwise fun c k => c.Apart k ∧ c.stop ≤ k.start

namespace AwaitsAll

variable {cs : List Node}

theorem tail (h : AwaitsAll root s (c :: cs)) (wf : root.WellFormed) (ha : Advances root [c] s t) :
    AwaitsAll root t cs := by
  obtain ⟨hc, hcs⟩ := List.pairwise_cons.1 h.apart
  have hmem := (h.each c (List.mem_cons_self ..)).mem
  refine ⟨ha.sound, fun k hk => ?_, hcs⟩
  refine (h.each k (List.mem_cons_of_mem _ hk)).advance wf ha ?_ ?_
  · simpa using fun x hx => (hc k hk).1 x hx
  · simpa using fun _ => ⟨hmem, (hc k hk).2⟩

theorem sublist {cs' : List Node} (h : AwaitsAll root s cs) (hsub : cs'.Sublist cs) :
    AwaitsAll root s cs' :=
  ⟨h.sound, fun c hc => h.each c (hsub.subset hc), h.apart.sublist hsub⟩

/-- Visiting nodes in order. -/
theorem foldl {f : Resolver → Node → Resolver} (h : AwaitsAll root s cs) (wf : root.WellFormed)
    (hf : ∀ c ∈ cs, ∀ visited t, (∀ k ∈ visited, k ∈ root.preorder ∧ k.stop ≤ c.start) →
      Advances root visited s t → Awaits root t c → Advances root [c] t (f t c)) :
    Advances root cs s (cs.foldl f s) := by
  induction cs generalizing s with
  | nil => exact .refl h.sound
  | cons c cs ih =>
    have hc := h.each c (List.mem_cons_self ..)
    have hstep := hf c (List.mem_cons_self ..) [] s (by simp) (.refl h.sound) hc
    refine hstep.trans (ih (h.tail wf hstep) fun k hk visited t hvisited ht => ?_)
    refine hf k (List.mem_cons_of_mem _ hk) (c :: visited) t ?_ (hstep.trans ht)
    exact List.forall_mem_cons.2 ⟨⟨hc.mem, ((List.pairwise_cons.1 h.apart).1 k hk).2⟩, hvisited⟩

end AwaitsAll

theorem Awaits.children (h : Awaits root s n) (wf : root.WellFormed)
    (hkind : n.kind.opensScope = false) :
    AwaitsAll root s (n.children.filter (·.kind ≠ .comment)) :=
  ⟨h.sound, fun _ hc => h.child wf hkind (List.mem_of_mem_filter hc), wf.siblings h.mem⟩

theorem Awaits.enterAll (h : Awaits root s n) (wf : root.WellFormed)
    (hkind : n.kind.opensScope = true) :
    AwaitsAll root (s.enter n) (n.children.filter (·.kind ≠ .comment)) :=
  ⟨h.sound_enter hkind, fun _ hc => h.enter wf.distinct hkind (List.mem_of_mem_filter hc),
    wf.siblings h.mem⟩

end Resolver

end Handoff
