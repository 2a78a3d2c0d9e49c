import Handoff.Proofs.Resolution.Progress

/-!
# Uses and declarations of names

What a resolver does at single names: it looks a name up, declares parameters, targets and the names
of value specs, and records writes. A name that the resolver has not met yet may be declared in the
innermost scope when the uses in that scope come before the end of the construct that declares it.

## Main definitions

* `Resolver.Undeclared`: names that may be declared in the innermost scope.
* `Resolver.Declares`: one resolver comes from another by declaring names in the innermost scope.
-/

namespace Handoff.Resolver

open Syntax Node

variable {root n c site : Node} {names names' region : List Node} {s t : Resolver} {p i : Nat}
  {owner : Option Node} {kind : BindingKind} {type : Option TypeName}

/-! ### Looking names up -/

/-- The innermost scope that has a name is the one that counts. -/
theorem Faces.sound_use {frame : Frame} {inside outside : List Frame} (h : Faces root s n)
    (hroot : root.Distinct) (hkind : n.kind = .identifier) (hfresh : s.facts.useOf n = none)
    (hs : s.frames = inside ++ frame :: outside)
    (hnone : ∀ f ∈ inside, f.names.lookup n.text = none)
    (hfound : frame.names.lookup n.text = some i) :
    (s.use n i).Sound root ∧ ∃ v, s.views[i]? = some v ∧ v.scope = frame.scope := by
  have hframe : frame ∈ s.frames := by simp [hs]
  obtain ⟨v, hv, hname, hscope⟩ := h.sound.bound frame hframe _ (mem_of_lookup hfound)
  dsimp only at hv hname
  refine ⟨h.sound.use hroot h.mem hkind hfresh hv hname.symm ?_ ?_, v, hv, hscope⟩
  · rw [hscope]
    exact h.sound.inner_of_scopes h.inside (List.mem_map_of_mem hframe)
  · intro w hw hwname hin hinner
    -- a binding farther in would be in a frame that was asked first
    obtain ⟨f, hf, hwf⟩ := List.mem_map.1 (h.settled w hw hin)
    have hknown := h.sound.known f hf w hw hwf.symm
    have hnested := h.sound.nested
    rw [scopes, hs, List.map_append, List.map_cons, List.pairwise_append,
      List.pairwise_cons] at hnested
    rw [hs, List.mem_append, List.mem_cons] at hf
    rw [hscope, ← hwf] at hinner
    obtain hf | rfl | hf := hf
    · rw [hwname, hname, hnone f hf] at hknown
      cases hknown
    · exact not_inner_self hinner
    · exact inner_asymm (hnested.2.1.1 f.scope (List.mem_map_of_mem hf)) hinner

theorem Awaits.recordUse (h : Awaits root s n) (hroot : root.Distinct)
    (hkind : n.kind = .identifier) : Advances root [n] s (s.recordUse n) := by
  unfold Resolver.recordUse
  split
  · exact .refl h.sound
  · split
    next i hi =>
      obtain ⟨inside, frame, outside, hs, hfound, hnone⟩ := List.findSome?_eq_some_iff.1 hi
      exact .use
        (h.sound_use hroot hkind (h.fresh n (self_mem_preorder n)) hs hnone hfound).1 hroot h.mem
    next => exact .refl h.sound

/-! ### Declaring names -/

/-- Names that may be declared in the innermost scope, whose uses all start before some byte. -/
structure Undeclared (root : Node) (p : Nat) (s : Resolver) (names : List Node) : Prop where
  sound : s.Sound root
  before : Before root s.scope p s
  each : ∀ x ∈ names, x ∈ root.preorder ∧ x ∈ s.scope.inner ∧ s.facts.useOf x = none
  apart : names.Pairwise Apart

structure Declares (root : Node) (p : Nat) (names : List Node) (s t : Resolver) : Prop
    extends Advances root names s t where
  before : Before root s.scope p t
  own : ∀ v ∈ t.views, v ∈ s.views ∨ v.scope = s.scope

namespace Declares

theorem refl (h : s.Sound root) (hbefore : Before root s.scope p s) : Declares root p names s s :=
  ⟨.refl h, hbefore, fun _ hv => .inl hv⟩

theorem trans {u : Resolver} (h : Declares root p names s t) (h' : Declares root p names' t u) :
    Declares root p (names ++ names') s u where
  toAdvances := h.toAdvances.trans h'.toAdvances
  before := h.scope_eq ▸ h'.before
  own v hv := by
    obtain hv | hv := h'.own v hv
    · exact h.own v hv
    · exact .inr (hv.trans h.scope_eq)

theorem recordWrite {value : Option Node} (h : Declares root p names s t)
    (hsite : site ∈ root.preorder) (hscope : ∀ v, t.views[i]? = some v → site ∈ v.scope.inner) :
    Declares root p names s (t.recordWrite i site value) where
  toAdvances := h.toAdvances.step (.modify (h.sound.recordWrite value hsite hscope) fun _ => rfl)
  before := h.before.modify fun _ => rfl
  own v hv := by
    rw [Resolver.recordWrite, views_modify (by exact fun _ => rfl)] at hv
    exact h.own v hv

end Declares

namespace Undeclared

theorem left (h : Undeclared root p s (names ++ names')) : Undeclared root p s names :=
  ⟨h.sound, h.before, fun x hx => h.each x (List.mem_append_left _ hx),
    (List.pairwise_append.1 h.apart).1⟩

theorem right (h : Undeclared root p s (names ++ names')) (hd : Declares root p names s t) :
    Undeclared root p t names' := by
  obtain ⟨-, hright, hacross⟩ := List.pairwise_append.1 h.apart
  refine ⟨hd.sound, hd.scope_eq ▸ hd.before, fun x hx => ?_, hright⟩
  obtain ⟨hroot, hin, hfresh⟩ := h.each x (List.mem_append_right _ hx)
  refine ⟨hroot, hd.scope_eq ▸ hin, ?_⟩
  rw [hd.useOf_eq x hroot, hfresh]
  intro hregion
  obtain ⟨c, hc, hxc⟩ := mem_preorderAll.1 hregion
  exact hacross c hc x hx x hxc (self_mem_preorder x)

/-- Declaring one group of names after the other. -/
theorem foldl {α : Type} {l : List α} {g : α → List Node} {f : Resolver → α → Resolver}
    (h : Undeclared root p s (l.flatMap g))
    (hf : ∀ a ∈ l, ∀ visited t, Advances root visited s t → Undeclared root p t (g a) →
      Declares root p (g a) t (f t a)) :
    Declares root p (l.flatMap g) s (l.foldl f s) := by
  induction l generalizing s with
  | nil => exact .refl h.sound h.before
  | cons a l ih =>
    rw [List.flatMap_cons] at h
    have hstep := hf a (List.mem_cons_self ..) [] s (.refl h.sound) h.left
    exact hstep.trans (ih (h.right hstep) fun b hb visited t ht =>
      hf b (List.mem_cons_of_mem _ hb) (g a ++ visited) t (hstep.toAdvances.trans ht))

theorem declare (h : Undeclared root p s [n]) (hroot : root.Distinct)
    (hlate : ∀ m, InScope root kind n m → p ≤ m.start) :
    Declares root p [n] s (s.declare owner n kind type) := by
  obtain ⟨hn, hin, hfresh⟩ := h.each n (List.mem_singleton_self n)
  have hsound : (s.declare owner n kind type).Sound root :=
    h.sound.declare owner type hroot hn hfresh hin fun m hm hmin hmention hscope =>
      absurd (h.before m hm hmin hmention) (Nat.not_lt_of_le (hlate m hscope))
  refine ⟨.declare hsound hroot hn, h.before.declare h.sound hroot hn hsound, fun v hv => ?_⟩
  rw [views_declare, List.mem_append, List.mem_singleton] at hv
  exact hv.imp_right fun hv => by rw [hv]

theorem declareAll (h : Undeclared root p s names) (hroot : root.Distinct)
    (hlate : ∀ n ∈ names, ∀ m, InScope root kind n m → p ≤ m.start) :
    Declares root p names s (s.declareAll owner kind type names) := by
  have hsplit : names.flatMap (fun n => [n]) = names := List.flatMap_singleton' names
  have hfold := foldl (l := names) (g := fun n => [n])
    (f := fun s name => if name.text = "_" then s else s.declare owner name kind type)
    (hsplit.symm ▸ h) fun n hn _ t _ ht => ?_
  · rwa [hsplit] at hfold
  · split
    · exact .refl ht.sound ht.before
    · exact ht.declare hroot (hlate n hn)

end Undeclared

/-! ### Parameters and targets -/

def parameterLists (function : Node) : List Node :=
  [Field.receiver, .parameters, .result].filterMap function.child?

theorem pairwise_apart_parameterLists (hroot : root.Distinct) (hn : n ∈ root.preorder) :
    (parameterLists n).Pairwise Apart := by
  refine List.pairwise_filterMap.2 ?_
  have hfields : [Field.receiver, .parameters, .result].Pairwise (· ≠ ·) := by decide
  refine hfields.imp fun hne c hc k hk => ?_
  exact hroot.apart hn (mem_children_of_child? hc).1 (mem_children_of_child? hk).1
    (ne_of_child? hc hk hne)

theorem mem_children_of_parameterLists (h : c ∈ parameterLists n) : c ∈ n.children := by
  obtain ⟨f, -, hf⟩ := List.mem_filterMap.1 h
  exact (mem_children_of_child? hf).1

def parameterNames (list : Node) : List Node :=
  list.parameters.flatMap fun d => d.inField .name

theorem field_of_mem_parameterLists (h : c ∈ parameterLists n) :
    c.field ≠ some .name ∧ c.field ≠ some .body := by
  obtain ⟨f, hf, hc⟩ := List.mem_filterMap.1 h
  have hfields : ∀ f ∈ [Field.receiver, .parameters, .result], f ≠ .name ∧ f ≠ .body := by decide
  rw [(mem_children_of_child? hc).2]
  simpa using hfields f hf

theorem parameterNames_subset : parameterNames n ⊆ n.preorder := by
  intro x hx
  obtain ⟨d, hd, hx⟩ := List.mem_flatMap.1 hx
  have hd : d ∈ n.children := List.mem_of_mem_filter (List.mem_of_mem_filter hd)
  exact preorder_of_inner (mem_inner.2 ⟨d, hd, child_mem_preorder (List.mem_of_mem_filter hx)⟩)

theorem pairwise_apart_parameterNames (hroot : root.Distinct) (hn : n ∈ root.preorder) :
    (parameterNames n).Pairwise Apart := by
  have hsub : n.parameters.Sublist n.children := List.filter_sublist.trans List.filter_sublist
  refine pairwise_apart_flatMap ((hroot.pairwise_apart hn).sublist hsub) fun d hd => ?_
  have hd : d ∈ root.preorder := preorder_trans hn (child_mem_preorder (hsub.subset hd))
  exact ⟨fun x hx => child_mem_preorder (List.mem_of_mem_filter hx),
    (hroot.pairwise_apart hd).sublist List.filter_sublist⟩

/-- Declaring receiver, parameters and results in the scope of a function without uses. -/
theorem advances_declareParameters (hs : s.Sound root) (hroot : root.Distinct)
    (hn : n ∈ root.preorder) (hscope : s.scope = n) (hquiet : Before root s.scope 0 s)
    (hfresh : ∀ c ∈ parameterLists n, ∀ x ∈ c.preorder, s.facts.useOf x = none) :
    Advances root (parameterLists n) s (s.declareParameters n) ∧
      Before root s.scope 0 (s.declareParameters n) := by
  let lists := (parameterLists n).filter (·.kind == .parameterList)
  have hlists : ∀ l ∈ lists, l ∈ parameterLists n ∧ l ∈ n.children ∧ l ∈ root.preorder := by
    intro l hl
    have hl : l ∈ parameterLists n := List.mem_of_mem_filter hl
    have hchild := mem_children_of_parameterLists hl
    exact ⟨hl, hchild, preorder_trans hn (child_mem_preorder hchild)⟩
  have hundeclared : Undeclared root 0 s (lists.flatMap parameterNames) := by
    refine ⟨hs, hquiet, fun x hx => ?_, ?_⟩
    · obtain ⟨l, hl, hx⟩ := List.mem_flatMap.1 hx
      obtain ⟨hl, hchild, hmem⟩ := hlists l hl
      have hxl := parameterNames_subset hx
      exact ⟨preorder_trans hmem hxl, hscope ▸ mem_inner.2 ⟨l, hchild, hxl⟩, hfresh l hl x hxl⟩
    · exact pairwise_apart_flatMap
        ((pairwise_apart_parameterLists hroot hn).sublist List.filter_sublist) fun l hl =>
          ⟨parameterNames_subset, pairwise_apart_parameterNames hroot (hlists l hl).2.2⟩
  unfold parameterNames at hundeclared
  rw [← List.flatMap_assoc] at hundeclared
  have hall := hundeclared.foldl
    (f := fun s d => s.declareAll (some n) .parameter (s.facts.imports.declaredType d)
      (d.inField .name))
    fun d _ _ t _ ht => ht.declareAll hroot fun _ _ _ _ => Nat.zero_le _
  refine ⟨hall.mono fun x hx => ?_, hall.before⟩
  rw [List.flatMap_assoc] at hx
  obtain ⟨y, hy, hxy⟩ := mem_preorderAll.1 hx
  obtain ⟨l, hl, hy⟩ := List.mem_flatMap.1 hy
  exact mem_preorderAll.2 ⟨l, (hlists l hl).1, preorder_trans (parameterNames_subset hy) hxy⟩

section Targets

variable {name left : Node}

/-- The nearest declaring construct around a target is the one that it is a target of. -/
theorem find?_construct (hroot : root.Distinct) (hn : n ∈ root.preorder)
    (hkind : n.kind.declaresVariables = true) (hleft : left ∈ n.children)
    (hname : name ∈ left.expressions) :
    (root.ancestors name).find? (·.kind.declaresVariables) = some n := by
  unfold expressions at hname
  split at hname
  next hlist =>
    have hmem := preorder_trans hn (child_mem_preorder hleft)
    have hkind' : left.kind.declaresVariables = false := by rw [hlist]; rfl
    rw [hroot.ancestors_child hmem (List.mem_of_mem_filter hname), List.find?_cons, hkind',
      hroot.ancestors_child hn hleft, List.find?_cons, hkind]
  next =>
    obtain rfl := List.mem_singleton.1 hname
    rw [hroot.ancestors_child hn hleft, List.find?_cons, hkind]

theorem le_start_of_inScope {m : Node} {bySpec : Bool}
    (h : (root.ancestors name).find? (·.kind.declaresVariables) = some n)
    (hscope : InScope root (.localVariable bySpec) name m) : n.declaredFrom ≤ m.start := by
  obtain ⟨construct, hfind, hstart⟩ := hscope
  obtain rfl := Option.some.inj (h.symm.trans hfind)
  exact hstart

/-- Declaring the identifiers among the targets of a construct. -/
theorem advances_declareTargets (hs : s.Sound root) (hroot : root.Distinct) (hn : n ∈ root.preorder)
    (hkind : n.kind.declaresVariables = true) (hleft : left ∈ n.children)
    (hin : left ∈ s.scope.inner) (hfresh : ∀ x ∈ left.preorder, s.facts.useOf x = none)
    (hbefore : Before root s.scope n.declaredFrom s) :
    Advances root (left.expressions.filter (·.kind == .identifier)) s
      (s.declareTargets owner left) := by
  have hmem := preorder_trans hn (child_mem_preorder hleft)
  have hundeclared : Undeclared root n.declaredFrom s
      (left.expressions.filter (·.kind == .identifier)) := by
    refine ⟨hs, hbefore, fun x hx => ?_, (hroot.pairwise_apart_expressions hmem).sublist
      List.filter_sublist⟩
    have hx := expressions_subset (List.mem_of_mem_filter hx)
    exact ⟨preorder_trans hmem hx, inner_of_preorder hin hx, hfresh x hx⟩
  refine (hundeclared.declareAll hroot fun name hname m hscope => ?_).toAdvances
  exact le_start_of_inScope
    (find?_construct hroot hn hkind hleft (List.mem_of_mem_filter hname)) hscope

theorem advances_refineType (hs : s.Sound root) : Advances root region s (s.refineType i type) :=
  .modify (hs.refineType type) fun _ => rfl

theorem advances_recordWrite {value : Option Node} (hs : s.Sound root)
    (hsite : site ∈ root.preorder) (hscope : ∀ v, s.views[i]? = some v → site ∈ v.scope.inner) :
    Advances root region s (s.recordWrite i site value) :=
  .modify (hs.recordWrite value hsite hscope) fun _ => rfl

theorem advances_refineType_recordWrite {value : Option Node} (hs : s.Sound root)
    (hsite : site ∈ root.preorder) (hscope : ∀ v, s.views[i]? = some v → site ∈ v.scope.inner) :
    Advances root region s ((s.refineType i type).recordWrite i site value) := by
  refine Advances.step (t := s.refineType i type) (advances_refineType hs) ?_
  refine advances_recordWrite (hs.refineType type) hsite fun v hv => hscope v ?_
  rwa [Resolver.refineType, views_modify (by exact fun _ => rfl)] at hv

/-- A new name in the innermost scope, with its first write. -/
theorem Undeclared.declare_recordWrite {value : Option Node} (h : Undeclared root p s [name])
    (hroot : root.Distinct) (hsite : site ∈ root.preorder) (hin : site ∈ s.scope.inner)
    (hlate : ∀ m, InScope root kind name m → p ≤ m.start) :
    Declares root p [name] s
      ((s.declare owner name kind type).recordWrite s.facts.bindings.length site value) := by
  refine (h.declare hroot hlate).recordWrite hsite fun v hv => ?_
  obtain hv | ⟨-, rfl⟩ := (getElem?_views_declare ..).1 hv
  · rw [List.getElem?_eq_none (by simp [views])] at hv
    cases hv
  · exact hin

/-- A target of a short declaration is a use of the scope's own name, or declares it. -/
theorem Awaits.shortTarget {index : Nat} (h : Awaits root s name) (hroot : root.Distinct)
    (hkind : name.kind = .identifier) (hsite : site ∈ root.preorder) (hin : site ∈ s.scope.inner)
    (hfind : (root.ancestors name).find? (·.kind.declaresVariables) = some site)
    (hbefore : Before root s.scope site.declaredFrom s) :
    Advances root [name] s (s.shortTarget owner site index name) := by
  have hfresh := h.fresh name (self_mem_preorder name)
  unfold Resolver.shortTarget
  split
  · exact .refl h.sound
  · obtain ⟨frame, rest, hframes, hscope⟩ := h.sound.exists_frames
    dsimp only
    split
    next i hi =>
      have hfirst : s.frames = [] ++ frame :: rest := hframes
      rw [hframes] at hi
      obtain ⟨huse, v, hv, hvscope⟩ := h.sound_use hroot hkind hfresh hfirst (by simp) hi
      refine (Advances.use huse hroot h.mem).step (advances_recordWrite huse hsite fun w hw => ?_)
      obtain rfl := Option.some.inj (hv.symm.trans hw)
      rwa [hvscope, hscope]
    next =>
      have hundeclared : Undeclared root site.declaredFrom s [name] :=
        ⟨h.sound, hbefore, by simpa using ⟨h.mem, h.inside, hfresh⟩, List.pairwise_singleton ..⟩
      exact (hundeclared.declare_recordWrite hroot hsite hin fun m hm =>
        le_start_of_inScope hfind hm).toAdvances

/-- A name of a value spec in a function. -/
theorem Undeclared.specName {index : Nat} (h : Undeclared root site.declaredFrom s [name])
    (hroot : root.Distinct) (hsite : site ∈ root.preorder) (hin : site ∈ s.scope.inner)
    (hlocal : s.frames.length ≠ 1) (hkind : site.kind.declaresVariables = true)
    (hname : name ∈ site.children) :
    Declares root site.declaredFrom [name] s (s.specName owner site index name) := by
  have hfind : (root.ancestors name).find? (·.kind.declaresVariables) = some site := by
    rw [hroot.ancestors_child hsite hname, List.find?_cons, hkind]
  unfold Resolver.specName
  split
  · exact .refl h.sound h.before
  · dsimp only
    split
    · exact h.declare hroot fun m hm => le_start_of_inScope hfind hm
    · exact h.declare_recordWrite hroot hsite hin fun m hm => le_start_of_inScope hfind hm

/-- The names of a value spec in a function, after its values. -/
theorem Undeclared.specNames (h : Undeclared root site.declaredFrom s (site.inField .name))
    (hroot : root.Distinct) (hsite : site ∈ root.preorder) (hin : site ∈ s.scope.inner)
    (hlocal : s.frames.length ≠ 1) (hkind : site.kind.declaresVariables = true) :
    Advances root (site.inField .name) s (s.specNames owner site) := by
  have hsplit : (site.inField .name).zipIdx.flatMap (fun e => [e.1]) = site.inField .name := by
    rw [← List.map_eq_flatMap, List.zipIdx_map_fst]
  rw [← hsplit] at h
  have hfold :=
    h.foldl (f := fun s e => s.specName owner site e.2 e.1) fun e he _ t hvisited ht => ?_
  · rw [hsplit] at hfold
    exact hfold.toAdvances
  · have hname : e.1 ∈ site.children := List.mem_of_mem_filter (List.fst_mem_of_mem_zipIdx he)
    exact ht.specName hroot hsite (hvisited.scope_eq ▸ hin)
      (hvisited.length_eq ▸ hlocal) hkind hname

end Targets

/-! ### Writes to names that are in scope -/

theorem Advances.foldl {α : Type} {l : List α} {f : Resolver → α → Resolver} (hs : s.Sound root)
    (hf : ∀ a ∈ l, ∀ t, Advances root region s t → Advances root region t (f t a)) :
    Advances root region s (l.foldl f s) := by
  induction l generalizing s with
  | nil => exact .refl hs
  | cons a l ih =>
    have hstep := hf a (List.mem_cons_self ..) s (.refl hs)
    exact hstep.step
      (ih hstep.sound fun b hb t ht => hf b (List.mem_cons_of_mem _ hb) t (hstep.step ht))

theorem mem_valuesIn {e : Node} {f : Field} (h : e ∈ valuesIn n f) :
    ∃ c, n.child? f = some c ∧ e ∈ c.expressions := by
  unfold valuesIn at h
  cases hc : n.child? f with
  | none => simp [hc] at h
  | some c => exact ⟨c, rfl, by simpa [hc] using h⟩

theorem valuesIn_subset (f : Field) : valuesIn n f ⊆ n.preorder := by
  intro e he
  obtain ⟨c, hc, he⟩ := mem_valuesIn he
  exact preorder_trans (preorder_of_child? hc) (expressions_subset he)

theorem mem_of_valuesIn {f : Field} {index : Nat} {p : Prop} [Decidable p] {v : Node}
    (h : (if p then (valuesIn n f)[index]? else none) = some v) : v ∈ n.preorder := by
  split at h
  · exact valuesIn_subset f (List.mem_of_getElem? h)
  · cases h

/-- A scope around a node is around its parent, unless the parent is the scope. -/
theorem inner_of_child_inner {scope : Node} (hroot : root.Distinct) (hn : n ∈ root.preorder)
    (hkind : n.kind.opensScope = false) (hc : c ∈ n.children) (hscope : scope ∈ root.preorder)
    (hopens : scope.kind.opensScope = true) (hin : c ∈ scope.inner) : n ∈ scope.inner := by
  obtain rfl | hn := mem_preorder.1 (hroot.preorder_of_child hn hc hscope hin)
  · rw [hkind] at hopens
    cases hopens
  · exact hn

/-- The scope of a name that an assignment writes is around the assignment: only a list and
parentheses stand between the two. -/
theorem inner_of_target {target scope : Node} (hroot : root.Distinct) (hsite : site ∈ root.inner)
    (hkind : site.kind.opensScope = false) (htarget : target ∈ valuesIn site .left)
    (hscope : scope ∈ root.preorder) (hopens : scope.kind.opensScope = true ∨ scope = root)
    (hin : target.bare ∈ scope.inner) : site ∈ scope.inner := by
  obtain hopens | rfl := hopens
  · obtain ⟨left, hleft, htarget⟩ := mem_valuesIn htarget
    have hleft := (mem_children_of_child? hleft).1
    have hsite := preorder_of_inner hsite
    have hmem := preorder_trans hsite (child_mem_preorder hleft)
    have hparen : scope.kind ≠ .parenthesizedExpression := fun h => by
      rw [h] at hopens
      cases hopens
    have htarget' : target ∈ scope.inner :=
      inner_of_bare hroot hscope hparen (preorder_trans hmem (expressions_subset htarget)) hin
    refine inner_of_child_inner hroot hsite hkind hleft hscope hopens ?_
    unfold expressions at htarget
    split at htarget
    next hlist =>
      exact inner_of_child_inner hroot hmem (by rw [hlist]; rfl) (List.mem_of_mem_filter htarget)
        hscope hopens htarget'
    next => rwa [← List.mem_singleton.1 htarget]
  · exact hsite

/-- Assignments write to names around them. -/
theorem advances_recordAssignment (hs : s.Sound root) (hroot : root.Distinct)
    (hsite : site ∈ root.inner) (hkind : site.kind.opensScope = false) :
    Advances root region s (s.recordAssignment site) := by
  unfold Resolver.recordAssignment
  split
  · exact .refl hs
  · refine .foldl hs fun e he t ht => ?_
    have ht := ht.sound
    have htarget := List.fst_mem_of_mem_zipIdx he
    dsimp only
    split
    · exact .refl ht
    · split
      · exact .refl ht
      next i hi =>
        refine advances_refineType_recordWrite ht (preorder_of_inner hsite) fun v hv => ?_
        obtain ⟨-, -, -, hscope, hopens⟩ := ht.declared i v hv
        obtain ⟨left, hleft, hin⟩ := mem_valuesIn htarget
        have hleft := preorder_of_child? hleft
        have hmem := preorder_trans (preorder_of_inner hsite)
          (preorder_trans hleft (preorder_trans (expressions_subset hin) (bare_mem_preorder e.1)))
        exact inner_of_target hroot hsite hkind htarget hscope hopens (ht.used _ hmem i v hi hv).2.1

/-- A name of a value spec of the package, which is declared already. -/
theorem advances_specName_package {index : Nat} {name : Node} (hs : s.Sound root)
    (hpackage : s.scopes = [root]) (hsite : site ∈ root.inner) :
    Advances root region s (s.specName owner site index name) := by
  have hlength : s.frames.length = 1 := by simpa [scopes] using congrArg List.length hpackage
  unfold Resolver.specName
  split
  · exact .refl hs
  · dsimp only
    split
    next i hi =>
      split
      · exact advances_refineType hs
      · refine advances_refineType_recordWrite hs (preorder_of_inner hsite) fun v hv => ?_
        obtain ⟨frame, hframe, hfound⟩ := List.exists_of_findSome?_eq_some hi
        obtain ⟨w, hw, -, hscope⟩ := hs.bound frame hframe _ (mem_of_lookup hfound)
        obtain rfl := Option.some.inj (hw.symm.trans hv)
        have hroot : frame.scope ∈ s.scopes := List.mem_map_of_mem hframe
        rw [hpackage, List.mem_singleton] at hroot
        rwa [hscope, hroot]
    next => exact .refl hs

end Handoff.Resolver
