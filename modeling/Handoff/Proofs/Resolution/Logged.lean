import Handoff.Proofs.Resolution.Assignments

/-!
# Writes that are recorded

Where a name that is given a value stands for a local variable, the resolver should have recorded a
write to the variable at the statement or spec: the name is logged then. As the resolver goes
through a node, the names in it come to stand for variables, and a name may stop being logged until
its write is recorded. A name elsewhere stays logged, since a binding keeps its kind and its writes.

## Main definitions

* `Resolver.Logged`: a name is recorded as written, if it has to be.
* `Resolver.Logs`: one resolver comes from another by steps that leave all names of some nodes
  logged.

## Main statements

* `Resolver.Logs.up`: the names of a node are logged when those of its children are, and those it
  writes itself.
* `Resolver.logs_shortTarget`, `Resolver.logs_specName`, `Resolver.logs_recordAssignment`: the
  statements that record writes.
-/

namespace Handoff

open Syntax Node

variable {root n m c x left : Node}

namespace Resolver

variable {region region' names cs : List Node} {s t u : Resolver} {owner : Option Node}
  {kind : BindingKind} {type : Option TypeName} {i : Nat}

structure Valid (s : Resolver) : Prop where
  uses : ∀ e ∈ s.facts.uses, e.2 < s.facts.bindings.length
  names : ∀ frame ∈ s.frames, ∀ e ∈ frame.names, e.2 < s.facts.bindings.length

/-- If a node has a value for a name, and the name stands for a local variable, then the write is
recorded. -/
def Logged (root : Node) (s : Resolver) (m x : Node) : Prop :=
  m ∈ root.preorder → ∀ a ∈ m.assignments, a.hasValue = true → a.name = x →
    ∀ i b, s.facts.useOf x = some i → s.facts.bindings[i]? = some b → b.kind.isLocal = true →
      ∃ w ∈ b.writes, w.site = a.site

/-- All names of some nodes are logged, whatever gives them values. -/
def Blank (root : Node) (s : Resolver) (region : List Node) : Prop :=
  ∀ x ∈ preorderAll region, ∀ m, Logged root s m x

/-- One resolver comes from another by visits that leave all names of some nodes logged. -/
structure Logs (root : Node) (region : List Node) (s t : Resolver) : Prop where
  valid : t.Valid
  keeps : ∀ x, x ∉ preorderAll region → ∀ m, Logged root s m x → Logged root t m x
  logged : ∀ m ∈ preorderAll region, ∀ x, Logged root t m x

theorem Blank.mono (h : Blank root s region) (hsub : preorderAll region' ⊆ preorderAll region) :
    Blank root s region' :=
  fun x hx => h x (hsub hx)

theorem Blank.inner (h : Blank root s [n]) (hcs : cs ⊆ n.inner) : Blank root s cs :=
  h.mono fun x hx => by simpa using preorderAll_subset_preorder hcs hx

namespace Logs

theorem refl (hs : s.Valid) : Logs root [] s s :=
  ⟨hs, fun _ _ _ h => h, by simp⟩

theorem blank (h : Logs root region s t) (hblank : Blank root s region')
    (hapart : ∀ x ∈ preorderAll region', x ∉ preorderAll region) : Blank root t region' :=
  fun x hx m => h.keeps x (hapart x hx) m (hblank x hx m)

/-- Visits of disjoint subtrees leave the names of both logged. -/
theorem trans (h : Logs root region s t) (h' : Logs root region' t u)
    (hapart : ∀ x ∈ preorderAll region, x ∉ preorderAll region') :
    Logs root (region ++ region') s u := by
  have hall : ∀ x, x ∈ preorderAll (region ++ region') ↔ x ∈ preorderAll region ∨
      x ∈ preorderAll region' := by
    simp [preorderAll_eq_flatMap]
  refine ⟨h'.valid, fun x hx m hm => ?_, fun m hm x => ?_⟩
  · rw [hall, not_or] at hx
    exact h'.keeps x hx.2 m (h.keeps x hx.1 m hm)
  · obtain hm | hm := (hall m).1 hm
    · intro hroot a ha hvalue hname
      have hin := mem_preorderAll_of_mem hm (preorder_of_inner (hname ▸ inner_of_assignment ha))
      exact h'.keeps x (hapart x hin) m (h.logged m hm x) hroot a ha hvalue hname
    · exact h'.logged m hm x

theorem after (h' : Logs root region t u) (h : Logs root [] s t) : Logs root region s u :=
  h.trans h' (by simp)

theorem before (h : Logs root region s t) (h' : Logs root [] t u) : Logs root region s u := by
  simpa using h.trans h' (by simp)

/-- What happens at a name changes no other name. -/
theorem of_name (hvalid : t.Valid) (hblank : Blank root s [c])
    (hkeeps : ∀ x, x ≠ c → ∀ m, Logged root s m x → Logged root t m x) : Logs root [c] s t := by
  refine ⟨hvalid, fun x hx => hkeeps x ?_, fun m hm x hroot a ha hvalue hname => ?_⟩
  · rintro rfl
    simp at hx
  · rw [preorderAll_cons, preorderAll_nil, List.append_nil] at hm
    have hin : x ∈ c.inner := inner_of_preorder_inner hm (hname ▸ inner_of_assignment ha)
    refine hkeeps x ?_ m (hblank x (by simp [preorder_of_inner hin]) m) hroot a ha hvalue hname
    rintro rfl
    exact not_inner_self hin

/-- The names of a node are logged when those of the children that were visited are, and those that
the node itself writes. -/
theorem up (h : Logs root cs s t) (hroot : root.Distinct) (hn : n ∈ root.preorder)
    (hcs : cs ⊆ n.children) (hblank : Blank root s [n])
    (hself : ∀ x ∈ preorderAll cs, Logged root t n x) : Logs root [n] s t := by
  have hmem : ∀ x, x ∈ preorderAll [n] ↔ x ∈ n.preorder := by simp
  have hsub : ∀ x ∈ preorderAll cs, x ∈ n.preorder := fun x hx => by
    obtain ⟨c, hc, hx⟩ := mem_preorderAll.1 hx
    exact preorder_trans (child_mem_preorder (hcs hc)) hx
  refine ⟨h.valid, fun x hx => h.keeps x fun hin => hx ((hmem x).2 (hsub x hin)), fun m hm x => ?_⟩
  rw [hmem] at hm
  by_cases hvisited : m ∈ preorderAll cs
  · exact h.logged m hvisited x
  intro hmroot a ha hvalue hname
  have hxm : x ∈ m.inner := hname ▸ inner_of_assignment ha
  by_cases hxin : x ∈ preorderAll cs
  · -- The child that holds the name lies in the node that writes it, so this is the node itself.
    obtain ⟨c, hc, hxc⟩ := mem_preorderAll.1 hxin
    have hcroot := preorder_trans hn (child_mem_preorder (hcs hc))
    have hcm := (hroot.mem_or_mem hmroot hcroot (preorder_of_inner hxm) hxc).resolve_left fun hmc =>
      hvisited (mem_preorderAll.2 ⟨c, hc, hmc⟩)
    have hnm := hroot.preorder_of_child hn (hcs hc) hmroot hcm
    obtain rfl | hnm := mem_preorder.1 hnm
    · exact hself x hxin hmroot a ha hvalue hname
    · exact absurd (inner_of_preorder hnm hm) not_inner_self
  · exact h.keeps x hxin m (hblank x ((hmem x).2 (preorder_trans hm (preorder_of_inner hxm))) m)
      hmroot a ha hvalue hname

end Logs

section Fold

variable {α : Type} {l : List α} {step : Resolver → α → Resolver} {place : α → List Node}

theorem mem_preorderAll_flatMap : x ∈ preorderAll (l.flatMap place) ↔
    ∃ a ∈ l, x ∈ preorderAll (place a) := by
  simp only [preorderAll_eq_flatMap, List.mem_flatMap]
  tauto

/-- Steps that are taken one after the other, each of which logs the names of some nodes of its
own. -/
structure Walks (root : Node) (l : List α) (step : Resolver → α → Resolver)
    (place : α → List Node) : Prop where
  apart : l.Pairwise fun a b => ∀ x ∈ preorderAll (place a), x ∉ preorderAll (place b)
  logs : ∀ a ∈ l, ∀ t, t.Valid → Blank root t (place a) → Logs root (place a) t (step t a)

namespace Walks

theorem first {a : α} (h : Walks root (a :: l) step place) (hs : s.Valid)
    (hblank : Blank root s ((a :: l).flatMap place)) :
    Logs root (place a) s (step s a) ∧ Blank root (step s a) (l.flatMap place) := by
  have hlogs := h.logs a List.mem_cons_self s hs fun x hx =>
    hblank x (mem_preorderAll_flatMap.2 ⟨a, List.mem_cons_self, hx⟩)
  refine ⟨hlogs, hlogs.blank (fun x hx => hblank x ?_) fun x hx hin => ?_⟩
  · obtain ⟨b, hb, hx⟩ := mem_preorderAll_flatMap.1 hx
    exact mem_preorderAll_flatMap.2 ⟨b, List.mem_cons_of_mem a hb, hx⟩
  · obtain ⟨b, hb, hx⟩ := mem_preorderAll_flatMap.1 hx
    exact (List.pairwise_cons.1 h.apart).1 b hb x hin hx

theorem tail {a : α} (h : Walks root (a :: l) step place) : Walks root l step place :=
  ⟨(List.pairwise_cons.1 h.apart).2, fun b hb => h.logs b (List.mem_cons_of_mem a hb)⟩

theorem foldl (h : Walks root l step place) (hs : s.Valid)
    (hblank : Blank root s (l.flatMap place)) : Logs root (l.flatMap place) s (l.foldl step s) := by
  induction l generalizing s with
  | nil => exact .refl hs
  | cons a l ih =>
    obtain ⟨hlogs, hrest⟩ := h.first hs hblank
    refine hlogs.trans (ih h.tail hlogs.valid hrest) fun x hx hin => ?_
    obtain ⟨b, hb, hxb⟩ := mem_preorderAll_flatMap.1 hin
    exact (List.pairwise_cons.1 h.apart).1 b hb x hx hxb

theorem blank_nil : Blank root s (l.flatMap fun _ => []) := by
  intro x hx
  obtain ⟨a, -, hx⟩ := mem_preorderAll_flatMap.1 hx
  simp at hx

/-- Steps that change no use. -/
theorem foldl_nil (h : Walks root l step fun _ => []) (hs : s.Valid) :
    Logs root [] s (l.foldl step s) := by
  have hfold := h.foldl hs blank_nil
  rwa [List.flatMap_eq_nil_iff.2 fun _ _ => rfl] at hfold

/-- The names that one of the steps logs stay logged if the steps after it are elsewhere. -/
theorem logged (h : Walks root l step place) (names : α → List Node) (hs : s.Valid)
    (hblank : Blank root s (l.flatMap place))
    (hapart : l.Pairwise fun a b => ∀ x ∈ names a, x ∉ preorderAll (place b))
    (hlogged : ∀ a ∈ l, ∀ t, t.Valid → Blank root t (place a) →
      ∀ x ∈ names a, Logged root (step t a) m x) :
    ∀ a ∈ l, ∀ x ∈ names a, Logged root (l.foldl step s) m x := by
  induction l generalizing s with
  | nil => simp
  | cons a l ih =>
    obtain ⟨hlogs, hrest⟩ := h.first hs hblank
    obtain ⟨hfirst, hapart⟩ := List.pairwise_cons.1 hapart
    intro b hb x hx
    obtain rfl | hb := List.mem_cons.1 hb
    · refine (h.tail.foldl hlogs.valid hrest).keeps x (fun hin => ?_) m
        (hlogged b List.mem_cons_self s hs
          (fun x hx => hblank x (mem_preorderAll_flatMap.2 ⟨b, List.mem_cons_self, hx⟩)) x hx)
      obtain ⟨c, hc, hin⟩ := mem_preorderAll_flatMap.1 hin
      exact hfirst c hc x hx hin
    · exact ih h.tail hlogs.valid hrest hapart
        (fun c hc => hlogged c (List.mem_cons_of_mem a hc)) b hb x hx

end Walks

/-- Nodes that are taken one after the other. -/
theorem Walks.foldl_nodes {step : Resolver → Node → Resolver} (h : Walks root cs step fun c => [c])
    (hs : s.Valid) (hblank : Blank root s cs) : Logs root cs s (cs.foldl step s) := by
  have hfold := h.foldl hs (by rwa [List.flatMap_singleton'])
  rwa [List.flatMap_singleton'] at hfold

/-- Nodes have names of their own when they are apart. -/
theorem Walks.of_apart {node : α → Node} (hapart : l.Pairwise fun a b => (node a).Apart (node b))
    (hlogs : ∀ a ∈ l, ∀ t, t.Valid → Blank root t [node a] → Logs root [node a] t (step t a)) :
    Walks root l step fun a => [node a] :=
  ⟨hapart.imp fun h x hx => by simpa using h x (by simpa using hx), hlogs⟩

/-- Names that are taken one after the other, with their positions. -/
theorem logs_foldl_names {l : List Node} {step : Resolver → Node × Nat → Resolver} (hs : s.Valid)
    (hblank : Blank root s l) (hapart : l.Pairwise Apart)
    (hstep : ∀ e ∈ l.zipIdx, ∀ t, t.Valid → Blank root t [e.1] →
      Logs root [e.1] t (step t e) ∧ Logged root (step t e) m e.1) :
    Logs root l s (l.zipIdx.foldl step s) ∧ ∀ x ∈ l, Logged root (l.zipIdx.foldl step s) m x := by
  have hplaces : l.zipIdx.flatMap (fun e => [e.1]) = l := by
    rw [← List.map_eq_flatMap, List.zipIdx_map_fst]
  have hapart : l.zipIdx.Pairwise fun a b => a.1.Apart b.1 :=
    List.pairwise_map.1 (by rwa [List.zipIdx_map_fst])
  have hwalks : Walks root l.zipIdx step fun e => [e.1] :=
    .of_apart hapart fun e he t ht hb => (hstep e he t ht hb).1
  have hfold := hwalks.foldl hs (by rwa [hplaces])
  rw [hplaces] at hfold
  refine ⟨hfold, fun x hx => ?_⟩
  obtain ⟨index, hx⟩ := List.mem_iff_getElem?.1 hx
  refine hwalks.logged (fun e => [e.1]) hs (by rwa [hplaces])
    (hapart.imp fun {a b} h x hx => ?_) (fun e he t ht hb x hx => ?_) (x, index)
    (List.mem_zipIdx_iff_getElem?.2 hx) x (List.mem_singleton_self x)
  · obtain rfl := List.mem_singleton.1 hx
    simpa using h a.1 (self_mem_preorder _)
  · obtain rfl := List.mem_singleton.1 hx
    exact (hstep e he t ht hb).2

/-- Targets that are taken one after the other by steps that change no use. -/
theorem logs_foldl_targets {l : List Node} {step : Resolver → Node × Nat → Resolver} (hs : s.Valid)
    (hstep : ∀ e t, t.Valid → Logs root [] t (step t e) ∧ Logged root (step t e) m e.1.bare) :
    Logs root [] s (l.zipIdx.foldl step s) ∧
      ∀ e ∈ l, Logged root (l.zipIdx.foldl step s) m e.bare := by
  have hwalks : Walks root l.zipIdx step fun _ => [] :=
    ⟨List.pairwise_of_forall (by simp), fun e _ t ht _ => (hstep e t ht).1⟩
  refine ⟨hwalks.foldl_nil hs, fun e he => ?_⟩
  obtain ⟨index, he⟩ := List.mem_iff_getElem?.1 he
  exact hwalks.logged (fun e => [e.1.bare]) hs Walks.blank_nil (List.pairwise_of_forall (by simp))
    (fun e _ t ht _ => by simpa using (hstep e t ht).2) (e, index)
    (List.mem_zipIdx_iff_getElem?.2 he) e.bare
    (List.mem_singleton_self _)

end Fold

/-! ### Single steps -/

def Retains (s t : Resolver) : Prop :=
  ∀ i < s.facts.bindings.length, ∀ b, t.facts.bindings[i]? = some b →
    ∃ a, s.facts.bindings[i]? = some a ∧ b.kind = a.kind ∧ a.writes ⊆ b.writes

theorem Logged.retain (h : Logged root s m x) (hs : s.Valid)
    (huse : t.facts.useOf x = s.facts.useOf x) (hretains : Retains s t) : Logged root t m x := by
  intro hm a ha hvalue hname i b hi hb hlocal
  rw [huse] at hi
  obtain ⟨b', hb', hk, hsub⟩ := hretains i (hs.uses _ (mem_of_lookup hi)) b hb
  obtain ⟨w, hw, hsite⟩ := h hm a ha hvalue hname i b' hi hb' (hk ▸ hlocal)
  exact ⟨w, hsub hw, hsite⟩

theorem Retains.of_eq (h : t.facts.bindings = s.facts.bindings) : Retains s t := by
  intro i _ b hb
  exact ⟨b, h ▸ hb, rfl, List.Subset.refl _⟩

theorem retains_modify {g : Binding → Binding}
    (hg : ∀ b, (g b).kind = b.kind ∧ b.writes ⊆ (g b).writes) : Retains s (s.modify i g) := by
  intro j hj b hb
  rw [Resolver.modify, List.getElem?_modify] at hb
  obtain ⟨a, ha, rfl⟩ := Option.map_eq_some_iff.1 hb
  refine ⟨a, ha, ?_⟩
  split
  · exact hg a
  · exact ⟨rfl, List.Subset.refl _⟩

theorem retains_declare : Retains s (s.declare owner n kind type) := by
  intro i hi b hb
  exact ⟨b, by rwa [declare, use, List.getElem?_append_left hi] at hb, rfl, List.Subset.refl _⟩

/-- Steps that change no use. -/
theorem logs_of_retains (hs : s.Valid) (ht : t.Valid) (huses : t.facts.uses = s.facts.uses)
    (hretains : Retains s t) : Logs root [] s t :=
  ⟨ht, fun x _ m h => h.retain hs (by rw [Resolution.useOf, huses]; rfl) hretains, by simp⟩

theorem Valid.enter (hs : s.Valid) (n : Node) : (s.enter n).Valid := by
  refine ⟨hs.uses, fun frame hframe e he => ?_⟩
  obtain rfl | hframe := List.mem_cons.1 hframe
  · cases he
  · exact hs.names frame hframe e he

theorem logs_enter (root : Node) (hs : s.Valid) (n : Node) : Logs root [] s (s.enter n) :=
  logs_of_retains hs (hs.enter n) rfl (.of_eq rfl)

theorem logs_leave (hs : s.Valid) : Logs root [] s s.leave :=
  logs_of_retains hs ⟨hs.uses, fun frame hframe => hs.names frame (List.mem_of_mem_tail hframe)⟩
    rfl (.of_eq rfl)

theorem Valid.modify (hs : s.Valid) {g : Binding → Binding} : (s.modify i g).Valid := by
  refine ⟨fun e he => ?_, fun frame hframe e he => ?_⟩
  all_goals rw [Resolver.modify, List.length_modify]
  · exact hs.uses e he
  · exact hs.names frame hframe e he

theorem logs_refineType (hs : s.Valid) : Logs root [] s (s.refineType i type) :=
  logs_of_retains hs hs.modify rfl (retains_modify fun _ => ⟨rfl, List.Subset.refl _⟩)

theorem logs_recordWrite {site : Node} {value : Option Node} (hs : s.Valid) :
    Logs root [] s (s.recordWrite i site value) :=
  logs_of_retains hs hs.modify rfl (retains_modify fun _ => ⟨rfl, List.subset_append_left ..⟩)

/-- A write to what a name stands for logs the name. -/
theorem logged_recordWrite {site : Node} {value : Option Node} (huse : s.facts.useOf x = some i)
    (hsite : ∀ a ∈ m.assignments, a.name = x → a.site = site) :
    Logged root (s.recordWrite i site value) m x := by
  intro _ a ha _ hname j b hj hb _
  obtain rfl : i = j := Option.some.inj (huse.symm.trans hj)
  rw [Resolver.recordWrite, Resolver.modify, List.getElem?_modify] at hb
  obtain ⟨b', -, rfl⟩ := Option.map_eq_some_iff.1 hb
  rw [if_pos rfl, hsite a ha hname]
  exact ⟨_, List.mem_append_right _ (List.mem_singleton_self _), rfl⟩

theorem Valid.use (hs : s.Valid) (hi : i < s.facts.bindings.length) : (s.use n i).Valid := by
  refine ⟨fun e he => ?_, hs.names⟩
  obtain rfl | he := List.mem_cons.1 he
  · exact hi
  · exact hs.uses e he

theorem Valid.declare (hs : s.Valid) : (s.declare owner n kind type).Valid := by
  have hlength : (s.declare owner n kind type).facts.bindings.length =
      s.facts.bindings.length + 1 := by
    simp [Resolver.declare, Resolver.use]
  refine ⟨fun e he => ?_, fun frame hframe e he => ?_⟩ <;> rw [hlength]
  · obtain rfl | he := List.mem_cons.1 he
    · exact Nat.lt_succ_self _
    · exact Nat.lt_succ_of_lt (hs.uses e he)
  · rw [frames_declare] at hframe
    cases hframes : s.frames with
    | nil => simp [hframes] at hframe
    | cons first rest =>
      rw [hframes] at hframe
      have hold : ∀ frame ∈ s.frames, ∀ e ∈ frame.names, e.2 < s.facts.bindings.length + 1 :=
        fun frame hf e he => Nat.lt_succ_of_lt (hs.names frame hf e he)
      rw [hframes] at hold
      obtain rfl | hframe := List.mem_cons.1 hframe
      · obtain rfl | he := List.mem_cons.1 he
        · simp [views]
        · exact hold first List.mem_cons_self e he
      · exact hold frame (List.mem_cons_of_mem _ hframe) e he

section Names

variable (hroot : root.Distinct) (hn : n ∈ root.preorder) (hs : s.Valid)
include hroot hn hs

/-- A use or a declaration of one name changes nothing about the others. -/
theorem Logged.of_ne (h : Logged root s m x) (hne : x ≠ n)
    (huse : ∀ x, x.id ≠ n.id → t.facts.useOf x = s.facts.useOf x) (hretains : Retains s t) :
    Logged root t m x := by
  intro hm a ha hvalue hname
  have hx : x ∈ root.preorder :=
    preorder_trans hm (preorder_of_inner (hname ▸ inner_of_assignment ha))
  exact h.retain hs (huse x fun hid => hne (hroot.eq_of_id hx hn hid)) hretains hm a ha hvalue hname

theorem logs_use (hi : i < s.facts.bindings.length) (hblank : Blank root s [n]) :
    Logs root [n] s (s.use n i) :=
  .of_name (hs.use hi) hblank fun _ hne _ h => h.of_ne hroot hn hs hne
    (fun x hid => by rw [useOf_use, if_neg hid]) (.of_eq rfl)

theorem Logged.declare_ne (h : Logged root s m x) (hne : x ≠ n) :
    Logged root (s.declare owner n kind type) m x :=
  h.of_ne hroot hn hs hne (fun x hid => by rw [useOf_declare, if_neg hid]) retains_declare

theorem logs_declare (hblank : Blank root s [n]) : Logs root [n] s (s.declare owner n kind type) :=
  .of_name hs.declare hblank fun _ hne _ h => h.declare_ne hroot hn hs hne

/-- A new name that no node has a value for, or that is no local variable. -/
theorem logs_declare_idle (hidle : kind.isLocal = true → ∀ m ∈ root.preorder,
      ∀ a ∈ m.assignments, a.hasValue = true → a.name ≠ n) :
    Logs root [] s (s.declare owner n kind type) := by
  refine ⟨hs.declare, fun x _ m h => ?_, by simp⟩
  by_cases hx : x = n
  · subst hx
    intro hm a ha hvalue hname i b hi hb hlocal
    rw [useOf_declare, if_pos rfl] at hi
    obtain rfl := Option.some.inj hi
    have hk : b.kind = kind := by
      rw [declare, use, views, List.length_map, List.getElem?_concat_length] at hb
      rw [← Option.some.inj hb]
    exact absurd hname (hidle (hk ▸ hlocal) m hm a ha hvalue)
  · exact h.declare_ne hroot hn hs hx

theorem logs_recordUse (hblank : Blank root s [n]) : Logs root [n] s (s.recordUse n) := by
  have hidle : Logs root [n] s s := .of_name hs hblank fun _ _ _ h => h
  unfold recordUse
  split
  · exact hidle
  · split
    next i hlookup =>
      obtain ⟨frame, hframe, hfound⟩ := List.exists_of_findSome?_eq_some hlookup
      exact logs_use hroot hn hs (hs.names frame hframe _ (mem_of_lookup hfound)) hblank
    next => exact hidle

end Names

/-! ### Names of declarations and statements -/

/-- What changes no use leaves a name logged. -/
theorem Logs.idle (h : Logs root [] s t) (hblank : Blank root s [c]) : Logs root [c] s t :=
  .of_name h.valid hblank fun x _ m => h.keeps x (by simp) m

theorem Logs.blank_nil (h : Logs root [] s t) (hblank : Blank root s region) :
    Blank root t region :=
  h.blank hblank (by simp)

section Statements

variable (hroot : root.Distinct) (hs : s.Valid)
include hroot hs

theorem logs_declareAll_idle (hnames : names ⊆ root.preorder)
    (hidle : kind.isLocal = true → ∀ n ∈ names, ∀ m ∈ root.preorder, ∀ a ∈ m.assignments,
      a.hasValue = true → a.name ≠ n) : Logs root [] s (s.declareAll owner kind type names) := by
  have hwalks :
      Walks root names (fun s name => if name.text = "_" then s else s.declare owner name kind type)
        fun _ => [] := by
    refine ⟨List.pairwise_of_forall (by simp), fun n hn t ht _ => ?_⟩
    split
    · exact .refl ht
    · exact logs_declare_idle hroot (hnames hn) ht fun hlocal => hidle hlocal n hn
  exact hwalks.foldl_nil hs

theorem logs_declareParameters (hn : n ∈ root.preorder) :
    Logs root [] s (s.declareParameters n) := by
  refine Walks.foldl_nil ⟨List.pairwise_of_forall (by simp), fun d hd t ht _ => ?_⟩ hs
  refine logs_declareAll_idle hroot ht (fun x hx => ?_) (by simp [BindingKind.isLocal])
  obtain ⟨list, hlist, hd⟩ := List.mem_flatMap.1 hd
  have hlist := mem_children_of_parameterLists (List.mem_of_mem_filter hlist)
  exact preorder_trans hn (preorder_trans (child_mem_preorder hlist)
    (parameterNames_subset (List.mem_flatMap.2 ⟨d, hd, hx⟩)))

/-- There are no values for the targets of a clause and for the name of a type switch. -/
theorem logs_declareTargets (hn : n ∈ root.preorder) (hkind : n.kind.isWrapper = false)
    (hquiet : ∀ a ∈ n.assignments, a.hasValue = false) (hleft : left ∈ n.children) :
    Logs root [] s (s.declareTargets owner left) := by
  have hmem : left ∈ root.preorder := preorder_trans hn (child_mem_preorder hleft)
  refine logs_declareAll_idle hroot hs (fun x hx => ?_) fun _ x hx m hm a ha hvalue hname => ?_
  · exact preorder_trans hmem (expressions_subset (List.mem_of_mem_filter hx))
  · have hholder := holder_name hroot hm ha
    rw [hname, holder_expression hroot hn hkind hleft (List.mem_of_mem_filter hx)] at hholder
    obtain rfl := Option.some.inj hholder
    cases (hquiet a ha).symm.trans hvalue

variable (hc : c ∈ root.preorder) (hblank : Blank root s [c])
include hc hblank

/-- A short declaration logs its target, whether it declares the name or assigns to it. -/
theorem logs_shortTarget (owner : Option Node) (site : Node) (index : Nat) :
    Logs root [c] s (s.shortTarget owner site index c) ∧
      ∀ m, (∀ a ∈ m.assignments, a.name = c → a.site = site) →
        Logged root (s.shortTarget owner site index c) m c := by
  unfold shortTarget
  split
  · exact ⟨(Logs.refl hs).idle hblank, fun m _ => hblank c (by simp) m⟩
  · dsimp only
    split
    next i hlookup =>
      obtain ⟨frame, hframe, hfound⟩ := Option.bind_eq_some_iff.1 hlookup
      have huse :=
        logs_use hroot hc hs
          (hs.names frame (List.mem_of_mem_head? hframe) _ (mem_of_lookup hfound)) hblank
      refine ⟨huse.before (logs_recordWrite huse.valid), fun m hsite => logged_recordWrite ?_ hsite⟩
      rw [useOf_use, if_pos rfl]
    next =>
      refine ⟨(logs_declare hroot hc hs hblank).before (logs_recordWrite hs.declare), fun m hsite =>
        logged_recordWrite ?_ hsite⟩
      rw [useOf_declare, if_pos rfl, views, List.length_map]

/-- A spec logs the name that it declares. -/
theorem logs_specName {spec : Node} (owner : Option Node) (index : Nat)
    (hspec : isValueSpec spec = true) :
    Logs root [c] s (s.specName owner spec index c) ∧
      ∀ m, (∀ a ∈ m.assignments, a.name = c → a.site = spec) →
        Logged root (s.specName owner spec index c) m c := by
  have hwritten : ∀ (t : Resolver) i value, t.Valid → Logs root [] t
      (if (valuesIn spec .value).isEmpty then t else t.recordWrite i spec value) := by
    intro t i value ht
    split
    · exact .refl ht
    · exact logs_recordWrite ht
  have hsame : ∀ t : Resolver, Logs root [] s t → Logs root [c] s t ∧ ∀ m,
      (∀ a ∈ m.assignments, a.name = c → a.site = spec) → Logged root t m c := fun t h =>
    ⟨h.idle hblank, fun m _ => h.keeps c (by simp) m (hblank c (by simp) m)⟩
  unfold specName
  split
  · exact hsame s (.refl hs)
  · dsimp only
    split
    · split
      · exact hsame _ ((hwritten _ _ _ hs.modify).after (logs_refineType hs))
      · exact hsame s (.refl hs)
    · refine ⟨(logs_declare hroot hc hs hblank).before (hwritten _ _ _ hs.declare),
        fun m hsite => ?_⟩
      split
      next hempty =>
        intro _ a ha hvalue hname
        obtain rfl := hsite a ha hname
        rw [Assignment.hasValue_of_spec hspec, hempty] at hvalue
        cases hvalue
      next =>
        refine logged_recordWrite ?_ hsite
        rw [useOf_declare, if_pos rfl, views, List.length_map]

end Statements

/-- An assignment records what it writes. -/
theorem logs_recordAssignment (root : Node) (hs : s.Valid) (hkind : n.kind = .assignmentStatement) :
    Logs root [] s (s.recordAssignment n) ∧ ∀ x, Logged root (s.recordAssignment n) n x := by
  -- only a plain `=` gives values to its targets
  have htarget : ∀ a ∈ n.assignments, a.site = n ∧ a.name.kind = .identifier ∧
      (n.child? .operator).map text = some "=" ∧ ∃ e ∈ valuesIn n .left, e.bare = a.name := by
    intro a ha
    obtain ⟨hsite, hident, htarget⟩ := target_of_assignment ha (by simp [hkind]) (by simp [hkind])
    rw [targets, hkind] at htarget
    dsimp only at htarget
    split at htarget
    next hoperator => exact ⟨hsite, hident, hoperator, List.mem_map.1 htarget⟩
    next => cases htarget
  unfold recordAssignment
  split
  next hoperator =>
    refine ⟨.refl hs, fun x _ a ha => ?_⟩
    simp [(htarget a ha).2.2.1] at hoperator
  next =>
    dsimp only
    refine (logs_foldl_targets (m := n) hs fun e t ht => ?_).imp_right
      fun hlogged x hn a ha hvalue hname => ?_
    · split
      next hident =>
        refine ⟨.refl ht, fun _ a ha _ hname => ?_⟩
        simp [← hname, (htarget a ha).2.1] at hident
      next =>
        split
        next hnone =>
          refine ⟨.refl ht, fun _ _ _ _ _ i b hi => ?_⟩
          cases hnone.symm.trans hi
        next i huse =>
          exact ⟨(logs_recordWrite ht.modify).after (logs_refineType ht),
            logged_recordWrite huse fun a ha _ => (htarget a ha).1⟩
    · obtain ⟨e, he, hbare⟩ := (htarget a ha).2.2.2
      obtain rfl := hbare.trans hname
      exact hlogged e he hn a ha hvalue hname

end Resolver

end Handoff
