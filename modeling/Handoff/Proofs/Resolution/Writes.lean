import Handoff.Proofs.Resolution.Logged
import Handoff.Proofs.Resolution.Rounds

/-!
# All writes are recorded

A visit leaves the names of the node logged, whatever the kind of the node, and so do the visits of
all declarations of a file. Hence a local variable has a write wherever a statement or spec has a
value for it. Range and receive clauses record nothing.

## Main definitions

* `Resolver.Covers`: visiting a node leaves its names logged.

## Main statements

* `Resolver.covers`: every node is covered.
* `Resolution.exists_write`: a local variable has a write wherever a statement or spec has a value
  for it.
-/

namespace Handoff

open Syntax Node

variable {root n m x : Node}

namespace Resolver

variable {region region' cs : List Node} {s t u : Resolver} {f g : Field} (owner : Option Node)

theorem logged_of_valueless (h : ∀ a ∈ n.assignments, a.hasValue = false) : Logged root t n x := by
  intro _ a ha hvalue
  cases (h a ha).symm.trans hvalue

theorem logged_of_quiet (h : n.kind.assigns = false) : Logged root t n x :=
  logged_of_valueless (by simp [assignments_eq_nil h])

/-- Steps in some nodes and then in others. -/
theorem Logs.next (h : Logs root region s t) (hblank : Blank root s region')
    (hapart : ∀ x ∈ preorderAll region, x ∉ preorderAll region')
    (h' : t.Valid → Blank root t region' → Logs root region' t u) :
    Logs root (region ++ region') s u :=
  h.trans (h' h.valid (h.blank hblank fun x hx hin => hapart x hin hx)) hapart

/-- Visiting a node leaves its names logged. -/
def Covers (root n : Node) : Prop :=
  ∀ owner s, s.Valid → Blank root s [n] → Logs root [n] s (visit owner n s)

theorem logs_foldl_visit (hv : ∀ c ∈ cs, Covers root c) (hapart : cs.Pairwise Apart) (hs : s.Valid)
    (hblank : Blank root s cs) : Logs root cs s (cs.foldl (fun s c => visit owner c s) s) := by
  have hwalks : Walks root cs (fun s c => visit owner c s) fun c => [c] :=
    .of_apart hapart fun c hc => hv c hc owner
  exact hwalks.foldl_nodes hs hblank

theorem child?_subset_children : (n.child? f).toList ⊆ n.children := fun _ hc =>
  (mem_children_of_child? (Option.mem_toList.1 hc)).1

theorem logs_visitField (hv : ∀ c ∈ n.children, Covers root c) (hs : s.Valid)
    (hblank : Blank root s (n.child? f).toList) :
    Logs root (n.child? f).toList s (visitField owner f n.children s) := by
  rw [visitField_eq]
  change Logs root _ s (((n.child? f).map _).getD _)
  cases hc : n.child? f with
  | none => exact .refl hs
  | some c =>
    rw [hc] at hblank
    exact hv c (mem_children_of_child? hc).1 owner s hs hblank

/-- The targets of a short declaration: a name is declared or written, anything else is visited. -/
theorem visitLeft_eq_foldl (n : Node) (s : Resolver) :
    visitLeft owner n n.children s = (valuesIn n .left).zipIdx.foldl (fun s e =>
      if e.1.kind = .identifier then s.shortTarget owner n e.2 e.1 else visit owner e.1 s) s := by
  have htargets : ∀ cs index s, visitTargets owner n index cs s =
      ((cs.filter isPart).zipIdx index).foldl
        (fun s e => if e.1.kind = .identifier then s.shortTarget owner n e.2 e.1
          else visit owner e.1 s) s := by
    intro cs
    induction cs with
    | nil => simp [visitTargets]
    | cons c cs ih =>
      intro index s
      rw [visitTargets, List.filter_cons]
      split
      · rw [ih, List.zipIdx_cons, List.foldl_cons]
      · exact ih index s
  rw [visitLeft_eq, valuesIn]
  change ((n.child? .left).map _).getD _ = _
  cases n.child? .left with
  | none => rfl
  | some left =>
    rw [Option.map_some, Option.getD_some, Option.map_some, Option.getD_some, expressions]
    split
    · exact htargets ..
    · rfl

section Visits

variable (wf : root.WellFormed) (hn : n ∈ root.preorder) (hv : ∀ m ∈ n.inner, Covers root m)
  (hs : s.Valid) (hblank : Blank root s [n])
include wf hn

theorem apart_fields (hne : f ≠ g) :
    ∀ x ∈ preorderAll (n.child? f).toList, x ∉ preorderAll (n.child? g).toList := by
  intro x hx hx'
  obtain ⟨c, hc, hx⟩ := mem_preorderAll.1 hx
  obtain ⟨k, hk, hx'⟩ := mem_preorderAll.1 hx'
  have hc := Option.mem_toList.1 hc
  have hk := Option.mem_toList.1 hk
  exact wf.distinct.apart hn (mem_children_of_child? hc).1 (mem_children_of_child? hk).1
    (ne_of_child? hc hk hne) x hx hx'

theorem pairwise_apart_filter (q : Node → Bool) : (n.children.filter q).Pairwise Apart :=
  (wf.distinct.pairwise_apart hn).filter q

include hv hs

/-- The left side of a short declaration leaves all its names logged. -/
theorem logs_visitTargets (hkind : n.kind = .shortVarDeclaration)
    (hleft : Blank root s (n.child? .left).toList) :
    Logs root (n.child? .left).toList s (visitLeft owner n n.children s) ∧
      ∀ x, Logged root (visitLeft owner n n.children s) n x := by
  have htarget : ∀ a ∈ n.assignments, a.site = n ∧ a.name.kind = .identifier ∧
      a.name ∈ valuesIn n .left := by
    intro a ha
    have htarget := target_of_assignment ha (by simp [hkind]) (by simp [hkind])
    rwa [targets, hkind] at htarget
  rw [visitLeft_eq_foldl]
  cases hc : n.child? .left with
  | none =>
    have hnone : valuesIn n .left = [] := by rw [valuesIn, hc]; rfl
    rw [hnone] at htarget ⊢
    exact ⟨.refl hs, fun x _ a ha => absurd (htarget a ha).2.2 List.not_mem_nil⟩
  | some left =>
    have hvalues : valuesIn n .left = left.expressions := by rw [valuesIn, hc]; rfl
    have hchild := inner_of_child (mem_children_of_child? hc).1
    have hmem : left ∈ root.preorder := preorder_trans hn (preorder_of_inner hchild)
    rw [hc] at hleft
    rw [hvalues] at htarget ⊢
    -- each target is declared or assigned if it is a name, and visited if not
    have hstep : ∀ e ∈ left.expressions.zipIdx, ∀ t : Resolver, t.Valid → Blank root t [e.1] →
        Logs root [e.1] t (if e.1.kind = .identifier then t.shortTarget owner n e.2 e.1
          else visit owner e.1 t) ∧
        Logged root (if e.1.kind = .identifier then t.shortTarget owner n e.2 e.1
          else visit owner e.1 t) n e.1 := by
      intro e he t ht hblank
      have he := inner_of_preorder hchild (expressions_subset (List.fst_mem_of_mem_zipIdx he))
      split
      next =>
        obtain ⟨hlogs, hlogged⟩ :=
          logs_shortTarget wf.distinct ht (preorder_trans hn (preorder_of_inner he))
            hblank owner n e.2
        exact ⟨hlogs, hlogged n fun a ha _ => (htarget a ha).1⟩
      next hident =>
        refine ⟨hv e.1 he owner t ht hblank, fun _ a ha _ hname => ?_⟩
        exact absurd (hname ▸ (htarget a ha).2.1) hident
    obtain ⟨hlogs, hnames⟩ := logs_foldl_names hs (hleft.mono fun x hx => by
      obtain ⟨e, he, hx⟩ := mem_preorderAll.1 hx
      simpa using preorder_trans (expressions_subset he) hx)
        (wf.distinct.pairwise_apart_expressions hmem) hstep
    refine ⟨?_, fun x hroot a ha hvalue hname =>
      hnames x (hname ▸ (htarget a ha).2.2) hroot a ha hvalue hname⟩
    unfold expressions at hlogs ⊢
    split at hlogs
    next hlist =>
      rw [if_pos hlist]
      exact hlogs.up wf.distinct hmem (fun _ => List.mem_of_mem_filter) hleft fun _ _ =>
        logged_of_quiet (by rw [hlist]; rfl)
    next hlist =>
      rw [if_neg hlist]
      exact hlogs

include hblank

theorem logs_visitAll : Logs root n.parts s (visitAll owner n.children s) := by
  rw [visitAll_eq_foldl]
  exact logs_foldl_visit owner (fun c hc => hv c (inner_of_mem_filter hc))
    (pairwise_apart_filter wf hn _) hs (hblank.inner fun c hc => inner_of_mem_filter hc)

theorem logs_visitScope (hquiet : n.kind.assigns = false) :
    Logs root [n] s (s.inScope n fun s => visitAll owner n.children s) := by
  have henter := logs_enter root hs n
  have hparts : Logs root n.parts s (visitAll owner n.children (s.enter n)) :=
    (logs_visitAll owner wf hn hv henter.valid (henter.blank_nil hblank)).after henter
  exact (hparts.before (logs_leave hparts.valid)).up wf.distinct hn
    (fun _ => List.mem_of_mem_filter) hblank fun _ _ => logged_of_quiet hquiet

/-- A function leaves all names in it logged. -/
theorem logs_visitFunction (hquiet : n.kind.assigns = false) :
    Logs root [n] s
      (s.inScope n fun s => visitBody (some n) n.children (s.declareParameters n)) := by
  have henter := logs_enter root hs n
  have hparameters := (logs_declareParameters wf.distinct henter.valid hn).after henter
  rw [inScope_eq, visitBody_eq]
  change Logs root [n] s (leave (((n.child? .body).map _).getD _))
  cases hbody : n.child? .body with
  | none =>
    exact (hparameters.before (logs_leave hparameters.valid)).idle hblank
  | some body =>
    have hchild := (mem_children_of_child? hbody).1
    have hmem : body ∈ root.preorder := preorder_trans hn (child_mem_preorder hchild)
    have hbody_blank : Blank root s [body] := hblank.inner (by simpa using inner_of_child hchild)
    have hbody_quiet : body.kind.assigns = false := by
      obtain hk | hk := wf.kind_body hn hbody <;> rw [hk] <;> rfl
    have hparts := (logs_visitAll (some n) wf hmem
      (fun m hm => hv m (inner_trans (inner_of_child hchild) hm)) hparameters.valid
      (hparameters.blank_nil hbody_blank)).after hparameters
    have hvisited := (hparts.before (logs_leave hparts.valid)).up wf.distinct hmem
      (fun _ => List.mem_of_mem_filter) hbody_blank fun _ _ => logged_of_quiet hbody_quiet
    exact hvisited.up wf.distinct hn (by simpa using hchild) hblank fun _ _ =>
      logged_of_quiet hquiet

/-- The values on the right, then what is on the left. -/
theorem logs_visitSides : Logs root ((n.child? .right).toList ++ (n.child? .left).toList) s
    (visitField owner .left n.children (visitField owner .right n.children s)) := by
  have hchild : ∀ c ∈ n.children, Covers root c := fun c hc => hv c (inner_of_child hc)
  have hright := logs_visitField owner (f := .right) hchild hs (hblank.inner child?_subset)
  exact hright.next (hblank.inner child?_subset) (apart_fields wf hn (by decide))
    (logs_visitField owner hchild)

/-- A short declaration: the values, then the targets. -/
theorem logs_visitShort (hkind : n.kind = .shortVarDeclaration) :
    Logs root [n] s (visitLeft owner n n.children (visitField owner .right n.children s)) := by
  have hright := logs_visitField owner (f := .right) (fun c hc => hv c (inner_of_child hc)) hs
    (hblank.inner child?_subset)
  have hleft := hright.blank (hblank.inner child?_subset)
    (apart_fields wf hn (g := .right) (f := .left) (by decide))
  generalize visitField owner .right n.children s = t at hright hleft
  obtain ⟨htargets, hself⟩ := logs_visitTargets owner wf hn hv hright.valid hkind hleft
  exact (hright.trans htargets (apart_fields wf hn (by decide))).up wf.distinct hn
    (List.append_subset.2 ⟨child?_subset_children, child?_subset_children⟩) hblank
    fun x _ => hself x

/-- A spec: the values, then the names. -/
theorem logs_visitSpec {d : Node} (hspec : isValueSpec n = true) (hd : d ∈ root.preorder)
    (hkind : d.kind = .varDeclaration ∨ d.kind = .constDeclaration) :
    Logs root [n] s ((visitField owner .value n.children s).specNames owner n) ∧
      ∀ x ∈ n.inField .name,
        Logged root ((visitField owner .value n.children s).specNames owner n) d x := by
  have hvalue := logs_visitField owner (f := .value) (fun c hc => hv c (inner_of_child hc)) hs
    (hblank.inner child?_subset)
  -- values and names of a spec stand in different children
  have hapart : ∀ x ∈ preorderAll (n.child? .value).toList, x ∉ preorderAll (n.inField .name) := by
    intro x hx hx'
    obtain ⟨c, hc, hx⟩ := mem_preorderAll.1 hx
    obtain ⟨k, hk, hx'⟩ := mem_preorderAll.1 hx'
    obtain ⟨hc, hfield⟩ := mem_children_of_child? (Option.mem_toList.1 hc)
    obtain ⟨hk, hname⟩ := List.mem_filter.1 hk
    refine wf.distinct.apart hn hc hk ?_ x hx hx'
    rintro rfl
    rw [hfield] at hname
    cases hname
  have hsite : ∀ c ∈ n.inField .name, ∀ a ∈ d.assignments, a.name = c → a.site = n := by
    rintro c hc a ha rfl
    obtain ⟨hspec, hname⟩ := spec_of_assignment ha hkind
    have hchild := inner_of_child (mem_valueSpecs hspec).2.1
    exact wf.distinct.parent_eq (preorder_trans hd (preorder_of_inner hchild)) hn
      (List.mem_of_mem_filter hname) (List.mem_of_mem_filter hc)
  have hstep : ∀ e ∈ (n.inField .name).zipIdx, ∀ t : Resolver, t.Valid → Blank root t [e.1] →
      Logs root [e.1] t (t.specName owner n e.2 e.1) ∧
        Logged root (t.specName owner n e.2 e.1) d e.1 := by
    intro e he t ht hblank
    have hname := List.fst_mem_of_mem_zipIdx he
    obtain ⟨hlogs, hlogged⟩ := logs_specName wf.distinct ht
      (preorder_trans hn (preorder_of_inner (inner_of_mem_filter hname))) hblank owner e.2 hspec
    exact ⟨hlogs, hlogged d (hsite e.1 hname)⟩
  obtain ⟨hnames, hlogged⟩ := logs_foldl_names hvalue.valid
    (hvalue.blank (hblank.inner fun _ => inner_of_mem_filter) fun x hx hin => hapart x hin hx)
    (pairwise_apart_filter wf hn _) hstep
  refine ⟨(hvalue.trans hnames hapart).up wf.distinct hn ?_ hblank fun x _ =>
    logged_of_quiet ?_, hlogged⟩
  · exact List.append_subset.2 ⟨child?_subset_children, fun _ => List.mem_of_mem_filter⟩
  · obtain hk | hk := isValueSpec_iff.1 hspec <;> rw [hk] <;> rfl

/-- The specs of a declaration. -/
theorem logs_visitSpecs (hkind : n.kind = .varDeclaration ∨ n.kind = .constDeclaration) :
    Logs root [n] s (visitSpecs owner n.children s) := by
  rw [visitSpecs_eq_foldl]
  have hstep : ∀ c ∈ n.children.filter isValueSpec, ∀ t : Resolver, t.Valid → Blank root t [c] →
      Logs root [c] t ((visitField owner .value c.children t).specNames owner c) ∧
        ∀ x ∈ c.inField .name,
          Logged root ((visitField owner .value c.children t).specNames owner c) n x := by
    intro c hc t ht hblank
    obtain ⟨hc, hspec⟩ := List.mem_filter.1 hc
    exact logs_visitSpec owner wf (preorder_trans hn (child_mem_preorder hc))
      (fun m hm => hv m (inner_trans (inner_of_child hc) hm)) ht hblank hspec hn hkind
  have hapart := pairwise_apart_filter wf hn isValueSpec
  have hwalks : Walks root (n.children.filter isValueSpec)
      (fun s c => (visitField owner .value c.children s).specNames owner c) fun c => [c] :=
    .of_apart hapart fun c hc t ht hb => (hstep c hc t ht hb).1
  have hspecs : Blank root s (n.children.filter isValueSpec) := hblank.inner fun _ =>
    inner_of_mem_filter
  have hfold := hwalks.foldl_nodes hs hspecs
  have hlogged := hwalks.logged (m := n) (fun c => c.inField .name) hs
    (by rwa [List.flatMap_singleton'])
    (hapart.imp fun h x hx => by simpa using h x (preorder_of_inner (inner_of_mem_filter hx)))
    fun c hc t ht hb => (hstep c hc t ht hb).2
  refine hfold.up wf.distinct hn (fun _ => List.mem_of_mem_filter) hblank
    fun x _ hroot a ha hvalue hname => ?_
  obtain ⟨hspec, hfield⟩ := spec_of_assignment ha hkind
  obtain ⟨-, hchild, hspec⟩ := mem_valueSpecs hspec
  exact hlogged a.site (List.mem_filter.2 ⟨hchild, hspec⟩) x
    (hname ▸ hfield) hroot a ha hvalue hname

theorem logs_visitAssignment (hkind : n.kind = .assignmentStatement) :
    Logs root [n] s ((visitField owner .left n.children
      (visitField owner .right n.children s)).recordAssignment n) := by
  have hsides := logs_visitSides owner wf hn hv hs hblank
  obtain ⟨hrecord, hself⟩ := logs_recordAssignment root hsides.valid hkind
  exact (hsides.before hrecord).up wf.distinct hn
    (List.append_subset.2 ⟨child?_subset_children, child?_subset_children⟩) hblank
    fun x _ => hself x

/-- A range or receive clause: the right side, then the targets. -/
theorem logs_visitClause (hkind : n.kind = .rangeClause ∨ n.kind = .receiveStatement) :
    Logs root [n] s
      (if n.hasToken ":=" then (visitField owner .right n.children s).clauseTargets owner n
      else visitField owner .left n.children (visitField owner .right n.children s)) := by
  have hquiet := valueless_of_clause hkind
  split
  · have hright := logs_visitField owner (f := .right) (fun c hc => hv c (inner_of_child hc)) hs
      (hblank.inner child?_subset)
    have htargets : Logs root [] (visitField owner .right n.children s)
        ((visitField owner .right n.children s).clauseTargets owner n) := by
      unfold clauseTargets
      split
      next left hleft =>
        refine logs_declareTargets wf.distinct hright.valid hn ?_ hquiet
          (mem_children_of_child? hleft).1
        obtain hk | hk := hkind <;> rw [hk] <;> rfl
      next => exact .refl hright.valid
    exact (hright.before htargets).up wf.distinct hn child?_subset_children hblank
      fun _ _ => logged_of_valueless hquiet
  · exact (logs_visitSides owner wf hn hv hs hblank).up wf.distinct hn
      (List.append_subset.2 ⟨child?_subset_children, child?_subset_children⟩) hblank
      fun _ _ => logged_of_valueless hquiet

/-- A type switch: the header, its alias, then the clauses. -/
theorem logs_visitTypeSwitch (hkind : n.kind = .typeSwitchStatement) :
    Logs root [n] s (s.inScope n fun s =>
      visitClauses owner n.children ((visitField owner .value n.children
        (visitField owner .initializer n.children s)).switchAlias owner n)) := by
  have hquiet : n.kind.assigns = false := by rw [hkind]; rfl
  have hchild : ∀ c ∈ n.children, Covers root c := fun c hc => hv c (inner_of_child hc)
  have henter := logs_enter root hs n
  have hinitializer := (logs_visitField owner (f := .initializer) hchild henter.valid
    (henter.blank_nil (hblank.inner child?_subset))).after henter
  have hvalue := hinitializer.next (hblank.inner child?_subset) (apart_fields wf hn (by decide))
    (logs_visitField owner (f := .value) hchild)
  have hapart : ∀ x ∈ preorderAll ((n.child? .initializer).toList ++ (n.child? .value).toList),
      x ∉ preorderAll (n.children.filter fun c => c.kind = .typeCase || c.kind = .defaultCase) := by
    intro x hx hx'
    obtain ⟨y, hy, hx⟩ := mem_preorderAll.1 hx
    obtain ⟨c, hc, hx'⟩ := mem_preorderAll.1 hx'
    obtain ⟨hc, hkind⟩ := List.mem_filter.1 hc
    rw [Bool.or_eq_true, decide_eq_true_eq, decide_eq_true_eq] at hkind
    refine apart_of_header wf hn (List.mem_append_left _ hy) hc ?_ x hx hx'
    obtain hk | hk := hkind <;> rw [hk] <;> rfl
  rw [inScope_eq, visitClauses_eq_foldl]
  generalize visitField owner .value n.children _ = t at hvalue ⊢
  -- the alias is declared without a write
  have halias : Logs root [] t (t.switchAlias owner n) := by
    unfold switchAlias
    split
    next left hleft =>
      exact logs_declareTargets wf.distinct hvalue.valid hn (by rw [hkind]; rfl)
        (by simp [assignments_eq_nil hquiet]) (mem_children_of_child? hleft).1
    next => exact .refl hvalue.valid
  have hclauses := (hvalue.before halias).next (hblank.inner fun _ => inner_of_mem_filter) hapart
    (logs_foldl_visit owner (fun c hc => hchild c (List.mem_of_mem_filter hc))
      (pairwise_apart_filter wf hn _))
  refine (hclauses.before (logs_leave hclauses.valid)).up wf.distinct hn ?_ hblank fun _ _ =>
    logged_of_quiet hquiet
  exact List.append_subset.2 ⟨List.append_subset.2 ⟨child?_subset_children, child?_subset_children⟩,
    fun _ => List.mem_of_mem_filter⟩

end Visits

/-- Visiting a node leaves its names logged. -/
theorem covers (wf : root.WellFormed) (n : Node) : n ∈ root.preorder → Covers root n := by
  induction n using innerInduction with
  | step n ih =>
    intro hn owner s hs hblank
    have hv : ∀ m ∈ n.inner, Covers root m :=
      fun m hm => ih m hm (preorder_trans hn (preorder_of_inner hm))
    have hidle : Logs root [n] s s := (Logs.refl hs).idle hblank
    obtain ⟨label, children⟩ := n
    rw [visit.eq_def]
    dsimp only
    split
    case h_1 hk | h_2 hk | h_3 hk =>
      exact logs_visitFunction wf hn hv hs hblank (by rw [kind, hk]; rfl)
    case h_4 hk => exact logs_visitTypeSwitch owner wf hn hv hs hblank hk
    case h_5 hk | h_6 hk | h_7 hk | h_8 hk | h_9 hk | h_10 hk | h_11 hk | h_12 hk | h_13 hk =>
      exact logs_visitScope owner wf hn hv hs hblank (by rw [kind, hk]; rfl)
    case h_14 hk => exact logs_visitShort owner wf hn hv hs hblank hk
    case h_15 hk => exact logs_visitSpecs owner wf hn hv hs hblank (.inl hk)
    case h_16 hk => exact logs_visitSpecs owner wf hn hv hs hblank (.inr hk)
    case h_17 hk => exact logs_visitAssignment owner wf hn hv hs hblank hk
    case h_18 hk => exact logs_visitClause owner wf hn hv hs hblank (.inl hk)
    case h_19 hk => exact logs_visitClause owner wf hn hv hs hblank (.inr hk)
    case h_20 => exact logs_recordUse wf.distinct hn hs hblank
    case h_21 hk =>
      have hfield := logs_visitField owner (f := .operand) (fun c hc => hv c (inner_of_child hc)) hs
        (hblank.inner child?_subset)
      exact hfield.up wf.distinct hn child?_subset_children hblank fun _ _ =>
        logged_of_quiet (by rw [kind, hk]; rfl)
    case h_22 hk =>
      obtain ⟨visited, hsub, heq⟩ :=
        visitKeyed_eq_foldl owner (1 < (Node.mk label children).parts.length) children s
      rw [heq]
      have hparts : visited ⊆ children := fun c hc => List.mem_of_mem_filter (hsub.subset hc)
      exact (logs_foldl_visit owner (fun c hc => hv c (inner_of_child (hparts hc)))
        ((pairwise_apart_filter wf hn _).sublist hsub) hs
        (hblank.inner fun c hc => inner_of_child (hparts hc))).up wf.distinct hn hparts hblank
        fun _ _ => logged_of_quiet (by rw [kind, hk]; rfl)
    case h_30 =>
      refine (logs_visitAll owner wf hn hv hs hblank).up wf.distinct hn
        (fun _ => List.mem_of_mem_filter) hblank fun _ _ => logged_of_quiet ?_
      unfold Kind.assigns
      split <;> first | rfl | contradiction
    all_goals exact hidle

/-! ### Files -/

theorem valid_declared (wf : root.WellFormed) : (declared root).Valid := by
  have hsound := sound_declared wf
  have hlength : (declared root).views.length = (declared root).facts.bindings.length :=
    List.length_map ..
  refine ⟨fun e he => hlength ▸ hsound.valid e he, fun frame hframe e he => ?_⟩
  obtain ⟨v, hv, -⟩ := hsound.bound frame hframe e he
  exact hlength ▸ (List.getElem?_eq_some_iff.1 hv).1

/-- The first round declares no local variables. -/
theorem blank_declared (root : Node) : Blank root (declared root) region := by
  intro x _ m _ a _ _ _ i b _ hb hlocal
  have hlevel := isPackageLevel_of_mem_declared (List.mem_of_getElem? hb)
  cases hkind : b.kind <;>
    simp [hkind, BindingKind.isPackageLevel, BindingKind.isLocal] at hlevel hlocal

theorem logs_bodies (wf : root.WellFormed) (hquiet : root.kind.assigns = false) :
    Logs root [root] (declared root) (visited root (bodies root)) := by
  have hsub : bodies root ⊆ root.children :=
    fun d hd => List.mem_of_mem_filter (List.mem_of_mem_filter hd)
  exact (logs_foldl_visit none (fun d hd => covers wf d (child_mem_preorder (hsub hd)))
    (pairwise_apart_bodies wf) (valid_declared wf) (blank_declared root)).up wf.distinct
      (self_mem_preorder root) hsub
    (blank_declared root) fun _ _ => logged_of_quiet hquiet

end Resolver

/-- A local variable has a write wherever a statement or spec has a value for it. -/
theorem Resolution.exists_write {a : Assignment} {i : Nat} {b : Binding}
    (hfile : root.IsFile) (hm : m ∈ root.preorder) (ha : a ∈ m.assignments)
    (hvalue : a.hasValue = true) (huse : (ofFile root).useOf a.name = some i)
    (hb : (ofFile root).bindings[i]? = some b) (hlocal : b.kind.isLocal = true) :
    ∃ w ∈ b.writes, w.site = a.site := by
  have hlogs := Resolver.logs_bodies hfile.wellFormed (by rw [hfile.kind]; rfl)
  exact hlogs.logged m (by simpa using hm) a.name hm a ha hvalue rfl i b huse hb hlocal

end Handoff
