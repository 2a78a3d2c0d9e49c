import Handoff.Proofs.Resolution.Names

/-!
# Visiting a node

Visiting a node resolves the names in it and nothing else: whenever a resolver has yet to visit a
node, the visit advances it in that node only. The proof follows the tree. Each list of children
that the visit walks through is first written as a fold of visits; then there is one lemma for each
kind of node that declares names or opens a scope.

## Main statement

* `Resolver.visits`: a visit advances every resolver that awaits it.
-/

namespace Handoff.Resolver

open Syntax Node

variable {root n c : Node} {cs region : List Node} {s t : Resolver}
  {owner : Option Node} {f : Field}

/-! ### Lists of children -/

theorem visitAll_eq_foldl (owner : Option Node) (cs : List Node) (s : Resolver) :
    visitAll owner cs s = (cs.filter isPart).foldl (fun s c => visit owner c s) s := by
  induction cs generalizing s with
  | nil => rw [visitAll, List.filter_nil, List.foldl_nil]
  | cons c cs ih =>
    rw [visitAll, ih, List.filter_cons]
    split <;> rfl

theorem visitField_eq (owner : Option Node) (f : Field) (cs : List Node) (s : Resolver) :
    visitField owner f cs s =
      ((cs.find? (·.field == some f)).map fun c => visit owner c s).getD s := by
  induction cs with
  | nil => rw [visitField, List.find?_nil, Option.map_none, Option.getD_none]
  | cons c cs ih =>
    rw [visitField, List.find?_cons]
    split
    next h => rw [h, Option.map_some, Option.getD_some]
    next h => rw [Bool.eq_false_iff.2 h, ih]

theorem visitBody_eq (owner : Option Node) (cs : List Node) (s : Resolver) :
    visitBody owner cs s =
      ((cs.find? (·.field == some .body)).map fun c => visitAll owner c.children s).getD s := by
  induction cs with
  | nil => rw [visitBody, List.find?_nil, Option.map_none, Option.getD_none]
  | cons c cs ih =>
    obtain ⟨label, inner⟩ := c
    rw [visitBody, List.find?_cons]
    split
    next h => simp only [field, h, Option.map_some, Option.getD_some]
    next h => simp only [field, Bool.eq_false_iff.2 h, ih]

theorem visitClauses_eq_foldl (owner : Option Node) (cs : List Node) (s : Resolver) :
    visitClauses owner cs s = (cs.filter fun c => c.kind = .typeCase || c.kind = .defaultCase).foldl
      (fun s c => visit owner c s) s := by
  induction cs generalizing s with
  | nil => rw [visitClauses, List.filter_nil, List.foldl_nil]
  | cons c cs ih =>
    rw [visitClauses, ih, List.filter_cons]
    split <;> rfl

/-- The value specs of a declaration: values first, then names. -/
theorem visitSpecs_eq_foldl (owner : Option Node) (cs : List Node) (s : Resolver) :
    visitSpecs owner cs s = (cs.filter isValueSpec).foldl
      (fun s c => (visitField owner .value c.children s).specNames owner c) s := by
  induction cs generalizing s with
  | nil => rw [visitSpecs, List.filter_nil, List.foldl_nil]
  | cons c cs ih =>
    obtain ⟨label, inner⟩ := c
    have hspec : isValueSpec ⟨label, inner⟩ =
        (decide (label.kind = .varSpec) || decide (label.kind = .constSpec)) := by
      simp [isValueSpec, kind, beq_eq_decide]
    rw [visitSpecs, List.filter_cons, hspec]
    split
    · rw [ih, List.foldl_cons]
    · rw [ih]

theorem visitLeft_eq (owner : Option Node) (site : Node) (cs : List Node) (s : Resolver) :
    visitLeft owner site cs s = ((cs.find? (·.field == some .left)).map fun c =>
      if c.kind = .expressionList then visitTargets owner site 0 c.children s
      else if c.kind = .identifier then s.shortTarget owner site 0 c
      else visit owner c s).getD s := by
  induction cs with
  | nil => rw [visitLeft, List.find?_nil, Option.map_none, Option.getD_none]
  | cons c cs ih =>
    have hlist : visitTargetList owner site c s = visitTargets owner site 0 c.children s := by
      cases c
      rw [visitTargetList]
    rw [visitLeft, List.find?_cons]
    split
    next h => rw [h, Option.map_some, Option.getD_some, hlist]
    next h => rw [Bool.eq_false_iff.2 h, ih]

/-- All parts of a keyed element are visited, or all but the first. -/
theorem visitKeyed_eq_foldl (owner : Option Node) (mayName : Bool) (cs : List Node) (s : Resolver) :
    ∃ visited : List Node, visited.Sublist (cs.filter isPart) ∧
      visitKeyed owner mayName cs s = visited.foldl (fun s c => visit owner c s) s := by
  induction cs generalizing mayName s with
  | nil => exact ⟨[], .slnil, by rw [visitKeyed]; rfl⟩
  | cons c cs ih =>
    rw [visitKeyed, List.filter_cons]
    split
    · split
      · obtain ⟨visited, hsub, heq⟩ := ih false s
        exact ⟨visited, hsub.cons c, heq⟩
      · obtain ⟨visited, hsub, heq⟩ := ih false (visit owner c s)
        exact ⟨c :: visited, hsub.cons_cons c, heq⟩
    · exact ih mayName s

/-! ### Visits of children -/

/-- Visiting a node advances every resolver that awaits it. -/
def Visits (root n : Node) : Prop :=
  ∀ owner s, Awaits root s n → Advances root [n] s (visit owner n s)

/-- Steps below a node are steps in it. -/
theorem Advances.up (h : Advances root cs s t) (hcs : cs ⊆ n.inner) : Advances root [n] s t :=
  h.mono fun _ hx =>
    mem_preorderAll.2 ⟨n, List.mem_singleton_self n, preorderAll_subset_preorder hcs hx⟩

theorem AwaitsAll.visit (h : AwaitsAll root s cs) (wf : root.WellFormed)
    (hv : ∀ c ∈ cs, Visits root c) :
    Advances root cs s (cs.foldl (fun s c => Resolver.visit owner c s) s) :=
  h.foldl wf fun c hc _ t _ _ ht => hv c hc owner t ht

theorem advances_visitField (hs : s.Sound root) (hv : ∀ m ∈ n.inner, Visits root m)
    (h : ∀ c, n.child? f = some c → Awaits root s c) :
    Advances root (n.child? f).toList s (visitField owner f n.children s) := by
  rw [visitField_eq]
  change Advances root _ s (((n.child? f).map fun c => visit owner c s).getD s)
  cases hc : n.child? f with
  | none => exact .refl hs
  | some c => exact hv c (inner_of_child (mem_children_of_child? hc).1) owner s (h c hc)

/-- A field of a node that opens no scope. -/
theorem Awaits.advances_field (h : Awaits root s n) (wf : root.WellFormed)
    (hv : ∀ m ∈ n.inner, Visits root m) (hopens : n.kind.opensScope = false) (f : Field) :
    Advances root (n.child? f).toList s (visitField owner f n.children s) :=
  advances_visitField h.sound hv fun _ hc => h.child wf hopens (mem_children_of_child? hc).1

/-- A node whose children all belong to the scope around it. -/
theorem Awaits.visitAll (h : Awaits root s n) (wf : root.WellFormed)
    (hv : ∀ m ∈ n.inner, Visits root m) (hkind : n.kind.opensScope = false) :
    Advances root [n] s (visitAll owner n.children s) := by
  rw [visitAll_eq_foldl]
  have hall := (h.children wf hkind).sublist (filter_isPart_sublist n)
  exact (hall.visit wf fun c hc => hv c (inner_of_mem_filter hc)).up fun _ hc =>
    inner_of_mem_filter hc

/-- A node whose children have a scope of their own. -/
theorem Awaits.visitScope (h : Awaits root s n) (wf : root.WellFormed)
    (hv : ∀ m ∈ n.inner, Visits root m) (hkind : n.kind.opensScope = true) :
    Advances root [n] s (s.inScope n fun s => Resolver.visitAll owner n.children s) := by
  rw [inScope_eq, visitAll_eq_foldl]
  have hall := (h.enterAll wf hkind).sublist (filter_isPart_sublist n)
  refine (hall.visit wf fun c hc => hv c (inner_of_mem_filter hc)).leave h.sound ?_
  exact preorderAll_subset_preorder fun _ hc => inner_of_mem_filter hc

/-- Once the parameters of a function are declared, the statements of its body are to be visited. -/
theorem Faces.awaitsAll_body {body : Node} (h : Faces root s n) (wf : root.WellFormed)
    (hkind : n.kind.opensScope = true) (hbody : body ∈ n.children)
    (hfield : body.field = some .body) (ha : Advances root (parameterLists n) (s.enter n) t)
    (hbefore : Before root (s.enter n).scope 0 t)
    (hfresh : ∀ x ∈ body.preorder, s.facts.useOf x = none) :
    AwaitsAll root t (body.children.filter (·.kind ≠ .comment)) := by
  have hapart : ∀ x ∈ preorderAll (parameterLists n), x ∉ body.preorder := by
    intro x hx
    obtain ⟨l, hl, hx⟩ := mem_preorderAll.1 hx
    refine wf.distinct.apart h.mem (mem_children_of_parameterLists hl) hbody ?_ x hx
    rintro rfl
    exact (field_of_mem_parameterLists hl).2 hfield
  have hface := (h.enter wf.distinct hkind hbody).advance ha hapart
  refine ⟨ha.sound, fun c hc =>
    ⟨hface.child wf.distinct (List.mem_of_mem_filter hc), ?_, fun _ => ?_⟩, wf.siblings hface.mem⟩
  · intro x hx
    have hxbody := preorder_of_inner (mem_inner.2 ⟨c, List.mem_of_mem_filter hc, hx⟩)
    rw [ha.useOf_eq x (preorder_trans hface.mem hxbody) fun hin => hapart x hin hxbody]
    exact hfresh x hxbody
  · rw [ha.scope_eq, ha.length_eq]
    refine ⟨hbefore.mono (Nat.zero_le _), ?_⟩
    obtain ⟨frame, rest, hs, -⟩ := h.sound.exists_frames
    simp [Resolver.enter, hs]

/-- A function: its parameters and the statements of its body share a scope. -/
theorem Faces.visitFunction (h : Faces root s n) (wf : root.WellFormed)
    (hv : ∀ m ∈ n.inner, Visits root m) (hkind : n.kind.opensScope = true)
    (hquiet : ∀ x ∈ n.inner, ¬ s.Mentions x)
    (hfresh : ∀ c ∈ n.children, c.field ≠ some .name → ∀ x ∈ c.preorder, s.facts.useOf x = none) :
    Advances root [n] s
      (s.inScope n fun s => visitBody (some n) n.children (s.declareParameters n)) := by
  rw [inScope_eq]
  have hbefore : Before root (s.enter n).scope 0 (s.enter n) := fun x _ hx hm =>
    absurd hm (hquiet x hx)
  obtain ⟨hparameters, hbefore⟩ :=
    advances_declareParameters (h.sound_enter hkind) wf.distinct h.mem rfl hbefore fun c hc =>
      hfresh c (mem_children_of_parameterLists hc) (field_of_mem_parameterLists hc).1
  have hlists : parameterLists n ⊆ n.inner :=
    fun c hc => inner_of_child (mem_children_of_parameterLists hc)
  rw [visitBody_eq]
  change Advances root [n] s (Resolver.leave (((n.child? .body).map fun c => _).getD _))
  cases hbody : n.child? .body with
  | none => exact hparameters.leave h.sound (preorderAll_subset_preorder hlists)
  | some body =>
    obtain ⟨hbody, hfield⟩ := mem_children_of_child? hbody
    have hall := h.awaitsAll_body wf hkind hbody hfield hparameters hbefore
      (hfresh body hbody (by rw [hfield]; decide))
    have hinner : body.children.filter isPart ⊆ n.inner := fun c hc =>
      inner_trans (inner_of_child hbody) (inner_of_mem_filter hc)
    rw [Option.map_some, Option.getD_some, visitAll_eq_foldl]
    refine (hparameters.trans ((hall.sublist (filter_isPart_sublist body)).visit wf fun c hc =>
      hv c (hinner hc))).leave h.sound (preorderAll_subset_preorder ?_)
    exact List.append_subset.2 ⟨hlists, hinner⟩

/-! ### Constructs that declare variables -/

theorem Faces.root_inner (h : Faces root s n) : n ∈ root.inner :=
  inner_of_preorder_inner (h.sound.opened _ (List.mem_of_mem_head? h.sound.head)).1 h.inside

/-- A child in one field is still to be visited after the child in another field, unless it is a
statement. -/
theorem Awaits.advance_child {g : Field} (h : Awaits root s c) (wf : root.WellFormed)
    (hn : n ∈ root.preorder) (hc : n.child? f = some c) (hne : g ≠ f)
    (hkind : c.kind.isOrdered = false) (ha : Advances root (n.child? g).toList s t) :
    Awaits root t c := by
  refine h.advance wf ha (fun x hx => ?_) fun hord => ?_
  · obtain ⟨k, hk, hx⟩ := mem_preorderAll.1 hx
    have hk := Option.mem_toList.1 hk
    exact wf.distinct.apart hn (mem_children_of_child? hk).1 (mem_children_of_child? hc).1
      (ne_of_child? hk hc hne) x hx
  · rw [hkind] at hord
    cases hord

theorem isOrdered_eq_false_of_isPlain {k : Kind} (h : k.isPlain = true) : k.isOrdered = false := by
  simp only [Kind.isPlain, Bool.not_eq_true'] at h
  rw [Kind.isOrdered, h, Bool.false_and]

/-- The left side of a construct is no statement. -/
theorem isOrdered_left (wf : root.WellFormed) (hn : n ∈ root.preorder)
    (hc : n.child? .left = some c) : c.kind.isOrdered = false := by
  obtain ⟨hchild, hfield⟩ := mem_children_of_child? hc
  exact isOrdered_eq_false_of_isPlain
    (wf.fields c (preorder_trans hn (child_mem_preorder hchild)) .left hfield)

/-- The uses in a scope come before the end of a construct once its right side is visited. -/
theorem Awaits.before_stop (h : Awaits root s n) (wf : root.WellFormed)
    (hkind : n.kind.isOrdered = true) (ha : Advances root (n.child? f).toList s t) :
    Before root t.scope n.stop t := by
  rw [ha.scope_eq]
  refine ((h.ordered hkind).1.mono (wf.forward n h.root_inner)).advance wf h.sound ha fun c hc => ?_
  have hc := preorder_of_inner (child?_subset hc)
  exact ⟨preorder_trans h.mem hc, (wf.start_le h.mem hc).2⟩

/-- The targets of a short declaration. -/
theorem advances_visitTargets {left site : Node} {index : Nat} (wf : root.WellFormed)
    (hsite : site ∈ root.preorder) (hkind : site.kind = .shortVarDeclaration)
    (hleft : left ∈ site.children) (hlist : left.kind = .expressionList)
    (hcs : cs ⊆ left.children) (hv : ∀ c ∈ cs, Visits root c)
    (h : AwaitsAll root s (cs.filter isPart)) (hin : site ∈ s.scope.inner)
    (hbefore : Before root s.scope site.stop s) :
    Advances root (cs.filter isPart) s (visitTargets owner site index cs s) := by
  have hdeclares : site.kind.declaresVariables = true := by rw [hkind]; rfl
  have hstop : site.declaredFrom = site.stop := by rw [declaredFrom, if_neg (by rw [hkind]; decide)]
  induction cs generalizing s index with
  | nil =>
    rw [visitTargets]
    exact .refl h.sound
  | cons c cs ih =>
    obtain ⟨hc, hcs⟩ := List.cons_subset.1 hcs
    obtain ⟨hvc, hvcs⟩ := List.forall_mem_cons.1 hv
    rw [visitTargets]
    split
    next hpart =>
      rw [List.filter_cons_of_pos hpart] at h ⊢
      have hawait := h.each c (List.mem_cons_self ..)
      -- a name is declared from the end of the statement on, behind everything used so far
      have hstep : Advances root [c] s
          (if c.kind = .identifier then s.shortTarget owner site index c else visit owner c s) := by
        split
        next hident =>
          have hname : c ∈ left.expressions := by
            rw [expressions, if_pos hlist]
            exact List.mem_filter.2 ⟨hc, hpart⟩
          exact hawait.shortTarget wf.distinct hident hsite hin
            (find?_construct wf.distinct hsite hdeclares hleft hname) (hstop ▸ hbefore)
        next => exact hvc owner s hawait
      have hcsite : c ∈ site.preorder :=
        preorder_of_inner (inner_trans (inner_of_child hleft) (inner_of_child hc))
      refine hstep.trans (ih hcs hvcs (h.tail wf hstep) (hstep.scope_eq ▸ hin) ?_)
      rw [hstep.scope_eq]
      exact hbefore.advance wf h.sound hstep
        (by simpa using ⟨hawait.mem, (wf.start_le hsite hcsite).2⟩)
    next hpart =>
      rw [List.filter_cons_of_neg hpart] at h ⊢
      exact ih hcs hvcs h hin hbefore

/-- A short declaration: the values, then the targets. -/
theorem Awaits.visitShort (h : Awaits root s n) (wf : root.WellFormed)
    (hv : ∀ m ∈ n.inner, Visits root m) (hkind : n.kind = .shortVarDeclaration) :
    Advances root [n] s (visitLeft owner n n.children (visitField owner .right n.children s)) := by
  have hopens : n.kind.opensScope = false := by rw [hkind]; rfl
  have hright : Advances root (n.child? .right).toList s (visitField owner .right n.children s) :=
    h.advances_field wf hv hopens .right
  have hbefore := h.before_stop wf (by rw [hkind]; rfl) hright
  refine (hright.up child?_subset).step ?_
  rw [visitLeft_eq]
  change Advances root [n] _ (((n.child? .left).map fun c => _).getD _)
  cases hleft : n.child? .left with
  | none => exact .refl hright.sound
  | some left =>
    have hchild := (mem_children_of_child? hleft).1
    have hawait := (h.child wf hopens hchild).advance_child wf h.mem hleft (by decide)
      (isOrdered_left wf h.mem hleft) hright
    have hinner := inner_of_child hchild
    have hin : n ∈ (visitField owner .right n.children s).scope.inner := hright.scope_eq ▸ h.inside
    rw [Option.map_some, Option.getD_some]
    split
    next hlist =>
      have hall := (hawait.children wf (by rw [hlist]; rfl)).sublist (filter_isPart_sublist left)
      refine (advances_visitTargets wf h.mem hkind hchild hlist (List.Subset.refl _)
        (fun c hc => ?_) hall hin hbefore).up fun c hc =>
          inner_trans hinner (inner_of_mem_filter hc)
      exact hv c (inner_trans hinner (inner_of_child hc))
    next hlist =>
      split
      next hident =>
        have hfind := find?_construct wf.distinct h.mem (by rw [hkind]; rfl) hchild
          (by rw [expressions, if_neg hlist]; exact List.mem_singleton_self left)
        have hstop : n.declaredFrom = n.stop := by rw [declaredFrom, if_neg (by rw [hkind]; decide)]
        exact (hawait.shortTarget wf.distinct hident h.mem hin hfind (hstop ▸ hbefore)).up
          (List.cons_subset.2 ⟨hinner, List.nil_subset _⟩)
      next =>
        exact (hv left hinner owner _ hawait).up (List.cons_subset.2 ⟨hinner, List.nil_subset _⟩)

/-- The right side of a construct, then its left side. -/
theorem Awaits.visitSides (h : Awaits root s n) (wf : root.WellFormed)
    (hv : ∀ m ∈ n.inner, Visits root m) (hkind : n.kind.opensScope = false) :
    Advances root [n] s
      (visitField owner .left n.children (visitField owner .right n.children s)) := by
  have hright : Advances root (n.child? .right).toList s (visitField owner .right n.children s) :=
    h.advances_field wf hv hkind .right
  refine (hright.up child?_subset).step (Advances.up ?_ (child?_subset (f := .left)))
  exact advances_visitField hright.sound hv fun c hc =>
    (h.child wf hkind (mem_children_of_child? hc).1).advance_child wf h.mem hc (by decide)
      (isOrdered_left wf h.mem hc) hright

/-- An assignment: both sides, then the writes. -/
theorem Awaits.visitAssignment (h : Awaits root s n) (wf : root.WellFormed)
    (hv : ∀ m ∈ n.inner, Visits root m) (hkind : n.kind.opensScope = false) :
    Advances root [n] s ((visitField owner .left n.children
      (visitField owner .right n.children s)).recordAssignment n) := by
  have hsides : Advances root [n] s
      (visitField owner .left n.children (visitField owner .right n.children s)) :=
    h.visitSides wf hv hkind
  exact hsides.step (advances_recordAssignment hsides.sound wf.distinct h.root_inner hkind)

/-- A range or receive clause: the right side, then the targets, which `:=` declares. -/
theorem Awaits.visitClause (h : Awaits root s n) (wf : root.WellFormed)
    (hv : ∀ m ∈ n.inner, Visits root m)
    (hkind : n.kind = .rangeClause ∨ n.kind = .receiveStatement) : Advances root [n] s
      ((visitField owner .right n.children s).clauseTargets owner n) := by
  have hopens : n.kind.opensScope = false := by
    rcases hkind with hkind | hkind <;> rw [hkind] <;> rfl
  have hordered : n.kind.isOrdered = true := by
    rcases hkind with hkind | hkind <;> rw [hkind] <;> rfl
  have hdeclares : n.kind.declaresVariables = true := by
    rcases hkind with hkind | hkind <;> rw [hkind] <;> rfl
  have hstop : n.declaredFrom = n.stop := by
    rw [declaredFrom, if_neg (by rcases hkind with hkind | hkind <;> rw [hkind] <;> decide)]
  have hright : Advances root (n.child? .right).toList s (visitField owner .right n.children s) :=
    h.advances_field wf hv hopens .right
  refine (hright.up child?_subset).step ?_
  unfold clauseTargets
  split
  next left hleft =>
    have hchild := (mem_children_of_child? hleft).1
    have hawait := (h.child wf hopens hchild).advance_child wf h.mem hleft (by decide)
      (isOrdered_left wf h.mem hleft) hright
    refine (advances_declareTargets hright.sound wf.distinct h.mem hdeclares hchild hawait.inside
      hawait.fresh (hstop ▸ h.before_stop wf hordered hright)).up fun x hx => ?_
    exact inner_of_preorder (inner_of_child hchild) (expressions_subset (List.mem_of_mem_filter hx))
  next => exact .refl hright.sound

theorem isValueSpec_iff : isValueSpec n = true ↔ n.kind = .varSpec ∨ n.kind = .constSpec := by
  simp [isValueSpec]

/-- A value spec in a function: the values, then the names. -/
theorem Awaits.visitSpec (h : Awaits root s n) (wf : root.WellFormed)
    (hv : ∀ m ∈ n.inner, Visits root m) (hkind : isValueSpec n = true)
    (hbefore : Before root s.scope n.start s) (hlocal : s.frames.length ≠ 1) :
    Advances root [n] s ((visitField owner .value n.children s).specNames owner n) := by
  have hkind := isValueSpec_iff.1 hkind
  have hopens : n.kind.opensScope = false := by
    rcases hkind with hkind | hkind <;> rw [hkind] <;> rfl
  have hdeclares : n.kind.declaresVariables = true := by
    rcases hkind with hkind | hkind <;> rw [hkind] <;> rfl
  have hstop : n.declaredFrom = n.stop := by
    rw [declaredFrom, if_neg (by rcases hkind with hkind | hkind <;> rw [hkind] <;> decide)]
  have hvalue : Advances root (n.child? .value).toList s (visitField owner .value n.children s) :=
    h.advances_field wf hv hopens .value
  have hbefore : Before root (visitField owner .value n.children s).scope n.stop
      (visitField owner .value n.children s) := by
    rw [hvalue.scope_eq]
    refine (hbefore.mono (wf.forward n h.root_inner)).advance wf h.sound hvalue fun c hc => ?_
    have hc := preorder_of_inner (child?_subset hc)
    exact ⟨preorder_trans h.mem hc, (wf.start_le h.mem hc).2⟩
  -- the value comes first, so the names are not in scope in it
  have hundeclared : Undeclared root n.declaredFrom (visitField owner .value n.children s)
      (n.inField .name) := by
    refine ⟨hvalue.sound, hstop ▸ hbefore, fun x hx => ?_,
      (wf.distinct.pairwise_apart h.mem).sublist List.filter_sublist⟩
    obtain ⟨hchild, hfield⟩ := List.mem_filter.1 hx
    have hmem := preorder_trans h.mem (child_mem_preorder hchild)
    refine ⟨hmem, hvalue.scope_eq ▸ inner_trans h.inside (inner_of_child hchild), ?_⟩
    rw [hvalue.useOf_eq x hmem, h.fresh x (child_mem_preorder hchild)]
    intro hin
    obtain ⟨value, hvalue, hin⟩ := mem_preorderAll.1 hin
    obtain ⟨hvalue, hvalueField⟩ := mem_children_of_child? (Option.mem_toList.1 hvalue)
    refine wf.distinct.apart h.mem hvalue hchild ?_ x hin (self_mem_preorder x)
    rintro rfl
    simp [hvalueField] at hfield
  refine (hvalue.up child?_subset).step ((hundeclared.specNames wf.distinct h.mem
    (hvalue.scope_eq ▸ h.inside) (hvalue.length_eq ▸ hlocal) hdeclares).up fun x hx => ?_)
  exact inner_of_mem_filter hx

/-- A declaration of variables or constants in a function. -/
theorem Awaits.visitSpecs (h : Awaits root s n) (wf : root.WellFormed)
    (hv : ∀ m ∈ n.inner, Visits root m)
    (hkind : n.kind = .varDeclaration ∨ n.kind = .constDeclaration) :
    Advances root [n] s (visitSpecs owner n.children s) := by
  have hopens : n.kind.opensScope = false := by
    rcases hkind with hkind | hkind <;> rw [hkind] <;> rfl
  obtain ⟨hbefore, hlocal⟩ := h.ordered (by rcases hkind with hkind | hkind <;> rw [hkind] <;> rfl)
  have hsub : (n.children.filter isValueSpec).Sublist (n.children.filter (·.kind ≠ .comment)) := by
    refine List.monotone_filter_right _ fun c hc => ?_
    rcases isValueSpec_iff.1 hc with hc | hc <;> simp [hc]
  rw [visitSpecs_eq_foldl]
  refine (((h.children wf hopens).sublist hsub).foldl wf fun c hc visited t hvisited ht hawait =>
    ?_).up fun _ hc => inner_of_mem_filter hc
  obtain ⟨hchild, hspec⟩ := List.mem_filter.1 hc
  refine hawait.visitSpec wf (fun m hm => hv m (inner_trans (inner_of_child hchild) hm)) hspec ?_
    (ht.length_eq ▸ hlocal)
  rw [ht.scope_eq]
  exact (hbefore.mono (wf.start_le h.mem (child_mem_preorder hchild)).1).advance wf h.sound ht
    hvisited

/-! ### Type switches -/

theorem stop_le_declaredFrom (hkind : n.kind = .typeSwitchStatement) (hc : n.child? f = some c)
    (hf : f = .initializer ∨ f = .guardAlias ∨ f = .value) : c.stop ≤ n.declaredFrom := by
  have hstop : n.fieldStop f = c.stop := by rw [fieldStop, hc]; rfl
  rw [declaredFrom, if_pos hkind, ← hstop]
  rcases hf with rfl | rfl | rfl <;> omega

def aliases (switch : Node) : List Node :=
  (switch.child? .guardAlias).toList.flatMap fun found =>
    found.expressions.filter (·.kind == .identifier)

/-- The nodes of the header of a type switch lie outside its clauses. -/
theorem apart_of_header {y : Node} (wf : root.WellFormed) (hn : n ∈ root.preorder)
    (hy : y ∈ (n.child? .initializer).toList ++ (n.child? .value).toList ++ aliases n)
    (hc : c ∈ n.children) (hclause : c.kind.isClause = true) : y.Apart c := by
  have hchild : ∃ k ∈ n.children, y ∈ k.preorder ∧ k.kind.isClause = false := by
    rw [List.mem_append, List.mem_append] at hy
    obtain (hy | hy) | hy := hy
    · obtain ⟨hk, hfield⟩ := mem_children_of_child? (Option.mem_toList.1 hy)
      have hallows := wf.fields y (preorder_trans hn (child_mem_preorder hk)) _ hfield
      exact ⟨y, hk, self_mem_preorder y, by simpa [Field.allows, Kind.isItem] using hallows⟩
    · obtain ⟨hk, hfield⟩ := mem_children_of_child? (Option.mem_toList.1 hy)
      have hallows := wf.fields y (preorder_trans hn (child_mem_preorder hk)) _ hfield
      have hitem := Kind.isItem_of_isPlain hallows
      exact ⟨y, hk, self_mem_preorder y, by simpa [Kind.isItem] using hitem⟩
    · obtain ⟨found, hfound, hy⟩ := List.mem_flatMap.1 hy
      obtain ⟨hy, hident⟩ := List.mem_filter.1 hy
      refine ⟨found, (mem_children_of_child? (Option.mem_toList.1 hfound)).1,
        expressions_subset hy, ?_⟩
      unfold expressions at hy
      split at hy
      next hlist => rw [hlist]; rfl
      next =>
        obtain rfl := List.mem_singleton.1 hy
        rw [eq_of_beq hident]
        rfl
  obtain ⟨k, hk, hy, hkind⟩ := hchild
  refine (wf.distinct.apart hn hk hc ?_).mono hy (self_mem_preorder c)
  rintro rfl
  rw [hkind] at hclause
  cases hclause

/-- Initializer and value of a type switch, in its scope. -/
theorem Awaits.visitHeader (h : Awaits root s n) (wf : root.WellFormed)
    (hv : ∀ m ∈ n.inner, Visits root m) (hkind : n.kind = .typeSwitchStatement) :
    Advances root ((n.child? .initializer).toList ++ (n.child? .value).toList) (s.enter n)
      (visitField owner .value n.children
        (visitField owner .initializer n.children (s.enter n))) := by
  have hawait : ∀ {c}, c ∈ n.children → Awaits root (s.enter n) c := fun hc =>
    h.enter wf.distinct (by rw [hkind]; rfl) hc
  have hinit : Advances root (n.child? .initializer).toList (s.enter n)
      (visitField owner .initializer n.children (s.enter n)) :=
    advances_visitField (h.sound_enter (by rw [hkind]; rfl)) hv fun c hc =>
      hawait (mem_children_of_child? hc).1
  refine hinit.trans (advances_visitField hinit.sound hv fun c hc => ?_)
  obtain ⟨hchild, hfield⟩ := mem_children_of_child? hc
  have hmem := preorder_trans h.mem (child_mem_preorder hchild)
  exact (hawait hchild).advance_child wf h.mem hc (by decide)
    (isOrdered_eq_false_of_isPlain (wf.fields c hmem .value hfield)) hinit

/-- The name of a type switch, after its initializer and value. -/
theorem Awaits.switchAlias (h : Awaits root s n) (wf : root.WellFormed)
    (hkind : n.kind = .typeSwitchStatement)
    (ha : Advances root ((n.child? .initializer).toList ++ (n.child? .value).toList)
      (s.enter n) t) :
    Advances root (aliases n) t (t.switchAlias owner n) := by
  unfold aliases Resolver.switchAlias
  cases hfound : n.child? .guardAlias with
  | none => exact .refl ha.sound
  | some found =>
    have hchild := (mem_children_of_child? hfound).1
    have hapart : ∀ x ∈ preorderAll ((n.child? .initializer).toList ++ (n.child? .value).toList),
        x ∉ found.preorder := by
      intro x hx
      obtain ⟨k, hk, hx⟩ := mem_preorderAll.1 hx
      obtain ⟨f, hf, hk⟩ : ∃ f, f ≠ Field.guardAlias ∧ n.child? f = some k := by
        obtain hk | hk := List.mem_append.1 hk
        · exact ⟨_, by decide, Option.mem_toList.1 hk⟩
        · exact ⟨_, by decide, Option.mem_toList.1 hk⟩
      exact wf.distinct.apart h.mem (mem_children_of_child? hk).1 hchild
        (ne_of_child? hk hfound hf) x hx
    have hquiet : Before root (s.enter n).scope n.declaredFrom (s.enter n) := by
      rintro x - hx ⟨i, v, hi, -⟩
      rw [Resolver.enter, h.fresh x (preorder_of_inner hx)] at hi
      cases hi
    have hbefore : Before root t.scope n.declaredFrom t := by
      rw [ha.scope_eq]
      refine hquiet.advance wf (h.sound_enter (by rw [hkind]; rfl)) ha fun c hc => ?_
      obtain hc | hc := List.mem_append.1 hc
      · exact ⟨preorder_trans h.mem (preorder_of_inner (child?_subset hc)),
          stop_le_declaredFrom hkind (Option.mem_toList.1 hc) (.inl rfl)⟩
      · exact ⟨preorder_trans h.mem (preorder_of_inner (child?_subset hc)),
          stop_le_declaredFrom hkind (Option.mem_toList.1 hc) (.inr (.inr rfl))⟩
    simp only [Option.toList_some, List.flatMap_singleton]
    refine advances_declareTargets ha.sound wf.distinct h.mem (by rw [hkind]; rfl) hchild
      (ha.scope_eq ▸ inner_of_child hchild) (fun x hx => ?_) hbefore
    have hxn := preorder_of_inner (mem_inner.2 ⟨found, hchild, hx⟩)
    rw [ha.useOf_eq x (preorder_trans h.mem hxn) fun hin => hapart x hin hx]
    exact h.fresh x hxn

/-- A type switch: initializer and value, then the name, then the clauses. -/
theorem Awaits.visitTypeSwitch (h : Awaits root s n) (wf : root.WellFormed)
    (hv : ∀ m ∈ n.inner, Visits root m) (hkind : n.kind = .typeSwitchStatement) :
    Advances root [n] s (s.inScope n fun s =>
      visitClauses owner n.children ((visitField owner .value n.children
        (visitField owner .initializer n.children s)).switchAlias owner n)) := by
  have hopens : n.kind.opensScope = true := by rw [hkind]; rfl
  rw [inScope_eq, visitClauses_eq_foldl]
  have hheader : Advances root _ _ (visitField owner .value n.children
      (visitField owner .initializer n.children (s.enter n))) := h.visitHeader wf hv hkind
  have hstart : Advances root _ _ (((visitField owner .value n.children
      (visitField owner .initializer n.children (s.enter n)))).switchAlias owner n) :=
    hheader.trans (h.switchAlias wf hkind hheader)
  -- a clause opens a scope, so nothing is asked of where it starts
  have hclause : ∀ c ∈ n.children.filter (fun c => c.kind = .typeCase || c.kind = .defaultCase),
      c ∈ n.children ∧ c.kind.isClause = true ∧ c.kind.isOrdered = false := by
    intro c hc
    obtain ⟨hchild, hc⟩ := List.mem_filter.1 hc
    obtain hc | hc := by simpa using hc
    · exact ⟨hchild, by rw [hc]; rfl, by rw [hc]; rfl⟩
    · exact ⟨hchild, by rw [hc]; rfl, by rw [hc]; rfl⟩
  have hsub : (n.children.filter fun c => c.kind = .typeCase || c.kind = .defaultCase).Sublist
      (n.children.filter (·.kind ≠ .comment)) := by
    refine List.monotone_filter_right _ fun c hc => ?_
    obtain hc | hc := by simpa using hc
    · simp [hc]
    · simp [hc]
  have hall := AwaitsAll.mk hstart.sound (fun c hc => ?_) ((wf.siblings h.mem).sublist hsub)
  · refine (hstart.trans (hall.visit wf fun c hc => hv c (inner_of_mem_filter hc))).leave h.sound
      (preorderAll_subset_preorder ?_)
    refine List.append_subset.2 ⟨List.append_subset.2 ⟨List.append_subset.2
      ⟨child?_subset, child?_subset⟩, fun x hx => ?_⟩, fun _ hc => inner_of_mem_filter hc⟩
    obtain ⟨found, hfound, hx⟩ := List.mem_flatMap.1 hx
    exact inner_of_preorder (child?_subset hfound) (expressions_subset (List.mem_of_mem_filter hx))
  · obtain ⟨hchild, hc, hord⟩ := hclause c hc
    refine (h.enter wf.distinct hopens hchild).advance wf hstart (fun x hx => ?_) fun h => ?_
    · obtain ⟨y, hy, hx⟩ := mem_preorderAll.1 hx
      exact apart_of_header wf h.mem hy hchild hc x hx
    · rw [hord] at h
      cases h

/-! ### All nodes -/

theorem Awaits.not_mentions {x : Node} (h : Awaits root s n) (hx : x ∈ n.preorder) :
    ¬ s.Mentions x := by
  rintro ⟨i, v, hi, -⟩
  rw [h.fresh x hx] at hi
  cases hi

/-- A visit advances every resolver that awaits it, in the visited node only. -/
theorem visits (wf : root.WellFormed) (n : Node) : Visits root n := by
  induction n using innerInduction with
  | step n hv =>
    intro owner s h
    obtain ⟨label, children⟩ := n
    rw [visit.eq_def]
    dsimp only
    split
    case h_1 hk | h_2 hk | h_3 hk =>
      refine h.toFaces.visitFunction wf hv (by rw [kind, hk]; rfl)
        (fun x hx => h.not_mentions (preorder_of_inner hx)) fun c hc _ x hx => ?_
      exact h.fresh x (preorder_of_inner (mem_inner.2 ⟨c, hc, hx⟩))
    case h_4 hk => exact h.visitTypeSwitch wf hv hk
    case h_5 hk | h_6 hk | h_7 hk | h_8 hk | h_9 hk | h_10 hk | h_11 hk | h_12 hk | h_13 hk =>
      exact h.visitScope wf hv (by rw [kind, hk]; rfl)
    case h_14 hk => exact h.visitShort wf hv hk
    case h_15 hk => exact h.visitSpecs wf hv (.inl hk)
    case h_16 hk => exact h.visitSpecs wf hv (.inr hk)
    case h_17 hk => exact h.visitAssignment wf hv (by rw [kind, hk]; rfl)
    case h_18 hk | h_19 hk =>
      split
      · exact h.visitClause wf hv (by simp [kind, hk])
      · exact h.visitSides wf hv (by rw [kind, hk]; rfl)
    case h_20 hk => exact h.recordUse wf.distinct hk
    case h_21 hk =>
      exact (h.advances_field wf hv (by rw [kind, hk]; rfl) .operand).up child?_subset
    case h_22 hk =>
      obtain ⟨visited, hsub, heq⟩ :=
        visitKeyed_eq_foldl owner (1 < (Node.mk label children).parts.length) children s
      rw [heq]
      have hall := (h.children wf (by rw [kind, hk]; rfl)).sublist
        (hsub.trans (filter_isPart_sublist ⟨label, children⟩))
      exact (hall.visit wf fun c hc => hv c (inner_of_mem_filter (hsub.subset hc))).up
        fun c hc => inner_of_mem_filter (hsub.subset hc)
    case h_30 =>
      refine h.visitAll wf hv ?_
      unfold Kind.opensScope
      split <;> first | rfl | contradiction
    all_goals exact .refl h.sound

end Handoff.Resolver
