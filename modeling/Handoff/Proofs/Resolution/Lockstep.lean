import Handoff.Proofs.Resolution.Visit
import Handoff.Proofs.Syntax.Likeness

/-!
# Two resolvers in lockstep

Visiting corresponding nodes of two trees makes two resolvers take corresponding steps. So a
relation between resolvers that each kind of step keeps is kept by visits, whatever the relation
says. It may depend on how many scopes are open: a construct that declares variables or assigns to
them stands in a function, hence in a scope besides that of the package.

## Main definitions

* `Resolver.Lockstep`: a relation that single steps keep.

## Main statement

* `Resolver.Lockstep.visit`: visits keep such a relation.
-/

namespace Handoff

open Syntax Node

namespace Resolver

/-- A relation between two resolvers, given how many scopes are open, that corresponding steps
keep. -/
structure Lockstep (N : Node → Node → Prop) (Rel : Nat → Resolver → Resolver → Prop) : Prop where
  enter {n n' : Node} {d : Nat} {s t : Resolver} : N n n' → n.kind.opensScope = true →
    Rel (d + 1) s t → Rel (d + 2) (s.enter n) (t.enter n')
  leave {d : Nat} {s t : Resolver} : Rel (d + 2) s t → Rel (d + 1) s.leave t.leave
  declareParameters {f f' : Node} {d : Nat} {s t : Resolver} : N f f' → Rel (d + 2) s t →
    Rel (d + 2) (s.declareParameters f) (t.declareParameters f')
  declareTargets {targets targets' : Node} {owner owner' : Option Node} {d : Nat} {s t : Resolver} :
    N targets targets' → Option.Rel N owner owner' → Rel (d + 2) s t →
    Rel (d + 2) (s.declareTargets owner targets) (t.declareTargets owner' targets')
  recordUse {n n' : Node} {d : Nat} {s t : Resolver} : N n n' → n.kind = .identifier →
    Rel (d + 1) s t → Rel (d + 1) (s.recordUse n) (t.recordUse n')
  shortTarget {site site' ident ident' : Node} {owner owner' : Option Node} {index d : Nat}
    {s t : Resolver} : N site site' → site.kind = .shortVarDeclaration → N ident ident' →
    ident.kind = .identifier → ident ∈ valuesIn site .left → Option.Rel N owner owner' →
      Rel (d + 2) s t →
    Rel (d + 2) (s.shortTarget owner site index ident) (t.shortTarget owner' site' index ident')
  specNames {spec spec' : Node} {owner owner' : Option Node} {d : Nat} {s t : Resolver} :
    N spec spec' → isValueSpec spec = true → Option.Rel N owner owner' → Rel (d + 2) s t →
    Rel (d + 2) (s.specNames owner spec) (t.specNames owner' spec')
  recordAssignment {site site' : Node} {d : Nat} {s t : Resolver} : N site site' →
    site.kind = .assignmentStatement → Rel (d + 2) s t →
    Rel (d + 2) (s.recordAssignment site) (t.recordAssignment site')

/-! ### Walks over parts -/

section Parts

variable {owner : Option Node} {site : Node} {cs : List Node} {s : Resolver}

theorem visitTargets_filter {l : List Node} (index : Nat) :
    visitTargets owner site index l s = visitTargets owner site index (l.filter isPart) s := by
  induction l generalizing index s with
  | nil => rfl
  | cons c cs ih =>
    rw [visitTargets, List.filter_cons]
    split
    next hpart => rw [visitTargets, if_pos hpart, ih]
    next => exact ih index

/-- The parts of a keyed element: the first one may be a field name, the others are visited. -/
theorem visitKeyed_eq (mayName : Bool) :
    visitKeyed owner mayName cs s =
      match cs.filter isPart with
      | [] => s
      | c :: rest => rest.foldl (fun s c => visit owner c s)
          (if mayName && isFieldName c then s else visit owner c s) := by
  have hrest : ∀ cs s, visitKeyed owner false cs s =
      (cs.filter isPart).foldl (fun s c => visit owner c s) s := by
    intro cs
    induction cs with
    | nil => exact fun s => by rw [visitKeyed, List.filter_nil, List.foldl_nil]
    | cons c cs ih =>
      intro s
      rw [visitKeyed, List.filter_cons]
      split
      · rw [ih, List.foldl_cons, Bool.false_and, if_neg Bool.false_ne_true]
      · exact ih s
  induction cs with
  | nil => rw [visitKeyed, List.filter_nil]
  | cons c cs ih =>
    rw [visitKeyed, List.filter_cons]
    split
    · exact hrest _ _
    · exact ih

theorem filter_eq_filter_parts {n : Node} {p : Node → Bool}
    (hp : ∀ c, p c = true → c.isPart = true) : n.children.filter p = n.parts.filter p := by
  rw [parts, List.filter_filter]
  refine List.filter_congr fun c _ => ?_
  cases hpc : p c with
  | false => rfl
  | true => rw [hp c hpc, Bool.true_and]

/-- Nodes that do no more than hold others. -/
theorem visit_eq_foldl {n : Node} (h : n.kind = .variadicArgument ∨ n.kind = .compositeLiteral ∨
    n.kind = .literalValue ∨ n.kind = .literalElement) :
    visit owner n s = n.parts.foldl (fun s c => visit owner c s) s := by
  obtain ⟨label, children⟩ := n
  change label.kind = _ ∨ label.kind = _ ∨ label.kind = _ ∨ label.kind = _ at h
  rw [parts, ← visitAll_eq_foldl]
  rcases h with h | h | h | h <;> rw [visit, h]

/-- A spread literal is visited element by element. -/
theorem visit_spread {argument literal type body : Node} (hkind : argument.kind = .variadicArgument)
    (hparts : argument.parts = [literal]) (h : IsLiteralOf literal type body) :
    visit owner argument s = (body.parts.map element).foldl (fun s c => visit owner c s) s := by
  rw [visit_eq_foldl (.inl hkind), hparts, List.foldl_cons, List.foldl_nil,
    visit_eq_foldl (.inr (.inl h.isComposite)), h.parts_eq, List.foldl_cons,
      List.foldl_cons, List.foldl_nil,
    h.mute, visit_eq_foldl (.inr (.inr (.inl h.kind_body))), List.foldl_map]
  refine List.foldl_ext _ _ _ fun s e he => ?_
  obtain ⟨hwrapped, hvalue, -⟩ := h.elements e he
  rw [visit_eq_foldl (.inr (.inr (.inr hwrapped))), hvalue, List.foldl_cons, List.foldl_nil]

end Parts

namespace Lockstep

variable {N : Node → Node → Prop} {Rel : Nat → Resolver → Resolver → Prop} {n n' : Node}
  {cs cs' : List Node} {owner owner' : Option Node} {d : Nat} {s t : Resolver}

/-- Visits of a node and its counterpart keep the relation, a statement apart that stands in no
function. -/
def Follows (N : Node → Node → Prop) (Rel : Nat → Resolver → Resolver → Prop) (n : Node) : Prop :=
  ∀ {n' owner owner' d s t}, N n n' → Option.Rel N owner owner' → (n.kind.isPlain = true ∨ d ≠ 0) →
    Rel (d + 1) s t → Rel (d + 1) (visit owner n s) (visit owner' n' t)

theorem visitAll (hcs : ∀ c ∈ cs, Follows N Rel c) (hN : List.Forall₂ N cs cs')
    (howner : Option.Rel N owner owner') (hplace : ∀ c ∈ cs, c.kind.isPlain = true ∨ d ≠ 0)
    (h : Rel (d + 1) s t) :
    Rel (d + 1) (cs.foldl (fun s c => visit owner c s) s)
      (cs'.foldl (fun s c => visit owner' c s) t) := by
  induction hN generalizing s t with
  | nil => exact h
  | cons hc _ ih =>
    obtain ⟨hfollows, hcs⟩ := List.forall_mem_cons.1 hcs
    obtain ⟨hfirst, hplace⟩ := List.forall_mem_cons.1 hplace
    exact ih hcs hplace (hfollows hc howner hfirst h)

variable (L : Likeness N)

include L

/-- The visit of a field keeps the relation. -/
theorem visitField (hchild : ∀ c ∈ n.children, Follows N Rel c) (f : Field) (hN : N n n')
    (howner : Option.Rel N owner owner') (hplace : ∀ c ∈ n.children, c.kind.isPlain = true ∨ d ≠ 0)
    (h : Rel (d + 1) s t) :
    Rel (d + 1) (visitField owner f n.children s) (visitField owner' f n'.children t) := by
  rw [visitField_eq, visitField_eq]
  change Rel _ (((n.child? f).map _).getD _) (((n'.child? f).map _).getD _)
  obtain ⟨hc, hc'⟩ | ⟨c, c', hc, hc', hNc⟩ := rel_cases (L.child? hN f)
  · rw [hc, hc']
    exact h
  · rw [hc, hc']
    have hmem := (mem_children_of_child? hc).1
    exact hchild c hmem hNc howner (hplace c hmem) h

/-- The arguments of a call, also where a literal is spread. -/
theorem visitArguments (hinner : ∀ m ∈ n.inner, Follows N Rel m) (hN : N n n')
    (hkind : n.kind = .argumentList) (howner : Option.Rel N owner owner')
    (hplace : ∀ c ∈ n.children, c.kind.isPlain = true ∨ d ≠ 0) (h : Rel (d + 1) s t) :
    Rel (d + 1) (Resolver.visitAll owner n.children s)
      (Resolver.visitAll owner' n'.children t) := by
  rw [visitAll_eq_foldl, visitAll_eq_foldl]
  change Rel _ (n.parts.foldl _ _) (n'.parts.foldl _ _)
  have hpart : ∀ c ∈ n.parts, c ∈ n.children := fun c hc => List.mem_of_mem_filter hc
  have hfollows : ∀ c ∈ n.parts, Follows N Rel c := fun c hc => hinner c (inner_of_mem_filter hc)
  cases L.arguments hN hkind with
  | same hparts => exact visitAll hfollows hparts howner (fun c hc => hplace c (hpart c hc)) h
  | @spread lead lead' elements argument literal type body hparts hargument hliteral his hparts'
      hlead helements =>
    rw [hparts, hparts', List.foldl_append, List.foldl_append, List.foldl_cons, List.foldl_nil]
    have hmem : ∀ c ∈ lead ++ [argument], c ∈ n.parts := fun c hc => hparts ▸ hc
    have harg : argument ∈ n.parts := hmem _ (by simp)
    have hstart := visitAll (fun c hc => hfollows c (hmem c (List.mem_append_left _ hc))) hlead
      howner (fun c hc => hplace c (hpart c (hmem c (List.mem_append_left _ hc)))) h
    rw [visit_spread hargument hliteral his]
    refine visitAll (fun c hc => hinner c ?_) helements howner (fun c hc => .inl ?_) hstart
    · obtain ⟨e, he, rfl⟩ := List.mem_map.1 hc
      have hliteral : literal ∈ argument.parts := by rw [hliteral]; exact List.mem_singleton_self _
      have hbody : body ∈ literal.parts := by rw [his.parts_eq]; simp
      have helement : e.element ∈ e.parts := by
        rw [(his.elements e he).2.1]
        exact List.mem_singleton_self _
      exact inner_trans (inner_of_mem_filter harg) (inner_trans (inner_of_mem_filter hliteral)
        (inner_trans (inner_of_mem_filter hbody) (inner_trans (inner_of_mem_filter he)
          (inner_of_mem_filter helement))))
    · obtain ⟨e, he, rfl⟩ := List.mem_map.1 hc
      rw [(his.elements e he).2.2]
      rfl

theorem visitParts (hinner : ∀ m ∈ n.inner, Follows N Rel m) (hN : N n n')
    (howner : Option.Rel N owner owner') (hplace : ∀ c ∈ n.children, c.kind.isPlain = true ∨ d ≠ 0)
    (h : Rel (d + 1) s t) :
    Rel (d + 1) (Resolver.visitAll owner n.children s)
      (Resolver.visitAll owner' n'.children t) := by
  by_cases hkind : n.kind = .argumentList
  · exact visitArguments L hinner hN hkind howner hplace h
  · rw [visitAll_eq_foldl, visitAll_eq_foldl]
    exact visitAll (fun c hc => hinner c (inner_of_mem_filter hc)) (L.parts hN hkind) howner
      (fun c hc => hplace c (List.mem_of_mem_filter hc)) h

variable (hRel : Lockstep N Rel)

include hRel

/-- A function: its parameters, then its body. -/
theorem visitFunction (hinner : ∀ m ∈ n.inner, Follows N Rel m) (hN : N n n')
    (hopens : n.kind.opensScope = true) (h : Rel (d + 1) s t) :
    Rel (d + 1) (s.inScope n fun s => visitBody (some n) n.children (s.declareParameters n))
      (t.inScope n' fun t => visitBody (some n') n'.children (t.declareParameters n')) := by
  rw [inScope_eq, inScope_eq]
  refine hRel.leave ?_
  have hparameters := hRel.declareParameters hN (hRel.enter hN hopens h)
  rw [visitBody_eq, visitBody_eq]
  change Rel _ (((n.child? .body).map _).getD _) (((n'.child? .body).map _).getD _)
  obtain ⟨hc, hc'⟩ | ⟨body, body', hc, hc', hbody⟩ := rel_cases (L.child? hN .body)
  · rw [hc, hc']
    exact hparameters
  · rw [hc, hc']
    have hchild := inner_of_child (mem_children_of_child? hc).1
    exact visitParts L (fun m hm => hinner m (inner_trans hchild hm)) hbody (.some hN)
      (fun _ _ => .inr (Nat.succ_ne_zero d)) hparameters

/-- The name of a type switch or the targets of a clause. -/
theorem targetsIn (hN : N n n') (howner : Option.Rel N owner owner') (h : Rel (d + 2) s t)
    (f : Field) :
    Rel (d + 2) (match n.child? f with | some found => s.declareTargets owner found | none => s)
      (match n'.child? f with | some found => t.declareTargets owner' found | none => t) := by
  obtain ⟨hc, hc'⟩ | ⟨c, c', hc, hc', hNc⟩ := rel_cases (L.child? hN f)
  · rw [hc, hc']
    exact h
  · rw [hc, hc']
    exact hRel.declareTargets hNc howner h

/-- A type switch: initializer and value, then the name, then the clauses. -/
theorem visitTypeSwitch (hinner : ∀ m ∈ n.inner, Follows N Rel m) (hN : N n n')
    (hkind : n.kind = .typeSwitchStatement) (howner : Option.Rel N owner owner')
    (h : Rel (d + 1) s t) : Rel (d + 1)
      (s.inScope n fun s => visitClauses owner n.children
        ((Resolver.visitField owner .value n.children
          (Resolver.visitField owner .initializer n.children s)).switchAlias owner n))
      (t.inScope n' fun t => visitClauses owner' n'.children
        ((Resolver.visitField owner' .value n'.children
          (Resolver.visitField owner' .initializer n'.children t)).switchAlias owner' n')) := by
  rw [inScope_eq, inScope_eq]
  refine hRel.leave ?_
  have hchild : ∀ c ∈ n.children, Follows N Rel c := fun c hc => hinner c (inner_of_child hc)
  have hplace : ∀ c ∈ n.children, c.kind.isPlain = true ∨ d + 1 ≠ 0 :=
    fun _ _ => .inr (Nat.succ_ne_zero d)
  have hheader := visitField L hchild .value hN howner hplace
    (visitField L hchild .initializer hN howner hplace (hRel.enter hN (by rw [hkind]; rfl) h))
  have hclause : ∀ c : Node, (decide (c.kind = .typeCase) || decide (c.kind = .defaultCase)) =
      true → c.isPart = true := by
    intro c hc
    obtain hc | hc := by simpa using hc
    · rw [isPart, hc]; rfl
    · rw [isPart, hc]; rfl
  rw [visitClauses_eq_foldl, visitClauses_eq_foldl, filter_eq_filter_parts hclause,
    filter_eq_filter_parts hclause]
  refine visitAll (fun c hc => hinner c (inner_of_mem_filter (List.mem_of_mem_filter hc)))
    (L.filter (p := fun k => k = .typeCase || k = .defaultCase)
      (L.parts hN (by rw [hkind]; decide)))
    howner (fun _ _ => .inr (Nat.succ_ne_zero d)) ?_
  exact targetsIn L hRel hN howner hheader .guardAlias

/-- The targets of a short declaration. -/
theorem visitTargets {site site' : Node} {index : Nat} (hcs : List.Forall₂ N cs cs')
    (hfollows : ∀ c ∈ cs, Follows N Rel c) (hpart : ∀ c ∈ cs, c.isPart = true)
    (hpart' : ∀ c ∈ cs', c.isPart = true) (hsite : N site site')
    (hkind : site.kind = .shortVarDeclaration) (hleft : ∀ c ∈ cs, c ∈ valuesIn site .left)
    (howner : Option.Rel N owner owner') (h : Rel (d + 2) s t) :
    Rel (d + 2) (Resolver.visitTargets owner site index cs s)
      (Resolver.visitTargets owner' site' index cs' t) := by
  induction hcs generalizing index s t with
  | nil =>
    rw [Resolver.visitTargets, Resolver.visitTargets]
    exact h
  | @cons c c' cs cs' hc _ ih =>
    obtain ⟨hfirst, hfollows⟩ := List.forall_mem_cons.1 hfollows
    obtain ⟨hcpart, hpart⟩ := List.forall_mem_cons.1 hpart
    obtain ⟨hcpart', hpart'⟩ := List.forall_mem_cons.1 hpart'
    obtain ⟨hcleft, hleft⟩ := List.forall_mem_cons.1 hleft
    rw [Resolver.visitTargets, Resolver.visitTargets, if_pos hcpart, if_pos hcpart']
    refine ih hfollows hpart hpart' hleft ?_
    rw [L.kind hc]
    split
    next hident => exact hRel.shortTarget hsite hkind hc hident hcleft howner h
    next => exact hfirst hc howner (.inr (Nat.succ_ne_zero d)) h

/-- A short declaration: the values, then the targets. -/
theorem visitShort (hinner : ∀ m ∈ n.inner, Follows N Rel m) (hN : N n n')
    (hkind : n.kind = .shortVarDeclaration) (howner : Option.Rel N owner owner')
    (h : Rel (d + 2) s t) :
    Rel (d + 2) (visitLeft owner n n.children (Resolver.visitField owner .right n.children s))
      (visitLeft owner' n' n'.children (Resolver.visitField owner' .right n'.children t)) := by
  have hvalues := visitField L (fun c hc => hinner c (inner_of_child hc)) .right hN howner
    (fun _ _ => .inr (Nat.succ_ne_zero d)) h
  rw [visitLeft_eq, visitLeft_eq]
  change Rel _ (((n.child? .left).map _).getD _) (((n'.child? .left).map _).getD _)
  obtain ⟨hc, hc'⟩ | ⟨left, left', hc, hc', hleft⟩ := rel_cases (L.child? hN .left)
  · rw [hc, hc']
    exact hvalues
  · have hchild := inner_of_child (mem_children_of_child? hc).1
    have hexpressions : valuesIn n .left = left.expressions := by rw [valuesIn, hc]; rfl
    rw [hc, hc', Option.map_some, Option.map_some, Option.getD_some, Option.getD_some, L.kind hleft]
    split
    next hlist =>
      rw [visitTargets_filter, visitTargets_filter (l := left'.children)]
      refine visitTargets L hRel (L.parts hleft (by rw [hlist]; decide))
        (fun c hc => hinner c (inner_trans hchild (inner_of_mem_filter hc)))
        (fun c hc => (List.mem_filter.1 hc).2) (fun c hc => (List.mem_filter.1 hc).2) hN hkind
        (fun c hc => ?_) howner hvalues
      rw [hexpressions, expressions, if_pos hlist]
      exact hc
    next hlist =>
      split
      next hident =>
        refine hRel.shortTarget hN hkind hleft hident ?_ howner hvalues
        rw [hexpressions, expressions, if_neg hlist]
        exact List.mem_singleton_self left
      next => exact hinner left hchild hleft howner (.inr (Nat.succ_ne_zero d)) hvalues

/-- The specs of a declaration in a function: values first, then names. -/
theorem visitSpecs (hinner : ∀ m ∈ n.inner, Follows N Rel m) (hN : N n n')
    (hkind : n.kind ≠ .argumentList) (howner : Option.Rel N owner owner') (h : Rel (d + 2) s t) :
    Rel (d + 2) (Resolver.visitSpecs owner n.children s)
      (Resolver.visitSpecs owner' n'.children t) := by
  have hpart : ∀ c : Node, isValueSpec c = true → c.isPart = true := by
    intro c hc
    rcases isValueSpec_iff.1 hc with hc | hc <;> rw [isPart, hc] <;> rfl
  rw [visitSpecs_eq_foldl, visitSpecs_eq_foldl, filter_eq_filter_parts hpart,
    filter_eq_filter_parts hpart]
  have hspecs : List.Forall₂ N (n.parts.filter isValueSpec) (n'.parts.filter isValueSpec) :=
    L.filter (p := fun k => k == .varSpec || k == .constSpec) (L.parts hN hkind)
  have hmem : ∀ c ∈ n.parts.filter isValueSpec, c ∈ n.inner ∧ isValueSpec c = true := fun c hc =>
    ⟨inner_of_mem_filter (List.mem_of_mem_filter hc), (List.mem_filter.1 hc).2⟩
  generalize n.parts.filter isValueSpec = specs, n'.parts.filter isValueSpec =
    specs' at hspecs hmem ⊢
  induction hspecs generalizing s t with
  | nil => exact h
  | cons hspec _ ih =>
    obtain ⟨⟨hc, hvalue⟩, hmem⟩ := List.forall_mem_cons.1 hmem
    refine ih (hRel.specNames hspec hvalue howner ?_) hmem
    exact visitField L (fun c hk => hinner c (inner_trans hc (inner_of_child hk))) .value hspec
      howner (fun _ _ => .inr (Nat.succ_ne_zero d)) h

omit hRel in
/-- A key and its value, the key unless it may be a field name. -/
theorem visitKeyed (hinner : ∀ m ∈ n.inner, Follows N Rel m) (hN : N n n')
    (hkind : n.kind = .keyedElement) (howner : Option.Rel N owner owner')
    (hplace : ∀ c ∈ n.children, c.kind.isPlain = true ∨ d ≠ 0) (h : Rel (d + 1) s t) :
    Rel (d + 1) (Resolver.visitKeyed owner (1 < n.parts.length) n.children s)
      (Resolver.visitKeyed owner' (1 < n'.parts.length) n'.children t) := by
  have hparts := L.parts hN (by rw [hkind]; decide)
  have hfollows : ∀ c ∈ n.parts, Follows N Rel c := fun c hc => hinner c (inner_of_mem_filter hc)
  have hplace : ∀ c ∈ n.parts, c.kind.isPlain = true ∨ d ≠ 0 := fun c hc =>
    hplace c (List.mem_of_mem_filter hc)
  rw [visitKeyed_eq, visitKeyed_eq, hparts.length_eq]
  change Rel _ (match n.parts with | [] => _ | c :: rest => _)
    (match n'.parts with | [] => _ | c :: rest => _)
  generalize n'.parts.length = count
  generalize n.parts = cs, n'.parts = cs' at hparts hfollows hplace ⊢
  cases hparts with
  | nil => exact h
  | @cons c c' rest rest' hc hrest =>
    obtain ⟨hfirst, hfollows⟩ := List.forall_mem_cons.1 hfollows
    obtain ⟨hcplace, hplace⟩ := List.forall_mem_cons.1 hplace
    have hname : isFieldName c' = isFieldName c := by
      rw [isFieldName, isFieldName, L.kind (L.element hc)]
    refine visitAll hfollows hrest howner hplace ?_
    rw [hname]
    split
    · exact h
    · exact hfirst hc howner hcplace h

/-- Visits of like nodes keep the relation. -/
theorem visit (wf : n.WellFormed) : Follows N Rel n := by
  induction n using innerInduction with
  | step n ih =>
    intro n' owner owner' d s t hN howner hplace h
    have hinner : ∀ m ∈ n.inner, Follows N Rel m :=
      fun m hm => ih m hm (wf.of_mem (preorder_of_inner hm))
    have hchild : ∀ c ∈ n.children, Follows N Rel c := fun c hc => hinner c (inner_of_child hc)
    -- a statement stands in a function, so that the scope of a function is open
    have hstatement : n.kind.isPlain = false → ∃ e, d = e + 1 := fun hkind =>
      Nat.exists_eq_succ_of_ne_zero (hplace.resolve_left (by rw [hkind]; exact Bool.false_ne_true))
    have hplaces : n.kind.isFunction = false → ∀ c ∈ n.children, c.kind.isPlain = true ∨ d ≠ 0 := by
      intro hkind c hc
      refine hplace.imp_left fun hplain => wf.plain n (self_mem_preorder n) ?_ c hc
      rw [Kind.isPlain, Bool.not_eq_true'] at hplain
      rw [Kind.holdsStatements, hplain, hkind]
      rfl
    have hkind := L.kind hN
    have htoken := L.hasToken hN
    obtain ⟨label, children⟩ := n
    obtain ⟨label', children'⟩ := n'
    change label'.kind = label.kind at hkind
    rw [visit.eq_def, visit.eq_def]
    dsimp only
    rw [hkind]
    -- one case for each kind that `visit` tells apart; nothing is left to do for types and comments
    split
    case h_1 hk | h_2 hk | h_3 hk => exact visitFunction L hRel hinner hN (by rw [kind, hk]; rfl) h
    case h_4 hk => exact visitTypeSwitch L hRel hinner hN hk howner h
    case h_5 hk | h_6 hk | h_7 hk | h_8 hk | h_9 hk | h_10 hk | h_11 hk | h_12 hk | h_13 hk =>
      rw [inScope_eq, inScope_eq]
      exact hRel.leave (visitParts L hinner hN howner (fun _ _ => .inr (Nat.succ_ne_zero d))
        (hRel.enter hN (by rw [kind, hk]; rfl) h))
    case h_14 hk =>
      obtain ⟨e, rfl⟩ := hstatement (by rw [kind, hk]; rfl)
      exact visitShort L hRel hinner hN hk howner h
    case h_15 hk | h_16 hk =>
      obtain ⟨e, rfl⟩ := hstatement (by rw [kind, hk]; rfl)
      exact visitSpecs L hRel hinner hN (by rw [kind, hk]; decide) howner h
    case h_17 hk =>
      have hplaces := hplaces (by rw [kind, hk]; rfl)
      obtain ⟨e, rfl⟩ := hstatement (by rw [kind, hk]; rfl)
      exact hRel.recordAssignment hN hk (visitField L hchild .left hN howner hplaces
        (visitField L hchild .right hN howner hplaces h))
    case h_18 hk | h_19 hk =>
      have hplaces := hplaces (by rw [kind, hk]; rfl)
      obtain ⟨e, rfl⟩ := hstatement (by rw [kind, hk]; rfl)
      have hright := visitField L hchild .right hN howner hplaces h
      rw [htoken]
      split
      · exact targetsIn L hRel hN howner hright .left
      · exact visitField L hchild .left hN howner hplaces hright
    case h_20 hk => exact hRel.recordUse hN hk h
    case h_21 hk => exact visitField L hchild .operand hN howner (hplaces (by rw [kind, hk]; rfl)) h
    case h_22 hk => exact visitKeyed L hinner hN hk howner (hplaces (by rw [kind, hk]; rfl)) h
    case h_30 =>
      refine visitParts L hinner hN howner (hplaces ?_) h
      unfold Kind.isFunction
      split <;> first | rfl | contradiction
    all_goals exact h

end Lockstep

end Resolver

end Handoff
