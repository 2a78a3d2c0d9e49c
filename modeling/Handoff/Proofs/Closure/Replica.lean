import Handoff.Proofs.Closure.Captures
import Handoff.Proofs.Syntax.Likeness
import Handoff.Verdict.Search

/-!
# Walks over replicas of a tree

A tree and a replica of it differ in comments, in the numbers of their nodes and in the places where
these stand. What a walk over the tree comes by, the same walk over the replica comes by at the
counterparts: the calls of a body, the values that a function returns, the elements of a literal,
the identifiers of a function.

## Main definitions

* `Syntax.Replica`: a relation between the nodes of a tree and of a replica.

## Main statements

* `CallSite.within_replica`: counterparts make counterparts of the same calls.
* `Search.returns_replica`: counterparts return counterparts.
* `Search.elementOf_replica`: literals that are counterparts have counterparts at a key.
-/

namespace Handoff

open Syntax Node

namespace Syntax

/-- A relation between the nodes of two trees that differ in comments, numbers and places only. -/
structure Replica (N : Node → Node → Prop) : Prop where
  kind {n n' : Node} : N n n' → n'.kind = n.kind
  field {n n' : Node} : N n n' → n'.field = n.field
  text {n n' : Node} : N n n' → n'.text = n.text
  parts {n n' : Node} : N n n' → List.Forall₂ N n.parts n'.parts
  inField {n n' : Node} (f : Field) : N n n' → List.Forall₂ N (n.inField f) (n'.inField f)
  hasToken {n n' : Node} : N n n' → n'.hasToken ":=" = n.hasToken ":="

namespace Replica

variable {N : Node → Node → Prop} {n n' m m' : Node}

theorem likeness (L : Replica N) : Likeness N where
  kind := L.kind
  field := L.field
  text h _ := L.text h
  parts h _ := L.parts h
  arguments h _ := .same (L.parts h)
  inField := L.inField
  hasToken := L.hasToken

theorem flip (L : Replica N) : Replica (flip N) where
  kind h := (L.kind h).symm
  field h := (L.field h).symm
  text h := (L.text h).symm
  parts h := (L.parts h).flip
  inField f h := (L.inField f h).flip
  hasToken h := (L.hasToken h).symm

/-- What carries meaning below a node has a counterpart below the counterpart of the node. -/
theorem exists_right (L : Replica N) (wf : n.WellFormed) (h : N n n') (hm : m ∈ n.preorder)
    (hpart : m.isPart = true) : ∃ m' ∈ n'.preorder, N m m' := by
  induction n using childrenInduction generalizing n' with
  | step n ih =>
    obtain rfl | hm := mem_preorder.1 hm
    · exact ⟨n', self_mem_preorder n', h⟩
    obtain ⟨c, hc, hm⟩ := mem_inner.1 hm
    have hcpart : c ∈ n.parts := mem_parts.2 ⟨hc, (wf.child hc).isPart_of_mem hm hpart⟩
    obtain ⟨c', hc', hN⟩ := rel_mem_left (L.parts h) hcpart
    obtain ⟨m', hm', hmm⟩ := ih c hc (wf.child hc) hN hm
    exact ⟨m', preorder_trans (preorder_of_inner (inner_of_mem_filter hc')) hm', hmm⟩

theorem exists_left (L : Replica N) (wf' : n'.WellFormed) (h : N n n') (hm' : m' ∈ n'.preorder)
    (hpart : m'.isPart = true) : ∃ m ∈ n.preorder, N m m' :=
  L.flip.exists_right wf' h hm' hpart

theorem arguments (L : Replica N) (h : N n n') : List.Forall₂ N n.arguments n'.arguments := by
  unfold Node.arguments
  obtain ⟨hc, hc'⟩ | ⟨c, c', hc, hc', hN⟩ := rel_cases (L.likeness.child? h .arguments)
  · simp [hc, hc']
  · simpa [hc, hc'] using L.parts hN

end Replica

end Syntax

section Lists

variable {α β γ δ : Type} {R : α → β → Prop} {S : γ → δ → Prop}

/-- What related options are mapped to, if anything. -/
theorem rel_getD_nil {a : Option α} {b : Option β} {f : α → List γ} {g : β → List δ}
    (h : Option.Rel R a b) (hfg : ∀ x y, x ∈ a → R x y → List.Forall₂ S (f x) (g y)) :
    List.Forall₂ S ((a.map f).getD []) ((b.map g).getD []) := by
  cases h with
  | none => exact .nil
  | some h => exact hfg _ _ rfl h

/-- Related lists, of which the members of the first are known to be such. -/
theorem rel_of_mem {l : List α} {l' : List β} (h : List.Forall₂ R l l') :
    List.Forall₂ (fun a b => R a b ∧ a ∈ l) l l' :=
  List.forall₂_iff_zip.2 ⟨h.length_eq, fun hmem =>
    ⟨(List.forall₂_iff_zip.1 h).2 hmem, (List.of_mem_zip hmem).1⟩⟩

theorem rel_flatMap_of_mem {l : List α} {l' : List β} {f : α → List γ} {g : β → List δ}
    (h : List.Forall₂ R l l') (hfg : ∀ x y, x ∈ l → R x y → List.Forall₂ S (f x) (g y)) :
    List.Forall₂ S (l.flatMap f) (l'.flatMap g) :=
  List.rel_flatMap (rel_of_mem h) fun x y hxy => hfg x y hxy.2 hxy.1

theorem rel_findSome? {l : List α} {l' : List β} {f : α → Option γ} {g : β → Option δ}
    (h : List.Forall₂ R l l') (hfg : ∀ x y, R x y → Option.Rel S (f x) (g y)) :
    Option.Rel S (l.findSome? f) (l'.findSome? g) := by
  induction h with
  | nil => exact .none
  | cons hxy _ ih =>
    rw [List.findSome?_cons, List.findSome?_cons]
    obtain ⟨hf, hg⟩ | ⟨z, w, hf, hg, hzw⟩ := rel_cases (hfg _ _ hxy)
    · simpa [hf, hg] using ih
    · simpa [hf, hg] using hzw

end Lists

/-! ### Calls -/

namespace CallSite

variable {N : Node → Node → Prop} {n n' : Node} {deferred : Bool} {cs : List Node}

theorem withinAll_eq : withinAll deferred cs = (cs.filter isPart).flatMap (within deferred) := by
  induction cs with
  | nil => simp [withinAll]
  | cons c cs ih => by_cases hc : c.isPart = true <;> simp [withinAll, hc, ih]

theorem withinStatements_filter :
    withinStatements deferred cs = withinStatements deferred (cs.filter isPart) := by
  induction cs with
  | nil => simp
  | cons c cs ih => by_cases hc : c.isPart = true <;> simp [withinStatements, hc, ih]

theorem withinFirst_eq :
    withinFirst deferred cs = ((cs.filter isPart).head?.map (within deferred)).getD [] := by
  induction cs with
  | nil => simp [withinFirst]
  | cons c cs ih => by_cases hc : c.isPart = true <;> simp [withinFirst, hc, ih]

theorem withinField_eq (n : Node) (f : Field) :
    withinField deferred f n.children = ((n.child? f).map (within deferred)).getD [] := by
  unfold child?
  induction n.children with
  | nil => simp [withinField]
  | cons c cs ih =>
    rw [withinField, List.find?_cons]
    by_cases hc : (c.field == some f) = true <;> simp [hc, ih]

theorem spawnArguments_eq :
    spawnArguments deferred cs =
      ((cs.filter isPart).head?.map fun c =>
        withinField deferred .arguments c.children).getD [] := by
  induction cs with
  | nil => simp [spawnArguments]
  | cons c cs ih =>
    obtain ⟨label, inner⟩ := c
    rw [spawnArguments]
    by_cases hc : (Node.mk label inner).isPart = true <;> simp [hc, ih]

theorem withinLiteralCallee_eq (n : Node) :
    withinLiteralCallee deferred n.children =
      ((n.child? .function).map (withinLiteral deferred)).getD [] := by
  unfold child?
  induction n.children with
  | nil => simp [withinLiteralCallee]
  | cons c cs ih =>
    rw [withinLiteralCallee, List.find?_cons]
    by_cases hc : (c.field == some .function) = true <;> simp [hc, ih]

theorem withinFirstLiteral_eq :
    withinFirstLiteral deferred cs =
      ((cs.filter isPart).head?.map (withinLiteral deferred)).getD [] := by
  induction cs with
  | nil => simp [withinFirstLiteral]
  | cons c cs ih => by_cases hc : c.isPart = true <;> simp [withinFirstLiteral, hc, ih]

/-- The walk by the kind of a node, with the children that it takes from fields. -/
theorem within_eq (n : Node) : within deferred n =
    match n.kind with
    | .block => withinStatements deferred n.parts
    | .funcLiteral => []
    | .goStatement =>
      if spawnsCall n then
        (n.parts.head?.map fun c => withinField deferred .arguments c.children).getD []
      else []
    | .deferStatement => (n.parts.head?.map (within true)).getD []
    | .callExpression =>
      ((n.child? .arguments).map (within deferred)).getD [] ++
        (if (n.child? .function).isNone then []
        else if calleeIsLiteral n then ((n.child? .function).map (withinLiteral deferred)).getD []
        else ((n.child? .function).map (within deferred)).getD [] ++ [⟨n, deferred⟩])
    | _ => n.parts.flatMap (within deferred) := by
  simp only [parts, ← withinStatements_filter, ← spawnArguments_eq, ← withinFirst_eq,
    ← withinField_eq, ← withinLiteralCallee_eq, ← withinAll_eq]
  obtain ⟨label, children⟩ := n
  rw [within]
  rfl

theorem withinLiteral_eq (n : Node) : withinLiteral deferred n =
    if n.kind = .parenthesizedExpression then (n.parts.head?.map (withinLiteral deferred)).getD []
    else ((n.child? .body).map (within deferred)).getD [] := by
  obtain ⟨label, children⟩ := n
  rw [withinLiteral, withinFirstLiteral_eq, withinField_eq ⟨label, children⟩]
  rfl

structure Alike (N : Node → Node → Prop) (a b : CallSite) : Prop where
  call : N a.call b.call
  deferred : b.deferred = a.deferred

/-- Statements up to a `return` have calls alike in two replicas. -/
theorem withinStatements_replica {cs cs' : List Node} (L : Replica N) (hcs : List.Forall₂ N cs cs')
    (hpart : ∀ c ∈ cs, c.isPart = true)
    (hwithin : ∀ c c', c ∈ cs → N c c' → List.Forall₂ (Alike N) (within deferred c)
      (within deferred c')) :
    List.Forall₂ (Alike N) (withinStatements deferred cs) (withinStatements deferred cs') := by
  induction hcs with
  | nil => simp [withinStatements]
  | @cons c c' cs cs' hc _ ih =>
    obtain ⟨hcpart, hpart⟩ := List.forall_mem_cons.1 hpart
    have hfirst := hwithin c c' (List.mem_cons_self ..) hc
    have hrest := ih hpart fun k k' hk => hwithin k k' (List.mem_cons_of_mem _ hk)
    rw [withinStatements, withinStatements, L.likeness.isPart hc, L.kind hc,
      if_pos hcpart, if_pos hcpart]
    refine List.rel_append hfirst ?_
    split
    · exact .nil
    · exact hrest

theorem spawnsCall_replica (L : Replica N) (h : N n n') : spawnsCall n' = spawnsCall n := by
  unfold spawnsCall
  obtain ⟨hc, hc'⟩ | ⟨c, c', hc, hc', hN⟩ := rel_cases (rel_head? (L.parts h))
  · simp [hc, hc']
  · simp [hc, hc', L.kind hN]

theorem calleeIsLiteral_replica (L : Replica N) (h : N n n') : calleeIsLiteral n' =
    calleeIsLiteral n := by
  unfold calleeIsLiteral
  obtain ⟨hc, hc'⟩ | ⟨c, c', hc, hc', hN⟩ := rel_cases (L.likeness.child? h .function)
  · simp [hc, hc']
  · simp [hc, hc', L.kind (L.likeness.bare hN)]

/-- Counterparts make counterparts of the same calls, and so do the bodies of literals that are
called on the spot. -/
theorem within_replica (L : Replica N) (h : N n n') (deferred : Bool) :
    List.Forall₂ (Alike N) (within deferred n) (within deferred n') ∧
      List.Forall₂ (Alike N) (withinLiteral deferred n) (withinLiteral deferred n') := by
  induction n using innerInduction generalizing n' deferred with
  | step n ih =>
    have hchild (f : Field) (deferred : Bool) : List.Forall₂ (Alike N)
        (((n.child? f).map (within deferred)).getD [])
        (((n'.child? f).map (within deferred)).getD []) :=
      rel_getD_nil (L.likeness.child? h f) fun c c' hc hN =>
        (ih c (inner_of_child (mem_children_of_child? hc).1) hN deferred).1
    have hmem : ∀ c ∈ n.parts, c ∈ n.inner := fun c hc => inner_of_mem_filter hc
    have hhead : ∀ c ∈ n.parts.head?, c ∈ n.inner := fun c hc => hmem c (List.mem_of_mem_head? hc)
    -- the walk of a node and that of a literal call one another, so both go into the induction
    constructor
    · rw [within_eq, within_eq, L.kind h]
      split
      · exact withinStatements_replica L (L.parts h) (fun c hc => (mem_parts.1 hc).2)
          fun c c' hc hN => (ih c (hmem c hc) hN deferred).1
      · exact .nil
      · rw [spawnsCall_replica L h]
        split
        · refine rel_getD_nil (rel_head? (L.parts h)) fun c c' hc hN => ?_
          rw [withinField_eq, withinField_eq]
          refine rel_getD_nil (L.likeness.child? hN .arguments) fun a a' ha hNa => ?_
          exact (ih a
            (inner_trans (hhead c hc) (inner_of_child (mem_children_of_child? ha).1)) hNa
            deferred).1
        · exact .nil
      · exact rel_getD_nil (rel_head? (L.parts h)) fun c c' hc hN => (ih c (hhead c hc) hN true).1
      · have hnone : (n'.child? .function).isNone = (n.child? .function).isNone := by
          obtain ⟨hc, hc'⟩ | ⟨c, c', hc, hc', -⟩ := rel_cases
            (L.likeness.child? h .function) <;> simp [hc, hc']
        refine List.rel_append (hchild .arguments deferred) ?_
        rw [hnone, calleeIsLiteral_replica L h]
        split
        · exact .nil
        · split
          · exact rel_getD_nil (L.likeness.child? h .function) fun c c' hc hN =>
              (ih c (inner_of_child (mem_children_of_child? hc).1) hN deferred).2
          · exact List.rel_append (hchild .function deferred) (.cons ⟨h, rfl⟩ .nil)
      · exact rel_flatMap_of_mem (L.parts h) fun c c' hc hN => (ih c (hmem c hc) hN deferred).1
    · rw [withinLiteral_eq, withinLiteral_eq, L.kind h]
      split
      · exact rel_getD_nil (rel_head? (L.parts h)) fun c c' hc hN =>
          (ih c (hhead c hc) hN deferred).2
      · exact hchild .body deferred

end CallSite

/-! ### Identifiers -/

namespace FunctionUnit

variable {N : Node → Node → Prop} {n n' : Node} {cs : List Node}

theorem ownIdentifiersAll_eq : ownIdentifiersAll cs =
    (cs.filter isPart).flatMap ownIdentifiers := by
  induction cs with
  | nil => simp [ownIdentifiersAll]
  | cons c cs ih => by_cases hc : c.isPart = true <;> simp [ownIdentifiersAll, hc, ih]

/-- The identifiers of counterparts are counterparts. -/
theorem ownIdentifiers_replica (L : Replica N) (h : N n n') :
    List.Forall₂ N (ownIdentifiers n) (ownIdentifiers n') := by
  induction n using innerInduction generalizing n' with
  | step n ih =>
    have hall : List.Forall₂ N (ownIdentifiersAll n.children) (ownIdentifiersAll n'.children) := by
      rw [ownIdentifiersAll_eq, ownIdentifiersAll_eq]
      exact rel_flatMap_of_mem (L.parts h) fun c c' hc hN => ih c (inner_of_mem_filter hc) hN
    rw [ownIdentifiers_eq, ownIdentifiers_eq, L.kind h]
    split
    · exact .nil
    · split
      · exact .cons h hall
      · exact hall

theorem ownIdentifiersAll_replica (L : Replica N) (h : N n n') :
    List.Forall₂ N (ownIdentifiersAll n.children) (ownIdentifiersAll n'.children) := by
  rw [ownIdentifiersAll_eq, ownIdentifiersAll_eq]
  exact List.rel_flatMap (L.parts h) fun _ _ hN => ownIdentifiers_replica L hN

end FunctionUnit

/-! ### Values that a search goes on with -/

namespace Search

variable {N : Node → Node → Prop} {n n' : Node} {cs : List Node}

theorem returnsAll_eq : returnsAll cs = (cs.filter isPart).flatMap returns := by
  induction cs with
  | nil => simp [returnsAll]
  | cons c cs ih => by_cases hc : c.isPart = true <;> simp [returnsAll, hc, ih]

theorem returns_eq (n : Node) : returns n =
    if n.kind.isFunction then []
    else if n.kind = .returnStatement then
      (n.parts.head?.bind fun list => list.expressions.head?).toList
    else n.parts.flatMap returns := by
  rw [parts, ← returnsAll_eq]
  obtain ⟨label, children⟩ := n
  rw [returns]
  rfl

/-- Counterparts return counterparts. -/
theorem returns_replica (L : Replica N) (h : N n n') : List.Forall₂ N (returns n) (returns n') := by
  induction n using innerInduction generalizing n' with
  | step n ih =>
    rw [returns_eq, returns_eq, L.kind h]
    split
    · exact .nil
    · split
      · obtain ⟨hc, hc'⟩ | ⟨list, list', hc, hc', hlist⟩ := rel_cases (rel_head? (L.parts h))
        · simp [hc, hc']
        · obtain ⟨he, he'⟩ | ⟨e, e', he, he', hN⟩ :=
            rel_cases (rel_head? (L.likeness.expressions hlist))
          · simp [hc, hc', he, he']
          · simpa [hc, hc', he, he'] using hN
      · exact rel_flatMap_of_mem (L.parts h) fun c c' hc hN => ih c (inner_of_mem_filter hc) hN

theorem returnedValues_replica (L : Replica N) (h : N n n') :
    List.Forall₂ N (returnedValues n) (returnedValues n') :=
  rel_getD_nil (L.likeness.child? h .body) fun _ _ _ hN => returns_replica L hN

theorem stripAddress_replica (L : Replica N) (h : N n n') :
    N (stripAddress n) (stripAddress n') := by
  unfold stripAddress
  have hbare := L.likeness.bare h
  dsimp only
  rw [L.kind hbare]
  split
  · obtain ⟨hc, hc'⟩ | ⟨c, c', hc, hc', hN⟩ := rel_cases (L.likeness.child? hbare .operand)
    · simpa [hc, hc'] using hbare
    · simpa [hc, hc'] using L.likeness.bare hN
  · exact hbare

theorem isMemberWrite_replica (L : Replica N) (h : N n n') :
    isMemberWrite n' = isMemberWrite n := by
  unfold isMemberWrite
  rw [L.kind h]
  obtain ⟨hc, hc'⟩ | ⟨c, c', hc, hc', hN⟩ := rel_cases (L.likeness.child? h .left)
  · simp [hc, hc']
  · have hany : ∀ {l l' : List Node}, List.Forall₂ N l l' →
        (l'.any fun t => t.bare.kind == .selectorExpression || t.bare.kind == .indexExpression) =
          l.any fun t => t.bare.kind == .selectorExpression || t.bare.kind == .indexExpression := by
      intro l l' hl
      induction hl with
      | nil => rfl
      | cons ht _ ih => simp [ih, L.kind (L.likeness.bare ht)]
    simp [hc, hc', hany (L.likeness.expressions hN)]

inductive Key.Alike (N : Node → Node → Prop) : Key → Key → Prop where
  | field (name : String) : Alike N (.field name) (.field name)
  | index {e e' : Node} : N e e' → Alike N (.index e) (.index e')

variable {key key' : Key}

theorem Key.Alike.text (L : Replica N) (hkey : Key.Alike N key key') : key'.text = key.text := by
  cases hkey with
  | field => rfl
  | index he => exact L.text he

theorem Key.ofExpression_replica (L : Replica N) (h : N n n') :
    Option.Rel (Key.Alike N) (Key.ofExpression n) (Key.ofExpression n') := by
  unfold Key.ofExpression
  rw [L.kind h]
  split
  · obtain ⟨hc, hc'⟩ | ⟨c, c', hc, hc', hN⟩ := rel_cases (L.likeness.child? h .member)
    · simp [hc, hc']
    · simpa [hc, hc', L.text hN] using Key.Alike.field c.text
  · obtain ⟨hc, hc'⟩ | ⟨c, c', hc, hc', hN⟩ := rel_cases (L.likeness.child? h .index)
    · simp [hc, hc']
    · simpa [hc, hc'] using Key.Alike.index hN

theorem Key.isOf_replica (L : Replica N) (hkey : Key.Alike N key key') (h : N n n') :
    key'.isOf n' = key.isOf n := by
  cases hkey with
  | field name =>
    obtain ⟨hc, hc'⟩ | ⟨c, c', hc, hc', hN⟩ := rel_cases (L.likeness.child? h .member)
    · simp [Key.isOf, hc, hc']
    · simp [Key.isOf, hc, hc', L.kind h, L.text hN]
  | @index e e' he =>
    obtain ⟨hc, hc'⟩ | ⟨c, c', hc, hc', hN⟩ := rel_cases (L.likeness.child? h .index)
    · simp [Key.isOf, hc, hc']
    · simp [Key.isOf, hc, hc', L.kind h, L.text hN, L.text he]

theorem keyedElement?_replica {es es' : List Node} (L : Replica N) (hkey : Key.Alike N key key')
    (hes : List.Forall₂ N es es') : Option.Rel N (keyedElement? key es)
      (keyedElement? key' es') := by
  refine rel_findSome? hes fun e e' he => ?_
  rw [L.kind he, hkey.text L]
  split
  · have hparts := L.parts he
    generalize e.parts = ps, e'.parts = ps' at hparts
    obtain hnil | ⟨hk, hnil | ⟨hv, -⟩⟩ := hparts
    · exact .none
    · exact .none
    · dsimp only
      rw [L.text (L.likeness.element hk)]
      split
      · exact .some (L.likeness.element hv)
      · exact .none
  · exact .none

/-- Literals that are counterparts have counterparts at a key. -/
theorem elementOf_replica (L : Replica N) (hkey : Key.Alike N key key') (h : N n n') :
    Option.Rel N (elementOf n key) (elementOf n' key') := by
  unfold elementOf
  obtain ⟨hc, hc'⟩ | ⟨body, body', hc, hc', hbody⟩ := rel_cases (L.likeness.child? h .body)
  · simp [hc, hc']
  have hparts := L.parts hbody
  simp only [hc, hc', bind, Option.bind]
  obtain ⟨hv, hv'⟩ | ⟨v, v', hv, hv', hN⟩ := rel_cases (keyedElement?_replica L hkey hparts)
  · rw [hv, hv']
    cases hkey with
    | field => exact .none
    | @index e e' he =>
      dsimp only
      rw [L.kind he, L.text he]
      split
      · have hplain : List.Forall₂ N (body.parts.filter fun e => e.kind != .keyedElement)
            (body'.parts.filter fun e => e.kind != .keyedElement) :=
          L.likeness.filter (p := (· != .keyedElement)) hparts
        cases position? e.text with
        | none => exact .none
        | some i =>
          dsimp only
          obtain ⟨hp, hp'⟩ | ⟨p, p', hp, hp', hN⟩ := rel_cases (rel_getElem? hplain i)
          · rw [hp, hp']
            exact .none
          · rw [hp, hp']
            exact .some (L.likeness.element hN)
      · exact .none
  · rw [hv, hv']
    exact .some hN

theorem elementValue?_replica (L : Replica N) (h : N n n') :
    Option.Rel N (elementValue? n) (elementValue? n') := by
  unfold elementValue?
  rw [L.kind h]
  split
  · obtain ⟨hc, hc'⟩ | ⟨c, c', hc, hc', hN⟩ := rel_cases (rel_getElem? (L.parts h) 1)
    · simp [hc, hc']
    · simpa [hc, hc'] using L.likeness.element hN
  · exact .some (L.likeness.element h)

end Search

end Handoff
