import Handoff.Proofs.Resolution.Provenance
import Handoff.Proofs.Verdict.Literal

/-!
# What a search can answer

The functions that a search tests are function literals and function declarations of the file, and
combining answers selects one of them. So whatever a search goes through, its answer is the assumed
one, the answer that the arguments of a factory call give, or the answer on one function of the
file. What cannot be followed, is too deep or was entered before adds nothing but the assumed
answer.

## Main definitions

* `Search.Answer`: the answers that a search of a file may give.

## Main statements

* `Search.answer_search`: every search gives such an answer.
* `Search.search_culprit`: a search that fails has a function of the file to blame.
-/

namespace Handoff

open Syntax Node

variable {r : Resolution} {n expr site : Node} {visited : List Nat}

theorem Resolution.Grounded.bindingOf (h : r.Grounded) {i : Nat} {b : Binding}
    (hb : r.bindingOf n = some (i, b)) : b.Grounded r.root := by
  obtain ⟨-, hb⟩ := bindingOf_eq_some.1 hb
  exact h.binding b (List.mem_of_getElem? hb)

namespace Search

/-! ### Expressions that a search goes on with -/

theorem element_mem_preorder (n : Node) : n.element ∈ n.preorder := by
  unfold element
  split
  · cases hhead : n.parts.head? with
    | none => exact self_mem_preorder n
    | some c => exact preorder_of_inner (inner_of_mem_filter (List.mem_of_mem_head? hhead))
  · exact self_mem_preorder n

theorem parts_subset : n.parts ⊆ n.preorder := fun _ hc =>
  preorder_of_inner (inner_of_mem_filter hc)

theorem arguments_subset : n.arguments ⊆ n.preorder := by
  unfold arguments
  cases hlist : n.child? .arguments with
  | none => exact List.nil_subset _
  | some list =>
    exact fun e he => preorder_trans (preorder_of_child? hlist) (parts_subset he)

theorem stripAddress_mem_preorder (n : Node) : stripAddress n ∈ n.preorder := by
  unfold stripAddress
  have hbare := bare_mem_preorder n
  dsimp only
  split
  · cases hoperand : n.bare.child? .operand with
    | none => exact hbare
    | some operand =>
      have hchild := preorder_of_child? hoperand
      exact preorder_trans hbare (preorder_trans hchild (bare_mem_preorder operand))
  · exact hbare

theorem keyedElement?_mem {key : Key} {elements : List Node} {value : Node}
    (h : keyedElement? key elements = some value) : ∃ e ∈ elements, value ∈ e.preorder := by
  obtain ⟨e, he, hvalue⟩ := List.exists_of_findSome?_eq_some h
  refine ⟨e, he, ?_⟩
  split at hvalue
  · split at hvalue
    next k v rest hparts =>
      obtain ⟨-, hvalue⟩ := Option.ite_none_right_eq_some.1 hvalue
      cases hvalue
      exact preorder_trans (parts_subset (by simp [hparts])) (element_mem_preorder v)
    next => cases hvalue
  · cases hvalue

/-- An element of a literal stands in the literal. -/
theorem elementOf_mem_preorder {key : Key} {value : Node} (h : elementOf n key = some value) :
    value ∈ n.preorder := by
  obtain ⟨body, hbody, h⟩ := Option.bind_eq_some_iff.1 h
  have hmem := preorder_of_child? hbody
  dsimp only at h
  split at h
  next found hfound =>
    obtain ⟨e, he, hvalue⟩ := keyedElement?_mem hfound
    cases h
    exact preorder_trans hmem (preorder_trans (parts_subset he) hvalue)
  next =>
    split at h
    · split at h
      · obtain ⟨i, -, h⟩ := Option.bind_eq_some_iff.1 h
        obtain ⟨e, he, h⟩ := Option.bind_eq_some_iff.1 h
        cases h
        have he := List.mem_of_mem_filter (List.mem_of_getElem? he)
        exact preorder_trans hmem (preorder_trans (parts_subset he) (element_mem_preorder e))
      · cases h
    · cases h

theorem elementValue?_mem_preorder {value : Node} (h : elementValue? n = some value) :
    value ∈ n.preorder := by
  unfold elementValue? at h
  split at h
  · obtain ⟨e, he, rfl⟩ := Option.map_eq_some_iff.1 h
    exact preorder_trans (parts_subset (List.mem_of_getElem? he)) (element_mem_preorder e)
  · cases h
    exact element_mem_preorder n

/-- What a function returns stands in it. -/
theorem returns_subset (n : Node) : returns n ⊆ n.preorder := by
  induction n using childrenInduction with
  | step n ih =>
    have hall : ∀ cs ⊆ n.children, returnsAll cs ⊆ n.preorder := by
      intro cs hcs
      induction cs with
      | nil =>
        rw [returnsAll]
        exact List.nil_subset _
      | cons c cs ihcs =>
        obtain ⟨hc, hcs⟩ := List.cons_subset.1 hcs
        rw [returnsAll]
        refine List.append_subset.2 ⟨?_, ihcs hcs⟩
        split
        · exact fun e he => preorder_of_inner (mem_inner.2 ⟨c, hc, ih c hc he⟩)
        · exact List.nil_subset _
    obtain ⟨label, children⟩ := n
    rw [returns]
    split
    · exact List.nil_subset _
    · split
      · intro e he
        obtain ⟨list, hlist, he⟩ := Option.bind_eq_some_iff.1 (Option.mem_toList.1 he)
        exact preorder_trans (parts_subset (List.mem_of_mem_head? hlist))
          (expressions_subset (List.mem_of_mem_head? he))
      · exact hall _ (List.Subset.refl _)

theorem returnedValues_subset : returnedValues n ⊆ n.preorder := by
  unfold returnedValues
  cases hbody : n.child? .body with
  | none => exact List.nil_subset _
  | some body =>
    exact fun e he => preorder_trans (preorder_of_child? hbody) (returns_subset body he)

/-! ### Functions and writes that a search reaches -/

def Candidate (root f : Node) : Prop :=
  f ∈ root.preorder ∧ (f.kind = .funcLiteral ∨ f.kind = .functionDeclaration)

section Grounded

variable (hr : r.Grounded)
include hr

theorem candidate_of_function {i : Nat} {b : Binding} {d : Node} (hb : r.bindingOf n = some (i, b))
    (hkind : b.kind = .function d) : Candidate r.root d := by
  have hdeclared := (hr.bindingOf hb).declared
  rw [hkind] at hdeclared
  exact ⟨hdeclared.1, .inr hdeclared.2⟩

theorem candidate_of_write {i : Nat} {b : Binding} {w : Write} {value : Node}
    (hb : r.bindingOf n = some (i, b)) (hw : w ∈ b.writes) (hvalue : w.value = some value)
    (hkind : value.bare.kind = .funcLiteral) : Candidate r.root value.bare :=
  ⟨preorder_trans ((hr.bindingOf hb).written hw hvalue) (bare_mem_preorder value), .inl hkind⟩

theorem candidate_of_declaration? {declaration : Node}
    (h : ((r.bindingOf n).bind fun (_, b) => b.kind.declaration?) = some declaration) :
    Candidate r.root declaration := by
  obtain ⟨⟨i, b⟩, hb, hkind⟩ := Option.bind_eq_some_iff.1 h
  dsimp only at hkind
  cases hk : b.kind with
  | function d =>
    rw [hk] at hkind
    cases hkind
    exact candidate_of_function hr hb hk
  | packageVariable | parameter | localVariable => simp [hk, BindingKind.declaration?] at hkind

/-- The functions that a callee can stand for are functions of the file. -/
theorem candidate_of_factories {depth : Nat} {callee f : Node} (hcallee : callee ∈ r.root.preorder)
    (hf : f ∈ factories r depth callee) : Candidate r.root f := by
  induction depth generalizing callee f with
  | zero =>
    rw [factories] at hf
    cases hf
  | succ depth ih =>
    -- a call stands for what the functions it calls return, one level down
    have hbare := preorder_trans hcallee (bare_mem_preorder callee)
    rw [factories] at hf
    split at hf
    next hkind =>
      obtain rfl := List.mem_singleton.1 hf
      exact ⟨hbare, .inl hkind⟩
    next =>
      split at hf
      · cases hf
      next i b hb =>
        split at hf
        next d hk =>
          obtain rfl := List.mem_singleton.1 hf
          exact candidate_of_function hr hb hk
        next bySpec only hk hwrites =>
          obtain ⟨hvalue, hkind⟩ := Option.filter_eq_some_iff.1 (Option.mem_toList.1 hf)
          obtain ⟨value, hsome, rfl⟩ := Option.map_eq_some_iff.1 hvalue
          exact candidate_of_write hr hb (by simp [hwrites]) hsome (eq_of_beq hkind)
        · cases hf
    next =>
      split at hf
      · cases hf
      next inner hinner =>
        have hmem := preorder_trans hbare (preorder_of_child? hinner)
        obtain ⟨value, hvalue, hf⟩ := List.mem_flatMap.1 hf
        obtain ⟨factory, hfactory, hvalue⟩ := List.mem_flatMap.1 hvalue
        exact ih (preorder_trans (ih hmem hfactory).1 (returnedValues_subset hvalue)) hf
    · cases hf

theorem written_mem_preorder {i : Nat} {b : Binding} {s : Supply} {value : Node}
    (hb : r.bindingOf n = some (i, b)) (hs : s ∈ writesOf i b) (hvalue : s.value = some value) :
    value ∈ r.root.preorder := by
  obtain ⟨w, hw, rfl⟩ := List.mem_map.1 hs
  exact (hr.bindingOf hb).written hw hvalue

end Grounded

/-- A write to a field or an element of a variable: an assignment whose target selects it. -/
theorem mem_memberWritesAt {key : Key} {i : Nat} {b : Binding} {s : Supply}
    (hs : s ∈ memberWritesAt r key i b n) :
    n.kind = .assignmentStatement ∧ s.site = n ∧ ∃ left right target value operand,
      n.child? .left = some left ∧ n.child? .right = some right ∧ target ∈ left.expressions ∧
      value ∈ right.expressions ∧ s.value = some value ∧
        target.bare.child? .operand = some operand ∧
      operand.bare.kind = .identifier ∧ r.useOf operand.bare = some i ∧
        key.isOf target.bare = true := by
  unfold memberWritesAt at hs
  split at hs
  · cases hs
  next hkind =>
    split at hs
    next left right hleft hright =>
      dsimp only at hs
      split at hs
      · cases hs
      · obtain ⟨⟨target, value⟩, hmem, hs⟩ := List.mem_filterMap.1 hs
        obtain ⟨hof, hs⟩ := Option.ite_none_right_eq_some.1 hs
        cases hs
        obtain ⟨htarget, hvalue⟩ := List.of_mem_zip hmem
        obtain ⟨hvariable, hkey⟩ := Bool.and_eq_true_iff.1 hof
        obtain ⟨operand, hoperand, hident⟩ : ∃ operand, target.bare.child? .operand = some operand ∧
            operand.bare.kind = .identifier ∧ r.useOf operand.bare = some i := by
          cases hoperand : target.bare.child? .operand with
          | none => simp [hoperand] at hvariable
          | some operand => exact ⟨operand, rfl, by simpa [hoperand] using hvariable⟩
        exact ⟨by simpa using hkind, rfl, left, right, target, value, operand, hleft, hright,
          htarget, hvalue, rfl, hoperand, hident.1, hident.2, hkey⟩
    next => cases hs

theorem memberWrites_eq (r : Resolution) (key : Key) (i : Nat) (b : Binding) :
    memberWrites r key i b =
    (r.root.preorder.filter (·.kind == .assignmentStatement)).flatMap (memberWritesAt r key i b) :=
  (flatMap_filter_of_nil fun n _ hkind => by simp [memberWritesAt, bne, hkind]).symm

theorem memberWrites_value_mem {key : Key} {i : Nat} {b : Binding} {s : Supply} {value : Node}
    (hs : s ∈ memberWrites r key i b) (hvalue : s.value = some value) :
    s.site ∈ r.root.preorder ∧ value ∈ s.site.preorder := by
  obtain ⟨assignment, hmem, hs⟩ := List.mem_flatMap.1 hs
  obtain ⟨-, rfl, left, right, target, found, operand, -, hright, -, hfound, heq, -⟩ :=
    mem_memberWritesAt hs
  obtain rfl := Option.some.inj (hvalue.symm.trans heq)
  exact ⟨hmem, preorder_trans (preorder_of_child? hright) (expressions_subset hfound)⟩

theorem fromLast_subset {α : Type} (p : α → Bool) (xs : List α) : fromLast p xs ⊆ xs := by
  refine List.foldlRecOn (motive := fun kept => kept ⊆ xs) xs _
    (List.nil_subset _) fun kept hkept x hx => ?_
  split
  · exact List.cons_subset.2 ⟨hx, List.nil_subset _⟩
  · exact List.append_subset.2 ⟨hkept, List.cons_subset.2 ⟨hx, List.nil_subset _⟩⟩

theorem reaching_subset (supplies : List Supply) (site : Node) :
    reaching supplies site ⊆ supplies :=
  fun _ hs => List.mem_of_mem_filter (mem_sorted.1 (fromLast_subset _ _ hs))

/-! ### Answers -/

variable {V : Type} [Verdict V] {test : ClosureTest V} {next : Follow V}

inductive Answer (r : Resolution) (test : ClosureTest V) : V → Prop where
  | assumed : Answer r test Verdict.assumed
  | arguments {call : Node} {answer : V} : call ∈ r.root.preorder →
      test.factoryArguments call = some answer → Answer r test answer
  | function {f : Node} : Candidate r.root f → Answer r test (test.function f)

/-- Combining two answers selects one of them. -/
structure Selective (V : Type) [Verdict V] : Prop where
  both : ∀ a b : V, Verdict.both a b = a ∨ Verdict.both a b = b
  either : ∀ a b : V, Verdict.either a b = a ∨ Verdict.either a b = b

theorem selective_bool : Selective Bool where
  both := by decide
  either := by decide

theorem selective_outcome : Selective Outcome where
  both a b := by
    change ite _ _ _ = a ∨ ite _ _ _ = b
    split <;> simp
  either a b := by
    change ite _ _ _ = a ∨ ite _ _ _ = b
    split <;> simp

/-- A search from a deeper level that gives such answers on expressions of the file. -/
def Answers (r : Resolution) (test : ClosureTest V) (next : Follow V) : Prop :=
  ∀ goal expr site visited, expr ∈ r.root.preorder → Answer r test (next goal expr site visited)

section Answer

variable (hV : Selective V)
include hV

theorem Answer.all {answers : List V} (h : ∀ a ∈ answers, Answer r test a) :
    Answer r test (Verdict.all answers) := by
  refine List.foldlRecOn answers _ .assumed fun a ha b hb => ?_
  obtain heq | heq := hV.both a b <;> rw [heq]
  · exact ha
  · exact h b hb

theorem Answer.some {answers : List V} (h : ∀ a ∈ answers, Answer r test a) :
    Answer r test (Verdict.some answers) := by
  cases answers with
  | nil => exact .assumed
  | cons first answers =>
    obtain ⟨hfirst, h⟩ := List.forall_mem_cons.1 h
    refine List.foldlRecOn answers _ hfirst fun a ha b hb => ?_
    obtain heq | heq := hV.either a b <;> rw [heq]
    · exact ha
    · exact h b hb

/-- The writes behind a name give only answers that a search may give. -/
theorem Answer.throughBinding {ident : Node} {supplies : Nat → Binding → List Supply}
    {follow : Node → Node → List Nat → V}
    (hsupplies : ∀ i b, r.bindingOf ident = .some (i, b) → ∀ s ∈ supplies i b, ∀ value,
      s.value = .some value → value ∈ r.root.preorder)
    (hfollow : ∀ value site visited, value ∈ r.root.preorder →
      Answer r test (follow value site visited)) :
    Answer r test (throughBinding r ident site visited supplies follow) := by
  unfold Search.throughBinding
  split
  · exact .assumed
  next i b hb =>
    extract_lets isVariable
    split
    · exact .assumed
    · refine .all hV fun a ha => ?_
      obtain ⟨s, hs, rfl⟩ := List.mem_map.1 ha
      split
      next value hvalue =>
        exact hfollow value _ _ (hsupplies i b hb s (reaching_subset _ _ hs) value hvalue)
      next => exact .assumed

variable (hr : r.Grounded) (hnext : Answers r test next)
include hr hnext

theorem Answer.identifier {ident : Node} :
    Answer r test (identifier r test next ident site visited) := by
  unfold Search.identifier
  split
  next declaration h => exact .function (candidate_of_declaration? hr h)
  next =>
    exact .throughBinding hV (fun i b hb s hs value => written_mem_preorder hr hb hs)
      fun value site visited => hnext _ value site visited

theorem Answer.factoryCall {depth : Nat} {call : Node} (hcall : call ∈ r.root.preorder) :
    Answer r test (factoryCall r test next depth call visited) := by
  unfold Search.factoryCall
  split
  next answer h => exact .arguments hcall h
  next =>
    split
    · exact .assumed
    next callee hcallee =>
      split
      · exact .assumed
      · refine .some hV fun a ha => ?_
        obtain ⟨f, hf, ha⟩ := List.mem_flatMap.1 ha
        obtain ⟨value, hvalue, rfl⟩ := List.mem_map.1 ha
        have hmem := preorder_trans hcall (preorder_of_child? hcallee)
        -- a factory is a function of the file, so what it returns is an expression of the file
        have hf := candidate_of_factories hr hmem (List.mem_of_mem_filter hf)
        exact hnext _ _ _ _ (preorder_trans hf.1 (returnedValues_subset hvalue))

omit hV hr in
theorem Answer.memberOf {key : Key} {value : Node} (hvalue : value ∈ r.root.preorder) :
    Answer r test (memberOf next key value site visited) := by
  have hmem := preorder_trans hvalue (stripAddress_mem_preorder value)
  unfold Search.memberOf
  dsimp only
  split
  · split
    next element helement =>
      exact hnext _ _ _ _ (preorder_trans hmem (elementOf_mem_preorder helement))
    next => exact .assumed
  · split
    · exact hnext _ _ _ _ hmem
    · exact .assumed

theorem Answer.member (hexpr : expr ∈ r.root.preorder) :
    Answer r test (member r next expr site visited) := by
  unfold Search.member
  split
  next base key hbase _ =>
    have hmem := preorder_trans (preorder_trans hexpr (preorder_of_child? hbase))
      (bare_mem_preorder base)
    dsimp only
    split
    · split
      next value hvalue => exact hnext _ _ _ _ (preorder_trans hmem (elementOf_mem_preorder hvalue))
      next => exact .assumed
    · refine .throughBinding hV (fun i b hb s hs value hvalue => ?_)
        fun value site visited => Answer.memberOf hnext
      obtain hs | hs := List.mem_append.1 hs
      · exact written_mem_preorder hr hb hs hvalue
      · obtain ⟨hsite, hmem⟩ := memberWrites_value_mem hs hvalue
        exact preorder_trans hsite hmem
    · exact .assumed
  next => exact .assumed

theorem Answer.closureStep {depth : Nat} (hexpr : expr ∈ r.root.preorder) :
    Answer r test (closureStep r test next depth expr site visited) := by
  have hbare := preorder_trans hexpr (bare_mem_preorder expr)
  unfold Search.closureStep
  dsimp only
  split
  next hkind => exact .function ⟨hbare, .inl hkind⟩
  next => exact .identifier hV hr hnext
  next => exact .factoryCall hV hr hnext hbare
  next => exact .member hV hr hnext hbare
  next => exact .member hV hr hnext hbare
  next => exact .assumed

theorem Answer.taskStep {wrapper : TaskConstructor} (hexpr : expr ∈ r.root.preorder) :
    Answer r test (taskStep r next wrapper expr site visited) := by
  have hbare := preorder_trans hexpr (bare_mem_preorder expr)
  unfold Search.taskStep
  dsimp only
  split
  · split
    · split
      next argument hargument =>
        exact hnext _ _ _ _
          (preorder_trans hbare (arguments_subset (List.mem_of_getElem? hargument)))
      next => exact .assumed
    · exact .assumed
  · exact .throughBinding hV (fun i b hb s hs value => written_mem_preorder hr hb hs)
      fun value site visited => hnext _ value site visited
  · exact .assumed

theorem Answer.collectionStep {wrapper : Option TaskConstructor} (hexpr : expr ∈ r.root.preorder) :
    Answer r test (collectionStep r next wrapper expr site visited) := by
  have hbare := preorder_trans hexpr (bare_mem_preorder expr)
  unfold Search.collectionStep
  dsimp only
  split
  -- the elements of a composite literal
  · split
    · exact .assumed
    next body hbody =>
      refine .all hV fun a ha => ?_
      obtain ⟨value, hvalue, rfl⟩ := List.mem_map.1 ha
      obtain ⟨element, helement, hvalue⟩ := List.mem_filterMap.1 hvalue
      have hmem := preorder_trans hbare (preorder_of_child? hbody)
      exact hnext _ _ _ _ (preorder_trans hmem
        (preorder_trans (parts_subset helement) (elementValue?_mem_preorder hvalue)))
  -- the arguments of a call of `append`
  · split
    · refine .all hV fun a ha => ?_
      obtain ⟨argument, hargument, rfl⟩ := List.mem_map.1 ha
      have hmem := preorder_trans hbare (arguments_subset (List.mem_of_mem_drop hargument))
      split
      · split
        next inner hinner =>
          exact hnext _ _ _ _ (preorder_trans hmem (parts_subset (List.mem_of_mem_head? hinner)))
        next => exact .assumed
      · exact hnext _ _ _ _ hmem
    · exact .assumed
  -- the writes of a variable
  · refine .throughBinding hV (fun i b hb s hs value hvalue => ?_)
      fun value site visited => hnext _ value site visited
    obtain ⟨w, hw, rfl⟩ := List.mem_map.1 hs
    exact (hr.bindingOf hb).written hw hvalue
  · exact .assumed

end Answer

/-- Whatever a search looks for in an expression of the file, it gives one of the answers above. -/
theorem answer_search (hV : Selective V) (hr : r.Grounded) (depth : Nat) :
    Answers r test (search r test depth) := by
  induction depth with
  | zero => exact fun _ _ _ _ _ => .assumed
  | succ depth ih =>
    intro goal expr site visited hexpr
    cases goal with
    | closure => exact .closureStep hV hr ih hexpr
    | task wrapper => exact .taskStep hV hr ih hexpr
    | collection wrapper => exact .collectionStep hV hr ih hexpr

/-! ### Failures -/

/-- A function of the file that has a body, declares no context and mentions none. -/
def Culprit (r : Resolution) (carriers : Carriers) (f : Node) : Prop :=
  Candidate r.root f ∧ declaresToken r.imports carriers f = false ∧
    ∃ body, f.child? .body = some body ∧ mentionsToken r carriers false body = false

def HasOutcome (r : Resolution) (requirement : Requirement) (outcome : Outcome) : Prop :=
  ∃ f body, Candidate r.root f ∧ f.child? .body = some body ∧
    requirement.outcome r (CallSite.ofBody body) = outcome

/-- A failing search has tested a function that fails. -/
theorem Answer.exists_culprit {carriers : Carriers} {passes : Bool}
    (h : Answer r (captureTest r carriers) passes) (hfails : passes = false) :
    ∃ f, Culprit r carriers f := by
  cases h with
  | assumed => cases hfails
  | arguments _ hanswer =>
    obtain ⟨-, hanswer⟩ := Option.ite_none_right_eq_some.1 hanswer
    rw [← Option.some.inj hanswer] at hfails
    cases hfails
  | @function f hf =>
    obtain ⟨hdeclares, hbody⟩ := Bool.or_eq_false_iff.1 hfails
    split at hbody
    next body hsome => exact ⟨f, hf, hdeclares, body, hsome, hbody⟩
    next => cases hbody

theorem Answer.hasOutcome {requirement : Requirement} {outcome : Outcome}
    (h : Answer r (outcomeTest r requirement) outcome) :
    outcome = .atStart ∨ HasOutcome r requirement outcome := by
  cases h with
  | assumed => exact .inl rfl
  | arguments _ hanswer => cases hanswer
  | @function f hf =>
    simp only [outcomeTest]
    cases hbody : f.child? .body with
    | none => exact .inl rfl
    | some body => exact .inr ⟨f, body, hf, hbody, rfl⟩

/-- A search fails only because of a function of the file. If a closure or a callback is found to
use no context, some function of the file has a body, declares no context and mentions none. The
outcome for a closure or a callback is that the calls are made at the start, or the outcome for the
body of a function of the file. -/
theorem search_culprit {root : Node} (hfile : root.IsFile) (carriers : Carriers)
    (requirement : Requirement) :
    let r := Resolution.ofFile root
    (∀ expr ∈ root.preorder, ∀ site,
      (closure r (captureTest r carriers) expr site = false → ∃ f, Culprit r carriers f) ∧
      (closure r (outcomeTest r requirement) expr site = .atStart ∨
        HasOutcome r requirement (closure r (outcomeTest r requirement) expr site))) ∧
    ∀ spawner c call, c.expr ∈ root.preorder →
      (callback r (captureTest r carriers) spawner c call = false → ∃ f, Culprit r carriers f) ∧
      (callback r (outcomeTest r requirement) spawner c call = .atStart ∨
        HasOutcome r requirement (callback r (outcomeTest r requirement) spawner c call)) := by
  intro r
  have hr : r.Grounded := Resolution.grounded_of_isFile hfile
  have hcapture : Answers r (captureTest r carriers) (search r _ maxDepth) :=
    answer_search selective_bool hr maxDepth
  have houtcome : Answers r (outcomeTest r requirement) (search r _ maxDepth) :=
    answer_search selective_outcome hr maxDepth
  rw [← Resolution.root_ofFile hfile.wellFormed]
  exact ⟨fun expr hexpr site =>
      ⟨(hcapture _ _ _ _ hexpr).exists_culprit, (houtcome _ _ _ _ hexpr).hasOutcome⟩,
    fun spawner c call hexpr =>
      ⟨(hcapture _ _ _ _ hexpr).exists_culprit, (houtcome _ _ _ _ hexpr).hasOutcome⟩⟩

def spreadTasks : String :=
  "package p\nimport \"github.com/newmo-oss/gotask\"\nfunc run() \x7b\n" ++
    "\twork := func() \x7b defer end() \x7d\n" ++
    "\ttasks := []gotask.Task\x7bgotask.NewTask(work)\x7d\n\tgotask.DoAll(0, tasks...)\n\x7d\n"

def doAll : Spawner :=
  { Spawner.variadic .gotask (.function Spawner.gotaskPath "DoAll") 1 with
    constructor := some ⟨.function Spawner.gotaskPath "NewTask", 0⟩ }

theorem search_culprit_spreadTasks :
    let r := Resolution.ofFile (parse spreadTasks)
    let ending : Requirement := ⟨[[.bare "end"]], "end"⟩
    ∃ c : Callback, c.expr ∈ (parse spreadTasks).preorder ∧ c.spread = true ∧
      callback r (captureTest r []) doAll c c.expr = false ∧ (∃ f, Culprit r [] f) ∧
      callback r (outcomeTest r ending) doAll c c.expr = .deferred ∧
        HasOutcome r ending .deferred := by
  intro r ending
  have hrun : ((parse spreadTasks).preorder.any fun expr =>
      let c : Callback := ⟨expr, none, true⟩
      callback r (captureTest r []) doAll c expr == false &&
        callback r (outcomeTest r ending) doAll c expr == .deferred) = true := by
    decide +kernel
  obtain ⟨expr, hexpr, hrun⟩ := List.any_eq_true.1 hrun
  obtain ⟨hcapture, houtcome⟩ := Bool.and_eq_true_iff.1 hrun
  have hcapture := eq_of_beq hcapture
  have houtcome := eq_of_beq houtcome
  have hculprit := (search_culprit (isFile_parse spreadTasks) [] ending).2 doAll
    ⟨expr, none, true⟩ expr hexpr
  refine ⟨⟨expr, none, true⟩, hexpr, rfl, hcapture, hculprit.1 hcapture, houtcome, ?_⟩
  have := hculprit.2
  rw [houtcome] at this
  exact this.resolve_left (by decide)

end Search

end Handoff
