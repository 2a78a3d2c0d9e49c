import Handoff.Proofs.Verdict.Collections
import Mathlib.Data.Finset.Basic
import Mathlib.Data.Finset.Dedup
import Mathlib.Data.List.Perm.Basic

/-!
# The search with one set of entered variables and factories

The search is told for each candidate which variables and factories it is in. It can do with one set
that all functions share: a variable or factory is added on the way in and removed on the way out.
Written this way, with a number of nested calls after which it breaks off, the search ends before
that number is reached, leaves the set as it was, and gives the same answers. Since nothing of one
candidate is left when the next one is judged, the order in which candidates are taken is of no
effect, although variables may be written in circles, collections appended to themselves and
functions return what they return themselves.

## Main definitions

* `Search.Walk`: a part of the search, on the set of what the search is in.
* `Search.Call`: a call of one of the functions that the search consists of.
* `Search.Schedule`: an order of evaluation.
* `Search.run`: a call with a number of nested calls, in an order of evaluation.
* `Search.Call.answer`: the answer to a call by the search that is told where it is.

## Main statements

* `Search.settles_perform`: a call is settled when the calls that it makes are.
* `Search.run_eq_answer`: every call ends, leaves the set as it was, and gives the answer in any
  order of evaluation.
-/

namespace Handoff

open Syntax Node

namespace Verdict

/-- Answers combine in any order, whether all candidates have to pass or one of them. -/
structure Unordered (V : Type) [Verdict V] : Prop extends Lawful V where
  either_comm : ∀ a b : V, either a b = either b a
  either_assoc : ∀ a b c : V, either (either a b) c = either a (either b c)

theorem unordered_bool : Unordered Bool where
  toLawful := lawful_bool
  either_comm := by decide
  either_assoc := by decide

theorem unordered_outcome : Unordered Outcome where
  toLawful := lawful_outcome
  either_comm a b := by cases a <;> cases b <;> rfl
  either_assoc a b c := by cases a <;> cases b <;> cases c <;> rfl

variable {V : Type} {op : V → V → V} {start : Option V} {answers answers' : List V}

def accumulate (op : V → V → V) (start : Option V) (answers : List V) : Option V :=
  answers.foldl (fun verdict answer => Option.some (verdict.elim answer (op · answer))) start

theorem accumulate_append : accumulate op start (answers ++ answers') =
    accumulate op (accumulate op start answers) answers' :=
  List.foldl_append

theorem foldl_accumulate {α : Type} {p : α → Prop} [DecidablePred p] {answers : α → List V}
    (xs : List α) (start : Option V) :
    xs.foldl (fun verdict x => if p x then verdict else accumulate op verdict (answers x)) start =
      accumulate op start ((xs.filter (¬ p ·)).flatMap answers) := by
  induction xs generalizing start with
  | nil => rfl
  | cons x xs ih =>
    by_cases hx : p x
    · simp [hx, ih]
    · simp [hx, ih, accumulate_append]

theorem accumulate_perm (hcomm : ∀ a b, op a b = op b a)
    (hassoc : ∀ a b c, op (op a b) c = op a (op b c)) (h : answers.Perm answers') :
    accumulate op start answers = accumulate op start answers' := by
  refine h.foldl_eq' (fun a _ b _ verdict => ?_) start
  cases verdict with
  | none => simp [hcomm a b]
  | some verdict => simp [hassoc, hcomm a b]

theorem accumulate_some (a : V) : accumulate op (.some a) answers = .some (answers.foldl op a) := by
  induction answers generalizing a with
  | nil => rfl
  | cons b answers ih => exact ih (op a b)

variable [Verdict V]

theorem accumulate_either : (accumulate either none answers).getD assumed =
    Verdict.some answers := by
  cases answers with
  | nil => rfl
  | cons a answers => exact congrArg (Option.getD · assumed) (accumulate_some a)

/-- Combining answers with none, or with what is assumed, is combining all of them. -/
theorem accumulate_both (hV : Lawful V) (hstart : start.getD assumed = (assumed : V)) :
    (accumulate both start answers).getD assumed = all answers := by
  cases start with
  | some a =>
    obtain rfl : a = assumed := hstart
    exact congrArg (Option.getD · assumed) (accumulate_some assumed)
  | none =>
    cases answers with
    | nil => rfl
    | cons a answers =>
      have hfirst : both assumed a = a := by rw [hV.comm, hV.both_assumed]
      rw [all, List.foldl_cons, hfirst]
      exact congrArg (Option.getD · assumed) (accumulate_some a)

end Verdict

def BindingKind.isVariable : BindingKind → Bool
  | .packageVariable | .localVariable _ => true
  | .function _ | .parameter => false

theorem BindingKind.isVariable_iff {k : BindingKind} :
    k.isVariable = true ↔ k = .packageVariable ∨ ∃ bySpec, k = .localVariable bySpec := by
  cases k <;> simp [BindingKind.isVariable]

namespace Search

/-! ### Parts of a search -/

/-- A part of the search, on the set of variables and factories that the search is in. It may break
off. -/
abbrev Walk (α : Type) := StateT (Finset Nat) Option α

variable {α β V : Type} {s : Finset Nat} {key : Nat}

/-- Goes into a variable or factory and out of it again, unless the search is in it already. -/
def enterOnce (key : Nat) (otherwise : α) (walk : Walk α) : Walk α := do
  if key ∈ (← get) then return otherwise
  modify (insert key)
  let a ← walk
  modify (·.erase key)
  return a

def combine (op : V → V → V) (judge : α → Walk V) (start : Option V) (candidates : List α) :
    Walk (Option V) :=
  candidates.foldlM (fun verdict candidate => do
    let answer ← judge candidate
    return some (verdict.elim answer (op · answer))) start

/-- The part of the search gives an answer and leaves the set as it was. -/
def Steady (walk : Walk α) (s : Finset Nat) (a : α) : Prop :=
  walk.run s = some (a, s)

theorem steady_pure (a : α) : Steady (pure a) s a :=
  rfl

theorem Steady.bind {walk : Walk α} {next : α → Walk β} {a : α} {b : β} (h : Steady walk s a)
    (h' : Steady (next a) s b) : Steady (walk >>= next) s b := by
  unfold Steady at *
  rw [StateT.run_bind, h]
  exact h'

theorem steady_enterOnce_of_mem (h : key ∈ s) (otherwise : α) (walk : Walk α) :
    Steady (enterOnce key otherwise walk) s otherwise := by
  simp [Steady, enterOnce, h]

/-- What is added on the way in is removed on the way out. -/
theorem Steady.enterOnce {walk : Walk α} {a : α} (h : key ∉ s)
    (hwalk : Steady walk (insert key s) a) (otherwise : α) :
    Steady (enterOnce key otherwise walk) s a := by
  unfold Steady at *
  simp [Search.enterOnce, h, hwalk]

theorem steady_foldlM {step : β → α → Walk β} {next : β → α → β} {xs : List α}
    (h : ∀ b, ∀ x ∈ xs, Steady (step b x) s (next b x)) (b : β) :
    Steady (xs.foldlM step b) s (xs.foldl next b) := by
  induction xs generalizing b with
  | nil => exact steady_pure b
  | cons x xs ih =>
    rw [List.foldlM_cons, List.foldl_cons]
    exact (h b x List.mem_cons_self).bind (ih (fun b y hy => h b y (List.mem_cons_of_mem x hy)) _)

theorem Steady.combine {op : V → V → V} {judge : α → Walk V} {answer : α → V} {candidates : List α}
    (h : ∀ c ∈ candidates, Steady (judge c) s (answer c)) (start : Option V) :
    Steady (combine op judge start candidates) s
      (Verdict.accumulate op start (candidates.map answer)) := by
  rw [Search.combine, Verdict.accumulate, List.foldl_map]
  refine steady_foldlM (fun verdict c hc => ?_) start
  exact (h c hc).bind (steady_pure _)

/-! ### Calls -/

/-- What is looked for in the writes to a variable: a closure, a task, or a closure in a part of the
value. -/
inductive Selection where
  | closure
  | task (wrapper : TaskConstructor)
  | member (key : Key)

/-- A call of one of the functions that the search consists of. All but the first have the number of
levels above them. -/
inductive Call where
  /-- The callback of a spawn call. -/
  | callback (spawner : Spawner) (callback : Callback) (call : Node)
  /-- An element of a collection: a closure or a task. -/
  | element (wrapper : Option TaskConstructor) (expr site : Node) (depth : Nat)
  | closure (expr site : Node) (depth : Nat)
  | task (wrapper : TaskConstructor) (expr site : Node) (depth : Nat)
  | collection (wrapper : Option TaskConstructor) (expr site : Node) (depth : Nat)
  /-- A name as a closure. -/
  | identifier (ident site : Node) (depth : Nat)
  /-- A call that yields a closure. -/
  | factory (call : Node) (depth : Nat)
  /-- A selection or index expression as a closure. -/
  | member (expr site : Node) (depth : Nat)
  /-- The writes to the variable behind a name. -/
  | binding (selection : Selection) (ident site : Node) (depth : Nat)

/-- An order of evaluation: the candidates that a call comes to are taken in some order. -/
structure Schedule where
  arrange : Call → {α : Type} → List α → List α
  perm : ∀ call {α : Type} (xs : List α), (arrange call xs).Perm xs

def Selection.supplies (r : Resolution) : Selection → Nat → Binding → List Supply
  | .closure | .task _ => writesOf
  | .member key => fun i b => writesOf i b ++ memberWrites r key i b

section Run

variable [Verdict V] (r : Resolution) (test : ClosureTest V) (schedule : Schedule)
  (recur : Call → Walk V)

def Selection.follow (value site : Node) (depth : Nat) : Selection → Walk V
  | .closure => recur (.closure value site depth)
  | .task wrapper => recur (.task wrapper value site depth)
  | .member key =>
    let value := stripAddress value
    if value.kind = .compositeLiteral then
      match elementOf value key with
      | some element => recur (.closure element site depth)
      | none => return Verdict.assumed
    else if isMemberWrite site then recur (.closure value site depth)
    else return Verdict.assumed

def judgeAll (call : Call) (judge : α → Walk V) (start : Option V)
    (candidates : List α) : Walk V := do
  let verdict ← combine Verdict.both judge start (schedule.arrange call candidates)
  return verdict.getD Verdict.assumed

def throughWrites (call : Call) (ident site : Node) (supplies : Nat → Binding → List Supply)
    (start : Option V) (follow : Node → Node → Walk V) : Walk V :=
  match r.bindingOf ident with
  | none => return Verdict.assumed
  | some (i, b) =>
    if b.kind.isVariable then
      enterOnce b.decl.id Verdict.assumed <| judgeAll schedule call (fun s : Supply =>
        match s.value with
        | some value => follow value s.site
        | none => return Verdict.assumed) start (reaching (supplies i b) site)
    else return Verdict.assumed

/-- The functions that a callee can stand for, with at most `n` nested calls. -/
def factoriesWithin (r : Resolution) : Nat → Node → Nat → Option (List Node)
  | 0, _, _ => none
  | n + 1, callee, depth =>
    if maxDepth ≤ depth then some []
    else if callee.bare.kind = .callExpression then
      match callee.bare.child? .function with
      | none => some []
      | some outer => do
        let functions ← factoriesWithin r n outer (depth + 1)
        let returned ← (functions.flatMap returnedValues).mapM fun value =>
            factoriesWithin r n value (depth + 1)
        return returned.flatten
    -- all other callees are looked at without a call
    else some (factories r 1 callee)

def throughFactories (call : Call) (functions : List Node) (follow : Node → Walk V) : Walk V := do
  let verdict ← (schedule.arrange call functions).foldlM (fun verdict f =>
    enterOnce f.id verdict <|
      combine Verdict.either follow verdict (schedule.arrange call (returnedValues f))) none
  return verdict.getD Verdict.assumed

def perform (n : Nat) (call : Call) : Walk V :=
  match call with
  | .callback spawner found site =>
    if found.spread then recur (.collection spawner.constructor found.expr site 0)
    else recur (.element spawner.constructor found.expr site 0)
  | .element none expr site depth => recur (.closure expr site depth)
  | .element (some wrapper) expr site depth => recur (.task wrapper expr site depth)
  -- only closures, tasks and collections look at the level; the calls between them pass it on
  | .closure expr site depth =>
    let expr := expr.bare
    if maxDepth ≤ depth then return Verdict.assumed
    else if expr.kind = .funcLiteral then return test.function expr
    else if expr.kind = .identifier then recur (.identifier expr site depth)
    else if expr.kind = .callExpression then recur (.factory expr depth)
    else if expr.kind = .selectorExpression ∨ expr.kind = .indexExpression then
      recur (.member expr site depth)
    else return Verdict.assumed
  | .task wrapper expr site depth =>
    let expr := expr.bare
    if maxDepth ≤ depth then return Verdict.assumed
    else if expr.kind = .callExpression ∧ r.calls expr wrapper.target = true then
      match expr.arguments[wrapper.callback]? with
      | some argument => recur (.closure argument expr (depth + 1))
      | none => return Verdict.assumed
    else if expr.kind = .identifier then recur (.binding (.task wrapper) expr site depth)
    else return Verdict.assumed
  | .collection wrapper expr site depth =>
    let expr := expr.bare
    if maxDepth ≤ depth then return Verdict.assumed
    else if expr.kind = .compositeLiteral then
      match expr.child? .body with
      | none => return Verdict.assumed
      | some body =>
        judgeAll schedule call (fun value => recur (.element wrapper value expr (depth + 1)))
          (some Verdict.assumed) (body.parts.filterMap elementValue?)
    else if isAppend r expr then
      judgeAll schedule call (fun argument : Node =>
        if argument.kind = .variadicArgument then
          match argument.parts.head? with
          | some first => recur (.collection wrapper first expr (depth + 1))
          | none => return Verdict.assumed
        else recur (.element wrapper argument expr (depth + 1)))
        (some Verdict.assumed) (expr.arguments.drop 1)
    else if expr.kind = .identifier then
      throughWrites r schedule call expr site (collectionWrites r) (some Verdict.assumed)
        fun value site => recur (.collection wrapper value site (depth + 1))
    else return Verdict.assumed
  | .identifier ident site depth =>
    match (r.bindingOf ident).bind fun found => found.2.kind.declaration? with
    | some declaration => return test.function declaration
    | none => recur (.binding .closure ident site depth)
  | .factory factoryCall depth =>
    match test.factoryArguments factoryCall with
    | some answer => return answer
    | none =>
      match factoryCall.child? .function with
      | none => return Verdict.assumed
      | some callee =>
        if callee.kind = .parenthesizedExpression ∧ callee.bare.kind = .funcLiteral then
          return Verdict.assumed
        else do
          let functions ← factoriesWithin r n callee depth
          throughFactories schedule call functions fun value =>
            recur (.closure value value (depth + 1))
  | .member expr site depth =>
    match expr.child? .operand, Key.ofExpression expr with
    | some base, some key =>
      if base.bare.kind = .compositeLiteral then
        match elementOf base.bare key with
        | some value => recur (.closure value base.bare (depth + 1))
        | none => return Verdict.assumed
      else if base.bare.kind = .identifier then recur (.binding (.member key) base.bare site depth)
      else return Verdict.assumed
    | _, _ => return Verdict.assumed
  | .binding selection ident site depth =>
    throughWrites r schedule call ident site (selection.supplies r) none
      fun value site => selection.follow recur value site (depth + 1)

end Run

/-- A call of the search, with at most the given number of calls nested in one another, itself
included. -/
def run [Verdict V] (r : Resolution) (test : ClosureTest V) (schedule : Schedule) :
    Nat → Call → Walk V
  | 0, _ => failure
  | n + 1, call => perform r test schedule (run r test schedule n) n call

/-! ### Answers to calls -/

section Answer

variable [Verdict V] (r : Resolution) (test : ClosureTest V)

def Selection.judge (next : Follow V) : Selection → Node → Node → List Nat → V
  | .closure => next .closure
  | .task wrapper => next (.task wrapper)
  | .member key => memberOf next key

def Call.answer : Call → List Nat → V
  | .callback spawner found site =>
    search r test maxDepth
      (if found.spread then .collection spawner.constructor
        else .ofElement spawner.constructor) found.expr site
  | .element wrapper expr site depth =>
    search r test (maxDepth - depth) (.ofElement wrapper) expr site
  | .closure expr site depth => search r test (maxDepth - depth) .closure expr site
  | .task wrapper expr site depth => search r test (maxDepth - depth) (.task wrapper) expr site
  | .collection wrapper expr site depth =>
    search r test (maxDepth - depth) (.collection wrapper) expr site
  | .identifier ident site depth =>
    Search.identifier r test (search r test (maxDepth - (depth + 1))) ident site
  | .factory call depth =>
    factoryCall r test (search r test (maxDepth - (depth + 1))) (maxDepth - depth) call
  | .member expr site depth => Search.member r (search r test (maxDepth - (depth + 1))) expr site
  | .binding selection ident site depth => fun visited =>
    throughBinding r ident site visited (selection.supplies r)
      (selection.judge (search r test (maxDepth - (depth + 1))))

/-- How deep calls are nested at most: there are three calls to a level, and four around them. -/
def maxCalls : Nat := 3 * maxDepth + 4

/-- A bound on the number of calls nested in one another, the call itself included. -/
def Call.height : Call → Nat
  | .callback .. => maxCalls
  | .element _ _ _ depth => 3 * (maxDepth - depth) + 3
  | .closure _ _ depth | .task _ _ _ depth | .collection _ _ _ depth => 3 * (maxDepth - depth) + 2
  | .identifier _ _ depth | .factory _ depth | .member _ _ depth => 3 * (maxDepth - (depth + 1)) + 4
  | .binding _ _ _ depth => 3 * (maxDepth - (depth + 1)) + 3

/-- A part of the search answers a call from inside any variables and factories, and is inside the
same ones afterwards. -/
def Settles (walk : Walk V) (call : Call) : Prop :=
  ∀ visited : List Nat, Steady walk visited.toFinset (call.answer r test visited)

end Answer

theorem Call.height_le (call : Call) : call.height ≤ maxCalls := by
  cases call <;> simp only [Call.height, maxCalls] <;> omega

theorem Call.height_pos (call : Call) : 0 < call.height := by
  cases call <;> simp [Call.height, maxCalls]

section Loops

variable [Verdict V] {r : Resolution} {schedule : Schedule} {call : Call} {visited : List Nat}

theorem steady_judgeAll (hV : Verdict.Lawful V) {judge : α → Walk V} {answer : α → V}
    {candidates : List α} {start : Option V} (hstart : start.getD Verdict.assumed = Verdict.assumed)
    (h : ∀ c ∈ candidates, Steady (judge c) s (answer c)) :
    Steady (judgeAll schedule call judge start candidates) s
      (Verdict.all (candidates.map answer)) := by
  have hperm := schedule.perm call candidates
  have hall :
      (Verdict.accumulate Verdict.both start ((schedule.arrange call candidates).map answer)).getD
        Verdict.assumed = Verdict.all (candidates.map answer) := by
    rw [Verdict.accumulate_perm hV.comm hV.assoc (hperm.map answer),
      Verdict.accumulate_both hV hstart]
  rw [← hall]
  exact (Steady.combine (fun c hc => h c (hperm.subset hc)) start).bind (steady_pure _)

theorem throughBinding_of_assumed {ident site : Node} {supplies : Nat → Binding → List Supply}
    {judge : Node → Node → List Nat → V} {i : Nat} {b : Binding}
    (hb : r.bindingOf ident = some (i, b)) (h : b.kind.isVariable = true → b.decl.id ∈ visited) :
    throughBinding r ident site visited supplies judge = Verdict.assumed := by
  simp only [throughBinding, hb]
  refine if_pos ?_
  cases hkind : b.kind <;> simp_all [BindingKind.isVariable]

/-- A variable is entered for the time that its writes are judged. -/
theorem steady_throughWrites (hV : Verdict.Lawful V) {ident site : Node}
    {supplies : Nat → Binding → List Supply} {start : Option V} {follow : Node → Node → Walk V}
    {judge : Node → Node → List Nat → V} (hstart : start.getD Verdict.assumed = Verdict.assumed)
    (h : ∀ value site, ∀ visited : List Nat, Steady (follow value site) visited.toFinset
      (judge value site visited)) :
    Steady (throughWrites r schedule call ident site supplies start follow) visited.toFinset
      (throughBinding r ident site visited supplies judge) := by
  cases hb : r.bindingOf ident with
  | none =>
    simp only [throughWrites, throughBinding, hb]
    exact steady_pure _
  | some found =>
    obtain ⟨i, b⟩ := found
    simp only [throughWrites, hb]
    by_cases hvar : b.kind.isVariable = true
    · rw [if_pos hvar]
      -- a variable that the search is in is assumed to pass, and the set is not touched
      by_cases hmem : b.decl.id ∈ visited
      · rw [throughBinding_of_assumed hb fun _ => hmem]
        exact steady_enterOnce_of_mem (List.mem_toFinset.2 hmem) _ _
      · rw [throughBinding_of_isVariable hb (BindingKind.isVariable_iff.1 hvar) hmem]
        refine Steady.enterOnce (mt List.mem_toFinset.1 hmem)
          (steady_judgeAll hV hstart fun c _ => ?_) _
        rw [← List.toFinset_cons]
        cases c.value with
        | none => exact steady_pure _
        | some value => exact h value c.site _
    · rw [if_neg hvar, throughBinding_of_assumed hb fun hyes => absurd hyes hvar]
      exact steady_pure _

/-- The answers on the values that functions return, those left out that the search is in. The
values of each function are taken in some order. -/
def factoryAnswers (arrange : List Node → List Node) (judge : Node → List Nat → V)
    (visited : List Nat) (functions : List Node) : List V :=
  (functions.filter fun f => f.id ∉ visited).flatMap fun f =>
    (arrange (returnedValues f)).map fun value => judge value (f.id :: visited)

omit [Verdict V] in
theorem factoryAnswers_perm (schedule : Schedule) (call : Call) (judge : Node → List Nat → V)
    (visited : List Nat) (functions : List Node) :
    (factoryAnswers (schedule.arrange call) judge visited (schedule.arrange call functions)).Perm
      (factoryAnswers id judge visited functions) :=
  ((schedule.perm call functions).filter _).flatMap fun _ _ => (schedule.perm call _).map _

/-- A factory is entered for the time that what it returns is judged. -/
theorem steady_throughFactories (hV : Verdict.Unordered V) {functions : List Node}
    {follow : Node → Walk V} {judge : Node → List Nat → V}
    (h : ∀ value, ∀ visited : List Nat, Steady (follow value) visited.toFinset
      (judge value visited)) :
    Steady (throughFactories schedule call functions follow) visited.toFinset
      (Verdict.some (factoryAnswers id judge visited functions)) := by
  have hfold : Steady ((schedule.arrange call functions).foldlM
        (fun verdict f => enterOnce f.id verdict <| combine Verdict.either follow verdict
          (schedule.arrange call (returnedValues f))) none) visited.toFinset
      (Verdict.accumulate Verdict.either none
        (factoryAnswers (schedule.arrange call) judge visited
          (schedule.arrange call functions))) := by
    rw [factoryAnswers, ← Verdict.foldl_accumulate]
    refine steady_foldlM (fun verdict f _ => ?_) none
    by_cases hmem : f.id ∈ visited
    · rw [if_pos hmem]
      exact steady_enterOnce_of_mem (List.mem_toFinset.2 hmem) _ _
    · rw [if_neg hmem]
      refine Steady.enterOnce (mt List.mem_toFinset.1 hmem)
        (Steady.combine (fun value _ => ?_) verdict) _
      rw [← List.toFinset_cons]
      exact h value _
  rw [← Verdict.accumulate_either, ← Verdict.accumulate_perm hV.either_comm hV.either_assoc
    (factoryAnswers_perm schedule call judge visited functions)]
  exact hfold.bind (steady_pure _)

end Loops

/-! ### Steps -/

section Steps

variable [Verdict V] {r : Resolution} {test : ClosureTest V} {schedule : Schedule}
  {recur : Call → Walk V} {n depth : Nat} {expr site : Node}

def SettlesBelow (r : Resolution) (test : ClosureTest V) (recur : Call → Walk V)
    (height : Nat) : Prop :=
  ∀ call : Call, call.height < height → Settles r test (recur call) call

theorem maxDepth_sub (h : ¬ maxDepth ≤ depth) : maxDepth - depth = maxDepth - (depth + 1) + 1 := by
  omega

theorem settles_element {wrapper : Option TaskConstructor}
    (h : SettlesBelow r test recur (Call.element wrapper expr site depth).height) :
    Settles r test (perform r test schedule recur n (.element wrapper expr site depth))
      (.element wrapper expr site depth) := by
  cases wrapper with
  | none => exact h (.closure expr site depth) (by simp [Call.height])
  | some wrapper => exact h (.task wrapper expr site depth) (by simp [Call.height])

theorem settles_callback {spawner : Spawner} {found : Callback}
    (h : SettlesBelow r test recur (Call.callback spawner found site).height) :
    Settles r test (perform r test schedule recur n (.callback spawner found site))
      (.callback spawner found site) := by
  intro visited
  by_cases hspread : found.spread = true
  · simp only [perform, Call.answer, hspread, if_true]
    exact h (.collection spawner.constructor found.expr site 0)
      (by simp [Call.height, maxCalls]) visited
  · simp only [perform, Call.answer, hspread, if_false, Bool.false_eq_true]
    exact h (.element spawner.constructor found.expr site 0)
      (by simp [Call.height, maxCalls]) visited

/-- A call for a closure gives the answer of the search. -/
theorem settles_closure (h : SettlesBelow r test recur (Call.closure expr site depth).height) :
    Settles r test (perform r test schedule recur n (.closure expr site depth))
      (.closure expr site depth) := by
  intro visited
  by_cases hdepth : maxDepth ≤ depth
  · simp only [perform, Call.answer, hdepth, if_true, Nat.sub_eq_zero_of_le]
    exact steady_pure _
  simp only [perform, Call.answer, hdepth, if_false, maxDepth_sub hdepth, search, closureStep]
  by_cases hliteral : expr.bare.kind = .funcLiteral
  · simp only [hliteral, if_true]
    exact steady_pure _
  by_cases hname : expr.bare.kind = .identifier
  · simp only [hname, reduceCtorEq, if_true, if_false]
    exact h (.identifier expr.bare site depth) (by simp only [Call.height]; omega) visited
  by_cases hcall : expr.bare.kind = .callExpression
  · simp only [hcall, reduceCtorEq, if_true, if_false]
    rw [← maxDepth_sub hdepth]
    exact h (.factory expr.bare depth) (by simp only [Call.height]; omega) visited
  by_cases hmember : expr.bare.kind = .selectorExpression ∨ expr.bare.kind = .indexExpression
  · have hsettled := h (.member expr.bare site depth) (by simp only [Call.height]; omega) visited
    obtain hselector | hindex := hmember
    · simp only [hselector, reduceCtorEq, true_or, if_true, if_false]
      exact hsettled
    · simp only [hindex, reduceCtorEq, or_true, if_true, if_false]
      exact hsettled
  · obtain ⟨hselector, hindex⟩ := not_or.1 hmember
    simp only [hliteral, hname, hcall, hselector, hindex, or_self, if_false]
    exact steady_pure _

theorem settles_task {wrapper : TaskConstructor}
    (h : SettlesBelow r test recur (Call.task wrapper expr site depth).height) :
    Settles r test (perform r test schedule recur n (.task wrapper expr site depth))
      (.task wrapper expr site depth) := by
  intro visited
  by_cases hdepth : maxDepth ≤ depth
  · simp only [perform, Call.answer, hdepth, if_true, Nat.sub_eq_zero_of_le]
    exact steady_pure _
  simp only [perform, Call.answer, hdepth, if_false, maxDepth_sub hdepth, search, taskStep]
  by_cases hcall : expr.bare.kind = .callExpression
  · by_cases hcalls : r.calls expr.bare wrapper.target = true
    · simp only [hcall, hcalls, and_self, if_true]
      cases expr.bare.arguments[wrapper.callback]? with
      | none => exact steady_pure _
      | some argument =>
        exact h (.closure argument expr.bare (depth + 1))
          (by simp only [Call.height]; omega) visited
    · simp only [hcall, hcalls, and_false, reduceCtorEq, if_false]
      exact steady_pure _
  by_cases hname : expr.bare.kind = .identifier
  · simp only [hname, reduceCtorEq, false_and, if_true, if_false]
    exact h (.binding (.task wrapper) expr.bare site depth)
      (by simp only [Call.height]; omega) visited
  · simp only [hcall, hname, false_and, if_false]
    exact steady_pure _

theorem settles_identifier {ident : Node}
    (h : SettlesBelow r test recur (Call.identifier ident site depth).height) :
    Settles r test (perform r test schedule recur n (.identifier ident site depth))
      (.identifier ident site depth) := by
  intro visited
  simp only [perform, Call.answer, identifier]
  cases (r.bindingOf ident).bind fun found => found.2.kind.declaration? with
  | some declaration => exact steady_pure _
  | none => exact h (.binding .closure ident site depth) (by simp [Call.height]) visited

theorem settles_member (h : SettlesBelow r test recur (Call.member expr site depth).height) :
    Settles r test (perform r test schedule recur n (.member expr site depth))
      (.member expr site depth) := by
  intro visited
  simp only [perform, Call.answer, member]
  cases expr.child? .operand with
  | none => exact steady_pure _
  | some base =>
    cases Key.ofExpression expr with
    | none => exact steady_pure _
    | some key =>
      by_cases hliteral : base.bare.kind = .compositeLiteral
      · simp only [hliteral, if_true]
        cases elementOf base.bare key with
        | none => exact steady_pure _
        | some value =>
          exact h (.closure value base.bare (depth + 1)) (by simp [Call.height]) visited
      by_cases hname : base.bare.kind = .identifier
      · simp only [hname, reduceCtorEq, if_true, if_false]
        exact h (.binding (.member key) base.bare site depth) (by simp [Call.height]) visited
      · simp only [hliteral, hname, if_false]
        exact steady_pure _

/-- A written value is followed as the search does, and the set is left as it was. -/
theorem steady_follow {selection : Selection} {value : Node} {visited : List Nat}
    (h : SettlesBelow r test recur (3 * (maxDepth - depth) + 3)) :
    Steady (selection.follow recur value site depth) visited.toFinset
      (selection.judge (search r test (maxDepth - depth)) value site visited) := by
  cases selection with
  | closure => exact h (.closure value site depth) (by simp [Call.height]) visited
  | task wrapper => exact h (.task wrapper value site depth) (by simp [Call.height]) visited
  | member key =>
    simp only [Selection.follow, Selection.judge, memberOf]
    split_ifs
    · cases elementOf (stripAddress value) key with
      | none => exact steady_pure _
      | some element => exact h (.closure element site depth) (by simp [Call.height]) visited
    · exact h (.closure (stripAddress value) site depth) (by simp [Call.height]) visited
    · exact steady_pure _

theorem settles_binding (hV : Verdict.Lawful V) {selection : Selection} {ident : Node}
    (h : SettlesBelow r test recur (Call.binding selection ident site depth).height) :
    Settles r test (perform r test schedule recur n (.binding selection ident site depth))
      (.binding selection ident site depth) := by
  intro visited
  simp only [perform, Call.answer]
  refine steady_throughWrites hV rfl fun value site visited => ?_
  exact steady_follow h

theorem settles_collection (hV : Verdict.Lawful V) {wrapper : Option TaskConstructor}
    (h : SettlesBelow r test recur (Call.collection wrapper expr site depth).height) :
    Settles r test (perform r test schedule recur n (.collection wrapper expr site depth))
      (.collection wrapper expr site depth) := by
  intro visited
  by_cases hdepth : maxDepth ≤ depth
  · simp only [perform, Call.answer, hdepth, if_true, Nat.sub_eq_zero_of_le]
    exact steady_pure _
  -- elements and inner collections are searched one level deeper
  have helement (value : Node) := h (.element wrapper value expr.bare (depth + 1))
    (by simp only [Call.height]; omega)
  have hcollection (value site : Node) := h (.collection wrapper value site (depth + 1))
    (by simp only [Call.height]; omega)
  simp only [perform, Call.answer, hdepth, if_false, maxDepth_sub hdepth, search, collectionStep]
  by_cases hliteral : expr.bare.kind = .compositeLiteral
  · simp only [hliteral, if_true]
    cases expr.bare.child? .body with
    | none => exact steady_pure _
    | some body => exact steady_judgeAll hV rfl fun value _ => helement value visited
  by_cases happend : isAppend r expr.bare = true
  · simp only [kind_of_isAppend happend, happend, reduceCtorEq, if_true, if_false]
    refine steady_judgeAll hV rfl fun argument _ => ?_
    split_ifs
    · cases argument.parts.head? with
      | none => exact steady_pure _
      | some first => exact hcollection first expr.bare visited
    · exact helement argument visited
  by_cases hname : expr.bare.kind = .identifier
  · simp only [hname, happend, reduceCtorEq, if_true, if_false]
    exact steady_throughWrites hV rfl hcollection
  by_cases hcall : expr.bare.kind = .callExpression
  · simp only [hcall, happend, reduceCtorEq, if_false]
    exact steady_pure _
  · simp only [hliteral, happend, hname, reduceCtorEq, if_false]
    exact steady_pure _

/-! ### Factories -/

theorem factories_of_not_call {callee : Node} (h : callee.bare.kind ≠ .callExpression) :
    factories r (n + 1) callee = factories r 1 callee := by
  by_cases hliteral : callee.bare.kind = .funcLiteral
  · simp [factories, hliteral]
  by_cases hname : callee.bare.kind = .identifier
  · simp [factories, hname]
  · simp [factories]

theorem mapM_eq_some {f : α → Option β} {g : α → β} (h : ∀ a, f a = some (g a)) (xs : List α) :
    xs.mapM f = some (xs.map g) := by
  rw [funext h]
  exact List.mapM_pure

/-- Nested calls as callees are followed as many levels deep as are left. -/
theorem factoriesWithin_eq {clock : Nat} {callee : Node} (h : maxDepth - depth < clock) :
    factoriesWithin r clock callee depth = some (factories r (maxDepth - depth) callee) := by
  induction clock generalizing callee depth with
  | zero => omega
  | succ clock ih =>
    by_cases hdepth : maxDepth ≤ depth
    · simp [factoriesWithin, hdepth, Nat.sub_eq_zero_of_le, factories]
    rw [maxDepth_sub hdepth]
    have ih' (callee : Node) : factoriesWithin r clock callee (depth + 1) =
        some (factories r (maxDepth - (depth + 1)) callee) := ih (by omega)
    by_cases hcall : callee.bare.kind = .callExpression
    · simp only [factoriesWithin, factories, hdepth, hcall, if_true, if_false]
      cases callee.bare.child? .function with
      | none => rfl
      | some outer =>
        simp only [ih' outer, mapM_eq_some ih', Option.bind_eq_bind, Option.bind_some,
          Option.pure_def]
        rfl
    · simp only [factoriesWithin, hdepth, hcall, if_false, factories_of_not_call hcall]

theorem factoryCall_eq_some {next : Follow V} {call callee : Node} {visited : List Nat}
    (hnone : test.factoryArguments call = none) (hcallee : call.child? .function = some callee)
    (h : ¬ (callee.kind = .parenthesizedExpression ∧ callee.bare.kind = .funcLiteral)) :
    factoryCall r test next depth call visited =
      Verdict.some
        (factoryAnswers id (fun value => next .closure value value) visited
          (factories r depth callee)) := by
  simp [factoryCall, factoryAnswers, hnone, hcallee, h]

/-- The factories behind a call give the answer of the search, in whatever order. -/
theorem settles_factory (hV : Verdict.Unordered V) {call : Node}
    (hn : (Call.factory call depth).height ≤ n + 1)
    (h : SettlesBelow r test recur (Call.factory call depth).height) :
    Settles r test (perform r test schedule recur n (.factory call depth))
      (.factory call depth) := by
  intro visited
  simp only [perform, Call.answer]
  cases hanswer : test.factoryArguments call with
  | some answer =>
    simp only [factoryCall, hanswer]
    exact steady_pure _
  | none =>
    cases hcallee : call.child? .function with
    | none =>
      simp only [factoryCall, hanswer, hcallee]
      exact steady_pure _
    | some callee =>
      by_cases hgap : callee.kind = .parenthesizedExpression ∧ callee.bare.kind = .funcLiteral
      · simp only [factoryCall, hanswer, hcallee, hgap, and_self, if_true,
          decide_true, Bool.and_self]
        exact steady_pure _
      · have hclock : maxDepth - depth < n := by
          simp only [Call.height] at hn
          omega
        simp only [hgap, if_false, factoryCall_eq_some hanswer hcallee hgap,
          factoriesWithin_eq hclock]
        exact steady_throughFactories hV fun value =>
          h (.closure value value (depth + 1)) (by simp [Call.height])

/-- A call is settled when all calls that it makes are. -/
theorem settles_perform (hV : Verdict.Unordered V) {call : Call} (hn : call.height ≤ n + 1)
    (h : SettlesBelow r test recur call.height) :
    Settles r test (perform r test schedule recur n call) call := by
  cases call with
  | callback => exact settles_callback h
  | element => exact settles_element h
  | closure => exact settles_closure h
  | task => exact settles_task h
  | collection => exact settles_collection hV.toLawful h
  | identifier => exact settles_identifier h
  | factory => exact settles_factory hV hn h
  | member => exact settles_member h
  | binding => exact settles_binding hV.toLawful h

/-- A call is settled if as many nested calls are left as its height. -/
theorem settles_run (hV : Verdict.Unordered V) {clock : Nat} {call : Call}
    (h : call.height ≤ clock) : Settles r test (run r test schedule clock call) call := by
  -- a call makes only calls of a smaller height, and these have one nested call less
  induction clock generalizing call with
  | zero => exact absurd call.height_pos (by omega)
  | succ clock ih => exact settles_perform hV h fun call' hlt => ih (by omega)

end Steps

/-- Every call comes to an end within a fixed number of nested calls, whatever variables and
factories the search is in, and leaves it in the same ones. In whatever order candidates are taken,
the answer is the one of the search that is told for each candidate where it is. -/
theorem run_eq_answer [Verdict V] (hV : Verdict.Unordered V) (r : Resolution) (test : ClosureTest V)
    (schedule : Schedule) {clock : Nat} (h : maxCalls ≤ clock) :
    (∀ (call : Call) (visited : List Nat), (run r test schedule clock call).run visited.toFinset =
        some (call.answer r test visited, visited.toFinset)) ∧
      (∀ callee depth, factoriesWithin r clock callee depth =
        some (factories r (maxDepth - depth) callee)) ∧
      (∀ expr site, (run r test schedule clock (.closure expr site 0)).run ∅ =
        some (closure r test expr site, ∅)) ∧
      (∀ spawner found site, (run r test schedule clock (.callback spawner found site)).run ∅ =
        some (callback r test spawner found site, ∅)) ∧
      ∀ schedule', run r test schedule' clock = run r test schedule clock := by
  have hsettles (schedule : Schedule) (call : Call) :
      Settles r test (run r test schedule clock call) call :=
    settles_run hV (call.height_le.trans h)
  refine ⟨hsettles schedule, fun callee depth => factoriesWithin_eq ?_, fun expr site => ?_,
    fun spawner found site => ?_, fun schedule' => ?_⟩
  · simp only [maxCalls] at h
    omega
  · exact hsettles schedule (.closure expr site 0) []
  · exact hsettles schedule (.callback spawner found site) []
  · funext call s
    -- every set is the set of the members of a list
    rw [← s.toList_toFinset]
    exact (hsettles schedule' call _).trans (hsettles schedule call _).symm

def Schedule.backwards : Schedule where
  arrange _ _ xs := xs.reverse
  perm _ _ xs := xs.reverse_perm

def endlessClosures : String :=
  "package p\nfunc loop() func() \x7b\n\treturn loop()\n\x7d\nfunc run() \x7b\n" ++
    "\tfs := []func()\x7bfunc() \x7b\x7d\x7d\n\tfs = append(fs, fs...)\n\tspawn(fs...)\n" ++
    "\tgo loop()()\n\x7d\n"

/-- The closure in the collection is found, and the function is given up. -/
theorem run_eq_answer_endlessClosures :
    let r := Resolution.ofFile (parse endlessClosures)
    let start := run r (captureTest r []) Schedule.backwards maxCalls
    (∃ fs site, isAppend r site = false ∧
      (start (.collection none fs site 0)).run ∅ = some (false, ∅)) ∧
        (∃ call, call.kind = .callExpression ∧
          (start (.closure call call 0)).run ∅ = some (true, ∅)) ∧
      ∀ requirement, ∀ call : Call,
        (run r (outcomeTest r requirement) Schedule.backwards maxCalls call).run {0} =
          some (call.answer r (outcomeTest r requirement) [0], {0}) := by
  have hrun : let r := Resolution.ofFile (parse endlessClosures)
      (r.root.preorder.any fun site => site.kind == .callExpression && !isAppend r site &&
        site.preorder.any fun fs => !search r (captureTest r []) maxDepth
          (.collection none) fs site []) = true ∧
      (r.root.preorder.any fun call => call.kind == .callExpression &&
        (call.child? .function).any (·.text == "loop") && closure r
          (captureTest r []) call call) = true := by
    decide +kernel
  generalize Resolution.ofFile (parse endlessClosures) = r at hrun ⊢
  intro r start
  simp only [List.any_eq_true, Bool.and_eq_true, Bool.not_eq_true', beq_iff_eq] at hrun
  obtain ⟨⟨site, -, ⟨-, happend⟩, fs, -, hfails⟩, call, -, ⟨hkind, -⟩, hpasses⟩ := hrun
  obtain ⟨hanswer, -, hclosure, -⟩ :=
    run_eq_answer Verdict.unordered_bool r (captureTest r []) Schedule.backwards
      (Nat.le_refl maxCalls)
  refine ⟨⟨fs, site, happend, ?_⟩, ⟨call, hkind, ?_⟩, fun requirement call => ?_⟩
  · rw [← hfails]
    exact hanswer (.collection none fs site 0) []
  · rw [← hpasses]
    exact hclosure call call
  · exact (run_eq_answer Verdict.unordered_outcome r (outcomeTest r requirement) Schedule.backwards
      (Nat.le_refl maxCalls)).1 call [0]

end Search

end Handoff
