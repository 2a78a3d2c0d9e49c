import Handoff.Proofs.Resolution.Alignment
import Handoff.Proofs.Verdict.Tiers

/-!
# Verdicts on mirrored files

Two resolutions mirror one another when they correspond in all their bindings. Then a variable may
hold a context just where its counterpart may, a function mentions a context just where its
counterpart does, and calls go to the same functions.

## Main definitions

* `Resolution.Mirrors`: resolutions that correspond in all their bindings.

## Main statements

* `Resolution.Mirrors.mayHoldToken`: corresponding bindings may hold a context alike.
* `Resolution.Mirrors.function_captureTest`: like functions are tested alike.
* `Resolution.Mirrors.isCallee`: like callees are matched by the same spawners.
-/

namespace Handoff

open Syntax Node

variable {root root' : Node} {M : Correspondence root root'} {r r' : Resolution}
  {carriers : Carriers} {n n' : Node} {i j : Nat}

namespace Resolution

/-- Resolutions that correspond in all their bindings. -/
structure Mirrors (M : Correspondence root root') (r r' : Resolution) :
    Prop extends Like M r r' where
  node_of_content {n n' : Node} : M.content n n' → M.node n n'
  compared (i : Nat) : M.compared i
  earlier (i : Nat) : M.earlier i = []
  earlier' (i : Nat) : M.earlier' i = []
  length_eq : r'.bindings.length = r.bindings.length
  encloses {n n' : Node} {b b' : Binding} : M.node n n' → n.kind ≠ .comment → b ∈ r.bindings →
    b'∈ r'.bindings → b.kind.isLocal = true → M.node b.decl b'.decl →
      n'.encloses b'.decl = n.encloses b.decl

end Resolution

inductive Origin.Alike (C : Nat → Nat → Prop) : Origin → Origin → Prop where
  | unknown : Alike C .unknown .unknown
  | plain : Alike C .plain .plain
  | copy {i j : Nat} : C i j → Alike C (.copy i) (.copy j)

namespace Resolution.Mirrors

/-- Corresponding bindings are declared, typed and written alike. -/
theorem binding (h : r.Mirrors M r') (hij : M.number i j) :
    Option.Rel (fun b b' => Binding.Alike M b b' ∧ Binding.SameContents M.content b b')
      r.bindings[i]? r'.bindings[j]? := by
  have htypes := h.types (fun _ _ => h.compared _) hij (h.compared i)
  have hwrites := h.writes hij
  obtain ⟨hb, hb'⟩ | ⟨b, b', hb, hb', halike⟩ := rel_cases (h.bindings hij)
  · rw [hb, hb']
    exact .none
  · rw [hb, hb', Option.rel_some_some] at htypes hwrites
    obtain ⟨late, late', hlate, hlate', hall⟩ := hwrites
    rw [h.earlier, List.nil_append] at hlate
    rw [h.earlier', List.nil_append] at hlate'
    rw [hb, hb']
    exact .some ⟨halike, htypes, by rwa [hlate, hlate']⟩

/-- Like names stand for corresponding bindings. -/
theorem bindingOf_cases (h : r.Mirrors M r') (hN : M.node n n') :
    (r.bindingOf n = none ∧ r'.bindingOf n' = none) ∨ ∃ i b j b', r.bindingOf n = some (i, b) ∧
      r'.bindingOf n' = some (j, b') ∧ M.number i j ∧ Binding.Alike M b b' ∧
        Binding.SameContents M.content b b' := by
  obtain hnone | ⟨⟨i, b⟩, ⟨j, b'⟩, hb, hb', hnumber, -, -⟩ := rel_cases (h.toLike.bindingOf hN)
  · exact .inl hnone
  · have hbinding := h.binding hnumber
    rw [(bindingOf_eq_some.1 hb).2, (bindingOf_eq_some.1 hb').2, Option.rel_some_some] at hbinding
    exact .inr ⟨i, b, j, b', hb, hb', hnumber, hbinding.1, hbinding.2⟩

theorem typeOf (h : r.Mirrors M r') (hN : M.node n n') : r'.typeOf n' = r.typeOf n :=
  h.toLike.typeOf (fun _ _ => h.compared _) hN

theorem isTokenField (h : r.Mirrors M r') (hN : M.node n n') :
    r'.isTokenField carriers n' = r.isTokenField carriers n := by
  rw [Resolution.isTokenField, Resolution.isTokenField, M.like.kind hN, h.typeOf hN]

/-! ### Variables that may hold a context -/

/-- Counterparts are origins alike. -/
theorem originOf (h : r.Mirrors M r') (hN : M.node n n') :
    Origin.Alike M.number (r.originOf n) (r'.originOf n') := by
  unfold Resolution.originOf
  have hbare := M.like.bare hN
  dsimp only
  rw [M.like.kind hbare, M.like.text_child? hbare (f := .operator) rfl]
  split
  next =>
    obtain ⟨hu, hu'⟩ | ⟨i, j, hu, hu', hnumber⟩ := rel_cases (h.uses hbare)
    · rw [hu, hu']
      exact .unknown
    · rw [hu, hu']
      exact .copy hnumber
  next =>
    split
    · exact .unknown
    · exact .unknown
    · exact .plain
  next =>
    split
    · exact .plain
    · exact .unknown

theorem origins (h : r.Mirrors M r') {b b' : Binding} (halike : Binding.Alike M b b')
    (hsame : Binding.SameContents M.content b b') :
    List.Forall₂ (Origin.Alike M.number) (r.origins b) (r'.origins b') := by
  unfold Resolution.origins
  rw [hsame.type]
  have hkind := halike.kind
  generalize b.kind = kind, b'.kind = kind' at hkind
  have hwrites : List.Forall₂ (Origin.Alike M.number)
      (b.writes.map fun w => (w.value.map r.originOf).getD .unknown)
      (b'.writes.map fun w => (w.value.map r'.originOf).getD .unknown) := by
    refine List.rel_map (fun w w' hw => ?_) hsame.writes
    obtain ⟨hv, hv'⟩ | ⟨v, v', hv, hv', hcontent⟩ := rel_cases hw.value
    · rw [hv, hv']
      exact .unknown
    · rw [hv, hv']
      exact h.originOf (h.node_of_content hcontent)
  have hempty : b'.writes.isEmpty = b.writes.isEmpty := by
    rw [Bool.eq_iff_iff, List.isEmpty_iff_length_eq_zero, List.isEmpty_iff_length_eq_zero,
      hsame.writes.length_eq]
  cases hkind with
  | localVariable bySpec =>
    cases b.type with
    | some t => exact .nil
    | none =>
      dsimp only
      rw [hempty]
      split
      · refine .cons ?_ .nil
        cases bySpec
        · exact .unknown
        · exact .plain
      · exact hwrites
  | function | packageVariable | parameter => cases b.type <;> exact .nil

theorem copies (h : r.Mirrors M r') (hij : M.number i j) :
    List.Forall₂ M.number (r.copies i) (r'.copies j) := by
  unfold Resolution.copies
  obtain ⟨hb, hb'⟩ | ⟨b, b', hb, hb', halike, hsame⟩ := rel_cases (h.binding hij)
  · rw [hb, hb']
    exact .nil
  · rw [hb, hb']
    refine List.rel_filterMap (fun o o' ho => ?_) (h.origins halike hsame)
    cases ho with
    | unknown | plain => exact .none
    | copy hnumber => exact .some hnumber

theorem isSource (h : r.Mirrors M r') (hij : M.number i j) :
    r'.isSource carriers j = r.isSource carriers i := by
  unfold Resolution.isSource
  obtain ⟨hb, hb'⟩ | ⟨b, b', hb, hb', halike, hsame⟩ := rel_cases (h.binding hij)
  · rw [hb, hb']
  · rw [hb, hb']
    dsimp only
    rw [hsame.type]
    split
    · rfl
    · have horigins := h.origins halike hsame
      generalize r.origins b = os, r'.origins b' = os' at horigins
      induction horigins with
      | nil => rfl
      | cons ho _ ih =>
        rw [List.contains_cons, List.contains_cons, ih]
        cases ho <;> rfl

section Numbers

variable {l l' : List Nat} (hl : List.Forall₂ M.number l l')

include hl

theorem contains_like (hij : M.number i j) : l'.contains j = l.contains i := by
  induction hl with
  | nil => rfl
  | cons ha _ ih =>
    rw [List.contains_cons, List.contains_cons, ih]
    congr 1
    rw [Bool.eq_iff_iff, beq_iff_eq, beq_iff_eq]
    exact (M.numbers hij ha).symm

theorem eraseDups_like : List.Forall₂ M.number l.eraseDups l'.eraseDups := by
  induction hlength : l.length using Nat.strongRecOn generalizing l l' with
  | ind k ih =>
    cases hl with
    | nil => exact .nil
    | @cons a a' l l' ha hl =>
      rw [List.eraseDups_cons, List.eraseDups_cons]
      refine .cons ha (ih _ ?_ (List.rel_filter (fun b b' hb => ?_) hl) rfl)
      · exact Nat.lt_of_le_of_lt (List.length_filter_le ..)
          (by rw [← hlength]; exact Nat.lt_succ_self _)
      · simp only [Bool.not_eq_true', beq_eq_false_iff_ne]
        exact not_congr (M.numbers hb ha)

end Numbers

/-- Rounds of copies reach corresponding bindings. -/
theorem reachedBy (h : r.Mirrors M r') (k : Nat) {frontier frontier' reached reached' : List Nat}
    (hfrontier : List.Forall₂ M.number frontier frontier')
    (hreached : List.Forall₂ M.number reached reached') :
    List.Forall₂ M.number (r.reachedBy k frontier reached) (r'.reachedBy k frontier' reached') := by
  induction k generalizing frontier frontier' reached reached' with
  | zero => exact hreached
  | succ k ih =>
    rw [Resolution.reachedBy, Resolution.reachedBy]
    have hnext : List.Forall₂ M.number
        ((frontier.flatMap r.copies).filter fun i => !reached.contains i).eraseDups
        ((frontier'.flatMap r'.copies).filter fun i => !reached'.contains i).eraseDups := by
      refine eraseDups_like (List.rel_filter (fun a a' ha => ?_)
        (List.rel_flatMap hfrontier fun _ _ ha => h.copies ha))
      dsimp only
      rw [contains_like hreached ha]
    generalize ((frontier.flatMap r.copies).filter fun i => !reached.contains i).eraseDups = next,
      ((frontier'.flatMap r'.copies).filter fun i => !reached'.contains i).eraseDups =
        next' at hnext
    cases hnext with
    | nil => exact hreached
    | cons ha hrest => exact ih (.cons ha hrest) (List.rel_append hreached (.cons ha hrest))

/-- Corresponding bindings may hold a context alike. -/
theorem mayHoldToken (h : r.Mirrors M r') (hij : M.number i j) :
    r'.mayHoldToken carriers j = r.mayHoldToken carriers i := by
  unfold Resolution.mayHoldToken
  rw [h.length_eq]
  have hreached := h.reachedBy r.bindings.length (.cons hij .nil) (.cons hij .nil)
  generalize r.reachedBy r.bindings.length [i] [i] = l, r'.reachedBy r.bindings.length [j]
    [j] = l' at hreached
  induction hreached with
  | nil => rfl
  | cons ha _ ih => rw [List.any_cons, List.any_cons, ih, h.isSource ha]

/-! ### Mentions -/

/-- A name in a node is one of a context just when its counterpart is. -/
theorem isTokenName {node node' : Node} (h : r.Mirrors M r') (hnode : M.node node node')
    (hkind : node.kind ≠ .comment) (hN : M.node n n') :
    isTokenName r' carriers node' n' = isTokenName r carriers node n := by
  unfold Handoff.isTokenName
  obtain ⟨hb, hb'⟩ | ⟨i, b, j, b', hb, hb', hnumber, halike, hsame⟩ := h.bindingOf_cases hN
  · rw [hb, hb']
  rw [hb, hb']
  dsimp only
  rw [hsame.type]
  split
  · rfl
  next htype =>
    have hget := (bindingOf_eq_some.1 hb).2
    have hget' := (bindingOf_eq_some.1 hb').2
    rw [h.mayHoldToken hnumber]
    -- only variables in functions may hold a context without having its type
    cases hhold : r.mayHoldToken carriers i with
    | false => rw [Bool.and_false, Bool.and_false]
    | true =>
      rw [h.encloses hnode hkind (List.mem_of_getElem? hget) (List.mem_of_getElem? hget')
        (isLocal_of_mayHoldToken hget htype hhold) (h.node_of_content halike.decl)]

/-- Nodes below which no argument list is respelled. -/
def Exact (M : Correspondence root root') (n : Node) : Prop :=
  ∀ a ∈ n.preorder, ∀ a', M.node a a' → List.Forall₂ M.node a.parts a'.parts

theorem Exact.of_mem {m : Node} (h : Exact M n) (hm : m ∈ n.preorder) : Exact M m := fun a ha =>
  h a (preorder_trans hm ha)

/-- What is mentioned below counterparts is the same. -/
theorem mentionsBelow {node node' : Node} {intoLiterals : Bool} (h : r.Mirrors M r')
    (hnode : M.node node node') (hkind : node.kind ≠ .comment) (hexact : Exact M n)
    (hN : M.node n n') :
    mentionsBelow r' carriers node' intoLiterals n' =
      mentionsBelow r carriers node intoLiterals n := by
  induction n using innerInduction generalizing n' with
  | step n ih =>
    -- the parts of the nodes correspond, since no list below is respelled
    have hamong : mentionsAmong r' carriers node' intoLiterals n'.children =
        mentionsAmong r carriers node intoLiterals n.children := by
      rw [mentionsAmong_eq_any, mentionsAmong_eq_any, ← List.any_filter, ← List.any_filter]
      change n'.parts.any _ = n.parts.any _
      have hparts := hexact n (self_mem_preorder n) n' hN
      have hmem : ∀ c ∈ n.parts, c ∈ n.inner := fun c hc => inner_of_mem_filter hc
      generalize n.parts = cs, n'.parts = cs' at hparts hmem
      induction hparts with
      | nil => rfl
      | cons hc _ ihcs =>
        obtain ⟨hcmem, hmem⟩ := List.forall_mem_cons.1 hmem
        rw [List.any_cons, List.any_cons, ihcs hmem,
          ih _ hcmem (hexact.of_mem (preorder_of_inner hcmem)) hc]
    have hid : (n'.id == node'.id) = (n.id == node.id) := by
      rw [Bool.eq_iff_iff, beq_iff_eq, beq_iff_eq]
      exact (M.ids hN hnode).symm
    have hname : Handoff.isTokenName r' carriers node' n' = Handoff.isTokenName r carriers node n :=
      h.isTokenName hnode hkind hN
    have hfield : r'.isTokenField carriers n' = r.isTokenField carriers n := h.isTokenField hN
    have hlabel := M.like.kind hN
    obtain ⟨label, children⟩ := n
    obtain ⟨label', children'⟩ := n'
    change label'.kind = label.kind at hlabel
    rw [Handoff.mentionsBelow, Handoff.mentionsBelow, hlabel, hname, hfield, hid]
    change (if _ then _ else _ || (_ && mentionsAmong r' carriers node' intoLiterals children')) = _
    rw [hamong]

/-- Like functions are tested alike. -/
theorem function_captureTest (h : r.Mirrors M r') (hexact : Exact M n) (hN : M.node n n') :
    (captureTest r' carriers).function n' = (captureTest r carriers).function n := by
  change (declaresToken _ _ _ || _) = (declaresToken _ _ _ || _)
  rw [h.imports, declaresToken_like M.like r.imports carriers hN]
  congr 1
  obtain ⟨hc, hc'⟩ | ⟨body, body', hc, hc', hbody⟩ := rel_cases (M.like.child? hN .body)
  · rw [hc, hc']
  · rw [hc, hc']
    refine h.mentionsBelow hbody (fun hcomment => ?_) (hexact.of_mem (preorder_of_child? hc)) hbody
    obtain hk | hk := (M.wellFormed hN).kind_body (self_mem_preorder n) hc
    · cases hk.symm.trans hcomment
    · cases hk.symm.trans hcomment

/-! ### Callees -/

theorem isPackage (h : r.Mirrors M r') (hN : M.node n n') (path : String) :
    r'.isPackage n' path = r.isPackage n path := by
  rw [Resolution.isPackage, Resolution.isPackage, h.toLike.packageOf hN]

theorem hasType (h : r.Mirrors M r') (hN : M.node n n') (path name : String) :
    r'.hasType n' path name = r.hasType n path name := by
  rw [Resolution.hasType, Resolution.hasType, h.typeOf hN]

/-- Like callees are matched by the same spawners. -/
theorem isCallee (h : r.Mirrors M r') (hN : M.node n n') (spawner : Spawner) :
    spawner.isCallee r' n' = spawner.isCallee r n := by
  unfold Spawner.isCallee
  rw [M.like.kind hN]
  split
  next hident =>
    rw [M.like.text_identifier hN hident]
    obtain ⟨hb, hb'⟩ | ⟨i, b, j, b', hb, hb', -, halike, -⟩ := h.bindingOf_cases hN
    · rw [hb, hb']
    · rw [hb, hb']
      simp only [Option.any_some, Like.kind_isFunction halike.kind]
  next =>
    have hmember := M.like.text_child? hN (f := .member) rfl
    obtain ⟨ho, ho'⟩ | ⟨o, o', ho, ho', hoperand⟩ := rel_cases (M.like.child? hN .operand)
    · rw [ho, ho']
    obtain ⟨hm, hm'⟩ | ⟨m, m', hm, hm', -⟩ := rel_cases (M.like.child? hN .member)
    · rw [ho, ho', hm, hm']
    rw [hm, hm'] at hmember
    rw [ho, ho', hm, hm']
    dsimp only
    rw [Option.some.inj hmember]
    congr 1
    split
    · rfl
    · exact h.isPackage hoperand _
    · exact h.hasType hoperand _ _
  next => rfl

/-- Like calls are matched by the same spawner. -/
theorem find?_isCallee (h : r.Mirrors M r') (hN : M.node n n') (spawners : List Spawner) :
    spawners.find? (·.isCallee r' n') = spawners.find? (·.isCallee r n) := by
  congr 1
  funext spawner
  exact h.isCallee hN spawner

end Resolution.Mirrors

/-! ### Aligned files -/

theorem length_eq_of_rel {α β : Type} {S : α → β → Prop} {l : List α} {l' : List β}
    (h : ∀ i : Nat, Option.Rel S l[i]? l'[i]?) : l'.length = l.length := by
  have hiff : ∀ i, l'.length ≤ i ↔ l.length ≤ i := fun i => by
    rw [← List.getElem?_eq_none_iff, ← List.getElem?_eq_none_iff]
    obtain ⟨hn, hn'⟩ | ⟨x, y, hx, hy, -⟩ := rel_cases (h i)
    · exact iff_of_true hn' hn
    · rw [hx, hy]
      exact iff_of_false (Option.some_ne_none _) (Option.some_ne_none _)
  exact Nat.le_antisymm ((hiff _).2 (Nat.le_refl _)) ((hiff _).1 (Nat.le_refl _))

/-- The resolutions of aligned files mirror one another. -/
theorem Resolution.mirrors_of_aligned {R : Label → Label → Prop} {respelled : Label → Prop}
    {ps : List (Node × Node)} (h : Aligned R respelled [root] [root'] ps) (hfile : root.IsFile)
    (wf' : root'.WellFormed) (hR : ∀ l l', R l l' → l.Like l') :
    (ofFile root).Mirrors (h.correspondence hfile.wellFormed wf' hR hfile.kind) (ofFile root') := by
  have wf := hfile.wellFormed
  have hlike := like_of_aligned h wf wf' hR hfile.kind
  refine ⟨hlike, fun hp => hp, fun _ => trivial, fun _ => rfl, fun _ => rfl,
    length_eq_of_rel fun i => hlike.bindings rfl, ?_⟩
  intro n n' b b' hN hkind hb _ hlocal hdecl
  have hr := grounded_of_isFile hfile
  have hname := ((hr.binding b hb).of_isLocal hlocal).1
  have L := h.likeness hR
  exact h.encloses wf wf' hN hdecl hkind (by rwa [L.kind hN]) hname (by rwa [L.kind hdecl])

end Handoff
