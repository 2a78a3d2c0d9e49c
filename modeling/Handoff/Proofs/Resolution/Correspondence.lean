import Handoff.Proofs.Resolution.Lockstep

/-!
# Corresponding resolutions

Two resolutions correspond when like nodes stand for corresponding bindings, and corresponding
bindings are declared, typed and written alike. The numbers of the bindings may differ. What a
correspondence says of types and writes it may restrict to some bindings, as long as no node that it
relates uses another one.

## Main definitions

* `Correspondence`: which nodes and which numbers of bindings of two files correspond.
* `Resolution.Like`, `Resolver.Like`: what corresponds in two resolutions, and in two resolvers.

## Main statements

* `Resolution.Like.typeOf`: like expressions have one type.
* `Resolver.lockstep_like`: corresponding steps keep resolvers corresponding.
-/

namespace Handoff

open Syntax Node

/-- Which nodes and which numbers of bindings correspond in two files. -/
structure Correspondence (root root' : Node) where
  /-- The nodes that are resolved. -/
  node : Node → Node → Prop
  /-- The nodes that bindings refer to. -/
  content : Node → Node → Prop
  /-- The nodes that bindings have as scopes. -/
  scope : Node → Node → Prop
  /-- The functions that bindings belong to. -/
  owner : Option Node → Option Node → Prop
  number : Nat → Nat → Prop
  /-- The bindings whose types are compared. -/
  compared : Nat → Prop
  /-- The writes to a binding of the first file that are left out of the comparison. -/
  earlier : Nat → List Write
  /-- The writes to a binding of the second file that are left out of the comparison. -/
  earlier' : Nat → List Write
  like : Likeness node
  root_wellFormed : root.WellFormed
  mem {n n' : Node} : node n n' → n ∈ root.preorder
  content_of_node {n n' : Node} : node n n' → content n n'
  scope_of_node {n n' : Node} : node n n' → n.kind.opensScope = true → scope n n'
  scope_root : scope root root'
  owner_of_node {o o' : Option Node} : Option.Rel node o o' → owner o o'
  ids {n n' m m' : Node} : node n n' → node m m' → (n.id = m.id ↔ n'.id = m'.id)
  numbers {i i' j j' : Nat} : number i i' → number j j' → (i = j ↔ i' = j')
  conditional {n n' m m' : Node} : node n n' → scope m m' →
    isConditional root' n' m' = isConditional root n m

theorem Correspondence.wellFormed {root root' n n' : Node} (M : Correspondence root root')
    (hN : M.node n n') :
    n.WellFormed :=
  M.root_wellFormed.of_mem (M.mem hN)

inductive BindingKind.Alike (K : Node → Node → Prop) : BindingKind → BindingKind → Prop where
  | function {d d' : Node} : K d d' → Alike K (.function d) (.function d')
  | packageVariable : Alike K .packageVariable .packageVariable
  | parameter : Alike K .parameter .parameter
  | localVariable (bySpec : Bool) : Alike K (.localVariable bySpec) (.localVariable bySpec)

structure Write.Alike (K : Node → Node → Prop) (w w' : Write) : Prop where
  site : K w.site w'.site
  value : Option.Rel K w.value w'.value
  conditional : w'.conditional = w.conditional

structure Binding.SameContents (K : Node → Node → Prop) (b b' : Binding) : Prop where
  type : b'.type = b.type
  writes : List.Forall₂ (Write.Alike K) b.writes b'.writes

namespace Binding

variable {root root' : Node} (M : Correspondence root root')

structure Alike (b b' : Binding) : Prop where
  name : b'.name = b.name
  kind : BindingKind.Alike M.content b.kind b'.kind
  decl : M.content b.decl b'.decl
  owner : M.owner b.owner b'.owner
  scope : M.scope b.scope b'.scope

/-- Bindings that are written alike, earlier writes to them apart. -/
def WrittenAlike (i j : Nat) (b b' : Binding) : Prop :=
  ∃ late late', b.writes = M.earlier i ++ late ∧ b'.writes = M.earlier' j ++ late' ∧
    List.Forall₂ (Write.Alike M.content) late late'

end Binding

variable {root root' : Node} (M : Correspondence root root')

/-- A node that names a function declaration. -/
def IsTitle (root n : Node) : Prop :=
  ∃ d ∈ root.preorder, d.kind = .functionDeclaration ∧ n ∈ d.children

/-- Only bindings that are compared are used in related nodes. -/
def Correspondence.Covers (r : Resolution) : Prop :=
  ∀ {n n' i}, M.node n n' → (n.id, i) ∈ r.uses → M.compared i

/-- Resolutions that show the same about related nodes. -/
structure Resolution.Like (r r' : Resolution) : Prop where
  root_eq : r.root = root
  root_eq' : r'.root = root'
  imports : r'.imports = r.imports
  results {name : String} : name ≠ "_" → r'.results.lookup name = r.results.lookup name
  fieldTypes (key : String × String) : r'.fieldTypes.lookup key = r.fieldTypes.lookup key
  uses {n n' : Node} : M.node n n' → Option.Rel M.number (r.useOf n) (r'.useOf n')
  bindings {i j : Nat} : M.number i j → Option.Rel (Binding.Alike M) r.bindings[i]? r'.bindings[j]?
  writes {i j : Nat} : M.number i j →
    Option.Rel (Binding.WrittenAlike M i j) r.bindings[i]? r'.bindings[j]?
  types {i j : Nat} : M.Covers r → M.number i j → M.compared i →
    Option.Rel (fun b b' => b'.type = b.type) r.bindings[i]? r'.bindings[j]?
  /-- A blank name stands for a binding only where it is declared. -/
  blank {n n' : Node} {i : Nat} : M.node n n' → r.useOf n = some i → n.text = "_" → IsTitle root n

namespace Resolution

theorem typeOfFirst_eq (r : Resolution) (cs : List Node) :
    typeOfFirst r cs = ((cs.filter isPart).head?).bind r.typeOf := by
  induction cs with
  | nil => rw [typeOfFirst, List.filter_nil, List.head?_nil, Option.bind_none]
  | cons c cs ih =>
    rw [typeOfFirst, List.filter_cons]
    split
    · rfl
    · exact ih

theorem typeOfOperand_eq (r : Resolution) (cs : List Node) :
    typeOfOperand r cs = (cs.find? (·.field == some .operand)).bind r.typeOf := by
  induction cs with
  | nil => rw [typeOfOperand, List.find?_nil, Option.bind_none]
  | cons c cs ih =>
    rw [typeOfOperand, List.find?_cons]
    split
    next h => rw [h, Option.bind_some]
    next h => rw [Bool.eq_false_iff.2 h, ih]

namespace Like

variable {M} {r r' : Resolution} {n n' : Node}

/-- A name stands for corresponding bindings. -/
theorem bindingOf (h : r.Like M r') (hN : M.node n n') :
    Option.Rel (fun p p' => M.number p.1 p'.1 ∧ Binding.Alike M p.2 p'.2 ∧
      (M.Covers r → p'.2.type = p.2.type)) (r.bindingOf n) (r'.bindingOf n') := by
  unfold Resolution.bindingOf
  obtain ⟨hu, hu'⟩ | ⟨i, j, hu, hu', hnumber⟩ := rel_cases (h.uses hN)
  · rw [hu, hu']
    exact .none
  · rw [hu, hu']
    obtain ⟨hb, hb'⟩ | ⟨b, b', hb, hb', halike⟩ := rel_cases (h.bindings hnumber)
    · simp only [bind, Option.bind, hb, hb']
      exact .none
    · simp only [bind, Option.bind, hb, hb']
      refine .some ⟨hnumber, halike, fun hcovers => ?_⟩
      have hcompared := hcovers hN (Resolver.mem_of_lookup hu)
      obtain ⟨hc, -⟩ | ⟨c, c', hc, hc', hsame⟩ := rel_cases (h.types hcovers hnumber hcompared)
      · rw [hb] at hc
        cases hc
      · rw [hb] at hc
        rw [hb'] at hc'
        cases hc
        cases hc'
        exact hsame

theorem isNone_useOf (h : r.Like M r') (hN : M.node n n') :
    (r'.useOf n').isNone = (r.useOf n).isNone := by
  obtain ⟨hu, hu'⟩ | ⟨i, j, hu, hu', -⟩ := rel_cases (h.uses hN)
  · rw [hu, hu']
  · rw [hu, hu']
    rfl

theorem packageOf (h : r.Like M r') (hN : M.node n n') : r'.packageOf n' = r.packageOf n := by
  unfold Resolution.packageOf
  rw [M.like.kind hN, h.isNone_useOf hN, h.imports]
  split
  next hident =>
    rw [M.like.text_identifier hN (by simp_all)]
  next => rfl

theorem kind_isFunction {K : Node → Node → Prop} {k k' : BindingKind}
    (h : BindingKind.Alike K k k') : k'.isFunction = k.isFunction := by
  cases h <;> rfl

/-- The type that the first argument of a call names: none where arguments are respelled. -/
theorem typeOf_firstArgument (imports : Imports) (hN : M.node n n')
    (hkind : n.kind = .argumentList) :
    (n'.parts.head?).bind imports.typeOf = (n.parts.head?).bind imports.typeOf := by
  have hnone : ∀ m : Node, m.kind = .variadicArgument ∨ m.kind = .funcLiteral →
      imports.typeOf m = none := by
    rintro ⟨label, children⟩ (hm | hm)
    · change label.kind = _ at hm
      rw [Imports.typeOf, hm]
    · change label.kind = _ at hm
      rw [Imports.typeOf, hm]
  have hhead : ∀ {cs cs'}, List.Forall₂ M.node cs cs' →
      (cs'.head?).bind imports.typeOf = (cs.head?).bind imports.typeOf := fun hcs => by
    cases hcs with
    | nil => rfl
    | cons hc _ => exact Imports.typeOf_like M.like imports hc
  cases M.like.arguments hN hkind with
  | same hparts => exact hhead hparts
  | @spread lead lead' elements argument literal type body hparts hargument _ his hparts'
      hlead helements =>
    rw [hparts, hparts']
    cases hlead with
    | cons hc _ => exact Imports.typeOf_like M.like imports hc
    | nil =>
      have hfirst : (elements.head?).bind imports.typeOf = none := by
        rw [hhead helements, List.head?_map, Option.bind_eq_none_iff]
        intro e he
        obtain ⟨e, hmem, rfl⟩ := Option.map_eq_some_iff.1 he
        exact hnone _ (.inr (his.elements e (List.mem_of_mem_head? hmem)).2.2)
      exact hfirst.trans (hnone argument (.inl hargument)).symm

/-- What is called is no name of a declaration. -/
theorem not_isTitle_callee {callee : Node} (hroot : root.Distinct) (hn : n ∈ root.preorder)
    (hkind : n.kind = .callExpression) (hcallee : n.child? .function = some callee) :
    ¬ IsTitle root callee.bare := by
  rintro ⟨d, hd, hfunction, hchild⟩
  have hparent : ∀ {p : Node}, p ∈ root.preorder → callee.bare ∈ p.children →
      p.kind = .functionDeclaration :=
    fun hp hc => hroot.parent_eq hp hd hc hchild ▸ hfunction
  have hmem := (mem_children_of_child? hcallee).1
  obtain hself | ⟨p, hp, hparen, hc⟩ := bare_eq_or_mem_children callee
  · rw [hself] at hparent
    cases (hparent hn hmem).symm.trans hkind
  · have hp := preorder_trans hn (preorder_of_inner (inner_of_preorder (inner_of_child hmem) hp))
    cases (hparent hp hc).symm.trans hparen

/-- Calls of counterparts show the same result types. -/
theorem callResult (h : r.Like M r') (hN : M.node n n') (hcall : n.kind = .callExpression)
    (index : Nat) : r'.callResult n' index = r.callResult n index := by
  unfold Resolution.callResult
  obtain ⟨hc, hc'⟩ | ⟨c, c', hc, hc', hNc⟩ := rel_cases (M.like.child? hN .function)
  · rw [hc, hc']
    rfl
  · rw [hc, hc']
    simp only [bind, Option.bind]
    have hcallee := M.like.bare hNc
    rw [M.like.kind hcallee]
    split
    -- a name: `new` as long as nothing is declared with it, or a function of the file
    next hident =>
      rw [M.like.text_identifier hcallee hident, h.isNone_useOf hcallee, h.imports]
      obtain ⟨hb, hb'⟩ | ⟨⟨i, b⟩, ⟨j, b'⟩, hb, hb', -, halike, -⟩ := rel_cases (h.bindingOf hcallee)
      · rw [hb, hb']
        dsimp only
        split
        · obtain ⟨ha, ha'⟩ | ⟨a, a', ha, ha', hNa⟩ := rel_cases (M.like.child? hN .arguments)
          · rw [ha, ha']
          · rw [ha, ha']
            exact typeOf_firstArgument r.imports hNa
              ((M.wellFormed hN).kind_arguments (self_mem_preorder _) ha)
        · rfl
      · have hnamed : c.bare.text ≠ "_" := fun hblank =>
          not_isTitle_callee M.root_wellFormed.distinct (M.mem hN) hcall hc
            (h.blank hcallee (bindingOf_eq_some.1 hb).1 hblank)
        rw [hb, hb']
        dsimp only
        rw [kind_isFunction halike.kind, h.results hnamed]
    next hselector =>
      obtain ⟨ho, ho'⟩ | ⟨o, o', ho, ho', hNo⟩ := rel_cases (M.like.child? hcallee .operand)
      · rw [ho, ho']
      · rw [ho, ho']
        have hmember := M.like.text_child? hcallee (f := .member) rfl
        obtain ⟨hm, hm'⟩ | ⟨m, m', hm, hm', -⟩ := rel_cases (M.like.child? hcallee .member)
        · rw [hm, hm']
        · rw [hm, hm'] at hmember ⊢
          dsimp only
          rw [h.packageOf hNo, Option.some.inj hmember]
    next => rfl

/-- Like expressions have one type. -/
theorem typeOf (h : r.Like M r') (hcovers : M.Covers r) (hN : M.node n n') :
    r'.typeOf n' = r.typeOf n := by
  induction n using innerInduction generalizing n' with
  | step n ih =>
    -- the operand of a unary or selector expression is smaller, its type the same by induction
    have hoperand : (n'.child? .operand).bind r'.typeOf = (n.child? .operand).bind r.typeOf := by
      obtain ⟨hc, hc'⟩ | ⟨c, c', hc, hc', hNc⟩ := rel_cases (M.like.child? hN .operand)
      · rw [hc, hc']
        rfl
      · rw [hc, hc']
        exact ih c (inner_of_child (mem_children_of_child? hc).1) hNc
    have hkind := M.like.kind hN
    have hoperator := M.like.text_child? hN (f := .operator) rfl
    have hmember := M.like.text_child? hN (f := .member) rfl
    have hbinding := h.bindingOf hN
    have hcall : n.kind = .callExpression → r'.callResult n' 0 = r.callResult n 0 := fun hk =>
      h.callResult hN hk 0
    have hdeclared := Imports.declaredType_like M.like r.imports hN
    have hparts := M.like.parts hN
    obtain ⟨label, children⟩ := n
    obtain ⟨label', children'⟩ := n'
    change label'.kind = label.kind at hkind
    rw [Resolution.typeOf, Resolution.typeOf, hkind]
    simp only [typeOfFirst_eq, typeOfOperand_eq]
    split
    next hk =>
      obtain ⟨hc, hc'⟩ | ⟨c, c', hc, hc', hNc⟩ :=
        rel_cases (rel_head? (hparts (by rw [kind, hk]; decide)))
      · change ((Node.mk label' children').parts.head?).bind _ =
          ((Node.mk label children).parts.head?).bind _
        rw [hc, hc']
        rfl
      · change ((Node.mk label' children').parts.head?).bind _ =
          ((Node.mk label children).parts.head?).bind _
        rw [hc, hc']
        exact ih c (inner_of_mem_filter (List.mem_of_mem_head? hc)) hNc
    next =>
      obtain ⟨hb, hb'⟩ | ⟨⟨i, b⟩, ⟨j, b'⟩, hb, hb', -, -, hsame⟩ := rel_cases hbinding
      · rw [hb, hb']
      · rw [hb, hb']
        exact hsame hcovers
    next => rw [h.imports, hdeclared]
    next =>
      rw [hoperator]
      split
      · exact hoperand
      · exact hoperand
      · rfl
    next =>
      -- the type of a field is looked up by the type of the operand and the name
      change (do
          let member ← (Node.mk label' children').child? .member
          let owner ← ((Node.mk label' children').child? .operand).bind r'.typeOf
          if owner.isOfFile then r'.fieldTypes.lookup (owner.name, member.text) else none) = (do
          let member ← (Node.mk label children).child? .member
          let owner ← ((Node.mk label children).child? .operand).bind r.typeOf
          if owner.isOfFile then r.fieldTypes.lookup (owner.name, member.text) else none)
      rw [hoperand]
      obtain ⟨hm, hm'⟩ | ⟨m, m', hm, hm', -⟩ := rel_cases (M.like.child? hN .member)
      · rw [hm, hm']
        rfl
      · rw [hm, hm'] at hmember ⊢
        simp only [bind, Option.bind, h.fieldTypes, Option.some.inj hmember]
    next hk => exact hcall hk
    next => rfl

/-- Targets of counterparts show the same types. -/
theorem typeOfTarget {values values' : List Node} (h : r.Like M r') (hcovers : M.Covers r)
    (hN : List.Forall₂ M.node values values') (index count : Nat) :
    r'.typeOfTarget values' index count = r.typeOfTarget values index count := by
  unfold Resolution.typeOfTarget
  rw [hN.length_eq]
  split
  · obtain ⟨hv, hv'⟩ | ⟨v, v', hv, hv', hNv⟩ := rel_cases (rel_getElem? hN index)
    · rw [hv, hv']
      rfl
    · rw [hv, hv']
      exact h.typeOf hcovers hNv
  · cases hN with
    | nil => rfl
    | @cons v v' _ _ hNv hrest =>
      cases hrest with
      | nil =>
        have hbare := M.like.bare hNv
        simp only [List.map_cons, List.map_nil]
        rw [M.like.kind hbare]
        split
        next hcall => rw [h.callResult hbare hcall]
        next => rfl
      | cons _ _ => rfl

end Like

end Resolution

theorem rel_getElem?_concat {α β : Type} {R : α → β → Prop} {l : List α} {l' : List β} {a : α}
    {b : β} {i j : Nat} (h : Option.Rel R l[i]? l'[j]?) (hij : i = l.length ↔ j = l'.length)
    (hab : i = l.length → R a b) : Option.Rel R (l ++ [a])[i]? (l' ++ [b])[j]? := by
  obtain ⟨hi, hj⟩ | ⟨x, y, hi, hj, hxy⟩ := rel_cases h
  · rw [List.getElem?_eq_none_iff] at hi hj
    rw [List.getElem?_append_right hi, List.getElem?_append_right hj]
    by_cases heq : i = l.length
    · rw [heq, hij.1 heq, Nat.sub_self, Nat.sub_self]
      exact .some (hab heq)
    · have hi : 1 ≤ i - l.length := by omega
      have hj : 1 ≤ j - l'.length := by omega
      rw [List.getElem?_eq_none hi, List.getElem?_eq_none hj]
      exact .none
  · obtain ⟨hlt, -⟩ := List.getElem?_eq_some_iff.1 hi
    obtain ⟨hlt', -⟩ := List.getElem?_eq_some_iff.1 hj
    rw [List.getElem?_append_left hlt, List.getElem?_append_left hlt', hi, hj]
    exact .some hxy

structure Frame.Alike (f f' : Frame) : Prop where
  scope : M.scope f.scope f'.scope
  names {name : String} : name ≠ "_" →
    Option.Rel M.number (f.names.lookup name) (f'.names.lookup name)

namespace Resolver

/-- Resolvers with a number of open scopes that have found the same so far. What they declare next
corresponds. -/
structure Like (depth : Nat) (s t : Resolver) : Prop where
  facts : s.facts.Like M t.facts
  frames : List.Forall₂ (Frame.Alike M) s.frames t.frames
  depth_eq : s.frames.length = depth
  fresh (k : Nat) : M.number (s.facts.bindings.length + k) (t.facts.bindings.length + k)
  compared (k : Nat) : M.compared (s.facts.bindings.length + k)
  unwritten (k : Nat) : M.earlier (s.facts.bindings.length + k) = []
  unwritten' (k : Nat) : M.earlier' (t.facts.bindings.length + k) = []

namespace Like

variable {M} {n n' : Node} {owner owner' : Option Node} {d i j : Nat} {s t : Resolver}

/-- A name means corresponding bindings in two resolvers that are alike. -/
theorem lookup (h : s.Like M d t) {name : String} (hname : name ≠ "_") :
    Option.Rel M.number (s.lookup name) (t.lookup name) := by
  unfold Resolver.lookup
  have hframes := h.frames
  generalize s.frames = fs, t.frames = fs' at hframes ⊢
  induction hframes with
  | nil => exact .none
  | cons hf _ ih =>
    rw [List.findSome?_cons, List.findSome?_cons]
    obtain ⟨hl, hl'⟩ | ⟨i, j, hl, hl', hnumber⟩ := rel_cases (hf.names hname)
    · rw [hl, hl']
      exact ih
    · rw [hl, hl']
      exact .some hnumber

theorem scope (h : s.Like M d t) : M.scope s.scope t.scope := by
  unfold Resolver.scope
  obtain ⟨hf, hf'⟩ | ⟨f, f', hf, hf', halike⟩ := rel_cases (rel_head? h.frames)
  · rw [hf, hf', h.facts.root_eq, h.facts.root_eq']
    exact M.scope_root
  · rw [hf, hf']
    exact halike.scope

theorem enter (h : s.Like M d t) (hN : M.node n n') (hopens : n.kind.opensScope = true) :
    (s.enter n).Like M (d + 1) (t.enter n') where
  facts := h.facts
  frames := .cons ⟨M.scope_of_node hN hopens, fun _ => .none⟩ h.frames
  depth_eq := by rw [Resolver.enter, List.length_cons, h.depth_eq]
  fresh := h.fresh
  compared := h.compared
  unwritten := h.unwritten
  unwritten' := h.unwritten'

theorem leave (h : s.Like M (d + 1) t) : s.leave.Like M d t.leave where
  facts := h.facts
  frames := by
    have hframes := h.frames
    unfold Resolver.leave
    cases hs : s.frames with
    | nil =>
      rw [hs] at hframes
      cases ht : t.frames with
      | nil => exact .nil
      | cons _ _ => rw [ht] at hframes; cases hframes
    | cons _ _ =>
      rw [hs] at hframes
      cases ht : t.frames with
      | nil => rw [ht] at hframes; cases hframes
      | cons _ _ =>
        rw [ht] at hframes
        exact (List.forall₂_cons.1 hframes).2
  depth_eq := by rw [Resolver.leave, List.length_tail, h.depth_eq, Nat.add_sub_cancel]
  fresh := h.fresh
  compared := h.compared
  unwritten := h.unwritten
  unwritten' := h.unwritten'

theorem use (h : s.Like M d t) (hN : M.node n n') (hblank : n.text = "_" → IsTitle root n)
    (hnumber : M.number i j) : (s.use n i).Like M d (t.use n' j) where
  facts :=
    { h.facts with
      uses := fun {m _} hm => by
        rw [useOf_use, useOf_use]
        by_cases hid : m.id = n.id
        · rw [if_pos hid, if_pos ((M.ids hm hN).1 hid)]
          exact .some hnumber
        · rw [if_neg hid, if_neg fun hid' => hid ((M.ids hm hN).2 hid')]
          exact h.facts.uses hm
      types := fun hcovers => h.facts.types fun hm hmem => hcovers hm (List.mem_cons_of_mem _ hmem)
      blank := fun {m _ _} hm huse htext => by
        rw [useOf_use] at huse
        split at huse
        next hid =>
          obtain rfl := M.root_wellFormed.distinct.eq_of_id (M.mem hm) (M.mem hN) hid
          exact hblank htext
        next => exact h.facts.blank hm huse htext }
  frames := h.frames
  depth_eq := h.depth_eq
  fresh := h.fresh
  compared := h.compared
  unwritten := h.unwritten
  unwritten' := h.unwritten'

/-- Changes that keep what bindings correspond in. -/
theorem modify {f f' : Binding → Binding} (h : s.Like M d t) (hnumber : M.number i j)
    (halike : ∀ {b b'}, Binding.Alike M b b' → Binding.Alike M (f b) (f' b'))
    (hwrites : ∀ {b b'}, Binding.Alike M b b' → Binding.WrittenAlike M i j b b' →
      Binding.WrittenAlike M i j (f b) (f' b'))
    (htypes : M.Covers s.facts → ∀ {b b'}, b'.type = b.type → (f' b').type = (f b).type) :
    (s.modify i f).Like M d (t.modify j f') := by
  -- the bindings with the numbers `i` and `j` change, all others stay
  have hget : ∀ {R : Binding → Binding → Prop} {k l}, M.number k l →
      Option.Rel R s.facts.bindings[k]? t.facts.bindings[l]? →
      (∀ b b', i = k → s.facts.bindings[k]? = some b → t.facts.bindings[l]? = some b' → R b b' →
        R (f b) (f' b')) →
      Option.Rel R (s.modify i f).facts.bindings[k]? (t.modify j f').facts.bindings[l]? := by
    intro R k l hkl hR hstep
    simp only [Resolver.modify, List.getElem?_modify, Functor.map]
    obtain ⟨hb, hb'⟩ | ⟨b, b', hb, hb', hbb⟩ := rel_cases hR
    · rw [hb, hb']
      exact .none
    · rw [hb, hb', Option.map_some, Option.map_some]
      by_cases hik : i = k
      · rw [if_pos hik, if_pos ((M.numbers hnumber hkl).1 hik)]
        exact .some (hstep b b' hik hb hb' hbb)
      · rw [if_neg hik, if_neg fun hjl => hik ((M.numbers hnumber hkl).2 hjl)]
        exact .some hbb
  exact
    { facts :=
        { h.facts with
          bindings := fun hkl => hget hkl (h.facts.bindings hkl) fun _ _ _ _ _ => halike
          writes := fun hkl => hget hkl (h.facts.writes hkl) fun b b' hik hb hb' hbb => by
            have hold := h.facts.bindings hkl
            rw [hb, hb', Option.rel_some_some] at hold
            obtain rfl := hik
            obtain rfl := (M.numbers hnumber hkl).1 rfl
            exact hwrites hold hbb
          types := fun hcovers hkl hcompared =>
            hget hkl (h.facts.types hcovers hkl hcompared) fun _ _ _ _ _ => htypes hcovers }
      frames := h.frames
      depth_eq := h.depth_eq
      fresh := fun k => by simpa [Resolver.modify] using h.fresh k
      compared := fun k => by simpa [Resolver.modify] using h.compared k
      unwritten := fun k => by simpa [Resolver.modify] using h.unwritten k
      unwritten' := fun k => by simpa [Resolver.modify] using h.unwritten' k }

/-- Corresponding writes keep resolvers alike. -/
theorem recordWrite {value value' : Option Node} (h : s.Like M d t) (hnumber : M.number i j)
    (hN : M.node n n') (hvalue : Option.Rel M.node value value') :
    (s.recordWrite i n value).Like M d (t.recordWrite j n' value') := by
  refine h.modify hnumber (fun halike => { halike with })
    (fun {b b'} halike hwritten => ?_) fun _ _ _ htype => htype
  obtain ⟨late, late', hb, hb', hlate⟩ := hwritten
  refine ⟨late ++ [_], late' ++ [_], by rw [hb, List.append_assoc], by rw [hb', List.append_assoc],
    List.rel_append hlate (.cons ⟨M.content_of_node hN, ?_, ?_⟩ .nil)⟩
  · obtain ⟨rfl, rfl⟩ | ⟨v, v', rfl, rfl, hv⟩ := rel_cases hvalue
    · exact .none
    · exact .some (M.content_of_node hv)
  · rw [h.facts.root_eq, h.facts.root_eq']
    exact M.conditional hN halike.scope

theorem refineType {type type' : Option TypeName} (h : s.Like M d t) (hnumber : M.number i j)
    (htype : M.Covers s.facts → type' = type) :
    (s.refineType i type).Like M d (t.refineType j type') := by
  refine h.modify hnumber (fun halike => { halike with })
    (fun _ hwritten => hwritten) fun hcovers {b b'} hsame => ?_
  change b'.type.or type' = b.type.or type
  rw [hsame, htype hcovers]

theorem recordUse (h : s.Like M d t) (hN : M.node n n') (hkind : n.kind = .identifier) :
    (s.recordUse n).Like M d (t.recordUse n') := by
  unfold Resolver.recordUse
  rw [M.like.text_identifier hN hkind]
  split
  · exact h
  next hname =>
    obtain ⟨hl, hl'⟩ | ⟨i, j, hl, hl', hnumber⟩ := rel_cases (h.lookup hname)
    · rw [hl, hl']
      exact h
    · rw [hl, hl']
      exact h.use hN (fun hblank => absurd hblank hname) hnumber

/-- New bindings of the innermost scope. -/
theorem declare {kind kind' : BindingKind} {type type' : Option TypeName} (h : s.Like M (d + 1) t)
    (howner : Option.Rel M.node owner owner') (hN : M.node n n')
    (hblank : n.text = "_" → IsTitle root n) (htext : n'.text = n.text)
    (hkind : BindingKind.Alike M.content kind kind') (htype : M.Covers s.facts → type' = type) :
    (s.declare owner n kind type).Like M (d + 1) (t.declare owner' n' kind' type') := by
  have hlast : M.number s.facts.bindings.length t.facts.bindings.length := h.fresh 0
  -- the new bindings have corresponding numbers, and nothing corresponds to only one of them
  refine Like.use ⟨?_, ?_, ?_, fun k => ?_, fun k => ?_, fun k => ?_, fun k => ?_⟩ hN hblank hlast
  · exact
      { h.facts with
        bindings := fun hkl => rel_getElem?_concat (h.facts.bindings hkl)
          (M.numbers hkl hlast) fun _ =>
          ⟨htext, hkind, M.content_of_node hN, M.owner_of_node howner, h.scope⟩
        writes := fun {k l} hkl => rel_getElem?_concat (h.facts.writes hkl)
            (M.numbers hkl hlast) fun hk => by
          obtain rfl := hk
          obtain rfl := (M.numbers hkl hlast).1 rfl
          exact ⟨[], [], by rw [List.append_nil]; exact (h.unwritten 0).symm,
            by rw [List.append_nil]; exact (h.unwritten' 0).symm, .nil⟩
        types := fun hcovers hkl hcompared =>
          rel_getElem?_concat (h.facts.types hcovers hkl hcompared)
            (M.numbers hkl hlast) fun _ => htype hcovers }
  · have hframes := h.frames
    have hdepth := h.depth_eq
    cases hs : s.frames with
    | nil => rw [hs] at hdepth; cases hdepth
    | cons f rest =>
      rw [hs] at hframes
      cases ht : t.frames with
      | nil => rw [ht] at hframes; cases hframes
      | cons f' rest' =>
        rw [ht] at hframes
        obtain ⟨hf, hrest⟩ := List.forall₂_cons.1 hframes
        refine .cons ⟨hf.scope, fun hname => ?_⟩ hrest
        rw [htext, List.lookup_cons, List.lookup_cons]
        split
        · exact .some hlast
        · exact hf.names hname
  · have hdepth := h.depth_eq
    cases hs : s.frames with
    | nil => rw [hs] at hdepth; cases hdepth
    | cons f rest => rw [← hdepth, hs]; rfl
  · have := h.fresh (k + 1)
    simpa [Nat.add_assoc, Nat.add_comm 1 k] using this
  · have := h.compared (k + 1)
    simpa [Nat.add_assoc, Nat.add_comm 1 k] using this
  · have := h.unwritten (k + 1)
    simpa [Nat.add_assoc, Nat.add_comm 1 k] using this
  · have := h.unwritten' (k + 1)
    simpa [Nat.add_assoc, Nat.add_comm 1 k] using this

/-- Steps over corresponding lists. -/
theorem foldl {α : Type} {R : α → α → Prop} {l l' : List α} {f g : Resolver → α → Resolver}
    (hl : List.Forall₂ R l l') (h : s.Like M d t)
    (hstep : ∀ {s t a a'}, R a a' → s.Like M d t → (f s a).Like M d (g t a')) :
    (l.foldl f s).Like M d (l'.foldl g t) := by
  induction hl generalizing s t with
  | nil => exact h
  | cons ha _ ih => exact ih (hstep ha h)

theorem declareAll {kind kind' : BindingKind} {type type' : Option TypeName}
    {names names' : List Node} (howner : Option.Rel M.node owner owner')
    (hN : List.Forall₂ (fun m m' => M.node m m' ∧ m'.text = m.text) names names')
    (hkind : BindingKind.Alike M.content kind kind') (htype : type' = type)
    (h : s.Like M (d + 1) t) :
    (s.declareAll owner kind type names).Like M (d + 1)
    (t.declareAll owner' kind' type' names') := by
  refine foldl hN h fun hm h => ?_
  rw [hm.2]
  split
  · exact h
  next hname =>
    exact h.declare howner hm.1 (fun hblank => absurd hblank hname) hm.2 hkind fun _ => htype

theorem names_like (hN : M.node n n') :
    List.Forall₂ (fun m m' => M.node m m' ∧ m'.text = m.text) (n.inField .name)
      (n'.inField .name) := by
  refine List.forall₂_iff_zip.2 ⟨(M.like.inField .name hN).length_eq, fun {m m'} hmem => ?_⟩
  have hm := (List.forall₂_iff_zip.1 (M.like.inField .name hN)).2 hmem
  have hfield := (List.mem_filter.1 (List.of_mem_zip hmem).1).2
  exact ⟨hm, M.like.text_inField rfl hm (by simpa using hfield)⟩

/-- The declarations in the parameter lists of a function. -/
theorem parameters_like (hN : M.node n n') :
    List.Forall₂ M.node
      (((parameterLists n).filter (·.kind == .parameterList)).flatMap Node.parameters)
      (((parameterLists n').filter (·.kind == .parameterList)).flatMap Node.parameters) := by
  have hlists : List.Forall₂ M.node ((parameterLists n).filter (·.kind == .parameterList))
      ((parameterLists n').filter (·.kind == .parameterList)) :=
    M.like.filter (p := (· == .parameterList)) (List.rel_filterMap (R := Eq)
      (fun f _ hf => hf ▸ M.like.child? hN f) (List.forall₂_refl _))
  exact List.rel_flatMap hlists fun _ _ hl => M.like.parameters hl

theorem declareParameters (hN : M.node n n') (h : s.Like M (d + 1) t) :
    (s.declareParameters n).Like M (d + 1) (t.declareParameters n') := by
  refine foldl (parameters_like hN) h fun hm h => ?_
  refine declareAll (.some hN) (names_like hm) .parameter ?_ h
  rw [h.facts.imports]
  exact Imports.declaredType_like M.like _ hm

theorem declareTargets (howner : Option.Rel M.node owner owner') (hN : M.node n n')
    (h : s.Like M (d + 1) t) :
    (s.declareTargets owner n).Like M (d + 1) (t.declareTargets owner' n') := by
  refine declareAll howner ?_ (.localVariable false) rfl h
  have hnames := M.like.filter (p := (· == .identifier)) (M.like.expressions hN)
  refine List.forall₂_iff_zip.2 ⟨hnames.length_eq, fun {m m'} hmem => ?_⟩
  have hm := (List.forall₂_iff_zip.1 hnames).2 hmem
  have hkind := (List.mem_filter.1 (List.of_mem_zip hmem).1).2
  exact ⟨hm, M.like.text_identifier hm (by simpa using hkind)⟩

/-- The value at a position, when there are as many values as targets. -/
theorem value_like {values values' : List Node} (hN : List.Forall₂ M.node values values')
    (index count : Nat) : Option.Rel M.node (if values.length = count then values[index]? else none)
      (if values'.length = count then values'[index]? else none) := by
  rw [hN.length_eq]
  split
  · exact rel_getElem? hN index
  · exact .none

/-- A short declaration of counterparts keeps resolvers alike, whether it declares or assigns. -/
theorem shortTarget {site site' : Node} {index : Nat} (hsite : M.node site site') (hN : M.node n n')
    (hkind : n.kind = .identifier) (howner : Option.Rel M.node owner owner')
    (h : s.Like M (d + 1) t) :
    (s.shortTarget owner site index n).Like M (d + 1) (t.shortTarget owner' site' index n') := by
  unfold Resolver.shortTarget
  have htext := M.like.text_identifier hN hkind
  have hvalues := M.like.valuesIn hsite .right
  rw [htext, (M.like.valuesIn hsite .left).length_eq]
  split
  · exact h
  next hname =>
    have hvalue := value_like hvalues index (valuesIn site' .left).length
    have hlookup : Option.Rel M.number (s.frames.head?.bind fun frame => frame.names.lookup n.text)
        (t.frames.head?.bind fun frame => frame.names.lookup n.text) := by
      obtain ⟨hf, hf'⟩ | ⟨f, f', hf, hf', halike⟩ := rel_cases (rel_head? h.frames)
      · rw [hf, hf']
        exact .none
      · rw [hf, hf']
        exact halike.names hname
    dsimp only
    obtain ⟨hl, hl'⟩ | ⟨i, j, hl, hl', hnumber⟩ := rel_cases hlookup
    · rw [hl, hl']
      refine (h.declare howner hN (fun hblank => absurd hblank hname) htext (.localVariable false)
        fun hcovers => ?_).recordWrite (h.fresh 0) hsite hvalue
      exact h.facts.typeOfTarget hcovers hvalues index _
    · rw [hl, hl']
      exact (h.use hN (fun hblank => absurd hblank hname) hnumber).recordWrite hnumber hsite hvalue

/-- A name of a spec, in a function or of the package. -/
theorem specName {spec spec' : Node} {index : Nat} (hspec : M.node spec spec') (hN : M.node n n')
    (htext : n'.text = n.text) (howner : Option.Rel M.node owner owner') (h : s.Like M (d + 1) t) :
    (s.specName owner spec index n).Like M (d + 1) (t.specName owner' spec' index n') := by
  unfold Resolver.specName
  have hvalues := M.like.valuesIn hspec .value
  rw [htext, (M.like.inField .name hspec).length_eq, h.facts.imports,
    Imports.declaredType_like M.like _ hspec]
  split
  · exact h
  next hname =>
    have hvalue := value_like hvalues index (spec'.inField .name).length
    -- a spec with values writes them, whether the name is new or not
    have hwritten : ∀ {s t : Resolver} {i j}, s.Like M (d + 1) t → M.number i j →
        (if (valuesIn spec .value).isEmpty then s else s.recordWrite i spec
          (if (valuesIn spec .value).length = (spec'.inField .name).length then
            (valuesIn spec .value)[index]?
            else none)).Like M (d + 1)
        (if (valuesIn spec' .value).isEmpty then t else t.recordWrite j spec'
          (if (valuesIn spec' .value).length = (spec'.inField .name).length then
            (valuesIn spec' .value)[index]?
            else none)) := by
      intro s t i j h hnumber
      have hempty : (valuesIn spec' .value).isEmpty = (valuesIn spec .value).isEmpty := by
        rw [Bool.eq_iff_iff, List.isEmpty_iff_length_eq_zero, List.isEmpty_iff_length_eq_zero,
          hvalues.length_eq]
      rw [hempty]
      split
      · exact h
      · exact h.recordWrite hnumber hspec hvalue
    have htype : M.Covers s.facts →
        (s.facts.imports.declaredType spec).or
          (t.facts.typeOfTarget (valuesIn spec' .value) index (spec'.inField .name).length) =
        (s.facts.imports.declaredType spec).or
          (s.facts.typeOfTarget (valuesIn spec .value) index (spec'.inField .name).length) :=
            fun hcovers => by
      rw [h.facts.typeOfTarget hcovers hvalues]
    dsimp only
    rw [h.frames.length_eq]
    split
    -- at the top of the file the name is there already
    · obtain ⟨hl, hl'⟩ | ⟨i, j, hl, hl', hnumber⟩ := rel_cases (h.lookup hname)
      · rw [hl, hl']
        exact h
      · rw [hl, hl']
        exact hwritten (h.refineType hnumber htype) hnumber
    · exact hwritten
        (h.declare howner hN (fun hblank => absurd hblank hname) htext (.localVariable true) htype)
        (h.fresh 0)

theorem specNames {spec spec' : Node} (hspec : M.node spec spec')
    (howner : Option.Rel M.node owner owner') (h : s.Like M (d + 1) t) :
    (s.specNames owner spec).Like M (d + 1) (t.specNames owner' spec') := by
  refine foldl (rel_zipIdx (names_like hspec) 0) h fun hp h => ?_
  obtain ⟨⟨hm, htext⟩, hindex⟩ := hp
  dsimp only
  rw [← hindex]
  exact specName hspec hm htext howner h

theorem recordAssignment (hN : M.node n n') (h : s.Like M d t) :
    (s.recordAssignment n).Like M d (t.recordAssignment n') := by
  unfold Resolver.recordAssignment
  rw [M.like.text_child? hN (f := .operator) rfl]
  split
  · exact h
  · have htargets := M.like.valuesIn hN .left
    have hvalues := M.like.valuesIn hN .right
    dsimp only
    rw [htargets.length_eq]
    refine foldl (rel_zipIdx htargets 0) h fun hp h => ?_
    obtain ⟨hm, hindex⟩ := hp
    have htarget := M.like.bare hm
    rw [M.like.kind htarget, ← hindex]
    split
    · exact h
    · obtain ⟨hu, hu'⟩ | ⟨i, j, hu, hu', hnumber⟩ := rel_cases (h.facts.uses htarget)
      · rw [hu, hu']
        exact h
      · rw [hu, hu']
        refine (h.refineType hnumber fun hcovers => ?_).recordWrite hnumber hN
          (value_like hvalues _ _)
        exact h.facts.typeOfTarget hcovers hvalues _ _

end Like

/-- Corresponding steps keep resolvers corresponding. -/
theorem lockstep_like : Lockstep M.node (Resolver.Like M) where
  enter hN hopens h := h.enter hN hopens
  leave h := h.leave
  declareParameters hN h := Like.declareParameters hN h
  declareTargets hN howner h := Like.declareTargets howner hN h
  recordUse hN hkind h := h.recordUse hN hkind
  shortTarget hsite _ hN hkind _ howner h := Like.shortTarget hsite hN hkind howner h
  specNames hspec _ howner h := Like.specNames hspec howner h
  recordAssignment hN _ h := h.recordAssignment hN

end Resolver

end Handoff
