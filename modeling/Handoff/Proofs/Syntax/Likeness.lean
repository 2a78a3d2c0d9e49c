import Handoff.Proofs.Syntax.Walk
import Handoff.Resolution.Build
import Mathlib.Data.List.Forall2

/-!
# Nodes that the resolution of names cannot tell apart

Two trees may differ in the numbers and places of their nodes, in their comments and in the way in
which the arguments of a call are written, and still mean the same to the resolution of names. A
likeness relates the nodes of two such trees: related nodes are of one kind, and what the resolution
finds at one it finds, again related, at the other.

## Main definitions

* `Respelled`: two argument lists that hold the same arguments, one of them perhaps with a spread
  literal.
* `Likeness`: what a relation between nodes has to satisfy.
-/

namespace Handoff

open Syntax Node

section Lists

variable {α β : Type} {R : α → β → Prop}

theorem rel_cases {a : Option α} {b : Option β} (h : Option.Rel R a b) :
    (a = none ∧ b = none) ∨ ∃ x y, a = some x ∧ b = some y ∧ R x y := by
  cases h with
  | none => exact .inl ⟨rfl, rfl⟩
  | some h => exact .inr ⟨_, _, rfl, rfl, h⟩

theorem rel_mono {S : α → β → Prop} {a : Option α} {b : Option β} (h : Option.Rel R a b)
    (hS : ∀ x y, R x y → S x y) : Option.Rel S a b := by
  cases h with
  | none => exact .none
  | some h => exact .some (hS _ _ h)

theorem rel_getElem? {l : List α} {l' : List β} (h : List.Forall₂ R l l') (i : Nat) :
    Option.Rel R l[i]? l'[i]? := by
  induction h generalizing i with
  | nil => exact .none
  | cons h _ ih =>
    cases i with
    | zero => exact .some h
    | succ i => exact ih i

theorem rel_head? {l : List α} {l' : List β} (h : List.Forall₂ R l l') :
    Option.Rel R l.head? l'.head? := by
  cases h with
  | nil => exact .none
  | cons h _ => exact .some h

theorem rel_zipIdx {l : List α} {l' : List β} (h : List.Forall₂ R l l') (k : Nat) :
    List.Forall₂ (fun a b => R a.1 b.1 ∧ a.2 = b.2) (l.zipIdx k) (l'.zipIdx k) := by
  induction h generalizing k with
  | nil => exact .nil
  | cons h _ ih => exact .cons ⟨h, rfl⟩ (ih (k + 1))

theorem rel_mem_left {l : List α} {l' : List β} (h : List.Forall₂ R l l') {a : α} (ha : a ∈ l) :
    ∃ b ∈ l', R a b := by
  induction h with
  | nil => cases ha
  | cons hab _ ih =>
    obtain rfl | ha := List.mem_cons.1 ha
    · exact ⟨_, List.mem_cons_self .., hab⟩
    · obtain ⟨b, hb, hab⟩ := ih ha
      exact ⟨b, List.mem_cons_of_mem _ hb, hab⟩

theorem rel_mem_right {l : List α} {l' : List β} (h : List.Forall₂ R l l') {b : β} (hb : b ∈ l') :
    ∃ a ∈ l, R a b :=
  rel_mem_left h.flip hb

end Lists

namespace Syntax

def Label.isRead (l : Label) : Bool :=
  l.kind == .identifier || l.kind == .typeIdentifier ||
    [some Field.name, some .operator, some .member, some .package, some .path].contains l.field

def Node.Mute (n : Node) : Prop :=
  ∀ owner s, Resolver.visit owner n s = s

/-- A composite literal of function literals, all without a key. -/
structure IsLiteralOf (literal type body : Node) : Prop where
  isComposite : literal.kind = .compositeLiteral
  parts_eq : literal.parts = [type, body]
  child?_body : literal.child? .body = some body
  kind_body : body.kind = .literalValue
  mute : type.Mute
  elements : ∀ e ∈ body.parts, e.kind = .literalElement ∧ e.parts = [e.element] ∧
    e.element.kind = .funcLiteral

/-- Two argument lists with corresponding arguments. The first may spread a literal whose elements
stand on their own in the second. -/
inductive Respelled (N : Node → Node → Prop) (n n' : Node) : Prop where
  | same : List.Forall₂ N n.parts n'.parts → Respelled N n n'
  | spread {lead lead' elements : List Node} {argument literal type body : Node} :
      n.parts = lead ++ [argument] → argument.kind = .variadicArgument →
        argument.parts = [literal] →
      IsLiteralOf literal type body → n'.parts = lead' ++ elements → List.Forall₂ N lead lead' →
      List.Forall₂ N (body.parts.map element) elements → Respelled N n n'

/-- A relation between the nodes of two trees that the resolution of names cannot tell apart. -/
structure Likeness (N : Node → Node → Prop) : Prop where
  kind {n n' : Node} : N n n' → n'.kind = n.kind
  field {n n' : Node} : N n n' → n'.field = n.field
  text {n n' : Node} : N n n' → n.label.isRead = true → n'.text = n.text
  parts {n n' : Node} : N n n' → n.kind ≠ .argumentList → List.Forall₂ N n.parts n'.parts
  arguments {n n' : Node} : N n n' → n.kind = .argumentList → Respelled N n n'
  inField {n n' : Node} (f : Field) : N n n' → List.Forall₂ N (n.inField f) (n'.inField f)
  hasToken {n n' : Node} : N n n' → n'.hasToken ":=" = n.hasToken ":="

namespace Node

theorem child?_eq_head? (n : Node) (f : Field) : n.child? f = (n.inField f).head? :=
  List.head?_filter.symm

theorem firstBare_eq (cs : List Node) : firstBare cs = ((cs.filter isPart).head?).map bare := by
  induction cs with
  | nil => rw [firstBare, List.filter_nil, List.head?_nil, Option.map_none]
  | cons c cs ih =>
    rw [firstBare, List.filter_cons]
    split
    · rfl
    · exact ih

theorem bare_eq (n : Node) :
    n.bare = if n.kind = .parenthesizedExpression then ((n.parts.head?).map bare).getD n
      else n := by
  obtain ⟨label, children⟩ := n
  rw [bare, firstBare_eq]
  rfl

theorem mem_parts {n c : Node} : c ∈ n.parts ↔ c ∈ n.children ∧ c.isPart = true :=
  List.mem_filter

end Node

namespace Likeness

variable {N : Node → Node → Prop} {n n' : Node}

theorem child? (L : Likeness N) (h : N n n') (f : Field) :
    Option.Rel N (n.child? f) (n'.child? f) := by
  rw [child?_eq_head?, child?_eq_head?]
  exact rel_head? (L.inField f h)

theorem isPart (L : Likeness N) (h : N n n') : n'.isPart = n.isPart := by
  rw [Node.isPart, Node.isPart, L.kind h]

/-- What stands in a field keeps its text, if the text is read. -/
theorem text_child? (L : Likeness N) (h : N n n') {f : Field}
    (hf : [Field.name, .operator, .member, .package, .path].contains f = true) :
    (n'.child? f).map Node.text = (n.child? f).map Node.text := by
  obtain ⟨hc, hc'⟩ | ⟨c, c', hc, hc', hN⟩ := rel_cases (L.child? h f)
  · rw [hc, hc']
  · have hread : c.label.isRead = true := by
      have hfield : c.label.field = some f := (mem_children_of_child? hc).2
      cases f <;> simp_all [Label.isRead]
    rw [hc, hc', Option.map_some, Option.map_some, L.text hN hread]

theorem text_identifier (L : Likeness N) (h : N n n') (hkind : n.kind = .identifier) :
    n'.text = n.text :=
  L.text h (by rw [Label.isRead, show n.label.kind = .identifier from hkind]; rfl)

theorem text_inField (L : Likeness N) {f : Field} (hf : f = .name) (h : N n n')
    (hn : n.field = some f) : n'.text = n.text :=
  L.text h (by simp [Label.isRead, show n.label.field = some f from hn, hf])

theorem texts_names (L : Likeness N) (h : N n n') :
    (n'.inField .name).map Node.text = (n.inField .name).map Node.text := by
  have hnames := L.inField .name h
  have hfield : ∀ m ∈ n.inField .name, m.field = some .name := fun m hm => by
    simpa using (List.mem_filter.1 hm).2
  generalize n.inField .name = names, n'.inField .name = names' at hnames hfield
  induction hnames with
  | nil => rfl
  | cons hm _ ih =>
    obtain ⟨hmfield, hfield⟩ := List.forall_mem_cons.1 hfield
    rw [List.map_cons, List.map_cons, L.text_inField rfl hm hmfield, ih hfield]

/-- Parentheses are taken off alike. -/
theorem bare (L : Likeness N) (h : N n n') : N n.bare n'.bare := by
  induction n using innerInduction generalizing n' with
  | step n ih =>
    rw [bare_eq n, bare_eq n', L.kind h]
    split
    next hparen =>
      obtain ⟨hc, hc'⟩ | ⟨c, c', hc, hc', hN⟩ :=
        rel_cases (rel_head? (L.parts h (by rw [hparen]; decide)))
      · rw [hc, hc']
        exact h
      · rw [hc, hc']
        exact ih c (inner_of_mem_filter (List.mem_of_mem_head? hc)) hN
    next => exact h

theorem expressions (L : Likeness N) (h : N n n') :
    List.Forall₂ N n.expressions n'.expressions := by
  unfold Node.expressions
  rw [L.kind h]
  split
  next hlist => exact L.parts h (by rw [hlist]; decide)
  next => exact .cons h .nil

theorem element (L : Likeness N) (h : N n n') : N n.element n'.element := by
  unfold Node.element
  rw [L.kind h]
  split
  next helement =>
    obtain ⟨hc, hc'⟩ | ⟨c, c', hc, hc', hN⟩ :=
      rel_cases (rel_head? (L.parts h (by rw [helement]; decide)))
    · rw [hc, hc']
      exact h
    · rw [hc, hc']
      exact hN
  next => exact h

theorem filter (L : Likeness N) {p : Kind → Bool} {l l' : List Node} (h : List.Forall₂ N l l') :
    List.Forall₂ N (l.filter fun n => p n.kind) (l'.filter fun n => p n.kind) :=
  List.rel_filter (fun _ _ hN => by dsimp only; rw [L.kind hN]) h

theorem valuesIn (L : Likeness N) (h : N n n') (f : Field) :
    List.Forall₂ N (Resolver.valuesIn n f) (Resolver.valuesIn n' f) := by
  unfold Resolver.valuesIn
  obtain ⟨hc, hc'⟩ | ⟨c, c', hc, hc', hN⟩ := rel_cases (L.child? h f)
  · rw [hc, hc']
    exact .nil
  · rw [hc, hc']
    exact L.expressions hN

theorem parameters (L : Likeness N) (h : N n n') : List.Forall₂ N n.parameters n'.parameters := by
  have hfilter : ∀ {l l'}, List.Forall₂ N l l' → List.Forall₂ N
      (l.filter fun d => d.kind == .parameterDeclaration || d.kind == .variadicParameterDeclaration)
      (l'.filter fun d => d.kind == .parameterDeclaration || d.kind ==
        .variadicParameterDeclaration) := fun hl =>
    L.filter (p := fun k => k == .parameterDeclaration || k == .variadicParameterDeclaration) hl
  by_cases hkind : n.kind = .argumentList
  · cases L.arguments h hkind with
    | same hparts => exact hfilter hparts
    | @spread lead lead' elements argument literal type body hparts hargument _ his hparts'
        hlead helements =>
      -- neither a spread argument nor a function literal is a parameter
      have hnone : (elements.filter fun d =>
          d.kind == .parameterDeclaration || d.kind == .variadicParameterDeclaration) = [] := by
        have hliterals : ((body.parts.map Node.element).filter fun d =>
            d.kind == .parameterDeclaration || d.kind == .variadicParameterDeclaration) = [] := by
          rw [List.filter_eq_nil_iff]
          intro e he
          obtain ⟨e, hmem, rfl⟩ := List.mem_map.1 he
          simp [(his.elements e hmem).2.2]
        have hfiltered := hfilter helements
        rw [hliterals] at hfiltered
        exact List.forall₂_nil_left_iff.1 hfiltered
      unfold Node.parameters
      rw [hparts, hparts', List.filter_append, List.filter_append, hnone, List.filter_cons_of_neg
        (by simp [hargument]), List.filter_nil, List.append_nil, List.append_nil]
      exact hfilter hlead
  · exact hfilter (L.parts h hkind)

end Likeness

end Syntax

/-! ### Written types -/

namespace Imports

variable {N : Node → Node → Prop} {n n' : Node} (L : Likeness N) (imports : Imports)

theorem typeOfFirst_eq (cs : List Node) :
    typeOfFirst imports cs = ((cs.filter isPart).head?).bind imports.typeOf := by
  induction cs with
  | nil => rw [typeOfFirst, List.filter_nil, List.head?_nil, Option.bind_none]
  | cons c cs ih =>
    rw [typeOfFirst, List.filter_cons]
    split
    · rfl
    · exact ih

theorem typeOfOrigin_eq (cs : List Node) :
    typeOfOrigin imports cs = (cs.find? (·.field == some .type)).bind imports.typeOf := by
  induction cs with
  | nil => rw [typeOfOrigin, List.find?_nil, Option.bind_none]
  | cons c cs ih =>
    rw [typeOfOrigin, List.find?_cons]
    split
    next h => rw [h, Option.bind_some]
    next h => rw [Bool.eq_false_iff.2 h, ih]

include L

theorem typeOf_like (h : N n n') : imports.typeOf n' = imports.typeOf n := by
  induction n using innerInduction generalizing n' with
  | step n ih =>
    -- a pointer or a parenthesised type has the type of what is inside
    have hfirst : n.kind ≠ .argumentList →
        (n'.parts.head?).bind imports.typeOf =
          (n.parts.head?).bind imports.typeOf := fun hkind => by
      obtain ⟨hc, hc'⟩ | ⟨c, c', hc, hc', hN⟩ := rel_cases (rel_head? (L.parts h hkind))
      · rw [hc, hc']
      · rw [hc, hc']
        exact ih c (inner_of_mem_filter (List.mem_of_mem_head? hc)) hN
    have horigin : (n'.child? .type).bind imports.typeOf =
        (n.child? .type).bind imports.typeOf := by
      obtain ⟨hc, hc'⟩ | ⟨c, c', hc, hc', hN⟩ := rel_cases (L.child? h .type)
      · rw [hc, hc']
      · rw [hc, hc']
        exact ih c (inner_of_child (mem_children_of_child? hc).1) hN
    have hkind := L.kind h
    have htext := L.text h
    have hpackage := L.text_child? h (f := .package) rfl
    have hname := L.text_child? h (f := .name) rfl
    obtain ⟨label, children⟩ := n
    obtain ⟨label', children'⟩ := n'
    change label'.kind = label.kind at hkind
    rw [typeOf, typeOf, hkind]
    simp only [typeOfFirst_eq, typeOfOrigin_eq]
    split
    next hk => rw [htext (by simp [Label.isRead, hk])]
    next =>
      have hparts : ∀ m : Node, (do
          let package ← m.child? .package
          let name ← m.child? .name
          let path ← imports.resolve package.text
          return (⟨path, name.text⟩ : TypeName)) =
          ((m.child? .package).map Node.text).bind fun package =>
            ((m.child? .name).map Node.text).bind fun name =>
              (imports.resolve package).bind fun path => some ⟨path, name⟩ := fun m => by
        cases m.child? .package <;> cases m.child? .name <;> rfl
      rw [hparts, hparts, hpackage, hname]
    next hk => exact hfirst (by rw [kind, hk]; decide)
    next hk => exact hfirst (by rw [kind, hk]; decide)
    next hk => exact horigin
    next => rfl

theorem declaredType_like (h : N n n') : imports.declaredType n' = imports.declaredType n := by
  unfold declaredType
  obtain ⟨hc, hc'⟩ | ⟨c, c', hc, hc', hN⟩ := rel_cases (L.child? h .type)
  · rw [hc, hc']
  · rw [hc, hc']
    exact typeOf_like L imports hN

theorem parameterTypes_like (h : N n n') :
    imports.parameterTypes n' = imports.parameterTypes n := by
  unfold parameterTypes
  have hparameters := L.parameters h
  generalize n.parameters = ds, n'.parameters = ds' at hparameters ⊢
  induction hparameters with
  | nil => rfl
  | cons hd _ ih =>
    rw [List.flatMap_cons, List.flatMap_cons, ih, declaredType_like L imports hd, parameterCount,
      parameterCount, (L.inField .name hd).length_eq]

end Imports

end Handoff
