import Handoff.Proofs.Resolution.Package
import Handoff.Proofs.Syntax.Alignment
import Handoff.TokenScope

/-!
# Aligned files are resolved alike

When the trees of two files are aligned, the counterparts of their nodes correspond for the
resolution of names: they stand in corresponding scopes and under corresponding control flow.

## Main definitions

* `Syntax.Aligned.correspondence`: the correspondence of two aligned files.

## Main statements

* `Resolution.like_of_aligned`: aligned files have corresponding resolutions.
* `TokenScope.around_like`: counterparts belong to corresponding token scopes.
-/

namespace Handoff

open Syntax Node

theorem Syntax.Kind.isSpreading_of_opensScope {k : Kind} (h : k.opensScope = true) :
    k.isSpreading = false := by
  revert h
  cases k <;> intro h <;> first | rfl | cases h

namespace Syntax.Aligned

variable {R : Label → Label → Prop} {respelled : Label → Prop} {ps : List (Node × Node)}
  {root root' n n' m m' : Node}

/-- Nodes that are left out of a chain make no difference to a search of its first part. -/
theorem Chain.any_takeWhile {N : Node → Node → Prop} {l l' : List Node} {p p' q : Node → Bool}
    (h : Chain N l l') (hp : ∀ a ∈ l, ∀ a', N a a' → p' a' = p a)
    (hskip : ∀ a ∈ l, a.kind.isSpreading = true → p a = true ∧ q a = false)
    (hq : ∀ a a', N a a' → q a' = q a) : (l'.takeWhile p').any q = (l.takeWhile p).any q := by
  induction h with
  | nil => rfl
  | @cons a a' l l' ha _ ih =>
    obtain ⟨hpa, hp⟩ := List.forall_mem_cons.1 hp
    obtain ⟨-, hskip⟩ := List.forall_mem_cons.1 hskip
    rw [List.takeWhile_cons, List.takeWhile_cons, hpa a' ha]
    split
    · rw [List.any_cons, List.any_cons, hq a a' ha, ih hp hskip]
    · rfl
  | skip hkind _ ih =>
    obtain ⟨-, hp⟩ := List.forall_mem_cons.1 hp
    obtain ⟨ha, hskip⟩ := List.forall_mem_cons.1 hskip
    rw [ih hp hskip, List.takeWhile_cons, if_pos (ha hkind).1, List.any_cons,
      (ha hkind).2, Bool.false_or]

/-- Nodes that are left out of a chain make no difference to a lookup along it. -/
theorem Chain.findSome? {α β : Type} {N : Node → Node → Prop} {S : α → β → Prop} {l l' : List Node}
    {f : Node → Option α} {f' : Node → Option β} (h : Chain N l l')
    (hf : ∀ a a', N a a' → Option.Rel S (f a) (f' a'))
    (hskip : ∀ a, a.kind.isSpreading = true → f a = none) :
    Option.Rel S (l.findSome? f) (l'.findSome? f') := by
  induction h with
  | nil => exact .none
  | cons ha _ ih =>
    rw [List.findSome?_cons, List.findSome?_cons]
    obtain ⟨hfa, hfa'⟩ | ⟨x, y, hfa, hfa', hxy⟩ := rel_cases (hf _ _ ha)
    · rw [hfa, hfa']
      exact ih
    · rw [hfa, hfa']
      exact .some hxy
  | skip hkind _ ih =>
    rw [List.findSome?_cons, hskip _ hkind]
    exact ih

/-- Nodes in corresponding surroundings are written under the same conditions. -/
theorem Chain.isConditional {N : Node → Node → Prop}
    (h : Chain N (root.ancestors n) (root'.ancestors n'))
    (hkind : ∀ {a a' : Node}, N a a' → a'.kind = a.kind)
    (hids : ∀ {a a' : Node}, N a a' → (a.id = m.id ↔ a'.id = m'.id))
    (hskip : ∀ a ∈ root.ancestors n, a.kind.isSpreading = true → a.id ≠ m.id) :
    isConditional root' n' m' = isConditional root n m := by
  refine h.any_takeWhile (fun a _ a' ha => ?_) (fun a ha hspreading => ?_)
    fun a a' ha => by rw [hkind ha]
  · rw [Bool.eq_iff_iff, bne_iff_ne, bne_iff_ne]
    exact (not_congr (hids ha)).symm
  · refine ⟨bne_iff_ne.2 (hskip a ha hspreading), ?_⟩
    revert hspreading
    cases a.kind <;> intro hspreading <;> first | rfl | cases hspreading

theorem nodup_of_distinct (h : root.Distinct) : ((preorderAll [root]).map Node.id).Nodup := by
  rw [preorderAll_cons, preorderAll_nil, List.append_nil]
  exact h

variable (h : Aligned R respelled [root] [root'] ps)

include h

theorem mem_root_left (hp : (n, n') ∈ ps) : n ∈ root.preorder := by
  simpa using h.mem_fst hp

theorem mem_root_right (hp : (n, n') ∈ ps) : n' ∈ root'.preorder := by
  simpa using h.mem_snd hp

theorem root_mem : (root, root') ∈ ps :=
  (List.forall₂_cons.1 h.forall₂).1

variable (wf : root.WellFormed) (wf' : root'.WellFormed)

include wf wf'

theorem ids_root (hp : (n, n') ∈ ps) (hq : (m, m') ∈ ps) : n.id = m.id ↔ n'.id = m'.id :=
  h.ids (nodup_of_distinct wf.distinct) (nodup_of_distinct wf'.distinct) hp hq

/-- The nodes above counterparts. -/
theorem chain_ancestors (hp : (n, n') ∈ ps) :
    Chain (fun m m' => (m, m') ∈ ps) (root.ancestors n) (root'.ancestors n') := by
  obtain ⟨c, hc, c', hc', above, above', path, path', hchain⟩ := h.chained hp
  obtain rfl := List.mem_singleton.1 hc
  obtain rfl := List.mem_singleton.1 hc'
  rwa [wf.distinct.ancestors_eq path, wf'.distinct.ancestors_eq path']

variable (hR : ∀ l l', R l l' → l.Like l')

include hR

/-- Counterparts are written under the same conditions. -/
theorem isConditional (hp : (n, n') ∈ ps) (hq : (m, m') ∈ ps) (hkind : m.kind.isSpreading = false) :
    isConditional root' n' m' = isConditional root n m := by
  refine (h.chain_ancestors wf wf' hp).isConditional (fun ha => (h.likeness hR).kind ha)
    (fun ha => h.ids_root wf wf' ha hq) fun a ha hspreading hid => ?_
  have hmem := (wf.distinct.mem_ancestors (h.mem_root_left hp)).1 ha
  obtain rfl := wf.distinct.eq_of_id hmem.1 (h.mem_root_left hq) hid
  cases hkind.symm.trans hspreading

omit hR in
/-- A node lies in the text of another just where its counterpart does. -/
theorem encloses (hp : (n, n') ∈ ps) (hq : (m, m') ∈ ps) (hn : n.kind ≠ .comment)
    (hn' : n'.kind ≠ .comment) (hm : m.kind.isName = true) (hm' : m'.kind.isName = true) :
    n'.encloses m' = n.encloses m := by
  rw [Bool.eq_iff_iff, wf'.encloses_name_iff (h.mem_root_right hp) (h.mem_root_right hq) hn' hm',
    wf.encloses_name_iff (h.mem_root_left hp) (h.mem_root_left hq) hn hm]
  exact (h.mem_preorder_iff (nodup_of_distinct wf.distinct)
    (nodup_of_distinct wf'.distinct) hp hq).symm

def correspondence (hkind : root.kind = .sourceFile) : Correspondence root root' where
  node n n' := (n, n') ∈ ps
  content n n' := (n, n') ∈ ps
  scope n n' := (n, n') ∈ ps ∧ n.kind.isSpreading = false
  owner _ _ := True
  number i j := i = j
  compared _ := True
  earlier _ := []
  earlier' _ := []
  like := h.likeness hR
  root_wellFormed := wf
  mem hp := h.mem_root_left hp
  content_of_node hp := hp
  scope_of_node hp hopens := ⟨hp, Kind.isSpreading_of_opensScope hopens⟩
  scope_root := ⟨h.root_mem, by rw [hkind]; rfl⟩
  owner_of_node _ := trivial
  ids hp hq := h.ids_root wf wf' hp hq
  numbers := fun {i i' j j'} hi hj => by rw [hi, hj]
  conditional hp hq := h.isConditional wf wf' hR hp hq.1 hq.2

end Syntax.Aligned

namespace Resolution

variable {R : Label → Label → Prop} {respelled : Label → Prop} {ps : List (Node × Node)}
  {root root' : Node}

/-- Aligned files have corresponding resolutions. -/
theorem like_of_aligned (h : Aligned R respelled [root] [root'] ps) (wf : root.WellFormed)
    (wf' : root'.WellFormed) (hR : ∀ l l', R l l' → l.Like l') (hkind : root.kind = .sourceFile) :
    (ofFile root).Like (h.correspondence wf wf' hR hkind) (ofFile root') := by
  have hparts : List.Forall₂ (fun n n' => (n, n') ∈ ps) root.parts root'.parts :=
    (h.likeness hR).parts h.root_mem (by rw [hkind]; decide)
  rw [ofFile_eq_inOrder, ofFile_eq_inOrder]
  exact like_inOrder hparts
    (Imports.ofFile_like (h.likeness hR)
      ((h.likeness hR).filter (p := (· == .importDeclaration)) hparts))
    (fun _ => rfl) (fun _ => trivial) (fun _ => rfl) fun _ => rfl

end Resolution

/-! ### Token scopes -/

section TokenScope

variable {N : Node → Node → Prop} (L : Likeness N) (imports : Imports)
  (carriers : Carriers) {n n' : Node}

include L

theorem tokenParameters_like (h : N n n') :
    tokenParameters imports carriers n' = tokenParameters imports carriers n := by
  unfold tokenParameters
  obtain ⟨hc, hc'⟩ | ⟨list, list', hc, hc', hlist⟩ := rel_cases (L.child? h .parameters)
  · rw [hc, hc']
  rw [hc, hc']
  have hparameters := L.parameters hlist
  dsimp only
  generalize list.parameters = ds, list'.parameters = ds' at hparameters
  induction hparameters with
  | nil => rfl
  | @cons d d' _ _ hd _ ih =>
    rw [List.flatMap_cons, List.flatMap_cons, ih, Imports.declaredType_like L imports hd]
    congr 1
    split
    · have htexts := L.texts_names hd
      generalize d.inField .name = names, d'.inField .name = names' at htexts
      have hmap : ∀ names : List Node,
          (names.map fun name => if name.text = "_" then none else some name.text) =
            (names.map Node.text).map fun text => if text = "_" then none
              else some text := fun names => by
        rw [List.map_map]
        rfl
      cases names with
      | nil =>
        rw [List.map_eq_nil_iff.1 htexts]
      | cons name names =>
        cases names' with
        | nil => cases htexts
        | cons name' names' =>
          dsimp only
          rw [hmap, hmap, htexts]
    · rfl

theorem declaresToken_like (h : N n n') :
    declaresToken imports carriers n' = declaresToken imports carriers n := by
  rw [declaresToken, declaresToken, tokenParameters_like L imports carriers h]

theorem TokenScope.ofNode_like (h : N n n') :
    Option.Rel (fun scope scope' => N scope.owner scope'.owner ∧ scope'.names = scope.names)
      (ofNode imports carriers n) (ofNode imports carriers n') := by
  unfold ofNode tokenNames
  rw [L.kind h, tokenParameters_like L imports carriers h]
  split
  · split
    · exact .none
    · exact .some ⟨h, rfl⟩
  · exact .none

end TokenScope

/-- Counterparts belong to corresponding token scopes. -/
theorem TokenScope.around_like {R : Label → Label → Prop} {respelled : Label → Prop}
    {ps : List (Node × Node)} {root root' n n' : Node} (h : Aligned R respelled [root] [root'] ps)
    (wf : root.WellFormed) (wf' : root'.WellFormed) (hR : ∀ l l', R l l' → l.Like l')
    (imports : Imports) (carriers : Carriers) (hp : (n, n') ∈ ps) :
    Option.Rel (fun scope scope' => (scope.owner, scope'.owner) ∈ ps ∧ scope'.names = scope.names)
      (around root imports carriers n) (around root' imports carriers n') := by
  refine (Aligned.Chain.cons hp (h.chain_ancestors wf wf' hp)).findSome?
    (fun a a' ha => ofNode_like (h.likeness hR) imports carriers ha) fun a ha => if_neg ?_
  revert ha
  cases a.kind <;> intro ha <;> first | exact Bool.false_ne_true | cases ha

end Handoff
