import Handoff.Proofs.Syntax.Likeness
import Mathlib.Data.List.Flatten

/-!
# Trees that differ in places and spelling only

Two forests are aligned when they have the same shape and like labels. The list of their
counterparts, pairs of nodes at the same place, comes with the alignment. Arguments may be
respelled: where the first forest spreads a literal, the second may have the elements of the literal
as arguments of their own.

## Main definitions

* `Aligned`: two forests of one shape, with the pairs of their nodes.

## Main statements

* `Aligned.likeness`: the resolution of names cannot tell counterparts apart.
* `Aligned.ids`: counterparts determine one another.
* `Aligned.chained`: the nodes around a node are counterparts of those around its counterpart, the
  literals that are spread apart.
-/

namespace Handoff.Syntax

open Node

/-- Labels of one kind and field, and of one text where it is read. -/
structure Label.Like (l l' : Label) : Prop where
  kind : l'.kind = l.kind
  field : l'.field = l.field
  text : l.isRead = true → l'.text = l.text

/-! ### Like labels -/

section

variable {N : Node → Node → Prop} (hlike : ∀ {n n'}, N n n' → n.label.Like n'.label)

include hlike

theorem rel_filter_label {p : Label → Bool} {cs cs' : List Node}
    (hp : ∀ l l', l.Like l' → p l' = p l) (hcs : List.Forall₂ N cs cs') :
    List.Forall₂ N (cs.filter fun c => p c.label) (cs'.filter fun c => p c.label) :=
  List.rel_filter (fun _ _ hc => by dsimp only; rw [hp _ _ (hlike hc)]) hcs

theorem parts_of_children {n n' : Node} (h : List.Forall₂ N n.children n'.children) :
    List.Forall₂ N n.parts n'.parts :=
  rel_filter_label hlike (p := fun l => l.kind.isNamed && l.kind != .comment)
    (fun l l' hl => by rw [hl.kind]) h

theorem inField_of_children {n n' : Node} (f : Field) (h : List.Forall₂ N n.children n'.children) :
    List.Forall₂ N (n.inField f) (n'.inField f) :=
  rel_filter_label hlike (p := fun l => l.field == some f) (fun l l' hl => by rw [hl.field]) h

theorem hasToken_of_children {n n' : Node} (text : String)
    (h : List.Forall₂ N n.children n'.children) : n'.hasToken text = n.hasToken text := by
  unfold hasToken
  generalize n.children = cs, n'.children = cs' at h
  induction h with
  | nil => rfl
  | cons hc _ ih => rw [List.any_cons, List.any_cons, ih, kind, kind, (hlike hc).kind]

/-- A relation that keeps labels and descends to all children. -/
theorem Likeness.of_children
    (hchildren : ∀ {n n'}, N n n' → List.Forall₂ N n.children n'.children) : Likeness N where
  kind h := (hlike h).kind
  field h := (hlike h).field
  text h hread := (hlike h).text hread
  parts h _ := parts_of_children hlike (hchildren h)
  arguments h _ := .same (parts_of_children hlike (hchildren h))
  inField f h := inField_of_children hlike f (hchildren h)
  hasToken h := hasToken_of_children hlike ":=" (hchildren h)

end

/-! ### Forests of one shape -/

/-- Whether a node may stand between an argument list and an element of a literal that it
spreads. -/
def Kind.isSpreading : Kind → Bool
  | .variadicArgument | .compositeLiteral | .literalValue | .literalElement => true
  | _ => false

structure Spreads (argument literal : Node) (elements : List Node) : Prop where
  kind_argument : argument.kind = .variadicArgument
  parts_argument : argument.parts = [literal]
  exists_literal : ∃ type body, IsLiteralOf literal type body ∧ elements = body.parts.map element

/-- The way from an argument to an element of the literal that it spreads. -/
theorem Spreads.exists_path {argument literal c : Node} {elements : List Node}
    (h : Spreads argument literal elements) (hc : c ∈ elements) :
    ∃ above, Path argument c above ∧ ∀ a ∈ above, a.kind.isSpreading = true := by
  obtain ⟨type, body, his, rfl⟩ := h.exists_literal
  obtain ⟨e, he, rfl⟩ := List.mem_map.1 hc
  obtain ⟨hkind, hparts, -⟩ := his.elements e he
  have hpart : ∀ {n m : Node} {ms : List Node}, n.parts = ms → m ∈ ms → m ∈ n.children :=
    fun hms hm => List.mem_of_mem_filter (hms ▸ hm)
  have hliteral : literal ∈ argument.children := hpart h.parts_argument (List.mem_singleton_self _)
  have hbody : body ∈ literal.children := hpart his.parts_eq (by simp)
  have helement : e.element ∈ e.children := hpart hparts (List.mem_singleton_self _)
  refine ⟨_, .down hliteral
    (.down hbody (.down (List.mem_of_mem_filter he) (.down helement (.here _)))), ?_⟩
  simp [his.isComposite, his.kind_body, hkind, h.kind_argument, Kind.isSpreading]

/-- Children that fill no field and declare nothing. -/
def Node.HasPlainChildren (n : Node) : Prop :=
  ∀ c ∈ n.children, c.field = none ∧ c.kind ≠ .token ":="

/-- Forests of one shape whose labels are related, with the pairs of their nodes, each node before
those below it. In argument lists whose label is `respelled`, arguments may be spread in the first
forest and stand on their own in the second. -/
inductive Aligned (R : Label → Label → Prop) (respelled : Label → Prop) :
    List Node → List Node → List (Node × Node) → Prop where
  | nil : Aligned R respelled [] [] []
  | node {n n' : Node} {ns ns' : List Node} {ps qs : List (Node × Node)} : R n.label n'.label →
      Aligned R respelled n.children n'.children ps → Aligned R respelled ns ns' qs →
      Aligned R respelled (n :: ns) (n' :: ns') ((n, n') :: (ps ++ qs))
  | spread {n n' argument literal : Node} {lead lead' elements elements' ns ns' : List Node}
      {ps qs : List (Node × Node)} : respelled n.label → R n.label n'.label →
        n.kind = .argumentList →
      n.HasPlainChildren → n'.HasPlainChildren → n.parts = lead ++ [argument] →
      Spreads argument literal elements → n'.parts = lead' ++ elements' →
        lead.length = lead'.length →
      Aligned R respelled (lead ++ elements) (lead' ++ elements') ps →
        Aligned R respelled ns ns' qs →
      Aligned R respelled (n :: ns) (n' :: ns') ((n, n') :: (ps ++ qs))

namespace Aligned

variable {R : Label → Label → Prop} {respelled : Label → Prop} {ns ns' : List Node}
  {ps : List (Node × Node)} {n n' m m' : Node}

/-- Trees at the same place are counterparts. -/
theorem forall₂ (h : Aligned R respelled ns ns' ps) :
    List.Forall₂ (fun n n' => (n, n') ∈ ps) ns ns' := by
  have hmono : ∀ {qs qs' : List (Node × Node)} {ns ns' : List Node}, qs ⊆ qs' →
      List.Forall₂ (fun n n' => (n, n') ∈ qs) ns ns' →
        List.Forall₂ (fun n n' => (n, n') ∈ qs') ns ns' :=
    fun hsub h => h.imp fun _ _ hp => hsub hp
  induction h with
  | nil => exact .nil
  | node _ _ _ _ ih =>
    exact .cons (List.mem_cons_self ..) (hmono (fun _ hp => by simp [hp]) ih)
  | spread _ _ _ _ _ _ _ _ _ _ _ _ ih =>
    exact .cons (List.mem_cons_self ..) (hmono (fun _ hp => by simp [hp]) ih)

inductive Below (respelled : Label → Prop) (N : Node → Node → Prop) (n n' : Node) : Prop where
  | same : List.Forall₂ N n.children n'.children → Below respelled N n n'
  | spread {argument literal : Node} {lead lead' elements elements' : List Node} :
      respelled n.label → n.kind = .argumentList → n.HasPlainChildren → n'.HasPlainChildren →
        n.parts = lead ++ [argument] →
      Spreads argument literal elements → n'.parts = lead' ++ elements' →
        List.Forall₂ N lead lead' →
      List.Forall₂ N elements elements' → Below respelled N n n'

theorem Below.mono {N N' : Node → Node → Prop} (hN : ∀ n n', N n n' → N' n n')
    (h : Below respelled N n n') :
    Below respelled N' n n' := by
  cases h with
  | same h => exact .same (h.imp hN)
  | spread hrespelled hkind hplain hplain' hparts hspreads hparts' hlead helements =>
    exact .spread hrespelled hkind hplain hplain' hparts hspreads hparts' (hlead.imp hN)
      (helements.imp hN)

/-- Counterparts have related labels, and what is below them is aligned. -/
theorem counterparts (h : Aligned R respelled ns ns' ps) (hp : (n, n') ∈ ps) :
    R n.label n'.label ∧ Below respelled (fun m m' => (m, m') ∈ ps) n n' := by
  induction h generalizing n n' with
  | nil => cases hp
  | @node k k' ns ns' ps qs hR hchildren _ ihps ihqs =>
    have hsub : ∀ {p}, p ∈ ps ∨ p ∈ qs → p ∈ (k, k') :: (ps ++ qs) := fun hp =>
      List.mem_cons_of_mem _ (List.mem_append.2 hp)
    obtain heq | hp := List.mem_cons.1 hp
    · cases heq
      exact ⟨hR, .same (hchildren.forall₂.imp fun _ _ hp => hsub (.inl hp))⟩
    · obtain hp | hp := List.mem_append.1 hp
      · exact ⟨(ihps hp).1, (ihps hp).2.mono fun _ _ hp => hsub (.inl hp)⟩
      · exact ⟨(ihqs hp).1, (ihqs hp).2.mono fun _ _ hp => hsub (.inr hp)⟩
  | @spread k k' argument literal lead lead' elements elements' ns ns' ps qs hrespelled hR hkind
      hplain hplain' hparts hspreads hparts' hlength hchildren _ ihps ihqs =>
    have hsub : ∀ {p}, p ∈ ps ∨ p ∈ qs → p ∈ (k, k') :: (ps ++ qs) := fun hp =>
      List.mem_cons_of_mem _ (List.mem_append.2 hp)
    obtain heq | hp := List.mem_cons.1 hp
    · cases heq
      have hall := hchildren.forall₂.imp fun m m' (hp : (m, m') ∈ ps) =>
        (hsub (.inl hp) : (m, m') ∈ (k, k') :: (ps ++ qs))
      refine ⟨hR, .spread hrespelled hkind hplain hplain' hparts hspreads hparts' ?_ ?_⟩
      · simpa [hlength] using List.forall₂_take lead.length hall
      · simpa [hlength] using List.forall₂_drop lead.length hall
    · obtain hp | hp := List.mem_append.1 hp
      · exact ⟨(ihps hp).1, (ihps hp).2.mono fun _ _ hp => hsub (.inl hp)⟩
      · exact ⟨(ihqs hp).1, (ihqs hp).2.mono fun _ _ hp => hsub (.inr hp)⟩

/-- The resolution of names cannot tell counterparts apart. -/
theorem likeness (h : Aligned R respelled ns ns' ps) (hR : ∀ l l', R l l' → l.Like l') :
    Likeness fun n n' => (n, n') ∈ ps := by
  have hlike : ∀ {n n'}, (n, n') ∈ ps → n.label.Like n'.label :=
    fun hp => hR _ _ (h.counterparts hp).1
  have hempty : ∀ {n : Node} (f : Field), n.HasPlainChildren → n.inField f = [] :=
      fun f hplain => by
    rw [inField, List.filter_eq_nil_iff]
    intro c hc
    simp [(hplain c hc).1]
  exact
    { kind := fun hp => (hlike hp).kind
      field := fun hp => (hlike hp).field
      text := fun hp hread => (hlike hp).text hread
      parts := fun {n n'} hp hkind => by
        cases (h.counterparts hp).2 with
        | same hchildren => exact parts_of_children hlike hchildren
        | spread _ hargument => exact absurd hargument hkind
      arguments := fun {n n'} hp hkind => by
        cases (h.counterparts hp).2 with
        | same hchildren => exact .same (parts_of_children hlike hchildren)
        | spread _ _ _ _ hparts hspreads hparts' hlead helements =>
          obtain ⟨type, body, hliteral, rfl⟩ := hspreads.exists_literal
          exact .spread hparts hspreads.kind_argument hspreads.parts_argument hliteral
            hparts' hlead helements
      inField := fun {n n'} f hp => by
        cases (h.counterparts hp).2 with
        | same hchildren => exact inField_of_children hlike f hchildren
        | spread _ _ hplain hplain' =>
          rw [hempty f hplain, hempty f hplain']
          exact .nil
      hasToken := fun {n n'} hp => by
        cases (h.counterparts hp).2 with
        | same hchildren => exact hasToken_of_children hlike ":=" hchildren
        | spread _ _ hplain hplain' =>
          have hnone : ∀ {n : Node}, n.HasPlainChildren → n.hasToken ":=" = false :=
              fun hplain => by
            rw [hasToken, List.any_eq_false]
            intro c hc
            simp [(hplain c hc).2]
          rw [hnone hplain, hnone hplain'] }

/-! ### Counterparts are unique -/

theorem preorderAll_sublist {cs cs' : List Node} (h : cs.Sublist cs') :
    (preorderAll cs).Sublist (preorderAll cs') := by
  rw [preorderAll_eq_flatMap, preorderAll_eq_flatMap]
  exact h.flatMap preorder

theorem preorderAll_children_sublist (n : Node) : (preorderAll n.children).Sublist n.preorder := by
  rw [preorder_eq]
  exact List.sublist_cons_self ..

theorem preorderAll_parts_sublist_children (n : Node) :
    (preorderAll n.parts).Sublist (preorderAll n.children) :=
  preorderAll_sublist List.filter_sublist

theorem preorderAll_parts_sublist (n : Node) : (preorderAll n.parts).Sublist n.preorder :=
  (preorderAll_parts_sublist_children n).trans (preorderAll_children_sublist n)

theorem preorder_element_sublist {e : Node} : e.element.preorder.Sublist e.preorder := by
  unfold element
  split
  · cases hparts : e.parts with
    | nil => exact List.Sublist.refl _
    | cons c cs =>
      have hsub := preorderAll_parts_sublist e
      rw [hparts, preorderAll_cons] at hsub
      exact (List.sublist_append_left _ _).trans hsub
  · exact List.Sublist.refl _

/-- The elements of a literal stand in the argument that spreads it. -/
theorem preorderAll_elements_sublist {argument literal : Node} {elements : List Node}
    (h : Spreads argument literal elements) : (preorderAll elements).Sublist argument.preorder := by
  obtain ⟨type, body, his, rfl⟩ := h.exists_literal
  have helements : (preorderAll (body.parts.map element)).Sublist (preorderAll body.parts) := by
    rw [preorderAll_eq_flatMap, preorderAll_eq_flatMap, List.flatMap_map]
    exact List.Sublist.flatMap_right _ fun _ _ => preorder_element_sublist
  have hliteral := preorderAll_parts_sublist literal
  have hargument := preorderAll_parts_sublist argument
  rw [his.parts_eq, preorderAll_cons, preorderAll_cons, preorderAll_nil,
    List.append_nil] at hliteral
  rw [h.parts_argument, preorderAll_cons, preorderAll_nil, List.append_nil] at hargument
  exact (helements.trans (preorderAll_parts_sublist body)).trans
    (((List.sublist_append_right _ _).trans hliteral).trans hargument)

/-- The arguments before a spread argument, and the elements that it spreads. -/
theorem preorderAll_spread_sublist {k argument literal : Node} {lead elements : List Node}
    (hparts : k.parts = lead ++ [argument]) (h : Spreads argument literal elements) :
    (preorderAll (lead ++ elements)).Sublist (preorderAll k.children) := by
  refine List.Sublist.trans ?_ (preorderAll_parts_sublist_children k)
  rw [hparts, preorderAll_eq_flatMap, preorderAll_eq_flatMap, List.flatMap_append,
    List.flatMap_append, List.flatMap_singleton, ← preorderAll_eq_flatMap elements]
  exact (List.Sublist.refl _).append (preorderAll_elements_sublist h)

/-- The first nodes of the pairs are nodes of the first forest, in order. -/
theorem fst_sublist (h : Aligned R respelled ns ns' ps) :
    (ps.map Prod.fst).Sublist (preorderAll ns) := by
  induction h with
  | nil => exact List.Sublist.refl _
  | node _ _ _ ihps ihqs =>
    rw [List.map_cons, List.map_append, preorderAll_cons, preorder_eq, List.cons_append]
    exact (ihps.append ihqs).cons_cons _
  | @spread k _ argument literal lead _ elements _ _ _ _ _ _ _ _ _ _ hparts hspreads _ _
      _ _ ihps ihqs =>
    have hsub := preorderAll_spread_sublist hparts hspreads
    rw [List.map_cons, List.map_append, preorderAll_cons, preorder_eq, List.cons_append]
    exact ((ihps.trans hsub).append ihqs).cons_cons _

/-- The second nodes of the pairs are nodes of the second forest, in order. -/
theorem snd_sublist (h : Aligned R respelled ns ns' ps) :
    (ps.map Prod.snd).Sublist (preorderAll ns') := by
  induction h with
  | nil => exact List.Sublist.refl _
  | node _ _ _ ihps ihqs =>
    rw [List.map_cons, List.map_append, preorderAll_cons, preorder_eq, List.cons_append]
    exact (ihps.append ihqs).cons_cons _
  | @spread _ k' _ _ _ lead' _ elements' _ _ _ _ _ _ _ _ _ _ _ hparts' _ _ _ ihps ihqs =>
    have hsub := hparts' ▸ preorderAll_parts_sublist_children k'
    rw [List.map_cons, List.map_append, preorderAll_cons, preorder_eq, List.cons_append]
    exact ((ihps.trans hsub).append ihqs).cons_cons _

theorem mem_fst (h : Aligned R respelled ns ns' ps) (hp : (n, n') ∈ ps) : n ∈ preorderAll ns :=
  h.fst_sublist.subset (List.mem_map_of_mem hp)

theorem mem_snd (h : Aligned R respelled ns ns' ps) (hp : (n, n') ∈ ps) : n' ∈ preorderAll ns' :=
  h.snd_sublist.subset (List.mem_map_of_mem hp)

/-- Counterparts determine one another, in forests whose nodes have numbers of their own. -/
theorem ids (h : Aligned R respelled ns ns' ps) (hns : ((preorderAll ns).map Node.id).Nodup)
    (hns' : ((preorderAll ns').map Node.id).Nodup) (hp : (n, n') ∈ ps) (hq : (m, m') ∈ ps) :
    n.id = m.id ↔ n'.id = m'.id := by
  have hfst : (ps.map fun p => p.1.id).Nodup := by
    have := (h.fst_sublist.map Node.id).nodup hns
    rwa [List.map_map] at this
  have hsnd : (ps.map fun p => p.2.id).Nodup := by
    have := (h.snd_sublist.map Node.id).nodup hns'
    rwa [List.map_map] at this
  constructor
  · intro hid
    exact congrArg (·.2.id) (List.inj_on_of_nodup_map hfst hp hq hid)
  · intro hid
    exact congrArg (·.1.id) (List.inj_on_of_nodup_map hsnd hp hq hid)

section Forests

variable {k x y : Node} {ns : List Node} (hns : ((preorderAll (k :: ns)).map Node.id).Nodup)

include hns

theorem nodup_children_of_cons : ((preorderAll k.children).map Node.id).Nodup := by
  rw [preorderAll_cons] at hns
  have hsub := (preorderAll_children_sublist k).trans (List.sublist_append_left _ (preorderAll ns))
  exact (hsub.map Node.id).nodup hns

theorem nodup_of_cons : ((preorderAll ns).map Node.id).Nodup := by
  rw [preorderAll_cons] at hns
  exact ((List.sublist_append_right _ _).map Node.id).nodup hns

/-- Nothing stands in two trees of a forest. -/
theorem notMem_of_cons (hx : x ∈ k.preorder) : x ∉ preorderAll ns := by
  rw [preorderAll_cons, List.map_append, List.nodup_append] at hns
  exact fun hx' => hns.2.2 _ (List.mem_map_of_mem hx) _ (List.mem_map_of_mem hx') rfl

theorem notMem_preorder_of_cons (hx : x ∈ preorderAll ns) (hy : y ∈ k.preorder) : y ∉ x.preorder :=
  fun hxy => notMem_of_cons hns hy (mem_preorderAll_of_mem hx hxy)

end Forests

/-- Two pairs at the head of a forest, below it or in the rest: only where both are below or both in
the rest has anything to be known about them. -/
theorem mem_preorder_iff_cons {k k' : Node} {qs : List (Node × Node)}
    (hns : ((preorderAll (k :: ns)).map Node.id).Nodup)
    (hns' : ((preorderAll (k' :: ns')).map Node.id).Nodup)
    (hps : ∀ p ∈ ps, p.1 ∈ k.inner ∧ p.2 ∈ k'.inner)
    (hqs : ∀ q ∈ qs, q.1 ∈ preorderAll ns ∧ q.2 ∈ preorderAll ns')
    (ihps : (n, n') ∈ ps → (m, m') ∈ ps → (m ∈ n.preorder ↔ m' ∈ n'.preorder))
    (ihqs : (n, n') ∈ qs → (m, m') ∈ qs → (m ∈ n.preorder ↔ m' ∈ n'.preorder))
    (hp : (n, n') ∈ (k, k') :: (ps ++ qs)) (hq : (m, m') ∈ (k, k') :: (ps ++ qs)) :
    m ∈ n.preorder ↔ m' ∈ n'.preorder := by
  have hbelow : ∀ {p}, p ∈ ps → p.1 ∈ k.preorder ∧ p.2 ∈ k'.preorder := fun hp =>
    ⟨preorder_of_inner (hps _ hp).1, preorder_of_inner (hps _ hp).2⟩
  -- nine cases: each pair is that of the roots, one below them, or one behind them
  rw [List.mem_cons, List.mem_append] at hp hq
  obtain hp | hp | hp := hp
  · cases hp
    obtain hq | hq | hq := hq
    · cases hq
      simp
    · exact iff_of_true (hbelow hq).1 (hbelow hq).2
    · exact iff_of_false (fun hm => notMem_of_cons hns hm (hqs _ hq).1) fun hm =>
        notMem_of_cons hns' hm (hqs _ hq).2
  · obtain hq | hq | hq := hq
    · cases hq
      refine iff_of_false (fun hm => ?_) fun hm => ?_
      · exact not_inner_self (inner_of_preorder (hps _ hp).1 hm)
      · exact not_inner_self (inner_of_preorder (hps _ hp).2 hm)
    · exact ihps hp hq
    · refine iff_of_false (fun hm => ?_) fun hm => ?_
      · exact notMem_of_cons hns (preorder_trans (hbelow hp).1 hm) (hqs _ hq).1
      · exact notMem_of_cons hns' (preorder_trans (hbelow hp).2 hm) (hqs _ hq).2
  · obtain hq | hq | hq := hq
    · cases hq
      exact iff_of_false (notMem_preorder_of_cons hns (hqs _ hp).1 (self_mem_preorder _))
        (notMem_preorder_of_cons hns' (hqs _ hp).2 (self_mem_preorder _))
    · exact iff_of_false (notMem_preorder_of_cons hns (hqs _ hp).1 (hbelow hq).1)
        (notMem_preorder_of_cons hns' (hqs _ hp).2 (hbelow hq).2)
    · exact ihqs hp hq

/-- Below a node of the first forest stand the counterparts of what stands below its counterpart. -/
theorem mem_preorder_iff (h : Aligned R respelled ns ns' ps)
    (hns : ((preorderAll ns).map Node.id).Nodup) (hns' : ((preorderAll ns').map Node.id).Nodup)
    (hp : (n, n') ∈ ps) (hq : (m, m') ∈ ps) : m ∈ n.preorder ↔ m' ∈ n'.preorder := by
  induction h with
  | nil => cases hp
  | node _ hchildren hrest ihps ihqs =>
    exact mem_preorder_iff_cons hns hns' (fun p hp => ⟨hchildren.mem_fst hp, hchildren.mem_snd hp⟩)
      (fun q hq => ⟨hrest.mem_fst hq, hrest.mem_snd hq⟩)
      (ihps (nodup_children_of_cons hns) (nodup_children_of_cons hns'))
      (ihqs (nodup_of_cons hns) (nodup_of_cons hns')) hp hq
  | spread _ _ _ _ _ hparts hspreads hparts' _ hchildren hrest ihps ihqs =>
    have hsub := preorderAll_spread_sublist hparts hspreads
    have hsub' := hparts' ▸ preorderAll_parts_sublist_children _
    exact mem_preorder_iff_cons hns hns'
      (fun p hp => ⟨hsub.subset (hchildren.mem_fst hp), hsub'.subset (hchildren.mem_snd hp)⟩)
      (fun q hq => ⟨hrest.mem_fst hq, hrest.mem_snd hq⟩)
      (ihps ((hsub.map Node.id).nodup (nodup_children_of_cons hns))
        ((hsub'.map Node.id).nodup (nodup_children_of_cons hns')))
      (ihqs (nodup_of_cons hns) (nodup_of_cons hns')) hp hq

/-! ### Nodes around counterparts -/

/-- Lists of nodes that correspond once nodes between an argument list and an element that it
spreads are left out of the first. -/
inductive Chain (N : Node → Node → Prop) : List Node → List Node → Prop where
  | nil : Chain N [] []
  | cons {a a' : Node} {l l' : List Node} : N a a' → Chain N l l' → Chain N (a :: l) (a' :: l')
  | skip {a : Node} {l l' : List Node} : a.kind.isSpreading = true → Chain N l l' →
      Chain N (a :: l) l'

theorem Chain.append {N : Node → Node → Prop} {l l' k k' : List Node} (h : Chain N l l')
    (hk : Chain N k k') : Chain N (l ++ k) (l' ++ k') := by
  induction h with
  | nil => exact hk
  | cons ha _ ih => exact .cons ha ih
  | skip ha _ ih => exact .skip ha ih

theorem Chain.mono {N N' : Node → Node → Prop} {l l' : List Node} (h : Chain N l l')
    (hN : ∀ n n', N n n' → N' n n') : Chain N' l l' := by
  induction h with
  | nil => exact .nil
  | cons ha _ ih => exact .cons (hN _ _ ha) ih
  | skip ha _ ih => exact .skip ha ih

theorem Chain.skips {N : Node → Node → Prop} {between l l' : List Node}
    (h : ∀ a ∈ between, a.kind.isSpreading = true) (hl : Chain N l l') :
    Chain N (between ++ l) l' := by
  induction between with
  | nil => exact hl
  | cons a as ih =>
    obtain ⟨ha, has⟩ := List.forall_mem_cons.1 h
    exact .skip ha (ih has)

/-- The nodes around counterparts are counterparts. -/
theorem chained (h : Aligned R respelled ns ns' ps) (hp : (n, n') ∈ ps) :
    ∃ c ∈ ns, ∃ c' ∈ ns', ∃ above above', Path c n above ∧ Path c' n' above' ∧
      Chain (fun m m' => (m, m') ∈ ps) above above' := by
  induction h generalizing n n' with
  | nil => cases hp
  | @node k k' ns ns' ps qs _ _ _ ihps ihqs =>
    have hsub : ∀ {p}, p ∈ ps ∨ p ∈ qs → p ∈ (k, k') :: (ps ++ qs) := fun hp =>
      List.mem_cons_of_mem _ (List.mem_append.2 hp)
    obtain heq | hp := List.mem_cons.1 hp
    · cases heq
      exact ⟨k, List.mem_cons_self .., k', List.mem_cons_self .., [], [], .here _, .here _, .nil⟩
    obtain hp | hp := List.mem_append.1 hp
    · obtain ⟨c, hc, c', hc', above, above', path, path', hchain⟩ := ihps hp
      refine ⟨k, List.mem_cons_self .., k', List.mem_cons_self .., _, _, .down hc path,
        .down hc' path', ?_⟩
      exact (hchain.mono fun _ _ hp => hsub (.inl hp)).append (.cons (List.mem_cons_self ..) .nil)
    · obtain ⟨c, hc, c', hc', above, above', path, path', hchain⟩ := ihqs hp
      exact ⟨c, List.mem_cons_of_mem _ hc, c', List.mem_cons_of_mem _ hc', above, above', path,
        path', hchain.mono fun _ _ hp => hsub (.inr hp)⟩
  -- the nodes between the list and an element are skipped on the left
  | @spread k k' argument literal lead lead' elements elements' ns ns' ps qs _ _ _ _ _ hparts
      hspreads hparts' _ _ _ ihps ihqs =>
    have hsub : ∀ {p}, p ∈ ps ∨ p ∈ qs → p ∈ (k, k') :: (ps ++ qs) := fun hp =>
      List.mem_cons_of_mem _ (List.mem_append.2 hp)
    obtain heq | hp := List.mem_cons.1 hp
    · cases heq
      exact ⟨k, List.mem_cons_self .., k', List.mem_cons_self .., [], [], .here _, .here _, .nil⟩
    obtain hp | hp := List.mem_append.1 hp
    · obtain ⟨c, hc, c', hc', above, above', path, path', hchain⟩ := ihps hp
      have hc' : c' ∈ k'.children :=
        List.mem_of_mem_filter (p := isPart) (hparts' ▸ hc' : c' ∈ k'.parts)
      have hchain := hchain.mono fun _ _ hp => (hsub (.inl hp) : _ ∈ (k, k') :: (ps ++ qs))
      have hpart : ∀ {m}, m ∈ lead ++ [argument] → m ∈ k.children := fun hm =>
        List.mem_of_mem_filter (p := isPart) (hparts ▸ hm : _ ∈ k.parts)
      obtain hlead | helement := List.mem_append.1 hc
      · refine ⟨k, List.mem_cons_self .., k', List.mem_cons_self .., _, _,
          .down (hpart (List.mem_append_left _ hlead)) path, .down hc' path', ?_⟩
        exact hchain.append (.cons (List.mem_cons_self ..) .nil)
      · obtain ⟨between, pathBetween, hspreading⟩ := hspreads.exists_path helement
        refine ⟨k, List.mem_cons_self .., k', List.mem_cons_self .., _, _,
          .down (hpart (by simp)) (pathBetween.append path), .down hc' path', ?_⟩
        rw [List.append_assoc]
        exact hchain.append (.skips hspreading (.cons (List.mem_cons_self ..) .nil))
    · obtain ⟨c, hc, c', hc', above, above', path, path', hchain⟩ := ihqs hp
      exact ⟨c, List.mem_cons_of_mem _ hc, c', List.mem_cons_of_mem _ hc', above, above', path,
        path', hchain.mono fun _ _ hp => hsub (.inr hp)⟩

end Aligned

end Handoff.Syntax
