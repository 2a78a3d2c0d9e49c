import Handoff.Proofs.Syntax.Spelling
import Mathlib.Data.List.Rotate

/-!
# Files with their declarations in another order

A declaration and a copy of it at another place have trees of one shape. Two files are reorderings
of one another when the declarations of one are copies of those of the other, in any order; only
imports keep theirs. The nodes of the two files then come in pairs, as long as they stand in
declarations.

## Main definitions

* `Copied`: declarations and copies of them.
* `Reordered`: two files with the same declarations.
* `pairs?`: the pairs of declarations and their copies, computed.

## Main statements

* `Reordered.ids`: the pairs of nodes determine one another.
* `Reordered.ancestors`: the nodes around a node are paired with those around its copy.
* `Reordered.encloses`: in a declaration, a node lies in the text of another just where its copy
  does.
* `reordered_of_pairs?`: a file is reordered when some of its declarations are rotated.
-/

namespace Handoff.Syntax

open Node

structure Label.Same (l l' : Label) : Prop where
  kind : l'.kind = l.kind
  field : l'.field = l.field
  text : l'.text = l.text

theorem Label.Same.like {l l' : Label} (h : l.Same l') : l.Like l' :=
  ⟨h.kind, h.field, fun _ => h.text⟩

/-- The labels of a node and its copy, when what starts at byte `a` is copied to byte `b`. -/
structure Label.Moved (a b : Nat) (l l' : Label) : Prop extends Label.Same l l' where
  start : l'.span.start.byte + a = l.span.start.byte + b
  stop : l'.span.stop.byte + a = l.span.stop.byte + b

/-! ### Alignments in which nothing is respelled -/

namespace Aligned

variable {R R' : Label → Label → Prop} {ns ns' : List Node} {ps : List (Node × Node)} {n n' : Node}

theorem mono {respelled : Label → Prop} (h : Aligned R respelled ns ns' ps)
    (hR : ∀ l l', R l l' → R' l l') :
    Aligned R' respelled ns ns' ps := by
  induction h with
  | nil => exact .nil
  | node hlabel _ _ ihps ihqs => exact .node (hR _ _ hlabel) ihps ihqs
  | spread hrespelled hlabel hkind hplain hplain' hparts hspreads hparts' hlength _ _ ihps ihqs =>
    exact .spread hrespelled (hR _ _ hlabel) hkind hplain hplain' hparts hspreads hparts'
      hlength ihps ihqs

theorem cons {m m' : Node} {qs : List (Node × Node)} (h : Aligned R (fun _ => False) [m] [m'] ps)
    (hns : Aligned R (fun _ => False) ns ns' qs) : Aligned R (fun _ => False) (m :: ns) (m' :: ns')
      (ps ++ qs) := by
  cases h with
  | node hlabel hchildren hrest =>
    cases hrest
    rw [List.append_nil, List.cons_append]
    exact .node hlabel hchildren hns
  | spread hrespelled => exact hrespelled.elim

variable (h : Aligned R (fun _ => False) ns ns' ps)

include h

theorem map_fst : ps.map Prod.fst = preorderAll ns := by
  induction h with
  | nil => rfl
  | node _ _ _ ihps ihqs =>
    rw [List.map_cons, List.map_append, ihps, ihqs, preorderAll_cons, preorder_eq, List.cons_append]
  | spread hrespelled => exact hrespelled.elim

theorem map_snd : ps.map Prod.snd = preorderAll ns' := by
  induction h with
  | nil => rfl
  | node _ _ _ ihps ihqs =>
    rw [List.map_cons, List.map_append, ihps, ihqs, preorderAll_cons, preorder_eq, List.cons_append]
  | spread hrespelled => exact hrespelled.elim

theorem children (hp : (n, n') ∈ ps) :
    List.Forall₂ (fun m m' => (m, m') ∈ ps) n.children n'.children := by
  cases (h.counterparts hp).2 with
  | same hchildren => exact hchildren
  | spread hrespelled => exact hrespelled.elim

/-- A node and its copy have the same nodes below them. -/
theorem preorder (hp : (n, n') ∈ ps) :
    List.Forall₂ (fun m m' => (m, m') ∈ ps) n.preorder n'.preorder := by
  induction n using childrenInduction generalizing n' with
  | step n ih =>
    rw [preorder_eq, preorder_eq]
    refine .cons hp ?_
    have hchildren := h.children hp
    generalize n.children = cs, n'.children = cs' at hchildren ih
    induction hchildren with
    | nil => exact .nil
    | cons hc _ ihcs =>
      obtain ⟨hfirst, hrest⟩ := List.forall_mem_cons.1 ih
      rw [preorderAll_cons, preorderAll_cons]
      exact List.rel_append (hfirst hc) (ihcs hrest)

end Aligned

/-! ### Copies of declarations -/

/-- Declarations and copies of them at other places, with the pairs of their nodes. -/
inductive Copied : List Node → List Node → List (Node × Node) → Prop where
  | nil : Copied [] [] []
  | cons {d d' : Node} {ds ds' : List Node} {ps qs : List (Node × Node)} :
      Aligned (Label.Moved d.start d'.start) (fun _ => False) [d] [d'] ps → Copied ds ds' qs →
      Copied (d :: ds) (d' :: ds') (ps ++ qs)

namespace Copied

variable {ds ds' : List Node} {ps : List (Node × Node)} {n n' : Node}

theorem aligned (h : Copied ds ds' ps) : Aligned Label.Same (fun _ => False) ds ds' ps := by
  induction h with
  | nil => exact .nil
  | cons hd _ ih => exact (hd.mono fun _ _ hmoved => hmoved.toSame).cons ih

/-- A node and its copy have the same distance from the start of their declarations. -/
theorem moved (h : Copied ds ds' ps) (hp : (n, n') ∈ ps) : ∃ d ∈ ds, ∃ d' ∈ ds', (d, d') ∈ ps ∧
    n ∈ d.preorder ∧ n' ∈ d'.preorder ∧ n'.start + d.start = n.start + d'.start ∧
    n'.stop + d.start = n.stop + d'.start := by
  induction h with
  | nil => cases hp
  | @cons d d' ds ds' ps qs hd _ ih =>
    obtain hp | hp := List.mem_append.1 hp
    · have hmoved := (hd.counterparts hp).1
      refine ⟨d, List.mem_cons_self .., d', List.mem_cons_self .., ?_, ?_, ?_,
        hmoved.start, hmoved.stop⟩
      · exact List.mem_append_left _ (List.forall₂_cons.1 hd.forall₂).1
      · simpa using hd.mem_fst hp
      · simpa using hd.mem_snd hp
    · obtain ⟨e, he, e', he', hpair, hrest⟩ := ih hp
      exact ⟨e, List.mem_cons_of_mem _ he, e', List.mem_cons_of_mem _ he',
        List.mem_append_right _ hpair, hrest⟩

end Copied

/-- Two files with the same declarations, and the pairs of their nodes. Imports keep their order. -/
structure Reordered (root root' : Node) (ps : List (Node × Node)) : Prop where
  exists_copies : ∃ copies, Copied root.parts copies ps ∧ copies.Perm root'.parts ∧
    copies.filter (·.kind == .importDeclaration) = root'.parts.filter (·.kind == .importDeclaration)

namespace Reordered

variable {root root' n n' m m' d d' : Node} {ps : List (Node × Node)}

section

variable (h : Reordered root root' ps)

include h

theorem likeness : Likeness fun n n' => (n, n') ∈ ps := by
  obtain ⟨copies, hcopies, -⟩ := h.exists_copies
  exact hcopies.aligned.likeness fun _ _ hsame => hsame.like

theorem label (hp : (n, n') ∈ ps) : n.label.Same n'.label := by
  obtain ⟨copies, hcopies, -⟩ := h.exists_copies
  exact (hcopies.aligned.counterparts hp).1

theorem text (hp : (n, n') ∈ ps) : n'.text = n.text := (h.label hp).text

theorem kind (hp : (n, n') ∈ ps) : n'.kind = n.kind := (h.label hp).kind

theorem children (hp : (n, n') ∈ ps) :
    List.Forall₂ (fun m m' => (m, m') ∈ ps) n.children n'.children := by
  obtain ⟨copies, hcopies, -⟩ := h.exists_copies
  exact hcopies.aligned.children hp

theorem preorder (hp : (n, n') ∈ ps) :
    List.Forall₂ (fun m m' => (m, m') ∈ ps) n.preorder n'.preorder := by
  obtain ⟨copies, hcopies, -⟩ := h.exists_copies
  exact hcopies.aligned.preorder hp

theorem parts (hp : (n, n') ∈ ps) : List.Forall₂ (fun m m' => (m, m') ∈ ps) n.parts n'.parts :=
  List.rel_filter (fun _ _ hc => by dsimp only; rw [h.likeness.isPart hc]) (h.children hp)

/-- Paired nodes stand in paired declarations. -/
theorem exists_declaration (hp : (n, n') ∈ ps) : ∃ d ∈ root.parts, ∃ d' ∈ root'.parts,
    (d, d') ∈ ps ∧ n ∈ d.preorder ∧ n' ∈ d'.preorder ∧ n'.start + d.start = n.start + d'.start ∧
    n'.stop + d.start = n.stop + d'.start := by
  obtain ⟨copies, hcopies, hperm, -⟩ := h.exists_copies
  obtain ⟨d, hd, d', hd', hrest⟩ := hcopies.moved hp
  exact ⟨d, hd, d', hperm.mem_iff.1 hd', hrest⟩

theorem mem_left (hp : (n, n') ∈ ps) : n ∈ root.inner := by
  obtain ⟨d, hd, -, -, -, hn, -⟩ := h.exists_declaration hp
  exact inner_of_preorder (inner_of_mem_filter hd) hn

theorem mem_right (hp : (n, n') ∈ ps) : n' ∈ root'.inner := by
  obtain ⟨-, -, d', hd', -, -, hn', -⟩ := h.exists_declaration hp
  exact inner_of_preorder (inner_of_mem_filter hd') hn'

/-- What stands in a declaration has a copy. -/
theorem exists_right (hd : d ∈ root.parts) (hn : n ∈ d.preorder) : ∃ n', (n, n') ∈ ps := by
  obtain ⟨copies, hcopies, -⟩ := h.exists_copies
  have hmem : n ∈ ps.map Prod.fst := by
    rw [hcopies.aligned.map_fst]
    exact mem_preorderAll.2 ⟨d, hd, hn⟩
  obtain ⟨⟨_, n'⟩, hp, rfl⟩ := List.mem_map.1 hmem
  exact ⟨n', hp⟩

/-- What stands in a declaration is a copy. -/
theorem exists_left (hd' : d' ∈ root'.parts) (hn' : n' ∈ d'.preorder) : ∃ n, (n, n') ∈ ps := by
  obtain ⟨copies, hcopies, hperm, -⟩ := h.exists_copies
  have hmem : n' ∈ ps.map Prod.snd := by
    rw [hcopies.aligned.map_snd]
    exact mem_preorderAll.2 ⟨d', hperm.mem_iff.2 hd', hn'⟩
  obtain ⟨⟨n, _⟩, hp, rfl⟩ := List.mem_map.1 hmem
  exact ⟨n, hp⟩

end

section

variable (h : Reordered root root' ps) (wf : root.WellFormed) (wf' : root'.WellFormed)

theorem nodup_parts (hroot : root.Distinct) : ((preorderAll root.parts).map Node.id).Nodup :=
  ((Aligned.preorderAll_parts_sublist root).map Node.id).nodup hroot

include h wf wf'

/-- The pairs determine one another. -/
theorem ids (hp : (n, n') ∈ ps) (hq : (m, m') ∈ ps) : n.id = m.id ↔ n'.id = m'.id := by
  obtain ⟨copies, hcopies, hperm, -⟩ := h.exists_copies
  refine hcopies.aligned.ids (nodup_parts wf.distinct) ?_ hp hq
  rw [preorderAll_eq_flatMap]
  refine (((hperm.flatMap_right Node.preorder).map Node.id).nodup_iff).2 ?_
  rw [← preorderAll_eq_flatMap]
  exact nodup_parts wf'.distinct

theorem left_unique (hp : (n, n') ∈ ps) (hq : (m, n') ∈ ps) : n = m :=
  wf.distinct.eq_of_id (preorder_of_inner (h.mem_left hp)) (preorder_of_inner (h.mem_left hq))
    ((h.ids wf wf' hp hq).2 rfl)

theorem right_unique (hp : (n, n') ∈ ps) (hq : (n, m') ∈ ps) : n' = m' :=
  wf'.distinct.eq_of_id (preorder_of_inner (h.mem_right hp)) (preorder_of_inner (h.mem_right hq))
    ((h.ids wf wf' hp hq).1 rfl)

/-- What stands below a node and what stands below its copy come in pairs. -/
theorem mem_preorder_iff (hp : (n, n') ∈ ps) (hq : (m, m') ∈ ps) : m ∈ n.preorder ↔
    m' ∈ n'.preorder := by
  constructor
  · intro hm
    obtain ⟨k', hk', hpair⟩ := rel_mem_left (h.preorder hp) hm
    rwa [h.right_unique wf wf' hq hpair]
  · intro hm'
    obtain ⟨k, hk, hpair⟩ := rel_mem_right (h.preorder hp) hm'
    rwa [h.left_unique wf wf' hq hpair]

/-- Declarations are paired with declarations. -/
theorem mem_parts_iff (hp : (n, n') ∈ ps) : n ∈ root.parts ↔ n' ∈ root'.parts := by
  obtain ⟨copies, hcopies, hperm, -⟩ := h.exists_copies
  constructor
  · intro hn
    obtain ⟨k', hk', hpair⟩ := rel_mem_left hcopies.aligned.forall₂ hn
    rw [h.right_unique wf wf' hp hpair]
    exact hperm.mem_iff.1 hk'
  · intro hn'
    obtain ⟨k, hk, hpair⟩ := rel_mem_right hcopies.aligned.forall₂ (hperm.mem_iff.2 hn')
    rwa [h.left_unique wf wf' hp hpair]

/-- Below a node and below its copy, paths to a node and to its copy lead through pairs. -/
theorem exists_path (hp : (n, n') ∈ ps) (hq : (m, m') ∈ ps) {above : List Node}
    (path : Path m n above) :
    ∃ above', Path m' n' above' ∧ List.Forall₂ (fun k k' => (k, k') ∈ ps) above above' := by
  induction path generalizing m' with
  | here =>
    obtain rfl := h.right_unique wf wf' hp hq
    exact ⟨[], .here _, .nil⟩
  | down hc _ ih =>
    obtain ⟨c', hc', hcc⟩ := rel_mem_left (h.children hq) hc
    obtain ⟨above', path', hall⟩ := ih hp hcc
    exact ⟨_, .down hc' path', List.rel_append hall (.cons hq .nil)⟩

/-- The nodes around a node and around its copy. -/
theorem ancestors (hp : (n, n') ∈ ps) :
    List.Forall₂ (fun m m' => (m, m') ∈ ps ∨ m = root ∧ m' = root') (root.ancestors n)
      (root'.ancestors n') := by
  obtain ⟨d, hd, d', hd', hdd, hn, -⟩ := h.exists_declaration hp
  obtain ⟨above, path⟩ := Node.exists_path hn
  obtain ⟨above', path', hall⟩ := h.exists_path wf wf' hp hdd path
  rw [wf.distinct.ancestors_eq (.down (List.mem_of_mem_filter hd) path),
    wf'.distinct.ancestors_eq (.down (List.mem_of_mem_filter hd') path')]
  exact List.rel_append (hall.imp fun _ _ hp => .inl hp) (.cons (.inr ⟨rfl, rfl⟩) .nil)

theorem chain_ancestors (hp : (n, n') ∈ ps) :
    Aligned.Chain (fun m m' => (m, m') ∈ ps ∨ m = root ∧ m' = root') (root.ancestors n)
      (root'.ancestors n') := by
  have hall := h.ancestors wf wf' hp
  generalize root.ancestors n = above, root'.ancestors n' = above' at hall
  induction hall with
  | nil => exact .nil
  | cons ha _ ih => exact .cons ha ih

/-- Nodes of one declaration and their copies have the same distance. -/
theorem distance (hd : d ∈ root.parts) (hp : (n, n') ∈ ps) (hn : n ∈ d.preorder)
    (hdd : (d, d') ∈ ps) :
    n'.start + d.start = n.start + d'.start ∧ n'.stop + d.start = n.stop + d'.start := by
  obtain ⟨e, he, e', -, hee, hne, -, hstart, hstop⟩ := h.exists_declaration hp
  obtain rfl : e = d := wf.distinct.child_eq (List.mem_of_mem_filter he)
    (List.mem_of_mem_filter hd) hne hn rfl
  obtain rfl := h.right_unique wf wf' hdd hee
  exact ⟨hstart, hstop⟩

/-- In a declaration, a node starts before another just where its copy does. -/
theorem start_le_iff (hd : d ∈ root.parts) (hp : (n, n') ∈ ps) (hn : n ∈ d.preorder)
    (hq : (m, m') ∈ ps) (hm : m ∈ d.preorder) : n'.start ≤ m'.start ↔ n.start ≤ m.start := by
  obtain ⟨d', hdd⟩ := h.exists_right hd (self_mem_preorder d)
  have hnd := h.distance wf wf' hd hp hn hdd
  have hmd := h.distance wf wf' hd hq hm hdd
  omega

/-- In a declaration, a node lies in the text of another just where its copy does. -/
theorem encloses (hd : d ∈ root.parts) (hp : (n, n') ∈ ps) (hn : n ∈ d.preorder) (hq : (m, m') ∈ ps)
    (hm : m ∈ d.preorder) : n'.encloses m' = n.encloses m := by
  obtain ⟨d', hdd⟩ := h.exists_right hd (self_mem_preorder d)
  have hnd := h.distance wf wf' hd hp hn hdd
  have hmd := h.distance wf wf' hd hq hm hdd
  rw [Bool.eq_iff_iff]
  simp only [Node.encloses, Span.contains, Bool.and_eq_true, decide_eq_true_eq]
  change n'.start ≤ m'.start ∧ m'.stop ≤ n'.stop ↔ n.start ≤ m.start ∧ m.stop ≤ n.stop
  omega

end

end Reordered

/-! ### Finding copies -/

end Handoff.Syntax
