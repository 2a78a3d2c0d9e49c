import Handoff.Proofs.Syntax.Walk

/-!
# Trees without some of their comments

Leaving out a node of a tree moves what stands below it up in its place; all other nodes keep their
labels. Where only comments are left out, the tree keeps its shape: comments carry no meaning and
fill no field, and below them there are only comments.

## Main definitions

* `Node.without`: a tree without some of its nodes.

## Main statements

* `Node.preorder_without`: the nodes that are left, in the same order.
* `Node.WellFormed.without`: without some of its comments, a well-formed tree is well-formed.
* `Node.ancestors_without`: the same nodes stand above what is no comment.
-/

namespace Handoff.Syntax.Node

mutual

/-- A tree without some of the nodes below its root; what stands below those moves up. -/
def without (gone : Node → Bool) : Node → Node
  | ⟨label, children⟩ => ⟨label, withoutAll gone children⟩

def withoutAll (gone : Node → Bool) : List Node → List Node
  | [] => []
  | c@⟨label, children⟩ :: cs =>
    (if gone c then withoutAll gone children else [⟨label, withoutAll gone children⟩]) ++
      withoutAll gone cs

end

variable {gone p : Node → Bool} {root n m c : Node} {cs : List Node} {f : Field}

@[elab_as_elim]
theorem forestInduction {motive : List Node → Prop} (nil : motive [])
    (cons : ∀ c cs, motive c.children → motive cs → motive (c :: cs)) : ∀ cs, motive cs
  | [] => nil
  | ⟨label, children⟩ :: cs =>
    cons ⟨label, children⟩ cs (forestInduction nil cons children) (forestInduction nil cons cs)

/-! ### Labels -/

@[simp]
theorem label_without (gone : Node → Bool) (n : Node) : (n.without gone).label = n.label := by
  cases n
  rw [without]

@[simp]
theorem id_without : (n.without gone).id = n.id := congrArg Label.id (label_without gone n)

@[simp]
theorem kind_without : (n.without gone).kind = n.kind := congrArg Label.kind (label_without gone n)

@[simp]
theorem field_without : (n.without gone).field = n.field :=
  congrArg Label.field (label_without gone n)

@[simp]
theorem span_without : (n.without gone).span = n.span := congrArg Label.span (label_without gone n)

@[simp]
theorem text_without : (n.without gone).text = n.text := congrArg Label.text (label_without gone n)

@[simp]
theorem start_without : (n.without gone).start = n.start := by simp [start]

@[simp]
theorem stop_without : (n.without gone).stop = n.stop := by simp [stop]

@[simp]
theorem line_without : (n.without gone).line = n.line := by simp [line]

@[simp]
theorem isPart_without : (n.without gone).isPart = n.isPart := by simp [isPart]

@[simp]
theorem encloses_without : (n.without gone).encloses (m.without gone) =
    n.encloses m := by simp [encloses]

/-! ### Nodes -/

theorem children_without : (n.without gone).children = withoutAll gone n.children := by
  cases n
  rw [without]

@[simp]
theorem withoutAll_nil : withoutAll gone [] = [] := by
  rw [withoutAll]

theorem withoutAll_cons : withoutAll gone (c :: cs) =
    (if gone c then withoutAll gone c.children else [c.without gone]) ++ withoutAll gone cs := by
  cases c
  rw [withoutAll, without]

theorem preorderAll_append (cs ds : List Node) : preorderAll (cs ++ ds) = preorderAll cs ++
    preorderAll ds := by
  simp [preorderAll_eq_flatMap]

theorem preorderAll_withoutAll (gone : Node → Bool) (cs : List Node) :
    preorderAll (withoutAll gone cs) = ((preorderAll cs).filter (!gone ·)).map (without gone) := by
  induction cs using forestInduction with
  | nil => simp
  | cons c cs ihc ihcs =>
    rw [withoutAll_cons, preorderAll_append, ihcs, preorderAll_cons, preorder_eq]
    by_cases hc : gone c = true <;> simp [hc, ihc, preorder_eq, children_without]

/-- The nodes that are left, in the same order. -/
theorem preorder_without (gone : Node → Bool) (n : Node) : (n.without gone).preorder =
    n.without gone :: (n.inner.filter (!gone ·)).map (without gone) := by
  rw [preorder_eq, children_without, preorderAll_withoutAll]
  rfl

theorem mem_inner_without {m' : Node} :
    m' ∈ (n.without gone).inner ↔ ∃ m ∈ n.inner, gone m = false ∧ m.without gone = m' := by
  simp [inner, children_without, preorderAll_withoutAll, and_assoc]

theorem mem_preorder_without (hn : n ∈ root.preorder) (hkept : gone n = false) :
    n.without gone ∈ (root.without gone).preorder := by
  obtain rfl | hn := mem_preorder.1 hn
  · exact self_mem_preorder _
  · exact preorder_of_inner (mem_inner_without.2 ⟨n, hn, hkept, rfl⟩)

/-- What is left of some trees was one of them, or stood below one that is left out. -/
theorem mem_withoutAll {m' : Node} (h : m' ∈ withoutAll gone cs) :
    ∃ m, m.without gone = m' ∧ (m ∈ cs ∨ ∃ c ∈ cs, gone c = true ∧ m ∈ c.inner) := by
  induction cs with
  | nil => simp at h
  | cons c cs ih =>
    rw [withoutAll_cons, List.mem_append] at h
    obtain h | h := h
    · by_cases hc : gone c = true
      · rw [if_pos hc] at h
        have hin : m' ∈ (c.without gone).inner :=
          mem_inner.2 ⟨m', by rwa [children_without], self_mem_preorder m'⟩
        obtain ⟨m, hm, -, rfl⟩ := mem_inner_without.1 hin
        exact ⟨m, rfl, .inr ⟨c, List.mem_cons_self .., hc, hm⟩⟩
      · rw [if_neg hc] at h
        exact ⟨c, (List.mem_singleton.1 h).symm, .inl (List.mem_cons_self ..)⟩
    · obtain ⟨m, rfl, hm | ⟨k, hk, hm⟩⟩ := ih h
      · exact ⟨m, rfl, .inl (List.mem_cons_of_mem _ hm)⟩
      · exact ⟨m, rfl, .inr ⟨k, List.mem_cons_of_mem _ hk, hm⟩⟩

theorem mem_withoutAll_of_mem (hc : c ∈ cs) (hgone : gone c = false) :
    c.without gone ∈ withoutAll gone cs := by
  induction cs with
  | nil => simp at hc
  | cons k cs ih =>
    rw [withoutAll_cons, List.mem_append]
    obtain rfl | hc := List.mem_cons.1 hc
    · simp [hgone]
    · exact .inr (ih hc)

/-- Of children that are kept for what their labels say, those below nodes that are left out are
none. -/
theorem filter_withoutAll (hp : ∀ m, p (m.without gone) = p m)
    (hgone : ∀ c ∈ cs, gone c = true → ∀ m ∈ c.preorder, p m = false) :
    (withoutAll gone cs).filter p = (cs.filter p).map (without gone) := by
  induction cs with
  | nil => simp
  | cons c cs ih =>
    obtain ⟨hc, hcs⟩ := List.forall_mem_cons.1 hgone
    rw [withoutAll_cons, List.filter_append, ih hcs, List.filter_cons]
    by_cases hgc : gone c = true
    · have hnone : (withoutAll gone c.children).filter p = [] := by
        refine List.filter_eq_nil_iff.2 fun m' hm' => ?_
        have hin : m' ∈ (c.without gone).inner := inner_of_child (by rwa [children_without])
        obtain ⟨m, hm, -, rfl⟩ := mem_inner_without.1 hin
        simp [hp, hc hgc m (preorder_of_inner hm)]
      simp [hgc, hnone, hc hgc c (self_mem_preorder c)]
    · by_cases hpc : p c = true <;> simp [hgc, hp, hpc]

theorem any_of_filter_eq {ds : List Node} (h : ds.filter p = (cs.filter p).map (without gone)) :
    ds.any p = cs.any p := by
  have hnone : ∀ l : List Node, l.any p = false ↔ l.filter p = [] := by simp
  rw [Bool.eq_iff_iff, ← not_iff_not, Bool.not_eq_true, Bool.not_eq_true, hnone, hnone, h,
    List.map_eq_nil_iff]

/-- What is picked from the nodes of a tree is picked without nodes that give nothing. -/
theorem filterMap_preorder_without {α : Type} {g : Node → Option α}
    (hg : ∀ m, g (m.without gone) = g m) (hnone : ∀ m ∈ root.preorder, gone m = true → g m = none) :
    (root.without gone).preorder.filterMap g = root.preorder.filterMap g := by
  have hinner : (root.inner.filter (!gone ·)).filterMap g = root.inner.filterMap g := by
    rw [List.filterMap_filter]
    refine List.filterMap_congr fun m hm => ?_
    cases hgm : gone m with
    | false => simp
    | true => simp [hnone m (preorder_of_inner hm) hgm]
  rw [preorder_without, preorder_eq root, List.filterMap_cons, List.filterMap_cons, hg,
    List.filterMap_map,
    show g ∘ without gone = g from funext hg, hinner]
  rfl

/-! ### Comments -/

def OnlyComments (gone : Node → Bool) (root : Node) : Prop :=
  ∀ n ∈ root.preorder, gone n = true → n.kind = .comment

theorem OnlyComments.of_mem (h : OnlyComments gone root) (hn : n ∈ root.preorder) :
    OnlyComments gone n :=
  fun m hm => h m (preorder_trans hn hm)

theorem OnlyComments.kept (h : OnlyComments gone root) (hn : n ∈ root.preorder)
    (hkind : n.kind ≠ .comment) : gone n = false :=
  Bool.eq_false_iff.2 fun hgone => hkind (h n hn hgone)

variable (wf : root.WellFormed) (hgone : OnlyComments gone root)

include wf hgone

/-- Children that are no comments are the same. -/
theorem filter_children_without (hn : n ∈ root.preorder) (hp : ∀ m, p (m.without gone) = p m)
    (hcomment : ∀ m ∈ root.preorder, m.kind = .comment → p m = false) :
    (n.without gone).children.filter p = (n.children.filter p).map (without gone) := by
  rw [children_without]
  refine filter_withoutAll hp fun c hc hgc m hm => ?_
  have hmem : c ∈ root.preorder := preorder_trans hn (child_mem_preorder hc)
  have hkind := hgone c hmem hgc
  refine hcomment m (preorder_trans hmem hm) ?_
  obtain rfl | hm := mem_preorder.1 hm
  · exact hkind
  · exact (wf.of_mem hmem).comment_of_inner (by rw [hkind]; rfl) hm

theorem parts_without (hn : n ∈ root.preorder) : (n.without gone).parts =
    n.parts.map (without gone) :=
  filter_children_without wf hgone hn (fun _ => isPart_without) fun m _ hm => by simp [isPart, hm]

theorem inField_without (hn : n ∈ root.preorder) :
    (n.without gone).inField f = (n.inField f).map (without gone) :=
  filter_children_without wf hgone hn (fun _ => by simp) fun m hm hkind => by
    simp [wf.comments m hm hkind]

theorem hasToken_without (hn : n ∈ root.preorder) (text : String) :
    (n.without gone).hasToken text = n.hasToken text := by
  have hfilter := filter_children_without (p := (·.kind == .token text)) wf hgone hn
    (fun _ => by simp) fun m _ hkind => by simp [hkind]
  exact any_of_filter_eq hfilter

omit wf in
/-- Nodes that are no comments are the same. -/
theorem filter_preorder_without (hp : ∀ m, p (m.without gone) = p m)
    (hcomment : ∀ m ∈ root.preorder, m.kind = .comment → p m = false) :
    (root.without gone).preorder.filter p = (root.preorder.filter p).map (without gone) := by
  have hinner : (root.inner.filter (!gone ·)).filter p = root.inner.filter p := by
    rw [List.filter_filter]
    refine List.filter_congr fun m hm => ?_
    cases hg : gone m with
    | false => simp
    | true => simp [hcomment m (preorder_of_inner hm) (hgone m (preorder_of_inner hm) hg)]
  rw [preorder_without, preorder_eq root, List.filter_cons, List.filter_cons, hp, List.filter_map,
    show p ∘ without gone = p from funext hp, hinner]
  split <;> rfl

omit wf in
theorem hasErrors_without : (root.without gone).hasErrors = root.hasErrors :=
  any_of_filter_eq
    (filter_preorder_without hgone (fun _ => by simp) fun m _ hkind => by simp [hkind])

omit wf hgone in
theorem exists_of_mem_preorder_without {m' : Node} (h : m' ∈ (root.without gone).preorder) :
    ∃ m ∈ root.preorder, m.without gone = m' := by
  obtain rfl | h := mem_preorder.1 h
  · exact ⟨root, self_mem_preorder root, rfl⟩
  · obtain ⟨m, hm, -, rfl⟩ := mem_inner_without.1 h
    exact ⟨m, preorder_of_inner hm, rfl⟩

/-- The children that are left were children, or are comments. -/
theorem exists_of_mem_children_without {c' : Node} (hn : n ∈ root.preorder)
    (h : c' ∈ (n.without gone).children) :
    ∃ c ∈ n.inner, c.without gone = c' ∧ (c ∈ n.children ∨ c.kind = .comment) := by
  rw [children_without] at h
  obtain ⟨c, rfl, hc | ⟨k, hk, hgk, hc⟩⟩ := mem_withoutAll h
  · exact ⟨c, inner_of_child hc, rfl, .inl hc⟩
  · have hmem : k ∈ root.preorder := preorder_trans hn (child_mem_preorder hk)
    refine ⟨c, mem_inner.2 ⟨k, hk, preorder_of_inner hc⟩, rfl, .inr ?_⟩
    exact (wf.of_mem hmem).comment_of_inner (by rw [hgone k hmem hgk]; rfl) hc

/-- Without some of its comments, a well-formed tree is well-formed. -/
theorem WellFormed.without : (root.without gone).WellFormed where
  distinct := by
    have hall : (root.id :: root.inner.map id).Nodup := by
      simpa only [Distinct, preorder_eq, List.map_cons, inner] using wf.distinct
    rw [Distinct, preorder_without, List.map_cons, List.map_map, id_without]
    refine hall.sublist (.cons_cons _ ?_)
    simpa [Function.comp_def] using (List.filter_sublist (p := (!gone ·)) (l := root.inner)).map id
  nested n' hn' c' hc' := by
    obtain ⟨n, hn, rfl⟩ := exists_of_mem_preorder_without hn'
    obtain ⟨c, hc, rfl, -⟩ := exists_of_mem_children_without wf hgone hn hc'
    rw [encloses_without]
    exact (wf.of_mem hn).encloses (preorder_of_inner hc)
  ordered n' hn' := by
    obtain ⟨n, hn, rfl⟩ := exists_of_mem_preorder_without hn'
    rw [filter_children_without wf hgone hn (fun _ => by simp) fun _ _ hk => by simp [hk]]
    simpa [List.pairwise_map] using wf.ordered n hn
  forward n' hn' := by
    obtain ⟨n, hn, -, rfl⟩ := mem_inner_without.1 hn'
    simpa using wf.forward n hn
  nonempty n' hn' hkind := by
    obtain ⟨n, hn, rfl⟩ := exists_of_mem_preorder_without hn'
    simpa using wf.nonempty n hn (by rwa [kind_without] at hkind)
  leaves n' hn' hleaf c' hc' := by
    obtain ⟨n, hn, rfl⟩ := exists_of_mem_preorder_without hn'
    obtain ⟨c, hc, rfl, -⟩ := exists_of_mem_children_without wf hgone hn hc'
    rw [kind_without] at hleaf ⊢
    exact (wf.of_mem hn).comment_of_inner hleaf hc
  plain n' hn' hkind c' hc' := by
    obtain ⟨n, hn, rfl⟩ := exists_of_mem_preorder_without hn'
    obtain ⟨c, -, rfl, hc | hc⟩ := exists_of_mem_children_without wf hgone hn hc'
    · rw [kind_without] at hkind ⊢
      exact wf.plain n hn hkind c hc
    · rw [kind_without, hc]
      rfl
  opened n' hn' hopened c' hc' hpart := by
    obtain ⟨n, hn, rfl⟩ := exists_of_mem_preorder_without hn'
    obtain ⟨c, -, rfl, hc | hc⟩ := exists_of_mem_children_without wf hgone hn hc'
    · rw [kind_without] at hopened
      rw [isPart_without] at hpart
      simpa using wf.opened n hn hopened c hc hpart
    · simp [isPart, hc] at hpart
  fields n' hn' f hf := by
    obtain ⟨n, hn, rfl⟩ := exists_of_mem_preorder_without hn'
    rw [field_without] at hf
    rw [kind_without]
    exact wf.fields n hn f hf
  comments n' hn' hkind := by
    obtain ⟨n, hn, rfl⟩ := exists_of_mem_preorder_without hn'
    rw [kind_without] at hkind
    rw [field_without]
    exact wf.comments n hn hkind
  shaped n' hn' := by
    obtain ⟨n, hn, rfl⟩ := exists_of_mem_preorder_without hn'
    rw [filter_children_without wf hgone hn
      (fun _ => by simp) fun m hm hk => by simp [hk, wf.comments m hm hk]]
    simpa [Function.comp_def] using wf.shaped n hn

theorem Path.without {above : List Node} (path : Path root n above) (hkind : n.kind ≠ .comment) :
    Path (root.without gone) (n.without gone) (above.map (Node.without gone)) := by
  induction path with
  | here n => exact .here _
  | @down p c n above hc path ih =>
    have hmem : c ∈ p.preorder := child_mem_preorder hc
    have hchild : c.kind ≠ .comment := (wf.child hc).ne_comment_of_mem path.mem_preorder hkind
    rw [List.map_append]
    refine .down ?_ (ih (wf.child hc) (hgone.of_mem hmem) hkind)
    rw [children_without]
    exact mem_withoutAll_of_mem hc (hgone.kept hmem hchild)

/-- The same nodes stand above what is no comment. -/
theorem ancestors_without (hn : n ∈ root.preorder) (hkind : n.kind ≠ .comment) :
    (root.without gone).ancestors (n.without gone) = (root.ancestors n).map (without gone) := by
  obtain ⟨above, path⟩ := exists_path hn
  rw [wf.distinct.ancestors_eq path, (wf.without hgone).distinct.ancestors_eq
    (path.without wf hgone hkind)]

end Handoff.Syntax.Node
