import Handoff.Proofs.Syntax.Tree

/-!
# Walks over a well-formed tree

Fields, expressions in parentheses, and where the nodes of a well-formed tree stand: the subtrees of
two children have no node in common and do not overlap in the text, and a function, a `go` statement
or an argument list starts before all that it holds.

## Main definitions

* `Node.Apart`: two nodes have no node in common.
-/

namespace Handoff.Syntax

/-- Elements that give nothing can be left out. -/
theorem flatMap_filter_of_nil {α β : Type} {q : α → Bool} {f : α → List β} {l : List α}
    (h : ∀ a ∈ l, q a = false → f a = []) : (l.filter q).flatMap f = l.flatMap f := by
  induction l with
  | nil => rfl
  | cons a l ih =>
    obtain ⟨ha, hl⟩ := List.forall_mem_cons.1 h
    rw [List.flatMap_cons, List.filter_cons, ← ih hl]
    split
    · rw [List.flatMap_cons]
    next hq => rw [ha (by simpa using hq), List.nil_append]

theorem Kind.isOpened_of_isFunction {k : Kind} (h : k.isFunction = true) : k.isOpened = true := by
  cases k <;> first | rfl | cases h

namespace Node

variable {root n m c k a x : Node}

/-! ### Children -/

theorem preorderAll_subset_preorder {cs : List Node} (h : cs ⊆ n.inner) :
    preorderAll cs ⊆ n.preorder := by
  intro x hx
  obtain ⟨c, hc, hx⟩ := mem_preorderAll.1 hx
  exact preorder_of_inner (inner_of_preorder (h hc) hx)

theorem filter_isPart_sublist (n : Node) :
    (n.children.filter isPart).Sublist (n.children.filter (·.kind ≠ .comment)) := by
  refine List.monotone_filter_right _ fun c hc => ?_
  simp_all [isPart]

theorem inner_of_mem_filter {q : Node → Bool} (h : c ∈ n.children.filter q) : c ∈ n.inner :=
  inner_of_child (List.mem_of_mem_filter h)

theorem mem_children_of_child? {f : Field} (h : n.child? f = some c) :
    c ∈ n.children ∧ c.field = some f :=
  ⟨List.mem_of_find?_eq_some h, by simpa using List.find?_some h⟩

theorem preorder_of_child? {f : Field} (h : n.child? f = some c) : c ∈ n.preorder :=
  child_mem_preorder (mem_children_of_child? h).1

theorem ne_of_child? {f g : Field} (hc : n.child? f = some c) (hk : n.child? g = some k)
    (hne : f ≠ g) : c ≠ k := by
  rintro rfl
  have := (mem_children_of_child? hc).2.symm.trans (mem_children_of_child? hk).2
  exact hne (Option.some.inj this)

theorem child?_subset {f : Field} : (n.child? f).toList ⊆ n.inner := fun _ hc =>
  inner_of_child (mem_children_of_child? (Option.mem_toList.1 hc)).1

theorem expressions_subset : n.expressions ⊆ n.preorder := by
  unfold expressions
  split
  · exact fun x hx => child_mem_preorder (List.mem_of_mem_filter hx)
  · simp

/-! ### Nodes apart -/

def Apart (c k : Node) : Prop := ∀ x ∈ c.preorder, x ∉ k.preorder

theorem Apart.mono {b : Node} (h : c.Apart k) (ha : a ∈ c.preorder)
    (hb : b ∈ k.preorder) : a.Apart b :=
  fun _ hx hx' => h _ (preorder_trans ha hx) (preorder_trans hb hx')

/-- Nodes that are picked from nodes apart. -/
theorem pairwise_apart_flatMap {cs : List Node} {f : Node → List Node}
    (h : cs.Pairwise Apart) (hf : ∀ c ∈ cs, f c ⊆ c.preorder ∧ (f c).Pairwise Apart) :
    (cs.flatMap f).Pairwise Apart := by
  refine List.pairwise_flatMap.2 ⟨fun c hc => (hf c hc).2, ?_⟩
  refine h.imp_of_mem fun hc hk hck x hx y hy => ?_
  exact hck.mono ((hf _ hc).1 hx) ((hf _ hk).1 hy)

namespace Distinct

theorem apart (h : root.Distinct) (hn : n ∈ root.preorder) (hc : c ∈ n.children)
    (hk : k ∈ n.children) (hne : c ≠ k) : c.Apart k := fun _ hx hx' =>
  hne ((h.of_mem hn).child_eq hc hk hx hx' rfl)

theorem pairwise_apart (h : root.Distinct) (hn : n ∈ root.preorder) : n.children.Pairwise Apart :=
  (h.of_mem hn).forest.2.imp fun hck _ hx hx' =>
    hck (List.mem_map_of_mem hx) (List.mem_map_of_mem hx')

theorem pairwise_apart_expressions (h : root.Distinct) (hn : n ∈ root.preorder) :
    n.expressions.Pairwise Apart := by
  unfold expressions
  split
  · exact (h.pairwise_apart hn).sublist List.filter_sublist
  · exact List.pairwise_singleton ..

/-- What holds a child holds its parent. -/
theorem preorder_of_child (h : root.Distinct) (hn : n ∈ root.preorder) (hc : c ∈ n.children)
    (ha : a ∈ root.preorder) (hin : c ∈ a.inner) : n ∈ a.preorder := by
  have hmem := (h.mem_ancestors (preorder_trans hn (child_mem_preorder hc))).2 ⟨ha, hin⟩
  rw [h.ancestors_child hn hc, List.mem_cons] at hmem
  obtain rfl | hmem := hmem
  · exact self_mem_preorder _
  · exact preorder_of_inner ((h.mem_ancestors hn).1 hmem).2

/-- A node has one parent. -/
theorem parent_eq (h : root.Distinct) (hn : n ∈ root.preorder) (ha : a ∈ root.preorder)
    (hc : c ∈ n.children) (hc' : c ∈ a.children) : n = a := by
  obtain heq | hin := mem_preorder.1 (h.preorder_of_child hn hc ha (inner_of_child hc'))
  · exact heq
  · exact absurd
      (inner_of_preorder hin (h.preorder_of_child ha hc' hn (inner_of_child hc))) not_inner_self

/-- Of two nodes around a third, one is in the other. -/
theorem mem_or_mem (h : root.Distinct) (hn : n ∈ root.preorder) (ha : a ∈ root.preorder)
    (hx : x ∈ n.preorder) (hx' : x ∈ a.preorder) : n ∈ a.preorder ∨ a ∈ n.inner := by
  induction root using childrenInduction with
  | step root ih =>
    obtain rfl | hn := mem_preorder.1 hn
    · obtain rfl | ha := mem_preorder.1 ha
      · exact .inl (self_mem_preorder _)
      · exact .inr ha
    obtain rfl | ha := mem_preorder.1 ha
    · exact .inl (preorder_of_inner hn)
    obtain ⟨c, hc, hn⟩ := mem_inner.1 hn
    obtain ⟨k, hk, ha⟩ := mem_inner.1 ha
    obtain rfl := h.child_eq hc hk (preorder_trans hn hx) (preorder_trans ha hx') rfl
    exact ih c hc (h.child hc) hn ha

end Distinct

/-! ### Parentheses -/

theorem firstBare_cases {cs : List Node} {e : Node} (h : firstBare cs = some e) :
    ∃ c ∈ cs, e = c.bare := by
  induction cs with
  | nil =>
    rw [firstBare] at h
    cases h
  | cons c cs ih =>
    rw [firstBare] at h
    split at h
    · exact ⟨c, List.mem_cons_self .., (Option.some.inj h).symm⟩
    · obtain ⟨k, hk, he⟩ := ih h
      exact ⟨k, List.mem_cons_of_mem _ hk, he⟩

/-- Parentheses hold the same expression, and nothing else. -/
theorem bare_cases (n : Node) : n.bare = n ∨
    (n.kind = .parenthesizedExpression ∧ ∃ c ∈ n.children, n.bare = c.bare) := by
  obtain ⟨label, children⟩ := n
  rw [bare]
  split
  next hkind =>
    cases hfirst : firstBare children with
    | none => exact .inl rfl
    | some e => exact .inr ⟨hkind, firstBare_cases hfirst⟩
  next => exact .inl rfl

theorem bare_eq_self (h : n.kind ≠ .parenthesizedExpression) : n.bare = n :=
  (bare_cases n).resolve_right fun hparen => h hparen.1

theorem kind_ne_of_bare {k : Kind} (h : n.bare.kind ≠ k) (hk : k ≠ .parenthesizedExpression) :
    n.kind ≠ k := by
  rintro rfl
  rw [bare_eq_self hk] at h
  exact h rfl

theorem bare_mem_preorder (n : Node) : n.bare ∈ n.preorder := by
  induction n using childrenInduction with
  | step n ih =>
    obtain h | ⟨-, c, hc, h⟩ := bare_cases n
    · rw [h]
      exact self_mem_preorder n
    · rw [h]
      exact preorder_of_inner (mem_inner.2 ⟨c, hc, ih c hc⟩)

/-- Without its parentheses, an expression is itself or stands directly in parentheses. -/
theorem bare_eq_or_mem_children (n : Node) : n.bare = n ∨
    ∃ p ∈ n.preorder, p.kind = .parenthesizedExpression ∧ n.bare ∈ p.children := by
  induction n using childrenInduction with
  | step n ih =>
    obtain h | ⟨hparen, c, hc, h⟩ := bare_cases n
    · exact .inl h
    · rw [h]
      obtain hself | ⟨p, hp, hkind, hmem⟩ := ih c hc
      · exact .inr ⟨n, self_mem_preorder n, hparen, hself.symm ▸ hc⟩
      · exact .inr ⟨p, preorder_of_inner (mem_inner.2 ⟨c, hc, hp⟩), hkind, hmem⟩

/-- A node around an expression without its parentheses is around the parentheses, or one of
them. -/
theorem inner_of_bare (hroot : root.Distinct) (ha : a ∈ root.preorder)
    (hkind : a.kind ≠ .parenthesizedExpression) (hn : n ∈ root.preorder) (hin : n.bare ∈ a.inner) :
    n ∈ a.inner := by
  induction n using childrenInduction with
  | step n ih =>
    obtain h | ⟨hparen, c, hc, h⟩ := bare_cases n
    · rwa [h] at hin
    · rw [h] at hin
      have hc' := ih c hc (preorder_trans hn (child_mem_preorder hc)) hin
      obtain rfl | hn := mem_preorder.1 (hroot.preorder_of_child hn hc ha hc')
      · exact absurd hparen hkind
      · exact hn

/-! ### Places in the text -/

namespace WellFormed

theorem start_le (wf : root.WellFormed) (hn : n ∈ root.preorder) (hx : x ∈ n.preorder) :
    n.start ≤ x.start ∧ x.stop ≤ n.stop := by
  have hspan := (wf.of_mem hn).encloses hx
  simp only [Node.encloses, Span.contains, Bool.and_eq_true, decide_eq_true_eq] at hspan
  exact hspan

/-- Children, comments left out, have no node in common and lie one after the other. -/
theorem siblings (wf : root.WellFormed) (hn : n ∈ root.preorder) :
    (n.children.filter (·.kind ≠ .comment)).Pairwise fun c k =>
      c.Apart k ∧ c.stop ≤ k.start :=
  ((wf.distinct.pairwise_apart hn).sublist List.filter_sublist).and (wf.ordered n hn)

theorem nodup_parts (wf : n.WellFormed) : n.parts.Nodup := by
  refine ((wf.distinct.pairwise_apart (self_mem_preorder n)).sublist List.filter_sublist).imp
    fun {c k} hapart => ?_
  rintro rfl
  exact hapart c (self_mem_preorder c) (self_mem_preorder c)

/-- A node with a part at or below it is a part. -/
theorem isPart_of_mem (wf : n.WellFormed) (hm : m ∈ n.preorder) (hpart : m.isPart = true) :
    n.isPart = true := by
  obtain rfl | hm := mem_preorder.1 hm
  · exact hpart
  · refine isPart_of_not_isLeaf fun hleaf => ?_
    simp [isPart, wf.comment_of_inner hleaf hm] at hpart

/-- What carries meaning below a node stands in its parts. -/
theorem filter_preorder (wf : n.WellFormed) {p : Node → Bool} (hself : p n = false)
    (hp : ∀ m, p m = true → m.isPart = true) :
    n.preorder.filter p = n.parts.flatMap fun d => d.preorder.filter p := by
  rw [preorder_eq, List.filter_cons_of_neg (by simp [hself]), preorderAll_eq_flatMap,
    List.filter_flatMap, parts, flatMap_filter_of_nil]
  intro c hc hpart
  refine List.filter_eq_nil_iff.2 fun m hm hpm => ?_
  cases hpart.symm.trans ((wf.child hc).isPart_of_mem hm (hp m hpm))

/-- Parts lie one after the other. -/
theorem stop_le_start (wf : root.WellFormed) (h : [c, k].Sublist root.parts) :
    c.stop ≤ k.start := by
  have hsub : root.parts.Sublist (root.children.filter (·.kind ≠ .comment)) :=
    List.monotone_filter_right _ fun c hc => by simp_all [isPart]
  exact List.pairwise_iff_forall_sublist.1 (wf.ordered root (self_mem_preorder root)) (h.trans hsub)

theorem ne_comment_of_mem (wf : n.WellFormed) (hm : m ∈ n.preorder) (hkind : m.kind ≠ .comment) :
    n.kind ≠ .comment := by
  intro hcomment
  obtain rfl | hm := mem_preorder.1 hm
  · exact hkind hcomment
  · exact hkind (wf.comment_of_inner (by rw [hcomment]; rfl) hm)

theorem stop_le_or_stop_le (wf : root.WellFormed) (hc : c ∈ root.children) (hk : k ∈ root.children)
    (hne : c ≠ k) (hckind : c.kind ≠ .comment) (hkkind : k.kind ≠ .comment) :
    c.stop ≤ k.start ∨ k.stop ≤ c.start := by
  have symm : Std.Symm fun c k : Node => c.stop ≤ k.start ∨ k.stop ≤ c.start := ⟨fun _ _ => Or.symm⟩
  have hmem : ∀ c ∈ root.children, c.kind ≠ .comment →
      c ∈ root.children.filter (·.kind ≠ .comment) :=
    fun c hc hkind => List.mem_filter.2 ⟨hc, decide_eq_true hkind⟩
  have hordered : (root.children.filter (·.kind ≠ .comment)).Pairwise
      fun c k => c.stop ≤ k.start ∨ k.stop ≤ c.start :=
    (wf.ordered root (self_mem_preorder root)).imp Or.inl
  exact hordered.forall (hmem c hc hckind) (hmem k hk hkkind) hne

/-- A node over some of the text of another lies in it or around it. -/
theorem mem_or_mem_of_encloses (wf : root.WellFormed) (hm : m ∈ root.preorder)
    (hn : n ∈ root.preorder) (hmkind : m.kind ≠ .comment) (hnkind : n.kind ≠ .comment)
    (hencloses : n.encloses m = true) (hnonempty : m.start < m.stop) : m ∈ n.preorder ∨
      n ∈ m.preorder := by
  induction root using childrenInduction with
  | step root ih =>
    obtain rfl | hm := mem_preorder.1 hm
    · exact .inr hn
    obtain rfl | hn := mem_preorder.1 hn
    · exact .inl (preorder_of_inner hm)
    obtain ⟨c, hc, hm⟩ := mem_inner.1 hm
    obtain ⟨k, hk, hn⟩ := mem_inner.1 hn
    by_cases hck : c = k
    · subst hck
      exact ih c hc (wf.child hc) hm hn
    · exfalso
      have hplace := wf.stop_le_or_stop_le hc hk hck ((wf.child hc).ne_comment_of_mem hm hmkind)
        ((wf.child hk).ne_comment_of_mem hn hnkind)
      have hmc := (wf.child hc).start_le (self_mem_preorder c) hm
      have hnk := (wf.child hk).start_le (self_mem_preorder k) hn
      have hmn : n.start ≤ m.start ∧ m.stop ≤ n.stop := by
        simpa [Node.encloses, Span.contains, start, stop] using hencloses
      omega

/-- What lies around the text of a name holds the name. -/
theorem encloses_name_iff (wf : root.WellFormed) (hn : n ∈ root.preorder) (hm : m ∈ root.preorder)
    (hkind : n.kind ≠ .comment) (hname : m.kind.isName = true) : n.encloses m = true ↔
      m ∈ n.preorder := by
  refine ⟨fun hencloses => ?_, fun hin => (wf.of_mem hn).encloses hin⟩
  obtain hin | hin := wf.mem_or_mem_of_encloses hm hn (fun hcomment => by simp [hcomment] at hname)
    hkind hencloses (wf.nonempty m hm hname)
  · exact hin
  · -- a name has nothing but comments in it
    obtain rfl | hin := mem_preorder.1 hin
    · exact self_mem_preorder _
    · exact absurd ((wf.of_mem hm).comment_of_inner (Kind.isLeaf_of_isName hname) hin) hkind

/-- A name lies in every branch around its text. -/
theorem inner_of_encloses (wf : root.WellFormed) (hm : m ∈ root.preorder) (hn : n ∈ root.preorder)
    (hname : m.kind.isName = true) (hbranch : n.kind.isLeaf = false)
    (hencloses : n.encloses m = true) : m ∈ n.inner := by
  have hnkind : n.kind ≠ .comment := fun hcomment => by simp [hcomment, Kind.isLeaf] at hbranch
  have hinside := (wf.encloses_name_iff hn hm hnkind hname).1 hencloses
  refine (mem_preorder.1 hinside).resolve_left ?_
  rintro rfl
  cases hbranch.symm.trans (Kind.isLeaf_of_isName hname)

/-- Two parts over the same text lie one in the other. -/
theorem mem_or_mem_of_span (wf : root.WellFormed) (hm : m ∈ root.preorder) (hn : n ∈ root.preorder)
    (hmpart : m.isPart = true) (hnpart : n.isPart = true) (hspan : m.span = n.span)
    (hnonempty : m.start < m.stop) : m ∈ n.preorder ∨ n ∈ m.preorder := by
  refine wf.mem_or_mem_of_encloses hm hn (fun hk => ?_) (fun hk => ?_) ?_ hnonempty
  · simp [isPart, hk] at hmpart
  · simp [isPart, hk] at hnpart
  · rw [Node.encloses, hspan]
    exact Span.contains_refl _

/-- What starts with a keyword or a bracket starts before its parts. -/
theorem start_lt_of_isOpened (wf : n.WellFormed) (hopened : n.kind.isOpened = true)
    (hm : m ∈ n.inner) (hpart : m.isPart = true) : n.start < m.start := by
  obtain ⟨c, hc, hm⟩ := mem_inner.1 hm
  have hcpart := (wf.child hc).isPart_of_mem hm hpart
  have hfirst := wf.opened n (self_mem_preorder n) hopened c hc hcpart
  exact Nat.lt_of_lt_of_le hfirst ((wf.child hc).start_le (self_mem_preorder c) hm).1

/-- Statements inside an expression stand in a function. -/
theorem exists_function (wf : n.WellFormed) (hplain : n.kind.isPlain = true) (hm : m ∈ n.preorder)
    (hstatement : m.kind.isPlain = false) :
    ∃ f ∈ n.preorder, f.kind.isFunction = true ∧ m ∈ f.inner := by
  induction n using childrenInduction with
  | step n ih =>
    obtain rfl | hm := mem_preorder.1 hm
    · cases hplain.symm.trans hstatement
    cases hholds : n.kind.holdsStatements with
    | true =>
      refine ⟨n, self_mem_preorder n, ?_, hm⟩
      simpa [Kind.holdsStatements, show n.kind.isStatement =
        false by simpa [Kind.isPlain] using hplain] using hholds
    | false =>
      obtain ⟨c, hc, hm⟩ := mem_inner.1 hm
      have hcplain := wf.plain n (self_mem_preorder n) hholds c hc
      obtain ⟨f, hf, hfunction, hin⟩ := ih c hc (wf.child hc) hcplain hm
      exact ⟨f, preorder_of_inner (mem_inner.2 ⟨c, hc, hf⟩), hfunction, hin⟩

/-! ### Function literals -/

/-- Bodies are blocks, those of composite literals apart. -/
theorem kind_body (wf : root.WellFormed) (hn : n ∈ root.preorder) (hc : n.child? .body = some c) :
    c.kind = .block ∨ c.kind = .literalValue := by
  obtain ⟨hchild, hfield⟩ := mem_children_of_child? hc
  simpa [Field.allows] using
    wf.fields c (preorder_trans hn (child_mem_preorder hchild)) .body hfield

theorem kind_parameters (wf : root.WellFormed) (hn : n ∈ root.preorder)
    (hc : n.child? .parameters = some c) : c.kind = .parameterList := by
  obtain ⟨hchild, hfield⟩ := mem_children_of_child? hc
  simpa [Field.allows] using
    wf.fields c (preorder_trans hn (child_mem_preorder hchild)) .parameters hfield

theorem kind_arguments (wf : root.WellFormed) (hn : n ∈ root.preorder)
    (hc : n.child? .arguments = some c) : c.kind = .argumentList := by
  obtain ⟨hchild, hfield⟩ := mem_children_of_child? hc
  simpa [Field.allows] using
    wf.fields c (preorder_trans hn (child_mem_preorder hchild)) .arguments hfield

theorem isFunction_body (wf : root.WellFormed) (hn : n ∈ root.preorder)
    (hc : n.child? .body = some c) : c.kind.isFunction = false := by
  obtain h | h := wf.kind_body hn hc
  · rw [h]; rfl
  · rw [h]; rfl

theorem hasSignature (wf : n.WellFormed) (hkind : n.kind = .funcLiteral) :
    HasSignature ((n.children.filter fun c => c.kind ≠ .comment ∨ c.field ≠ none).map fun c =>
      (c.kind, c.field)) := by
  have hshaped := wf.shaped n (self_mem_preorder n)
  rwa [hkind] at hshaped

/-- Function literals have bodies. -/
theorem exists_body (wf : n.WellFormed) (hkind : n.kind = .funcLiteral) :
    ∃ body, n.child? .body = some body := by
  obtain ⟨_, hmem, hfield⟩ := (wf.hasSignature hkind).body
  obtain ⟨c, hc, rfl⟩ := List.mem_map.1 hmem
  exact Option.isSome_iff_exists.1
    (List.find?_isSome.2 ⟨c, List.mem_of_mem_filter hc, beq_iff_eq.2 hfield⟩)

/-- A part of a function literal stands in its body or in its signature. -/
theorem mem_body_or_signature {body : Node} (wf : n.WellFormed) (hkind : n.kind = .funcLiteral)
    (hbody : n.child? .body = some body) (hm : m ∈ n.inner) (hpart : m.isPart = true) :
    m ∈ body.preorder ∨ ∃ part ∈ n.children,
      (part.field = some .parameters ∨ part.field = some .result) ∧ m ∈ part.preorder := by
  have hsignature := wf.hasSignature hkind
  have hmem : ∀ c ∈ n.children, c.isPart = true →
      c ∈ n.children.filter fun c => c.kind ≠ .comment ∨ c.field ≠ none :=
    fun c hc hpart => List.mem_filter.2 ⟨hc, by simp_all [isPart]⟩
  obtain ⟨c, hc, hm⟩ := mem_inner.1 hm
  have hcpart := (wf.child hc).isPart_of_mem hm hpart
  obtain hfield | hfield | hfield | ⟨text, htext⟩ :=
    hsignature.field _ (List.mem_map_of_mem (hmem c hc hcpart))
  · exact .inr ⟨c, hc, .inl hfield, hm⟩
  · exact .inr ⟨c, hc, .inr hfield, hm⟩
  · -- no other child is a body
    left
    obtain ⟨hchild, hbodyField⟩ := mem_children_of_child? hbody
    have hbodyPart : body.isPart = true := by
      obtain h | h := wf.kind_body (self_mem_preorder n) hbody
      · rw [isPart, h]; rfl
      · rw [isPart, h]; rfl
    have symm : Std.Symm fun c k : Node => ¬ (c.field = some .body ∧ k.field = some .body) :=
      ⟨fun _ _ h h' => h h'.symm⟩
    obtain rfl : c = body := by
      by_contra hne
      exact (List.pairwise_map.1 hsignature.sole).forall (hmem c hc hcpart)
        (hmem body hchild hbodyPart) hne ⟨hfield, hbodyField⟩
    exact hm
  · have htoken : c.kind = .token text := htext
    simp [isPart, htoken, Kind.isNamed] at hcpart

end WellFormed

end Node

end Handoff.Syntax
