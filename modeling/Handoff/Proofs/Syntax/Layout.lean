import Handoff.Proofs.Syntax.Tree
import Handoff.Syntax.Draft

/-!
# The layout of drafts

What the grammar builds is laid out as the text is: the children of a draft follow one another
inside it. Putting comments in leaves the other children where they are, and finishing a draft keeps
its layout while it numbers the nodes in preorder.

## Main definitions

* `Draft.Tidy`: a draft that is laid out well, with everything below it.
* `Draft.Run`: tidy drafts one after the other between two bytes.
-/

namespace Handoff.Syntax

namespace Span

variable {α : Type} (f : α → Span) (l : List α) {s t : Span}

theorem contains_iff :
    s.contains t = true ↔ s.start.byte ≤ t.start.byte ∧ t.stop.byte ≤ s.stop.byte := by
  simp [contains]

theorem hull_of_contains (h : s.contains t = true) : s.hull t = s := by
  rw [contains_iff] at h
  simp only [hull, if_neg (Nat.not_lt.2 h.1), if_neg (Nat.not_lt.2 h.2)]

theorem foldl_hull_contains (s : Span) :
    (l.foldl (fun span e => span.hull (f e)) s).contains s = true ∧
      ∀ e ∈ l, (l.foldl (fun span e => span.hull (f e)) s).contains (f e) = true := by
  induction l generalizing s with
  | nil => simp
  | cons e l ih =>
    obtain ⟨hs, hl⟩ := ih (s.hull (f e))
    refine ⟨contains_trans hs (hull_contains_left ..), fun k hk => ?_⟩
    obtain rfl | hk := List.mem_cons.1 hk
    · exact contains_trans hs (hull_contains_right ..)
    · exact hl k hk

theorem contains_foldl_hull (hs : t.contains s = true) (hl : ∀ e ∈ l, t.contains (f e) = true) :
    t.contains (l.foldl (fun span e => span.hull (f e)) s) = true := by
  induction l generalizing s with
  | nil => exact hs
  | cons e l ih =>
    obtain ⟨he, hl⟩ := List.forall_mem_cons.1 hl
    refine ih ?_ hl
    grind [contains, hull]

theorem foldl_hull_of_contains (h : ∀ e ∈ l, s.contains (f e) = true) :
    l.foldl (fun span e => span.hull (f e)) s = s := by
  induction l with
  | nil => rfl
  | cons e l ih =>
    obtain ⟨he, hl⟩ := List.forall_mem_cons.1 h
    rw [List.foldl_cons, hull_of_contains he, ih hl]

end Span

/-- What the layout of a node's parent depends on. -/
structure Outline where
  kind : Kind
  field : Option Field
  span : Span

namespace Outline

structure Sound (o : Outline) : Prop where
  forward : o.span.start.byte ≤ o.span.stop.byte
  nonempty : o.kind.isName = true → o.span.start.byte < o.span.stop.byte
  field : ∀ f, o.field = some f → f.allows o.kind = true
  comment : o.kind = .comment → o.field = none

/-- A token that covers some text and fills no field. -/
def IsMark (o : Outline) : Prop :=
  (∃ text, o.kind = .token text) ∧ o.span.start.byte < o.span.stop.byte ∧ o.field = none

def withoutComments (os : List Outline) : List Outline :=
  os.filter fun o => o.kind ≠ .comment ∨ o.field ≠ none

structure Fits (kind : Kind) (children : List Outline) : Prop where
  leaf : kind.isLeaf = true → withoutComments children = []
  plain : kind.holdsStatements = false →
    ∀ o ∈ withoutComments children, o.kind.isPlain = true
  ordered : (withoutComments children).Pairwise fun o p => o.span.stop.byte ≤ p.span.start.byte
  opened : kind.isOpened = true → ∀ o ∈ (withoutComments children).head?, o.IsMark
  shaped : kind.Demands ((withoutComments children).map fun o => (o.kind, o.field))

theorem Fits.congr {kind : Kind} {os ps : List Outline} (h : Fits kind os)
    (heq : withoutComments ps = withoutComments os) : Fits kind ps where
  leaf := heq ▸ h.leaf
  plain := heq ▸ h.plain
  ordered := heq ▸ h.ordered
  opened := heq ▸ h.opened
  shaped := heq ▸ h.shaped

end Outline

open Outline

def Node.outline (n : Node) : Outline := ⟨n.kind, n.field, n.span⟩

/-- Parts come after the mark that a node starts with. -/
theorem Outline.Fits.start_lt_of_isPart {n c : Node} (h : Fits n.kind (n.children.map Node.outline))
    (hopened : n.kind.isOpened = true) (hencloses : ∀ c ∈ n.children, n.encloses c = true)
    (hc : c ∈ n.children) (hpart : c.isPart = true) : n.start < c.start := by
  have hmem : c.outline ∈ withoutComments (n.children.map Node.outline) :=
    List.mem_filter.2 ⟨List.mem_map_of_mem hc, by simp_all [Node.isPart, Node.outline]⟩
  obtain ⟨o, os, heq⟩ := List.exists_cons_of_ne_nil (List.ne_nil_of_mem hmem)
  obtain ⟨⟨text, htext⟩, hnonempty, -⟩ := h.opened hopened o (by rw [heq]; rfl)
  have ho : o ∈ withoutComments (n.children.map Node.outline) := by simp [heq]
  obtain ⟨mark, hmark, rfl⟩ := List.mem_map.1 (List.mem_filter.1 ho).1
  have hordered := h.ordered
  rw [heq] at hmem hordered
  obtain hself | hmem := List.mem_cons.1 hmem
  · have htoken : c.kind = .token text := (congrArg Outline.kind hself).trans htext
    simp [Node.isPart, htoken, Kind.isNamed] at hpart
  · calc
      n.start ≤ mark.start := (Span.contains_iff.1 (hencloses mark hmark)).1
      _ < mark.stop := hnonempty
      _ ≤ c.start := (List.pairwise_cons.1 hordered).1 _ hmem

namespace Draft

def outline (d : Draft) : Outline := ⟨d.kind, d.field, d.span⟩

/-- A draft that is laid out well, with everything below it. -/
inductive Tidy : Draft → Prop where
  | mk {d : Draft} : d.outline.Sound → Fits d.kind (d.children.map outline) →
      (∀ c ∈ d.children, d.span.contains c.span = true) → (∀ c ∈ d.children, Tidy c) → Tidy d

/-- Tidy drafts of some kinds, one after the other between two bytes. -/
def Run (K : Kind → Bool) : Nat → List Draft → Nat → Prop
  | lo, [], hi => lo ≤ hi
  | lo, d :: ds, hi =>
    lo ≤ d.span.start.byte ∧ d.Tidy ∧ d.kind.isAmong K = true ∧ Run K d.span.stop.byte ds hi

namespace Tidy

variable {d : Draft}

theorem sound (h : d.Tidy) : d.outline.Sound := by
  cases h with | mk sound => exact sound

theorem forward (h : d.Tidy) : d.span.start.byte ≤ d.span.stop.byte :=
  h.sound.forward

theorem fits (h : d.Tidy) : Fits d.kind (d.children.map outline) := by
  cases h with | mk _ fits => exact fits

theorem contains (h : d.Tidy) : ∀ c ∈ d.children, d.span.contains c.span = true := by
  cases h with | mk _ _ contains => exact contains

theorem child (h : d.Tidy) : ∀ c ∈ d.children, c.Tidy := by
  cases h with | mk _ _ _ child => exact child

protected theorem leaf {k : Kind} {span : Span} (h : span.start.byte ≤ span.stop.byte)
    (hk : k.isName = true → span.start.byte < span.stop.byte) (hshaped : k.isShaped = false) :
    (leaf k span).Tidy :=
  .mk ⟨h, hk, by simp [outline, Draft.leaf], fun _ => rfl⟩
    ⟨fun _ => rfl, by simp [Draft.leaf, withoutComments], .nil,
      by simp [Draft.leaf, withoutComments], Kind.demands_of_not_isShaped hshaped _⟩
    (by simp [Draft.leaf]) (by simp [Draft.leaf])

protected theorem into (h : d.Tidy) {f : Field} (hf : f.allows d.kind = true)
    (hk : d.kind ≠ .comment) : (d.into f).Tidy := by
  refine .mk ⟨h.sound.forward, h.sound.nonempty, ?_, fun hc => absurd hc hk⟩ h.fits
    h.contains h.child
  rintro _ ⟨⟩
  exact hf

end Tidy

namespace Run

variable {K K' : Kind → Bool} {lo lo' mid hi hi' : Nat} {d : Draft} {ds es : List Draft}

theorem nil : Run K lo [] lo :=
  Nat.le_refl lo

theorem le (h : Run K lo ds hi) : lo ≤ hi := by
  induction ds generalizing lo with
  | nil => exact h
  | cons d ds ih =>
    obtain ⟨hlo, htidy, _, hrun⟩ := h
    exact Nat.le_trans hlo (Nat.le_trans htidy.forward (ih hrun))

theorem widen (h : Run K lo ds hi) (hlo : lo' ≤ lo) (hhi : hi ≤ hi') : Run K lo' ds hi' := by
  induction ds generalizing lo lo' with
  | nil => exact Nat.le_trans hlo (Nat.le_trans h hhi)
  | cons d ds ih => exact ⟨Nat.le_trans hlo h.1, h.2.1, h.2.2.1, ih h.2.2.2 (Nat.le_refl _)⟩

theorem append (h : Run K lo ds mid) (h' : Run K mid es hi) : Run K lo (ds ++ es) hi := by
  induction ds generalizing lo with
  | nil => exact h'.widen h (Nat.le_refl _)
  | cons d ds ih => exact ⟨h.1, h.2.1, h.2.2.1, ih h.2.2.2⟩

theorem append_iff : Run K lo (ds ++ es) hi ↔ ∃ mid, Run K lo ds mid ∧ Run K mid es hi := by
  refine ⟨fun h => ?_, fun ⟨mid, hds, hes⟩ => hds.append hes⟩
  induction ds generalizing lo with
  | nil => exact ⟨lo, Nat.le_refl _, h⟩
  | cons d ds ih =>
    obtain ⟨mid, hds, hes⟩ := ih h.2.2.2
    exact ⟨mid, ⟨h.1, h.2.1, h.2.2.1, hds⟩, hes⟩

theorem cons_iff : Run K lo (d :: ds) hi ↔ ∃ mid, Run K lo [d] mid ∧ Run K mid ds hi := by
  rw [← append_iff, List.singleton_append]

theorem cons (h : Run K lo [d] mid) (h' : Run K mid ds hi) : Run K lo (d :: ds) hi :=
  h.append h'

theorem kinds (h : Run K lo ds hi) (hK : ∀ k, K k = true → K' k = true) : Run K' lo ds hi := by
  induction ds generalizing lo with
  | nil => exact h
  | cons d ds ih =>
    exact ⟨h.1, h.2.1, Kind.isAmong_iff.2
      ((Kind.isAmong_iff.1 h.2.2.1).imp_right (hK _)), ih h.2.2.2⟩

theorem any (h : Run K lo ds hi) : Run Kind.isAny lo ds hi :=
  h.kinds fun _ _ => rfl

theorem item (h : Run Kind.isPlain lo ds hi) : Run Kind.isItem lo ds hi :=
  h.kinds fun _ => Kind.isItem_of_isPlain

theorem mem (h : Run K lo ds hi) (hd : d ∈ ds) :
    lo ≤ d.span.start.byte ∧ d.span.stop.byte ≤ hi ∧ d.Tidy ∧ K d.kind = true := by
  induction ds generalizing lo with
  | nil => simp at hd
  | cons e ds ih =>
    obtain rfl | hd := List.mem_cons.1 hd
    · exact ⟨h.1, h.2.2.2.le, h.2.1, (Kind.isAmong_iff.1 h.2.2.1).2⟩
    · obtain ⟨hlo, hrest⟩ := ih h.2.2.2 hd
      exact ⟨Nat.le_trans h.1 (Nat.le_trans h.2.1.forward hlo), hrest⟩

theorem pairwise (h : Run K lo ds hi) :
    ds.Pairwise fun d e => d.span.stop.byte ≤ e.span.start.byte := by
  induction ds generalizing lo with
  | nil => exact .nil
  | cons d ds ih => exact .cons (fun e he => (mem h.2.2.2 he).1) (ih h.2.2.2)

theorem single (hlo : lo ≤ d.span.start.byte) (h : d.Tidy) (hK : d.kind.isAmong K = true) :
    Run K lo [d] d.span.stop.byte :=
  ⟨hlo, h, hK, Nat.le_refl _⟩

protected theorem into (h : Run K lo [d] hi) {f : Field}
    (hf : ∀ k, K k = true → f.allows k = true) : Run K lo [d.into f] hi :=
  have hkind := Kind.isAmong_iff.1 h.2.2.1
  ⟨h.1, h.2.1.into (hf _ hkind.2) hkind.1, h.2.2⟩

theorem intoPlain (h : Run Kind.isPlain lo [d] hi) (f : Field) (hf : f.allowsPlain = true) :
    Run Kind.isPlain lo [d.into f] hi :=
  h.into fun _ hk => Field.allows_of_isPlain hk hf

theorem mapInto (h : Run K lo ds hi) {f : Field} (hf : ∀ k, K k = true → f.allows k = true) :
    Run K lo (ds.map (Draft.into f)) hi := by
  induction ds generalizing lo with
  | nil => exact h
  | cons d ds ih =>
    obtain ⟨mid, hd, hds⟩ := cons_iff.1 h
    exact (Run.into hd hf).cons (ih hds)

theorem mapIntoPlain (h : Run Kind.isPlain lo ds hi) (f : Field) (hf : f.allowsPlain = true) :
    Run Kind.isPlain lo (ds.map (Draft.into f)) hi :=
  h.mapInto fun _ hk => Field.allows_of_isPlain hk hf

theorem cover (h : Run K lo (d :: ds) hi) :
    lo ≤ (cover (d :: ds)).start.byte ∧ (cover (d :: ds)).stop.byte ≤ hi ∧
      ∀ e ∈ d :: ds, (cover (d :: ds)).contains e.span = true := by
  obtain ⟨hd, hds⟩ := Span.foldl_hull_contains span ds d.span
  have hbound : ∀ e ∈ d :: ds, Span.contains ⟨⟨lo, 0, 0⟩, ⟨hi, 0, 0⟩⟩ e.span = true := fun e he =>
    Span.contains_iff.2 ⟨(h.mem he).1, (h.mem he).2.1⟩
  obtain ⟨hbd, hbds⟩ := List.forall_mem_cons.1 hbound
  have hcover := Span.contains_iff.1 (Span.contains_foldl_hull span ds hbd hbds)
  exact ⟨hcover.1, hcover.2, List.forall_mem_cons.2 ⟨hd, hds⟩⟩

/-- A branch over a run runs over the same bytes. -/
protected theorem branch {k : Kind} (h : Run K lo ds hi) (hne : ds ≠ []) (hleaf : k.isLeaf = false)
    (hK : K' k = true) (hplain : k.holdsStatements = false → ∀ k, K k = true → k.isPlain = true)
    (hopened : k.isOpened = true → ∀ d ∈ ds.head?, d.outline.IsMark)
    (hshaped : k.Demands ((withoutComments (ds.map outline)).map fun o => (o.kind, o.field))) :
    Run K' lo [branch k ds] hi := by
  obtain ⟨d, ds, rfl⟩ := List.exists_cons_of_ne_nil hne
  obtain ⟨hlo, hhi, hcontains⟩ := h.cover
  have hd := Span.contains_iff.1 (hcontains d (List.mem_cons_self ..))
  have hsub : (withoutComments ((d :: ds).map outline)).Sublist ((d :: ds).map outline) :=
    List.filter_sublist
  refine ⟨hlo, .mk ⟨?_, ?_, ?_, fun _ => rfl⟩ ⟨?_, ?_, ?_, ?_, hshaped⟩ hcontains
    fun e he => (h.mem he).2.2.1, Kind.isAmong_of_not_isLeaf hleaf hK, hhi⟩
  · exact Nat.le_trans hd.1 (Nat.le_trans h.2.1.forward hd.2)
  · intro hname
    cases hleaf.symm.trans (Kind.isLeaf_of_isName hname)
  · rintro _ ⟨⟩
  · intro hk
    cases hleaf.symm.trans hk
  · intro hk o ho
    obtain ⟨e, he, rfl⟩ := List.mem_map.1 (hsub.subset ho)
    exact hplain hk _ (h.mem he).2.2.2
  · exact (List.pairwise_map.2 h.pairwise).sublist hsub
  · intro hk
    have hmark := hopened hk d rfl
    obtain ⟨text, htext⟩ : ∃ text, d.kind = .token text := hmark.1
    simpa [branch, withoutComments, outline, htext] using hmark

theorem branchOrdinary {k : Kind} (h : Run K lo ds hi) (hne : ds ≠ []) (hk : k.isOrdinary = true)
    (hK : K' k = true) (hplain : k.holdsStatements = false → ∀ k, K k = true → k.isPlain = true) :
    Run K' lo [Draft.branch k ds] hi := by
  obtain ⟨⟨hleaf, hshaped⟩, hopened⟩ : (k.isLeaf = false ∧ k.isShaped = false) ∧
      k.isOpened = false := by
    simpa [Kind.isOrdinary, Kind.isBranch] using hk
  exact h.branch hne hleaf hK hplain (fun hk => by cases hopened.symm.trans hk)
    (Kind.demands_of_not_isShaped hshaped _)

theorem branchPlain {k : Kind} (h : Run Kind.isPlain lo ds hi) (hne : ds ≠ [])
    (hk : k.isOrdinary = true) (hK : K k = true) : Run K lo [Draft.branch k ds] hi :=
  h.branchOrdinary hne hk hK fun _ _ hk => hk

theorem branchHolding {k : Kind} (h : Run K lo ds hi) (hne : ds ≠ []) (hk : k.isOrdinary = true)
    (hK : K' k = true) (hholds : k.holdsStatements = true) : Run K' lo [Draft.branch k ds] hi :=
  h.branchOrdinary hne hk hK fun hk => by cases hholds.symm.trans hk

/-- A branch over a mark and what follows it. -/
theorem branchOpened {k : Kind} (h : Run K lo (d :: ds) hi) (hmark : d.outline.IsMark)
    (hk : k.isBranch = true) (hK : K' k = true)
    (hplain : k.holdsStatements = false → ∀ k, K k = true → k.isPlain = true) :
    Run K' lo [Draft.branch k (d :: ds)] hi := by
  obtain ⟨hleaf, hshaped⟩ : k.isLeaf = false ∧ k.isShaped = false := by
    simpa [Kind.isBranch] using hk
  refine h.branch (by simp) hleaf hK hplain (fun _ e he => ?_)
    (Kind.demands_of_not_isShaped hshaped _)
  obtain rfl : d = e := by simpa using he
  exact hmark

end Run

/-! ### Comments -/

section Comments

variable {comment : Draft}

theorem contains_of_surrounds {d : Draft} (h : d.surrounds comment = true) :
    d.span.contains comment.span = true := by
  simp only [surrounds, Bool.and_eq_true, decide_eq_true_eq] at h
  exact Span.contains_iff.2 ⟨Nat.le_of_lt h.1, Nat.le_of_lt h.2⟩

@[simp]
theorem outline_insertInto (d : Draft) : (insertInto comment d).outline = d.outline := by
  cases d
  rw [insertInto]
  rfl

@[simp]
theorem children_insertInto (d : Draft) :
    (insertInto comment d).children = insertAmong comment d.children := by
  cases d
  rw [insertInto]

def IsComment (d : Draft) : Prop := d.kind = .comment ∧ d.field = none

/-- Putting a comment among drafts leaves the outlines of the others as they are. -/
theorem outlines_insertAmong (hc : comment.IsComment) (ds : List Draft) :
    withoutComments ((insertAmong comment ds).map outline) = withoutComments (ds.map outline) := by
  induction ds with
  | nil => simp [insertAmong, withoutComments, outline, hc.1, hc.2]
  | cons d ds ih =>
    rw [insertAmong]
    split
    · simp
    · split
      · simp [withoutComments, outline, hc.1, hc.2]
      · simp only [withoutComments, List.map_cons, List.filter_cons] at ih ⊢
        rw [ih]

/-- A comment is put among drafts or into one that surrounds it. -/
theorem mem_insertAmong {ds : List Draft} {e : Draft} (h : e ∈ insertAmong comment ds) :
    e = comment ∨ ∃ d ∈ ds, e = d ∨ (d.surrounds comment = true ∧ e = insertInto comment d) := by
  induction ds with
  | nil => simpa [insertAmong] using h
  | cons d ds ih =>
    rw [insertAmong] at h
    split at h
    next hs =>
      obtain rfl | h := List.mem_cons.1 h
      · exact .inr ⟨d, List.mem_cons_self .., .inr ⟨hs, rfl⟩⟩
      · exact .inr ⟨e, List.mem_cons_of_mem _ h, .inl rfl⟩
    next =>
      split at h
      · obtain rfl | h := List.mem_cons.1 h
        · exact .inl rfl
        · exact .inr ⟨e, h, .inl rfl⟩
      · obtain rfl | h := List.mem_cons.1 h
        · exact .inr ⟨e, List.mem_cons_self .., .inl rfl⟩
        · obtain h | ⟨k, hk, h⟩ := ih h
          · exact .inl h
          · exact .inr ⟨k, List.mem_cons_of_mem _ hk, h⟩

/-- A tidy draft stays tidy when a comment is put into it. -/
theorem Tidy.insertInto {d : Draft} (hc : comment.IsComment) (htidy : comment.Tidy)
    (h : d.Tidy) (hs : d.surrounds comment = true) : (insertInto comment d).Tidy := by
  induction h with
  | @mk d sound fits contains each ih =>
    have hspan : ∀ k : Draft, (Draft.insertInto comment k).span = k.span := fun k =>
      congrArg Outline.span (outline_insertInto k)
    have hkind : (Draft.insertInto comment d).kind = d.kind :=
      congrArg Outline.kind (outline_insertInto d)
    refine .mk (by simpa using sound) ?_ ?_ ?_
    · rw [hkind, children_insertInto]
      exact fits.congr (outlines_insertAmong hc _)
    · intro e he
      rw [hspan]
      rw [children_insertInto] at he
      obtain rfl | ⟨k, hk, rfl | ⟨_, rfl⟩⟩ := mem_insertAmong he
      · exact contains_of_surrounds hs
      · exact contains _ hk
      · rw [hspan]
        exact contains _ hk
    · intro e he
      rw [children_insertInto] at he
      obtain rfl | ⟨k, hk, rfl | ⟨hs, rfl⟩⟩ := mem_insertAmong he
      · exact htidy
      · exact each _ hk
      · exact ih _ hk hs

/-- A file before it is finished: its comments may lie outside the span it has so far. -/
structure Rooted (d : Draft) : Prop where
  fits : Fits d.kind (d.children.map outline)
  child : ∀ c ∈ d.children, c.Tidy

/-- A file before it is finished takes comments wherever they stand. -/
theorem Rooted.insertInto {d : Draft} (hc : comment.IsComment) (htidy : comment.Tidy)
    (h : d.Rooted) : (insertInto comment d).Rooted := by
  have hkind : (Draft.insertInto comment d).kind = d.kind :=
    congrArg Outline.kind (outline_insertInto d)
  refine ⟨?_, fun e he => ?_⟩
  · rw [hkind, children_insertInto]
    exact h.fits.congr (outlines_insertAmong hc _)
  · rw [children_insertInto] at he
    obtain rfl | ⟨k, hk, rfl | ⟨hs, rfl⟩⟩ := mem_insertAmong he
    · exact htidy
    · exact h.child _ hk
    · exact Tidy.insertInto hc htidy (h.child _ hk) hs

theorem Rooted.insertAll {d : Draft} (h : d.Rooted) (comments : List Draft)
    (hc : ∀ c ∈ comments, c.IsComment ∧ c.Tidy) :
    (comments.foldl (fun file c => c.insertInto file) d).Rooted := by
  induction comments generalizing d with
  | nil => exact h
  | cons c cs ih =>
    obtain ⟨⟨hk, ht⟩, hcs⟩ := List.forall_mem_cons.1 hc
    exact ih (h.insertInto hk ht) hcs

theorem outline_insertAll (d : Draft) (comments : List Draft) :
    (comments.foldl (fun file c => c.insertInto file) d).outline = d.outline := by
  induction comments generalizing d with
  | nil => rfl
  | cons c cs ih => rw [List.foldl_cons, ih, outline_insertInto]

end Comments

/-! ### Finished drafts -/

section Finish

variable (source : String)

theorem fst_finishAll_cons (d : Draft) (ds : List Draft) (next : Nat) :
    (finishAll source next (d :: ds)).1 =
      (finish source next d).1 :: (finishAll source (finish source next d).2 ds).1 := by
  rw [finishAll]

theorem snd_finishAll_cons (d : Draft) (ds : List Draft) (next : Nat) :
    (finishAll source next (d :: ds)).2 = (finishAll source (finish source next d).2 ds).2 := by
  rw [finishAll]

theorem children_finish (d : Draft) (next : Nat) :
    (finish source next d).1.children = (finishAll source (next + 1) d.children).1 := by
  cases d
  rw [finish]

mutual

/-- Finishing numbers the nodes in preorder. -/
theorem map_id_finish : ∀ (d : Draft) (next : Nat), ∃ count,
    (finish source next d).2 = next + count ∧
      (finish source next d).1.preorder.map Node.id = List.range' next count
  | ⟨kind, field, span, children⟩, next => by
    obtain ⟨count, hafter, hids⟩ := map_id_finishAll children (next + 1)
    refine ⟨count + 1, ?_, ?_⟩
    · rw [finish, hafter]
      omega
    · rw [finish, Node.preorder_eq, List.map_cons, hids, List.range'_succ]
      rfl

theorem map_id_finishAll : ∀ (ds : List Draft) (next : Nat), ∃ count,
    (finishAll source next ds).2 = next + count ∧
      (Node.preorderAll (finishAll source next ds).1).map Node.id = List.range' next count
  | [], next => ⟨0, by simp [finishAll]⟩
  | d :: ds, next => by
    obtain ⟨count, hafter, hids⟩ := map_id_finish d next
    obtain ⟨count', hafter', hids'⟩ := map_id_finishAll ds (next + count)
    refine ⟨count + count', ?_, ?_⟩
    · rw [snd_finishAll_cons, hafter, hafter', Nat.add_assoc]
    · rw [fst_finishAll_cons, hafter, Node.preorderAll_cons, List.map_append, hids, hids',
        List.range'_append_1]

end

theorem distinct_finish (d : Draft) (next : Nat) : (finish source next d).1.Distinct := by
  obtain ⟨count, -, hids⟩ := map_id_finish source d next
  rw [Node.Distinct, hids]
  exact List.nodup_range'

/-- A finished node encloses its children. -/
theorem encloses_finish (d : Draft) (next : Nat) :
    ∀ c ∈ (finish source next d).1.children, (finish source next d).1.encloses c = true := by
  cases d
  rw [finish]
  exact (Span.foldl_hull_contains Node.span _ _).2

mutual

/-- A tidy draft keeps its outline. -/
theorem outline_finish : ∀ (d : Draft) (next : Nat), d.Tidy →
    (finish source next d).1.outline = d.outline
  | ⟨kind, field, span, children⟩, next, h => by
    have houtlines := outline_finishAll children (next + 1) h.child
    have hcontains : ∀ n ∈ (finishAll source (next + 1) children).1,
        span.contains n.span = true := by
      intro n hn
      have ho : n.outline ∈ children.map outline := houtlines ▸ List.mem_map_of_mem hn
      obtain ⟨c, hc, hco⟩ := List.mem_map.1 ho
      have hspan : c.span = n.span := congrArg Outline.span hco
      rw [← hspan]
      exact h.contains c hc
    rw [finish]
    simp only [Node.outline, Node.kind, Node.field, Node.span, outline, Outline.mk.injEq, true_and]
    exact Span.foldl_hull_of_contains Node.span _ hcontains

theorem outline_finishAll : ∀ (ds : List Draft) (next : Nat), (∀ d ∈ ds, d.Tidy) →
    (finishAll source next ds).1.map Node.outline = ds.map outline
  | [], _, _ => by simp [finishAll]
  | d :: ds, next, h => by
    obtain ⟨hd, hds⟩ := List.forall_mem_cons.1 h
    rw [fst_finishAll_cons, List.map_cons, List.map_cons, outline_finish d next hd,
      outline_finishAll ds _ hds]

end

mutual

/-- Every node of a finished tidy draft comes from a tidy draft. -/
theorem mem_preorder_finish : ∀ (d : Draft) (next : Nat), d.Tidy →
    ∀ n ∈ (finish source next d).1.preorder, ∃ e next', e.Tidy ∧ n = (finish source next' e).1
  | ⟨kind, field, span, children⟩, next, h, n, hn => by
    obtain rfl | hn := Node.mem_preorder.1 hn
    · exact ⟨_, _, h, rfl⟩
    · rw [Node.inner, children_finish] at hn
      exact mem_preorderAll_finish children (next + 1) h.child n hn

theorem mem_preorderAll_finish : ∀ (ds : List Draft) (next : Nat), (∀ d ∈ ds, d.Tidy) →
    ∀ n ∈ Node.preorderAll (finishAll source next ds).1,
      ∃ e next', e.Tidy ∧ n = (finish source next' e).1
  | [], next, _, n, hn => by simp [finishAll] at hn
  | d :: ds, next, h, n, hn => by
    obtain ⟨hd, hds⟩ := List.forall_mem_cons.1 h
    rw [fst_finishAll_cons, Node.preorderAll_cons, List.mem_append] at hn
    obtain hn | hn := hn
    · exact mem_preorder_finish d next hd n hn
    · exact mem_preorderAll_finish ds _ hds n hn

end

theorem kind_finish (d : Draft) (next : Nat) : (finish source next d).1.kind = d.kind := by
  cases d
  rw [finish]
  rfl

theorem fits_finish {d : Draft} (h : Fits d.kind (d.children.map outline))
    (htidy : ∀ c ∈ d.children, c.Tidy) (next : Nat) :
    Fits (finish source next d).1.kind ((finish source next d).1.children.map Node.outline) := by
  rw [kind_finish, children_finish, outline_finishAll source _ _ htidy]
  exact h

/-- Below a finished file, every node has a sound outline. -/
theorem Rooted.sound_of_inner {d : Draft} (h : d.Rooted) (next : Nat) {n : Node}
    (hn : n ∈ (finish source next d).1.inner) : n.outline.Sound := by
  rw [Node.inner, children_finish] at hn
  obtain ⟨e, next', he, rfl⟩ := mem_preorderAll_finish source _ _ h.child n hn
  exact outline_finish source e next' he ▸ he.sound

/-- Every node of a finished file comes from a draft whose children fit. -/
theorem Rooted.mem_preorder {d : Draft} (h : d.Rooted) (hkind : d.kind = .sourceFile)
    (hfield : d.field = none) (next : Nat) {n : Node} (hn : n ∈ (finish source next d).1.preorder) :
    Fits n.kind (n.children.map Node.outline) ∧ (∀ c ∈ n.children, n.encloses c = true) ∧
      (n.kind.isName = true → n.start < n.stop) ∧ (∀ f, n.field = some f → f.allows n.kind = true) ∧
      (n.kind = .comment → n.field = none) := by
  obtain rfl | hn := Node.mem_preorder.1 hn
  · refine ⟨fits_finish source h.fits h.child next, encloses_finish source d next, ?_, ?_, ?_⟩
    · cases d
      rw [finish]
      rintro hk
      cases (congrArg Kind.isName hkind).symm.trans hk
    · cases d
      rw [finish]
      rintro f hf
      cases hfield.symm.trans hf
    · cases d
      rw [finish]
      exact fun _ => hfield
  · have hsound := h.sound_of_inner source next hn
    rw [Node.inner, children_finish] at hn
    obtain ⟨e, next', he, rfl⟩ := mem_preorderAll_finish source _ _ h.child n hn
    exact ⟨fits_finish source he.fits he.child next', encloses_finish source e next',
      hsound.nonempty, hsound.field, hsound.comment⟩

/-- A file is well-formed once it is finished. -/
theorem Rooted.wellFormed {d : Draft} (h : d.Rooted) (hkind : d.kind = .sourceFile)
    (hfield : d.field = none) (next : Nat) : (finish source next d).1.WellFormed where
  distinct := distinct_finish source d next
  nested n hn := (h.mem_preorder source hkind hfield next hn).2.1
  forward n hn := (h.sound_of_inner source next hn).forward
  nonempty n hn := (h.mem_preorder source hkind hfield next hn).2.2.1
  fields n hn := (h.mem_preorder source hkind hfield next hn).2.2.2.1
  comments n hn := (h.mem_preorder source hkind hfield next hn).2.2.2.2
  ordered n hn := by
    have hfits := (h.mem_preorder source hkind hfield next hn).1.ordered
    rw [withoutComments, List.filter_map, List.pairwise_map] at hfits
    exact hfits.sublist (List.monotone_filter_right _ fun c hc => by simp_all [Node.outline])
  leaves n hn hleaf c hc := by
    have hnone := (h.mem_preorder source hkind hfield next hn).1.leaf hleaf
    rw [withoutComments, List.filter_eq_nil_iff] at hnone
    exact Decidable.not_not.1 fun hk => hnone _ (List.mem_map_of_mem hc) (decide_eq_true (.inl hk))
  shaped n hn := by
    have hfits := (h.mem_preorder source hkind hfield next hn).1.shaped
    rwa [withoutComments, List.filter_map, List.map_map] at hfits
  opened n hn hk c hc hpart := by
    have hnode := h.mem_preorder source hkind hfield next hn
    exact hnode.1.start_lt_of_isPart hk hnode.2.1 hc hpart
  plain n hn hholds c hc := by
    have hplain := (h.mem_preorder source hkind hfield next hn).1.plain hholds
    by_cases hk : c.kind = .comment
    · simp [hk, Kind.isPlain, Kind.isStatement]
    · exact hplain c.outline (List.mem_filter.2 ⟨List.mem_map_of_mem hc, decide_eq_true (.inl hk)⟩)

end Finish

end Draft

end Handoff.Syntax
