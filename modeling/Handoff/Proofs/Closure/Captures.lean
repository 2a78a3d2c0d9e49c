import Handoff.Closure.Graph
import Handoff.Proofs.Syntax.Tree

/-!
# Captures are free variables

The graph computes captures unit by unit: a unit's own uses, and what the units directly inside it
capture. Over a well-formed tree this gives exactly the variables from outside that are used
anywhere in the function, at any depth: a variable passes every function on the way up and is
dropped where its declaration lies inside.

## Main definitions

* `Resolution.UsedIn`: some identifier among the nodes stands for the binding.
* `Resolution.FreeIn`: a variable from outside a function that is used in it.
-/

namespace Handoff

open Syntax Node

namespace Resolution

def UsedIn (r : Resolution) (i : Nat) (nodes : List Node) : Prop :=
  ∃ n ∈ nodes, n.kind = .identifier ∧ r.useOf n = some i

/-- A variable, not of the package, that is declared outside a function and used in it. -/
def FreeIn (r : Resolution) (i : Nat) (function : Node) : Prop :=
  ∃ b, r.bindings[i]? = some b ∧ b.kind.isPackageLevel = false ∧
    function.encloses b.decl = false ∧ r.UsedIn i function.preorder

theorem UsedIn.mono {r : Resolution} {i : Nat} {ns ms : List Node} (h : r.UsedIn i ns)
    (hsub : ns ⊆ ms) : r.UsedIn i ms := by
  obtain ⟨n, hn, hu⟩ := h
  exact ⟨n, hsub hn, hu⟩

end Resolution

namespace FunctionUnit

open Resolution

variable {r : Resolution} {i next : Nat} {parent : Option Nat} {n m c : Node} {cs : List Node}
  {u : FunctionUnit}

theorem isCaptured_iff :
    isCaptured r n i = true ↔ ∃ b, r.bindings[i]? = some b ∧ b.kind.isPackageLevel = false ∧
      n.encloses b.decl = false := by
  unfold isCaptured
  split
  next b hb => simp [hb]
  next hb => simp [hb]

theorem freeIn_iff :
    r.FreeIn i n ↔ isCaptured r n i = true ∧ r.UsedIn i n.preorder := by
  simp only [FreeIn, isCaptured_iff, exists_and_right, ← and_assoc]

/-- What comes from outside a node comes from outside the nodes in it. -/
theorem isCaptured_of_encloses (h : isCaptured r n i = true) (hm : n.encloses m = true) :
    isCaptured r m i = true := by
  obtain ⟨b, hb, hk, hd⟩ := isCaptured_iff.1 h
  refine isCaptured_iff.2 ⟨b, hb, hk, ?_⟩
  cases hin : m.encloses b.decl with
  | false => rfl
  | true =>
    have : n.encloses b.decl = true := Span.contains_trans hm hin
    simp [this] at hd

theorem collect_of_isFunction (h : n.kind.isFunction = true) :
    collect r parent next n =
      ofFunction r parent next n (collectAll r (some next) (next + 1) n.children) ::
        collectAll r (some next) (next + 1) n.children := by
  cases n
  rw [collect]
  exact if_pos h

theorem collect_of_not_isFunction (h : ¬ n.kind.isFunction = true) :
    collect r parent next n = collectAll r parent next n.children := by
  cases n
  rw [collect]
  exact if_neg h

/-- The units of a child stand among those of all children, at a later position. -/
theorem collect_subset_collectAll (r : Resolution) (parent : Option Nat) (next : Nat)
    (hc : c ∈ cs) : ∃ next', collect r parent next' c ⊆ collectAll r parent next cs := by
  induction cs generalizing next with
  | nil => simp at hc
  | cons k cs ih =>
    obtain rfl | hc := List.mem_cons.1 hc
    · exact ⟨next, by rw [collectAll]; exact List.subset_append_left ..⟩
    · obtain ⟨next', h⟩ := ih _ hc
      exact ⟨next', by rw [collectAll]; exact List.subset_append_of_subset_right _ h⟩

theorem mem_collectAll (h : u ∈ collectAll r parent next cs) :
    ∃ c ∈ cs, ∃ next', u ∈ collect r parent next' c := by
  induction cs generalizing next with
  | nil => simp [collectAll] at h
  | cons k cs ih =>
    rw [collectAll] at h
    obtain h | h := List.mem_append.1 h
    · exact ⟨k, List.mem_cons_self .., next, h⟩
    · obtain ⟨c, hc, next', h⟩ := ih h
      exact ⟨c, List.mem_cons_of_mem _ hc, next', h⟩

/-- The units are the functions, in preorder. -/
theorem collect_map_function (n : Node) (parent : Option Nat) (next : Nat) :
    (collect r parent next n).map function = n.preorder.filter (·.kind.isFunction) := by
  induction n using childrenInduction generalizing parent next with
  | step n ih =>
    have forest : ∀ cs ⊆ n.children, ∀ parent next,
        (collectAll r parent next cs).map function =
          (preorderAll cs).filter (·.kind.isFunction) := by
      intro cs hcs
      induction cs with
      | nil => simp [collectAll]
      | cons c cs ihcs =>
        intro parent next
        obtain ⟨hc, hcs⟩ := List.cons_subset.1 hcs
        rw [collectAll, List.map_append, ih c hc, ihcs hcs, preorderAll_cons, List.filter_append]
    have all := forest n.children (List.Subset.refl _)
    rw [preorder_eq, List.filter_cons]
    by_cases h : n.kind.isFunction = true
    · rw [collect_of_isFunction h, List.map_cons, all, if_pos h]
      rfl
    · rw [collect_of_not_isFunction h, all, if_neg h]

theorem function_mem (h : u ∈ collect r parent next n) :
    u.function ∈ n.preorder ∧ u.function.kind.isFunction = true := by
  have := List.mem_map_of_mem (f := function) h
  rw [collect_map_function] at this
  exact List.mem_filter.1 this

theorem mem_ownIdentifiersAll :
    m ∈ ownIdentifiersAll cs ↔ ∃ c ∈ cs, c.isPart = true ∧ m ∈ ownIdentifiers c := by
  induction cs with
  | nil => simp [ownIdentifiersAll]
  | cons c cs ih =>
    rw [ownIdentifiersAll, List.mem_append, ih]
    by_cases h : c.isPart = true <;> simp [h]

theorem ownIdentifiers_eq (n : Node) :
    ownIdentifiers n =
      if n.kind.isFunction then []
      else if n.kind = .identifier then n :: ownIdentifiersAll n.children
      else ownIdentifiersAll n.children := by
  cases n
  rw [ownIdentifiers]
  rfl

theorem mem_ownIdentifiers (h : m ∈ ownIdentifiers n) :
    m ∈ n.preorder ∧ m.kind = .identifier := by
  induction n using childrenInduction with
  | step n ih =>
    have forest : m ∈ ownIdentifiersAll n.children → m ∈ n.preorder ∧ m.kind = .identifier := by
      intro h
      obtain ⟨c, hc, _, h⟩ := mem_ownIdentifiersAll.1 h
      obtain ⟨hm, hk⟩ := ih c hc h
      exact ⟨preorder_of_inner (mem_inner.2 ⟨c, hc, hm⟩), hk⟩
    rw [ownIdentifiers_eq] at h
    split at h
    · simp at h
    · split at h
      next hk =>
        obtain rfl | h := List.mem_cons.1 h
        · exact ⟨self_mem_preorder _, hk⟩
        · exact forest h
      next => exact forest h

/-- A use in a well-formed tree is one of the tree's own or lies in one of its outermost units. -/
theorem used_cases (wf : n.WellFormed) (parent : Option Nat) (next : Nat)
    (h : r.UsedIn i n.preorder) :
    (n.isPart = true ∧ ∃ m ∈ ownIdentifiers n, r.useOf m = some i) ∨
      ∃ u ∈ collect r parent next n, u.parent = parent ∧ r.UsedIn i u.function.preorder := by
  induction n using childrenInduction generalizing next with
  | step n ih =>
    by_cases hf : n.kind.isFunction = true
    · rw [collect_of_isFunction hf]
      exact .inr ⟨_, List.mem_cons_self .., rfl, h⟩
    · obtain ⟨m, hm, hk, hu⟩ := h
      obtain rfl | hm := mem_preorder.1 hm
      · refine .inl ⟨by simp [isPart, hk, Kind.isNamed], m, ?_, hu⟩
        rw [ownIdentifiers_eq, if_neg hf, if_pos hk]
        exact List.mem_cons_self ..
      · -- below a token, a comment or an identifier there is no identifier
        have hleaf : ¬ n.kind.isLeaf = true := fun hleaf => by
          simp [wf.comment_of_inner hleaf hm] at hk
        have hpart : n.isPart = true := isPart_of_not_isLeaf hleaf
        have hid : ¬ n.kind = .identifier := fun h => hleaf (by simp [h, Kind.isLeaf])
        obtain ⟨c, hc, hm⟩ := mem_inner.1 hm
        obtain ⟨next', hsub⟩ := collect_subset_collectAll r parent next hc
        obtain ⟨hcp, k, hown, hk⟩ | ⟨u, hu, hp, hused⟩ :=
          ih c hc (wf.child hc) next' ⟨m, hm, hk, hu⟩
        · refine .inl ⟨hpart, k, ?_, hk⟩
          rw [ownIdentifiers_eq, if_neg hf, if_neg hid]
          exact mem_ownIdentifiersAll.2 ⟨c, hc, hcp, hown⟩
        · rw [collect_of_not_isFunction hf]
          exact .inr ⟨u, hsub hu, hp, hused⟩

theorem mem_captures_ofFunction {below : List FunctionUnit} :
    i ∈ (ofFunction r parent next n below).captures ↔
      isCaptured r n i = true ∧
        ((∃ m ∈ ownIdentifiersAll n.children, r.useOf m = some i) ∨
          ∃ u ∈ below, u.parent = some next ∧ i ∈ u.captures) := by
  simp only [ofFunction, ownUses, List.mem_eraseDups, List.mem_filter, List.mem_append,
    List.mem_filterMap, List.mem_flatMap, beq_iff_eq, and_comm, and_left_comm]

/-- The captures of a unit are its free variables. -/
theorem mem_captures (wf : n.WellFormed) (hu : u ∈ collect r parent next n) :
    i ∈ u.captures ↔ r.FreeIn i u.function := by
  induction n using childrenInduction generalizing parent next u with
  | step n ih =>
    -- units below the node, by the induction hypothesis
    have forest : ∀ {parent next u}, u ∈ collectAll r parent next n.children →
        (i ∈ u.captures ↔ r.FreeIn i u.function) := by
      intro parent next u hu
      obtain ⟨c, hc, next', hu⟩ := mem_collectAll hu
      exact ih c hc (wf.child hc) hu
    by_cases hf : n.kind.isFunction = true
    · rw [collect_of_isFunction hf] at hu
      obtain rfl | hu := List.mem_cons.1 hu
      · rw [mem_captures_ofFunction, freeIn_iff]
        refine and_congr_right fun hcap => ⟨?_, fun h => ?_⟩
        · rintro (⟨m, hm, hu⟩ | ⟨v, hv, _, hi⟩)
          · obtain ⟨c, hc, _, hm⟩ := mem_ownIdentifiersAll.1 hm
            obtain ⟨hm, hk⟩ := mem_ownIdentifiers hm
            exact ⟨m, preorder_of_inner (mem_inner.2 ⟨c, hc, hm⟩), hk, hu⟩
          · obtain ⟨c, hc, next', hv'⟩ := mem_collectAll hv
            have hin : v.function ∈ n.inner := mem_inner.2 ⟨c, hc, (function_mem hv').1⟩
            exact (freeIn_iff.1 ((forest hv).1 hi)).2.mono fun m hm =>
              preorder_of_inner (inner_of_preorder hin hm)
        · obtain ⟨m, hm, hk, hu⟩ := h
          obtain rfl | hm := mem_preorder.1 hm
          · simp [hk, Kind.isFunction] at hf
          obtain ⟨c, hc, hm⟩ := mem_inner.1 hm
          obtain ⟨next', hsub⟩ := collect_subset_collectAll r (some next) (next + 1) hc
          -- a use below is one of the function's own or stands in a nested function, which then
          -- captures it too
          obtain ⟨hcp, k, hown, hk⟩ | ⟨v, hv, hp, hused⟩ :=
            used_cases (wf.child hc) (some next) next' ⟨m, hm, hk, hu⟩
          · exact .inl ⟨k, mem_ownIdentifiersAll.2 ⟨c, hc, hcp, hown⟩, hk⟩
          · have hin : v.function ∈ n.inner := mem_inner.2 ⟨c, hc, (function_mem hv).1⟩
            have henc := wf.encloses (preorder_of_inner hin)
            refine .inr ⟨v, hsub hv, hp, (forest (hsub hv)).2 ?_⟩
            exact freeIn_iff.2 ⟨isCaptured_of_encloses hcap henc, hused⟩
      · exact forest hu
    · rw [collect_of_not_isFunction hf] at hu
      exact forest hu

/-- A list without its duplicates has none. -/
theorem nodup_eraseDups (l : List Nat) : l.eraseDups.Nodup := by
  induction h : l.length using Nat.strongRecOn generalizing l with
  | ind n ih =>
    cases l with
    | nil => simp
    | cons a l =>
      have hlt : (l.filter fun b => !b == a).length < n := by
        have := List.length_filter_le (fun b => !b == a) l
        simp only [List.length_cons] at h
        omega
      rw [List.eraseDups_cons, List.nodup_cons, List.mem_eraseDups]
      exact ⟨by simp, ih _ hlt _ rfl⟩

theorem nodup_captures (hu : u ∈ collect r parent next n) : u.captures.Nodup := by
  induction n using childrenInduction generalizing parent next u with
  | step n ih =>
    have forest : ∀ {parent next u}, u ∈ collectAll r parent next n.children →
        u.captures.Nodup := by
      intro parent next u hu
      obtain ⟨c, hc, next', hu⟩ := mem_collectAll hu
      exact ih c hc hu
    by_cases hf : n.kind.isFunction = true
    · rw [collect_of_isFunction hf] at hu
      obtain rfl | hu := List.mem_cons.1 hu
      · exact nodup_eraseDups _
      · exact forest hu
    · rw [collect_of_not_isFunction hf] at hu
      exact forest hu

theorem drop_suffix_of_append {all after : List FunctionUnit} (before : List FunctionUnit)
    (h : before ++ after <+: all.drop next) : after <+: all.drop (next + before.length) := by
  obtain ⟨rest, h⟩ := h
  exact ⟨rest, by rw [← List.drop_drop, ← h]; simp⟩

/-- Among the units `all`, the position `parent` is that of the innermost function in `above`. -/
def Points (all : List FunctionUnit) (parent : Option Nat) (above : List Node) : Prop :=
  (parent.map fun p => all[p]?.map function) = (above.find? (·.kind.isFunction)).map some

/-- When the units of a node stand at their positions in a list, their parents point to the
innermost functions around them. -/
theorem points_parent {root : Node} {all : List FunctionUnit} (distinct : root.Distinct)
    (hn : n ∈ root.preorder) (hall : collect r parent next n <+: all.drop next)
    (hp : Points all parent (root.ancestors n)) (hu : u ∈ collect r parent next n) :
    Points all u.parent (root.ancestors u.function) := by
  induction n using childrenInduction generalizing parent next u with
  | step n ih =>
    -- the units of the children follow one another in `all`
    have forest : ∀ cs ⊆ n.children, ∀ {parent next u},
        collectAll r parent next cs <+: all.drop next → Points all parent (n :: root.ancestors n) →
        u ∈ collectAll r parent next cs → Points all u.parent (root.ancestors u.function) := by
      intro cs hcs
      induction cs with
      | nil => simp [collectAll]
      | cons c cs ihcs =>
        intro parent next u hall hp hu
        obtain ⟨hc, hcs⟩ := List.cons_subset.1 hcs
        rw [collectAll] at hall hu
        obtain hu | hu := List.mem_append.1 hu
        · refine ih c hc (preorder_trans hn (child_mem_preorder hc))
            ((List.prefix_append ..).trans hall) ?_ hu
          rw [distinct.ancestors_child hn hc]
          exact hp
        · exact ihcs hcs (drop_suffix_of_append _ hall) hp hu
    by_cases hf : n.kind.isFunction = true
    · rw [collect_of_isFunction hf] at hall hu
      obtain rfl | hu := List.mem_cons.1 hu
      · exact hp
      · refine forest n.children (List.Subset.refl _) (drop_suffix_of_append [_] hall) ?_ hu
        have hself : all[next]?.map function = some n := by
          obtain ⟨rest, hall⟩ := hall
          rw [← List.head?_drop, ← hall]
          rfl
        simp [Points, hf, hself]
    · rw [collect_of_not_isFunction hf] at hall hu
      refine forest n.children (List.Subset.refl _) hall ?_ hu
      simpa [Points, hf] using hp

end FunctionUnit

end Handoff
