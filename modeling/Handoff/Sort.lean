/-!
# Stable sorting

Sorting by insertion: elements that compare as equal keep their order. Membership and length do not
change, and a sorted list stays sorted when elements are left out, so leaving out may come before or
after.
-/

namespace Handoff

variable {α : Type}

/-- Inserts before the first element that is not smaller. -/
def insertSorted (le : α → α → Bool) (x : α) : List α → List α
  | [] => [x]
  | y :: ys => if le x y then x :: y :: ys else y :: insertSorted le x ys

/-- The list in the order of `le`; what is equal in it keeps its order. -/
def sorted (le : α → α → Bool) (xs : List α) : List α :=
  xs.foldr (insertSorted le) []

@[simp]
theorem mem_insertSorted {le : α → α → Bool} {x a : α} {ys : List α} :
    a ∈ insertSorted le x ys ↔ a = x ∨ a ∈ ys := by
  induction ys with
  | nil => simp [insertSorted]
  | cons y ys ih =>
    rw [insertSorted]
    split
    · simp
    · simp [ih, or_left_comm]

@[simp]
theorem mem_sorted {le : α → α → Bool} {a : α} {xs : List α} : a ∈ sorted le xs ↔ a ∈ xs := by
  induction xs with
  | nil => simp [sorted]
  | cons x xs ih =>
    rw [sorted, List.foldr_cons, mem_insertSorted, ← sorted, ih, List.mem_cons]

@[simp]
theorem length_insertSorted (le : α → α → Bool) (x : α) (ys : List α) :
    (insertSorted le x ys).length = ys.length + 1 := by
  induction ys with
  | nil => rfl
  | cons y ys ih =>
    rw [insertSorted]
    split <;> simp [ih]

@[simp]
theorem length_sorted (le : α → α → Bool) (xs : List α) : (sorted le xs).length = xs.length := by
  induction xs with
  | nil => rfl
  | cons x xs ih =>
    rw [sorted, List.foldr_cons, length_insertSorted, ← sorted, ih, List.length_cons]

@[simp]
theorem sorted_cons (le : α → α → Bool) (x : α) (xs : List α) :
    sorted le (x :: xs) = insertSorted le x (sorted le xs) :=
  rfl

theorem insertSorted_perm (le : α → α → Bool) (x : α) (ys : List α) :
    (insertSorted le x ys).Perm (x :: ys) := by
  induction ys with
  | nil => exact .refl _
  | cons y ys ih =>
    rw [insertSorted]
    split
    · exact .refl _
    · exact (ih.cons y).trans (.swap x y ys)

theorem sorted_perm (le : α → α → Bool) (xs : List α) : (sorted le xs).Perm xs := by
  induction xs with
  | nil => exact .refl _
  | cons x xs ih => exact (insertSorted_perm le x _).trans (ih.cons x)

theorem sublist_insertSorted (le : α → α → Bool) (x : α) (ys : List α) :
    ys.Sublist (insertSorted le x ys) := by
  induction ys with
  | nil => exact List.nil_sublist _
  | cons y ys ih =>
    rw [insertSorted]
    split
    · exact List.sublist_cons_self ..
    · exact ih.cons_cons y

theorem insertSorted_of_le {le : α → α → Bool} {x : α} {ys : List α}
    (h : ∀ y ∈ ys, le x y = true) : insertSorted le x ys = x :: ys := by
  cases ys with
  | nil => rfl
  | cons y ys => simp [insertSorted, h y]

section Order

variable {le : α → α → Bool} (total : ∀ a b, le a b = true ∨ le b a = true)
  (trans : ∀ a b c, le a b = true → le b c = true → le a c = true)

include total trans

theorem insertSorted_stable {R : α → α → Prop} {x : α} {ys : List α} (hx : ∀ y ∈ ys, R x y)
    (h : ys.Pairwise fun a b => le a b = true ∧ (le b a = true → R a b)) :
    (insertSorted le x ys).Pairwise fun a b => le a b = true ∧ (le b a = true → R a b) := by
  induction ys with
  | nil => simp [insertSorted]
  | cons y ys ih =>
    obtain ⟨hy, hys⟩ := List.pairwise_cons.1 h
    rw [insertSorted]
    split
    next hle =>
      refine List.pairwise_cons.2 ⟨fun z hz => ⟨?_, fun _ => hx z hz⟩, h⟩
      obtain rfl | hz := List.mem_cons.1 hz
      · exact hle
      · exact trans _ _ _ hle (hy z hz).1
    next hle =>
      refine List.pairwise_cons.2
        ⟨fun z hz => ?_, ih (fun z hz => hx z (List.mem_cons_of_mem _ hz)) hys⟩
      obtain rfl | hz := mem_insertSorted.1 hz
      · exact ⟨(total _ _).resolve_left hle, fun h => absurd h hle⟩
      · exact hy z hz

/-- Elements that compare as equal keep their order. -/
theorem sorted_stable {R : α → α → Prop} {xs : List α} (h : xs.Pairwise R) :
    (sorted le xs).Pairwise fun a b => le a b = true ∧ (le b a = true → R a b) := by
  induction xs with
  | nil => exact .nil
  | cons x xs ih =>
    obtain ⟨hx, hxs⟩ := List.pairwise_cons.1 h
    exact insertSorted_stable total trans (fun y hy => hx y (mem_sorted.1 hy)) (ih hxs)

theorem sorted_pairwise (xs : List α) : (sorted le xs).Pairwise (le · ·) := by
  have hany : xs.Pairwise fun _ _ => True := List.pairwise_of_forall fun _ _ => trivial
  exact (sorted_stable total trans hany).imp And.left

omit total in
/-- The smaller elements of a sorted list come before what is inserted, the others after it. -/
theorem insertSorted_eq {x : α} {ys : List α} (h : ys.Pairwise (le · ·)) :
    insertSorted le x ys = ys.filter (fun y => !le x y) ++ x :: ys.filter (le x ·) := by
  induction ys with
  | nil => rfl
  | cons y ys ih =>
    obtain ⟨hy, hys⟩ := List.pairwise_cons.1 h
    rw [insertSorted]
    split
    next hle =>
      have hall : ∀ z ∈ y :: ys, le x z = true := by
        intro z hz
        obtain rfl | hz := List.mem_cons.1 hz
        · exact hle
        · exact trans _ _ _ hle (hy z hz)
      rw [List.filter_eq_self.2 hall, List.filter_eq_nil_iff.2 fun z hz => by simp [hall z hz]]
      rfl
    next hle => simp [hle, ih hys]

theorem sorted_sublist {xs ys : List α} (h : xs.Sublist ys) :
    (sorted le xs).Sublist (sorted le ys) := by
  induction h with
  | slnil => exact .slnil
  | @cons xs ys y _ ih => exact ih.trans (sublist_insertSorted le y _)
  | @cons_cons xs ys x _ ih =>
    rw [sorted_cons, sorted_cons, insertSorted_eq trans (sorted_pairwise total trans xs),
      insertSorted_eq trans (sorted_pairwise total trans ys)]
    exact (ih.filter _).append ((ih.filter _).cons_cons x)

omit total in
theorem filter_insertSorted {p : α → Bool} {x : α} {ys : List α} (h : ys.Pairwise (le · ·)) :
    (insertSorted le x ys).filter p =
      if p x then insertSorted le x (ys.filter p) else ys.filter p := by
  induction ys with
  | nil => simp [insertSorted]; split <;> simp_all
  | cons y ys ih =>
    obtain ⟨hy, hys⟩ := List.pairwise_cons.1 h
    by_cases hx : le x y = true
    · have hle : ∀ z ∈ (y :: ys).filter p, le x z = true := by
        intro z hz
        obtain rfl | hz := List.mem_cons.1 (List.mem_filter.1 hz).1
        · exact hx
        · exact trans _ _ _ hx (hy z hz)
      rw [insertSorted, if_pos hx, List.filter_cons, insertSorted_of_le hle]
    · rw [insertSorted, if_neg hx, List.filter_cons, ih hys, List.filter_cons]
      by_cases hp : p x = true <;> by_cases hq : p y = true <;> simp [hp, hq, insertSorted, hx]

theorem filter_sorted (p : α → Bool) (xs : List α) :
    (sorted le xs).filter p = sorted le (xs.filter p) := by
  induction xs with
  | nil => rfl
  | cons x xs ih =>
    have hxs := sorted_pairwise total trans xs
    rw [sorted, List.foldr_cons, ← sorted, filter_insertSorted trans hxs, ih, List.filter_cons]
    split <;> rfl

end Order

end Handoff
