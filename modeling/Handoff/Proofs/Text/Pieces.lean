import Handoff.Text.Blank
import Handoff.Text.Split
import Mathlib.Data.List.Forall2
import Mathlib.Data.List.Induction

/-!
# Pieces of a text and the blanks around them

A separator between two texts separates their pieces, and no piece has a separator in it. Much of
what is read from a text does not depend on blanks at its ends. If that is so for each piece, then
it is so for the whole, as long as the separator is no blank.

## Main definitions

* `Text.Blind`: a reading of texts that does not depend on blanks at their ends.

## Main statements

* `Text.pieces_append`: a separator separates the pieces of what is before and after it.
* `Text.Blind.pieces`: reading pieces keeps a reading blind.
* `Text.Blind.trim_eq`: a blind reading may trim first.
-/

namespace Handoff.Text

variable {separator c : Char} {cs ds piece : List Char} {β : Type} {read : List Char → β}

/-! ### Pieces -/

theorem exists_pieces (separator : Char) (cs : List Char) :
    ∃ first rest, pieces separator cs = first :: rest :=
  List.exists_cons_of_ne_nil (pieces_ne_nil separator cs)

theorem pieces_cons_of_ne {first : List Char} {rest : List (List Char)} (hc : c ≠ separator)
    (h : pieces separator cs = first :: rest) : pieces separator (c :: cs) =
      (c :: first) :: rest := by
  rw [pieces, if_neg hc, h]

theorem pieces_append (separator : Char) (cs ds : List Char) :
    pieces separator (cs ++ separator :: ds) = pieces separator cs ++ pieces separator ds := by
  induction cs with
  | nil => simp [pieces]
  | cons c cs ih =>
    by_cases hc : c = separator
    · simp [pieces, hc, ih]
    · obtain ⟨first, rest, hpieces⟩ := exists_pieces separator cs
      rw [hpieces] at ih
      rw [List.cons_append, pieces_cons_of_ne hc ih, pieces_cons_of_ne hc hpieces]
      rfl

theorem pieces_of_not_mem (h : separator ∉ cs) : pieces separator cs = [cs] := by
  induction cs with
  | nil => rfl
  | cons c cs ih =>
    rw [List.mem_cons, not_or] at h
    exact pieces_cons_of_ne (Ne.symm h.1) (ih h.2)

/-- A piece has no separator in it, and what is in it is in the text. -/
theorem of_mem_pieces (h : piece ∈ pieces separator cs) : separator ∉ piece ∧ piece ⊆ cs := by
  induction cs generalizing piece with
  | nil =>
    obtain rfl := List.mem_singleton.1 h
    simp
  | cons c cs ih =>
    by_cases hc : c = separator
    · rw [pieces, if_pos hc] at h
      obtain rfl | h := List.mem_cons.1 h
      · simp
      · exact ⟨(ih h).1, List.subset_cons_of_subset c (ih h).2⟩
    · obtain ⟨first, rest, hpieces⟩ := exists_pieces separator cs
      rw [pieces_cons_of_ne hc hpieces] at h
      rw [hpieces] at ih
      obtain rfl | h := List.mem_cons.1 h
      · obtain ⟨hfirst, hsub⟩ := ih List.mem_cons_self
        exact ⟨by simp [hfirst, Ne.symm hc], List.cons_subset_cons c hsub⟩
      · obtain ⟨hpiece, hsub⟩ := ih (List.mem_cons_of_mem first h)
        exact ⟨hpiece, List.subset_cons_of_subset c hsub⟩

/-- A character before the text goes to the first piece. -/
theorem forall₂_pieces_cons (hc : c ≠ separator) (cs : List Char) :
    List.Forall₂ (fun longer piece => longer = piece ∨ longer = c :: piece)
      (pieces separator (c :: cs)) (pieces separator cs) := by
  obtain ⟨first, rest, hpieces⟩ := exists_pieces separator cs
  rw [pieces_cons_of_ne hc hpieces, hpieces]
  exact .cons (.inr rfl) (List.forall₂_same.2 fun _ _ => .inl rfl)

/-- A character after the text goes to the last piece. -/
theorem forall₂_pieces_concat (hc : c ≠ separator) (cs : List Char) :
    List.Forall₂ (fun longer piece => longer = piece ∨ longer = piece ++ [c])
      (pieces separator (cs ++ [c])) (pieces separator cs) := by
  induction cs with
  | nil => simp [pieces, hc]
  | cons d cs ih =>
    by_cases hd : d = separator
    · rw [List.cons_append, pieces, pieces, if_pos hd, if_pos hd]
      exact .cons (.inl rfl) ih
    · obtain ⟨first, rest, hpieces⟩ := exists_pieces separator cs
      obtain ⟨longer, rest', hpieces'⟩ := exists_pieces separator (cs ++ [c])
      rw [hpieces, hpieces', List.forall₂_cons] at ih
      rw [List.cons_append, pieces_cons_of_ne hd hpieces, pieces_cons_of_ne hd hpieces']
      refine .cons (ih.1.imp ?_ ?_) ih.2
      · exact fun h => by rw [h]
      · exact fun h => by rw [h, List.cons_append]

/-! ### Blanks at the ends -/

/-- A reading of texts that does not depend on blanks at their ends. -/
structure Blind (read : List Char → β) : Prop where
  cons {c : Char} (cs : List Char) : isBlank c = true → read (c :: cs) = read cs
  concat {c : Char} (cs : List Char) : isBlank c = true → read (cs ++ [c]) = read cs

theorem trimRight_concat (cs : List Char) (c : Char) :
    trimRight (cs ++ [c]) = if isBlank c then trimRight cs else cs ++ [c] := by
  unfold trimRight
  rw [List.reverse_append, List.reverse_singleton, List.singleton_append, List.dropWhile_cons]
  split <;> simp

theorem trimLeft_cons (c : Char) (cs : List Char) :
    trimLeft (c :: cs) = if isBlank c then trimLeft cs else c :: cs :=
  List.dropWhile_cons

/-- Blanks at the end stay there until everything before them is gone. -/
theorem trimLeft_concat (cs : List Char) (c : Char) :
    trimLeft (cs ++ [c]) = if (trimLeft cs).isEmpty then trimLeft [c] else trimLeft cs ++ [c] := by
  induction cs with
  | nil => rfl
  | cons d cs ih =>
    rw [List.cons_append, trimLeft_cons, trimLeft_cons]
    split
    · exact ih
    · rfl

theorem blind_trim : Blind trim where
  cons cs hc := by rw [trim, trimLeft_cons, if_pos hc, trim]
  concat {c} cs hc := by
    unfold trim
    rw [trimLeft_concat]
    split
    next hempty => rw [List.isEmpty_iff.1 hempty, trimLeft_cons, if_pos hc, trimLeft_nil]
    next => rw [trimRight_concat, if_pos hc]

namespace Blind

theorem trimLeft_eq (h : Blind read) (cs : List Char) : read (trimLeft cs) = read cs := by
  induction cs with
  | nil => rfl
  | cons c cs ih =>
    rw [trimLeft_cons]
    split
    next hc => rw [ih, h.cons cs hc]
    next => rfl

theorem trimRight_eq (h : Blind read) (cs : List Char) : read (trimRight cs) = read cs := by
  induction cs using List.reverseRecOn with
  | nil => rfl
  | append_singleton cs c ih =>
    rw [trimRight_concat]
    split
    next hc => rw [ih, h.concat cs hc]
    next => rfl

/-- A blind reading may trim first. -/
theorem trim_eq (h : Blind read) (cs : List Char) : read (trim cs) = read cs := by
  rw [trim, h.trimRight_eq, h.trimLeft_eq]

/-- Reading each piece is blind if reading one is, and if the separator is no blank. -/
theorem pieces (h : Blind read) (hseparator : isBlank separator = false) :
    Blind fun cs => (pieces separator cs).map read := by
  have hne : ∀ {c}, isBlank c = true → c ≠ separator := by
    rintro c hc rfl
    rw [hc] at hseparator
    cases hseparator
  have hmap : ∀ {xs ys : List (List Char)}, List.Forall₂ (fun x y => read x = read y) xs ys →
      xs.map read = ys.map read := by
    intro xs ys hall
    rwa [← List.forall₂_eq_eq_eq, List.forall₂_map_left_iff, List.forall₂_map_right_iff]
  refine ⟨fun cs hc => hmap ?_, fun cs hc => hmap ?_⟩
  · refine (forall₂_pieces_cons (hne hc) cs).imp fun longer piece hlonger => ?_
    obtain rfl | rfl := hlonger
    · rfl
    · exact h.cons piece hc
  · refine (forall₂_pieces_concat (hne hc) cs).imp fun longer piece hlonger => ?_
    obtain rfl | rfl := hlonger
    · rfl
    · exact h.concat piece hc

end Blind

end Handoff.Text
