import Handoff.Text.Pattern
import Mathlib.Data.List.Basic

/-!
# Matching by preference

What a pattern matches is read from left to right: the first way of a sequence that goes on well is
the first way of its first part such that some way of the second part goes on well. A class of
characters is in general tried at each length, longest first. Where what follows cannot start with a
character of the class, only the longest counts.

## Main definitions

* `Pattern.first`: the first way to match that goes on well.

## Main statements

* `Pattern.first_seq`, `Pattern.first_optional`, `Pattern.first_group`: how to go on in a composed
  pattern.
* `Pattern.first_many`, `Pattern.first_several`: characters of a class that cannot follow are all
  taken.
-/

namespace Handoff.Text

variable {β : Type} {text cs rest : List Char} {among : Char → Bool}

theorem afterText_eq_some_iff : afterText text cs = some rest ↔ cs = text ++ rest := by
  fun_induction afterText text cs with
  | case1 cs => simp
  | case2 w ws => simp
  | case3 ws c cs ih => simpa using ih
  | case4 w ws c cs hne => simp [Ne.symm hne]

theorem afterText_append (text more cs : List Char) :
    afterText (text ++ more) cs = (afterText text cs).bind (afterText more) := by
  fun_induction afterText text cs with
  | case1 cs => rfl
  | case2 w ws => rfl
  | case3 ws c cs ih => simpa [afterText] using ih
  | case4 w ws c cs hne => simp [afterText, hne]

namespace Pattern

variable {p q : Pattern} {go : Way → Option β}

/-- The first way to match the start of a text that goes on well. -/
def first (p : Pattern) (cs : List Char) (go : Way → Option β) : Option β :=
  (p.ways cs).findSome? go

theorem captures_eq (p : Pattern) (cs : List Char) :
    p.captures cs = p.first cs fun w => if w.rest.isEmpty then some w.group else none := by
  unfold captures first
  induction p.ways cs with
  | nil => rfl
  | cons w ws ih =>
    rw [List.find?_cons, List.findSome?_cons]
    cases w.rest.isEmpty
    · exact ih
    · rfl

theorem first_word (text : String) (cs : List Char) (go : Way → Option β) :
    (word text).first cs go = (afterText text.toList cs).bind fun rest => go ⟨none, rest⟩ := by
  rw [first, ways]
  cases afterText text.toList cs with
  | none => rfl
  | some rest => simp

theorem first_one (among : Char → Bool) (cs : List Char) (go : Way → Option β) :
    (one among).first cs go = if cs.head?.any among then go ⟨none, cs.tail⟩ else none := by
  unfold first
  cases cs with
  | nil => rfl
  | cons c cs => cases hc : among c <;> simp [ways, hc]

theorem first_seq (p q : Pattern) (cs : List Char) (go : Way → Option β) :
    (seq p q).first cs go = p.first cs fun w => q.first w.rest fun v =>
      go ⟨v.group.or w.group, v.rest⟩ := by
  simp only [first, ways]
  induction p.ways cs with
  | nil => rfl
  | cons w ws ih =>
    rw [List.flatMap_cons, List.findSome?_append, ih, List.findSome?_cons, List.findSome?_map,
      Function.comp_def]
    cases (q.ways w.rest).findSome? fun v => go ⟨v.group.or w.group, v.rest⟩ <;> rfl

theorem first_optional (p : Pattern) (cs : List Char) (go : Way → Option β) :
    (optional p).first cs go = (p.first cs go).or (go ⟨none, cs⟩) := by
  have hself : [(⟨none, cs⟩ : Way)].findSome? go = go ⟨none, cs⟩ := by
    rw [List.findSome?_cons]
    cases go ⟨none, cs⟩ <;> rfl
  rw [first, ways, List.findSome?_append, hself, first]

theorem first_group (p : Pattern) (cs : List Char) (go : Way → Option β) :
    (group p).first cs go =
      p.first cs fun w => go ⟨some (cs.take (cs.length - w.rest.length)), w.rest⟩ := by
  simp only [first, ways, List.findSome?_map]
  rfl

/-- If nothing that starts with a character of the class goes on well, as many as possible are
taken. -/
theorem first_many (hgo : ∀ c rest, among c = true → go ⟨none, c :: rest⟩ = none) (cs : List Char) :
    (many among).first cs go = go ⟨none, cs.dropWhile among⟩ := by
  simp only [first, ways, List.findSome?_map]
  induction cs with
  | nil => simp [leftAfter]
  | cons c cs ih =>
    rw [leftAfter, List.dropWhile_cons]
    split
    next hc => simp [List.findSome?_append, ih, hgo c cs hc]
    next => simp

theorem first_several (hgo : ∀ c rest, among c = true → go ⟨none, c :: rest⟩ = none)
    (cs : List Char) :
    (several among).first cs go = if cs.head?.any among then go ⟨none, cs.dropWhile among⟩
      else none := by
  rw [several, first_seq, first_one]
  cases cs with
  | nil => rfl
  | cons c cs =>
    simp only [List.head?_cons, Option.any_some, List.tail_cons, Option.or_none,
      List.dropWhile_cons]
    split
    · exact first_many hgo cs
    · rfl

end Pattern

end Handoff.Text
