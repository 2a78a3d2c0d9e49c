/-!
# Patterns of texts

A pattern describes texts as a regular expression does, with one group whose text is kept. It may
match the start of a text in several ways. `Pattern.ways` lists them from the most to the least
preferred: characters of a class are taken for as long as possible, and a part that may be left out
is tried first. `Pattern.captures` settles for the first way that uses up the text.
-/

namespace Handoff.Text

/-- What follows a word at the start of a text. -/
def afterText : List Char → List Char → Option (List Char)
  | [], cs => some cs
  | _ :: _, [] => none
  | w :: ws, c :: cs => if w = c then afterText ws cs else none

inductive Pattern where
  /-- A fixed text. -/
  | word (text : String)
  /-- One character of a class. -/
  | one (among : Char → Bool)
  /-- Any number of characters of a class. -/
  | many (among : Char → Bool)
  | seq (first second : Pattern)
  /-- A part that may be left out. -/
  | optional (part : Pattern)
  /-- A part whose text is kept. -/
  | group (part : Pattern)

namespace Pattern

/-- At least one character of a class. -/
def several (among : Char → Bool) : Pattern :=
  .seq (.one among) (.many among)

/-- A way to match the start of a text: what the group took, if it was used, and what is left. -/
structure Way where
  group : Option (List Char)
  rest : List Char

/-- What may be left after characters of a class, the shortest first. -/
def leftAfter (among : Char → Bool) : List Char → List (List Char)
  | [] => [[]]
  | c :: cs => if among c then leftAfter among cs ++ [c :: cs] else [c :: cs]

/-- The ways to match the start of a text, by preference. -/
def ways : Pattern → List Char → List Way
  | .word text, cs => (afterText text.toList cs).toList.map fun rest => ⟨none, rest⟩
  | .one _, [] => []
  | .one among, c :: cs => if among c then [⟨none, cs⟩] else []
  | .many among, cs => (leftAfter among cs).map fun rest => ⟨none, rest⟩
  | .seq first second, cs => (ways first cs).flatMap fun w =>
      (ways second w.rest).map fun v => ⟨v.group.or w.group, v.rest⟩
  | .optional part, cs => ways part cs ++ [⟨none, cs⟩]
  | .group part, cs =>
    (ways part cs).map fun w => ⟨some (cs.take (cs.length - w.rest.length)), w.rest⟩

/-- What the group took, if the pattern matches all of a text. -/
def captures (p : Pattern) (cs : List Char) : Option (Option (List Char)) :=
  ((p.ways cs).find? fun w => w.rest.isEmpty).map Way.group

end Pattern

end Handoff.Text
