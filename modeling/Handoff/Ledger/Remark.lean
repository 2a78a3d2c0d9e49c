import Handoff.Text.Blank
import Handoff.Text.Pattern
import Handoff.Text.Split

/-!
# Comments that speak to the analysis

`//ignore` and `//ctxflow:ignore` silence findings, for the checkers that the next word lists or for
all of them. `//ctxflow:spawner` marks a function as a spawner. Any other comment says nothing.
-/

namespace Handoff

open Text

inductive Remark where
  /-- Silences the checkers named; all of them without a list. A list with an empty name is
  malformed. -/
  | ignore (checkers : Option (List String)) (malformed : Bool)
  /-- Marks a spawner. -/
  | spawnerMark
deriving DecidableEq, Repr

namespace Remark

/-- What follows a word that ends with the text or before a blank. -/
def afterWord (word cs : List Char) : Option (List Char) :=
  (afterText word cs).filter fun rest => rest.isEmpty || rest.head?.any isBlank

/-- The letters, digits and signs of a list of checker names. -/
def isListChar (c : Char) : Bool :=
  ('a' ≤ c && c ≤ 'z') || ('0' ≤ c && c ≤ '9') || c == '_' || c == ',' || c == '-'

/-- A list of checkers, after blanks. -/
def listPattern : Pattern :=
  .seq (.several isBlank) (.group (.several isListChar))

/-- The rest of a line after a word: a blank and anything, or nothing. -/
def lineEnd : Pattern :=
  .optional (.seq (.one isBlank) (.many (· != '\n')))

def ignorePattern : Pattern :=
  .seq (.word "//") (.seq (.optional (.word "ctxflow:"))
    (.seq (.word "ignore") (.seq (.optional listPattern) lineEnd)))

/-- The directive with the given list. -/
def ofList : Option (List Char) → Remark
  | some list =>
    let names := pieces ',' list
    .ignore (some ((names.filter fun name => !name.isEmpty).map String.ofList))
      (names.any List.isEmpty)
  | none => .ignore none false

/-- What a comment says. Blanks at its end do not count. -/
def ofComment (text : String) : Option Remark :=
  let cs := trimRight text.toList
  if (afterWord "//ctxflow:spawner".toList cs).isSome then some .spawnerMark
  else (ignorePattern.captures cs).map ofList

end Remark

end Handoff
