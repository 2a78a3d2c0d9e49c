import Handoff.CommandLine.Report
import Handoff.Proofs.Text.Pieces
import Mathlib.Logic.Function.Basic

/-!
# Annotations of a workflow run

The report for a workflow run has one message on each line. File names and the messages of findings
may hold anything, line feeds and percent signs included. What could end a line is escaped, so every
finding has exactly one line, and the escape can be undone: no two texts are written alike, whether
or not they look escaped already.

## Main definitions

* `Report.StaysOnLine`: no character of a text ends a line.
* `Report.replaced`: a text with a word in place of a character.
* `Report.unescape`: the text that was escaped.

## Main statement

* `Report.github_lines`: the lines of a report, and the texts that an escape stands for.
-/

namespace Handoff.Report

open Text

variable {cs ds : List Char}

/-! ### Texts within a line -/

def StaysOnLine (cs : List Char) : Prop :=
  '\n' ∉ cs ∧ '\r' ∉ cs

instance (cs : List Char) : Decidable (StaysOnLine cs) :=
  inferInstanceAs (Decidable (_ ∧ _))

theorem StaysOnLine.append (h : StaysOnLine cs) (h' : StaysOnLine ds) : StaysOnLine (cs ++ ds) :=
  ⟨by simp [h.1, h'.1], by simp [h.2, h'.2]⟩

theorem staysOnLine_toString (n : Nat) : StaysOnLine (toString n).toList := by
  have hdigits : ∀ c ∈ (toString n).toList, c.isDigit = true := fun c hc =>
    Nat.isDigit_of_mem_toDigits (b := 10) (by decide) (by decide) (by simpa using hc)
  exact ⟨fun h => absurd (hdigits _ h) (by decide), fun h => absurd (hdigits _ h) (by decide)⟩

theorem staysOnLine_name (checker : Checker) : StaysOnLine checker.name.toList := by
  cases checker <;> decide

/-- An escaped text stays on its line. -/
theorem staysOnLine_escape (text : String) : StaysOnLine (escape text).toList := by
  have hchar : ∀ c, StaysOnLine (escapeChar c) := by
    intro c
    unfold escapeChar
    split
    · decide
    split
    · decide
    split
    · decide
    · simp_all [StaysOnLine, eq_comm]
  simp only [escape, String.toList_ofList, StaysOnLine, List.mem_flatMap, not_exists, not_and]
  exact ⟨fun c _ => (hchar c).1, fun c _ => (hchar c).2⟩

/-- A message is one line: something that stays on it, and the line feed. -/
theorem exists_workflowMessage {level : String} (hlevel : StaysOnLine level.toList)
    (f : FileFinding) :
    ∃ text, StaysOnLine text ∧ (workflowMessage level f).toList = text ++ ['\n'] := by
  refine ⟨_, ?_, by rw [workflowMessage, line, String.toList_append]; rfl⟩
  simp only [String.toList_append]
  have hliteral :
      ∀ cs : List Char, cs ∈ ["::", " file=", ",line=", ",col=", ",title="].map String.toList →
      StaysOnLine cs := by decide
  exact hliteral _ (by simp) |>.append hlevel |>.append (hliteral _ (by simp)) |>.append
    (staysOnLine_escape _)
    |>.append (hliteral _ (by simp)) |>.append (staysOnLine_toString _) |>.append
      (hliteral _ (by simp))
    |>.append (staysOnLine_toString _) |>.append (hliteral _ (by simp)) |>.append
      (staysOnLine_name _)
    |>.append (hliteral _ (by simp)) |>.append (staysOnLine_escape _)

/-! ### Escapes -/

/-- The text with a word in place of every occurrence of a character. -/
def replaced (c : Char) (word : String) (cs : List Char) : List Char :=
  cs.flatMap fun d => if d = c then word.toList else [d]

/-- Escaping character by character is replacing one character after the other, the percent sign
first: the later passes find nothing in what an earlier one has written. -/
theorem escape_eq_replaced (text : String) : (escape text).toList =
    replaced '\n' "%0A" (replaced '\r' "%0D" (replaced '%' "%25" text.toList)) := by
  simp only [escape, String.toList_ofList, replaced, List.flatMap_assoc]
  congr 1
  funext c
  unfold escapeChar
  split
  · decide
  · by_cases hreturn : c = '\r' <;> simp [hreturn]

def unescape : List Char → List Char
  | '%' :: '2' :: '5' :: cs => '%' :: unescape cs
  | '%' :: '0' :: 'D' :: cs => '\r' :: unescape cs
  | '%' :: '0' :: 'A' :: cs => '\n' :: unescape cs
  | c :: cs => c :: unescape cs
  | [] => []

theorem unescape_escapeChar (c : Char) (cs : List Char) :
    unescape (escapeChar c ++ cs) = c :: unescape cs := by
  unfold escapeChar
  split
  · simp_all [unescape]
  split
  · simp_all [unescape]
  split
  · simp_all [unescape]
  · simp_all [unescape]

theorem unescape_escape (text : String) : unescape (escape text).toList = text.toList := by
  rw [escape, String.toList_ofList]
  induction text.toList with
  | nil => simp [unescape]
  | cons c cs ih => rw [List.flatMap_cons, unescape_escapeChar, ih]

theorem escape_injective : Function.Injective escape := by
  intro a b h
  have htexts : a.toList = b.toList := by rw [← unescape_escape a, ← unescape_escape b, h]
  exact String.toList_injective htexts

/-! ### Lines of a report -/

/-- Texts that each end with a separator, and have no other, are the pieces between the
separators. -/
theorem pieces_flatMap {α : Type} {separator : Char} {body : α → List Char} (xs : List α)
    (h : ∀ x ∈ xs, separator ∉ body x) :
    pieces separator (xs.flatMap fun x => body x ++ [separator]) = xs.map body ++ [[]] := by
  induction xs with
  | nil => rfl
  | cons x xs ih =>
    have hx := pieces_of_not_mem (h x List.mem_cons_self)
    rw [List.flatMap_cons, List.append_assoc, List.singleton_append, pieces_append, hx,
      ih fun y hy => h y (List.mem_cons_of_mem x hy)]
    rfl

/-- A report for a workflow run has one line for each finding, in order, each ended by a line feed,
and no carriage return. Texts are escaped by replacing percent signs, carriage returns and line
feeds, in this order, and different texts have different escapes. -/
theorem github_lines (denyWarnings : Bool) (findings : List FileFinding) :
    pieces '\n' (github denyWarnings findings).toList =
        findings.map (fun f => (workflowMessage (if denyWarnings then "error" else "warning")
          f).toList.dropLast) ++ [[]] ∧
      '\r' ∉ (github denyWarnings findings).toList ∧
      (∀ text, (escape text).toList =
        replaced '\n' "%0A" (replaced '\r' "%0D" (replaced '%' "%25" text.toList))) ∧
      Function.Injective escape := by
  have hlevel : StaysOnLine (if denyWarnings then "error" else "warning").toList := by
    cases denyWarnings <;> decide
  generalize hlevelText : (if denyWarnings then "error" else "warning") = level at hlevel ⊢
  choose body hbody hmessage using exists_workflowMessage hlevel
  have hreport : (github denyWarnings findings).toList = findings.flatMap fun f =>
      body f ++ ['\n'] := by
    simp only [github, hlevelText, String.toList_join, List.flatMap_map, hmessage]
  refine ⟨?_, ?_, escape_eq_replaced, escape_injective⟩
  · rw [hreport, pieces_flatMap findings fun f _ => (hbody f).1]
    simp [hmessage]
  · rw [hreport]
    simp [(hbody _).2]

end Handoff.Report
