import Handoff.Ledger.Basic
import Handoff.Proofs.Text.Pattern
import Handoff.Syntax.Grammar.File
import Mathlib.Data.List.TakeWhile

/-!
# The grammar of directives

An ignore directive is recognised by a pattern with parts that may be left out and that overlap: a
blank and a word may be the list of checkers or the start of a remark. What it amounts to is a
grammar without choices. A directive is `//ignore` or `//ctxflow:ignore`, with nothing or a blank
after it. It has a list just when its first word is made of the signs of a list, and then all of
that word is the list. A spawner mark is another word, so no comment is both.

## Main definitions

* `Remark.IsIgnore`: a text is an ignore directive, with the given rest.
* `Remark.IsMark`: a text is a spawner mark.
* `Remark.firstWord`, `Remark.IsList`: the word that may be a list, and whether it is one.
* `Remark.namesOf`, `Remark.IsMalformed`: the names in the list, and whether one is empty.

## Main statements

* `Remark.captures_ignorePattern_iff`: the pattern finds the directives of the grammar, with their
  lists.
* `Ledger.ofTree_reads`: the ledger has the first directive of each line, as the grammar reads it,
  and all marks.
-/

namespace Handoff

open Text Pattern Syntax

variable {β : Type} {c : Char} {cs rest : List Char} {text : String}

namespace Remark

/-- The first word of a text, up to a blank; empty if there is none. -/
def firstWord (cs : List Char) : List Char :=
  (trimLeft cs).takeWhile fun c => !isBlank c

def IsList (word : List Char) : Prop :=
  word ≠ [] ∧ ∀ c ∈ word, isListChar c = true

instance (word : List Char) : Decidable (IsList word) :=
  decidable_of_iff (word ≠ [] ∧ word.all isListChar = true) (by simp [IsList])

def EndsWord (rest : List Char) : Prop :=
  rest = [] ∨ ∃ b more, rest = b :: more ∧ isBlank b = true

def namesOf (rest : List Char) : Option (List String) :=
  if IsList (firstWord rest) then
    some (((pieces ',' (firstWord rest)).filter fun name => !name.isEmpty).map String.ofList)
  else none

/-- The list of a directive has an empty name. -/
def IsMalformed (rest : List Char) : Prop :=
  IsList (firstWord rest) ∧ [] ∈ pieces ',' (firstWord rest)

instance (rest : List Char) : Decidable (IsMalformed rest) :=
  inferInstanceAs (Decidable (_ ∧ _))

/-- A text is the name of an ignore directive, then nothing or a blank and anything. -/
def IsIgnore (cs rest : List Char) : Prop :=
  (cs = "//ignore".toList ++ rest ∨ cs = "//ctxflow:ignore".toList ++ rest) ∧ EndsWord rest

/-- A text is the name of a spawner mark, then nothing or a blank and anything. -/
def IsMark (cs : List Char) : Prop :=
  ∃ rest, cs = "//ctxflow:spawner".toList ++ rest ∧ EndsWord rest

theorem endsWord_iff : EndsWord rest ↔ (rest.isEmpty || rest.head?.any isBlank) = true := by
  cases rest <;> simp [EndsWord]

instance (rest : List Char) : Decidable (EndsWord rest) :=
  decidable_of_iff _ endsWord_iff.symm

/-! ### Signs of a list -/

theorem isBlank_of_isListChar (h : isListChar c = true) : isBlank c = false := by
  have hrange : 44 ≤ c.toNat ∧ c.toNat ≤ 122 := by
    simp only [isListChar, Bool.or_eq_true, Bool.and_eq_true, decide_eq_true_eq, beq_iff_eq,
      Char.le_def, UInt32.le_iff_toNat_le] at h
    obtain (((⟨hlow, hhigh⟩ | ⟨hlow, hhigh⟩) | rfl) | rfl) | rfl := h
    · exact ⟨Nat.le_trans (by decide) hlow, Nat.le_trans hhigh (by decide)⟩
    · exact ⟨Nat.le_trans (by decide) hlow, Nat.le_trans hhigh (by decide)⟩
    all_goals decide
  simp only [isBlank, whiteSpace, CodePoints.has_cons, CodePoints.has_nil, Bool.or_false,
    Bool.or_eq_false_iff, decide_eq_false_iff_not]
  omega

theorem not_isListChar (h : isBlank c = true) : ¬ isListChar c = true := fun hlist => by
  simp [isBlank_of_isListChar hlist] at h

/-- A word is made of signs of a list when the longest stretch of such signs ends with it. -/
theorem forall_isListChar_iff (cs : List Char) :
    (∀ c ∈ cs.takeWhile fun c => !isBlank c, isListChar c = true) ↔
      EndsWord (cs.dropWhile isListChar) := by
  rw [endsWord_iff]
  induction cs with
  | nil => simp
  | cons c cs ih =>
    by_cases hlist : isListChar c = true
    · simpa [List.takeWhile_cons, hlist, isBlank_of_isListChar hlist] using ih
    · cases hblank : isBlank c <;> simp [hlist, hblank]

theorem takeWhile_isListChar (h : ∀ c ∈ cs.takeWhile fun c => !isBlank c, isListChar c = true) :
    cs.takeWhile isListChar = cs.takeWhile fun c => !isBlank c := by
  induction cs with
  | nil => rfl
  | cons c cs ih =>
    cases hblank : isBlank c with
    | false =>
      have hcons : (c :: cs).takeWhile (fun c => !isBlank c) = c :: cs.takeWhile fun c =>
          !isBlank c := by
        simp [hblank]
      rw [hcons, List.forall_mem_cons] at h
      rw [hcons, List.takeWhile_cons_of_pos h.1, ih h.2]
    | true => simp [hblank, not_isListChar hblank]

/-- A word is a list when it starts with a sign of one and the longest stretch of such signs ends
with it. -/
theorem isList_iff (cs : List Char) : IsList (cs.takeWhile fun c => !isBlank c) ↔
    cs.head?.any isListChar = true ∧ EndsWord (cs.dropWhile isListChar) := by
  rw [IsList, ← forall_isListChar_iff]
  refine and_congr_left fun hlist => ?_
  rw [← takeWhile_isListChar hlist]
  cases cs with
  | nil => simp
  | cons c cs => cases hc : isListChar c <;> simp [hc]

theorem take_length_sub (among : Char → Bool) (cs : List Char) :
    cs.take (cs.length - (cs.dropWhile among).length) = cs.takeWhile among := by
  have hlength : cs.length = (cs.takeWhile among).length + (cs.dropWhile among).length := by
    rw [← List.length_append, List.takeWhile_append_dropWhile]
  rw [hlength, Nat.add_sub_cancel, ← List.prefix_iff_eq_take.1 ( List.takeWhile_prefix among)]

/-! ### The pattern -/

/-- Accepts when nothing is left, with the list found so far. -/
def accepts (list : Option (List Char)) (w : Way) : Option (Option (List Char)) :=
  if w.rest.isEmpty then some (w.group.or list) else none

theorem first_lineEnd_cons (h : isBlank c = false) (list : Option (List Char)) :
    lineEnd.first (c :: rest) (accepts list) = none := by
  simp [lineEnd, accepts, first_optional, first_seq, first_one, h]

/-- The pattern for the end of a line accepts just where nothing or a blank follows. -/
theorem first_lineEnd (hline : '\n' ∉ cs) (list : Option (List Char)) :
    lineEnd.first cs (accepts list) = if EndsWord cs then some list else none := by
  cases cs with
  | nil => simp [lineEnd, accepts, first_optional, first_seq, first_one, EndsWord]
  | cons c cs =>
    cases hblank : isBlank c with
    | false => rw [first_lineEnd_cons hblank, if_neg (by simp [EndsWord, hblank])]
    | true =>
      have hall : cs.dropWhile (· != '\n') = [] := by
        refine List.dropWhile_eq_nil_iff.2 fun d hd => bne_iff_ne.2 ?_
        rintro rfl
        exact hline (List.mem_cons_of_mem c hd)
      have hmany : ∀ go : Way → Option (Option (List Char)),
          (∀ d rest, go ⟨none, d :: rest⟩ = none) →
            (many (· != '\n')).first cs go = go ⟨none, []⟩ := fun go hgo => by
        rw [first_many fun d rest _ => hgo d rest, hall]
      rw [if_pos (by simp [EndsWord, hblank])]
      simp [lineEnd, accepts, first_optional, first_seq, first_one, hblank, hmany]

/-- A list does not start with one more blank. -/
theorem first_list_cons (h : isBlank c = true) (go : Way → Option β) :
    (group (several isListChar)).first (c :: rest) go = none := by
  simp [first_group, several, first_seq, first_one, not_isListChar h]

/-- The pattern takes all blanks and all signs of a list, since neither can follow itself. -/
theorem first_listPattern (hline : '\n' ∉ cs) (hends : EndsWord cs) :
    listPattern.first cs (fun w => lineEnd.first w.rest (accepts w.group)) =
      if IsList (firstWord cs) then some (some (firstWord cs)) else none := by
  obtain rfl | ⟨b, more, rfl, hb⟩ := hends
  · rfl
  · have hrest : '\n' ∉ (trimLeft (b :: more)).dropWhile isListChar := fun h =>
      hline (List.dropWhile_subset isBlank (List.dropWhile_subset isListChar h))
    have hfirst : listPattern.first (b :: more) (fun w => lineEnd.first w.rest (accepts w.group)) =
        if (trimLeft (b :: more)).head?.any isListChar then
          if EndsWord ((trimLeft (b :: more)).dropWhile isListChar) then
            some (some ((trimLeft (b :: more)).takeWhile isListChar))
          else none
        else none := by
      rw [listPattern, first_seq, first_several fun c rest h => first_list_cons h _,
        if_pos (by simpa using hb), first_group, first_several fun c rest h =>
          first_lineEnd_cons (isBlank_of_isListChar h) _,
        take_length_sub]
      exact if_congr Iff.rfl (first_lineEnd hrest _) rfl
    rw [hfirst]
    by_cases hlist : IsList (firstWord (b :: more))
    · obtain ⟨hhead, hstops⟩ := (isList_iff _).1 hlist
      rw [if_pos hlist, if_pos hhead, if_pos hstops, takeWhile_isListChar hlist.2]
      rfl
    · rw [if_neg hlist]
      split
      next hhead => exact if_neg fun hstops => hlist ((isList_iff _).2 ⟨hhead, hstops⟩)
      next => rfl

def listOf (rest : List Char) : Option (List Char) :=
  if IsList (firstWord rest) then some (firstWord rest) else none

/-- What the pattern finds after the name of a directive. -/
theorem captures_afterName (hline : '\n' ∉ cs) :
    (seq (.optional listPattern) lineEnd).captures cs = if EndsWord cs then some (listOf cs)
      else none := by
  have haccepts : (seq (.optional listPattern) lineEnd).captures cs =
      (listPattern.first cs fun w => lineEnd.first w.rest (accepts w.group)).or
        (lineEnd.first cs (accepts none)) := by
    rw [captures_eq, first_seq, first_optional]
    rfl
  rw [haccepts, first_lineEnd hline]
  by_cases hends : EndsWord cs
  · rw [first_listPattern hline hends, if_pos hends, if_pos hends, listOf]
    split <;> rfl
  · -- Without a blank first, there is neither a list nor a rest of the line.
    obtain ⟨c, cs, rfl⟩ := List.exists_cons_of_ne_nil fun hnil => hends (.inl hnil)
    have hblank : ¬ isBlank c = true := fun hblank => hends (.inr ⟨c, cs, rfl, hblank⟩)
    simp [hends, listPattern, several, first_seq, first_one, hblank]

/-- What the pattern finds, for either name of a directive. -/
theorem captures_ignorePattern (cs : List Char) : ignorePattern.captures cs =
    ((afterText "//ctxflow:ignore".toList cs).bind
      (seq (.optional listPattern) lineEnd).captures).or
        ((afterText "//ignore".toList cs).bind (seq (.optional listPattern) lineEnd).captures) := by
  have hlong : "//ctxflow:ignore".toList = "//".toList ++
      ("ctxflow:".toList ++ "ignore".toList) := by decide
  have hshort : "//ignore".toList = "//".toList ++ "ignore".toList := by decide
  have hcaptures : (seq (.optional listPattern) lineEnd).captures = fun cs =>
      (seq (.optional listPattern) lineEnd).first cs fun w => if w.rest.isEmpty then some w.group
        else none :=
    funext (captures_eq _)
  rw [hlong, hshort, afterText_append, afterText_append, captures_eq, ignorePattern, first_seq,
    first_word, hcaptures]
  cases afterText "//".toList cs with
  | none => rfl
  | some rest =>
    simp only [Option.bind_some, Option.or_none, first_seq, first_optional, first_word,
      afterText_append, Option.bind_assoc]

/-- After a given name, the pattern captures the list that follows it. -/
theorem captures_name_iff {name : List Char} (hname : "//".toList <+: name)
    (hline : "//".toList <+: cs → '\n' ∉ cs) {list : Option (List Char)} :
    (afterText name cs).bind (seq (.optional listPattern) lineEnd).captures = some list ↔
      ∃ rest, cs = name ++ rest ∧ EndsWord rest ∧ listOf rest = list := by
  rw [Option.bind_eq_some_iff]
  refine exists_congr fun rest => ?_
  rw [afterText_eq_some_iff]
  refine and_congr_right fun hcs => ?_
  have hrest : '\n' ∉ rest := fun hmem =>
    hline (hcs ▸ hname.trans (List.prefix_append name rest)) (hcs ▸ List.mem_append_right name hmem)
  rw [captures_afterName hrest]
  split <;> simp_all

/-- The pattern of ignore directives captures just what their grammar says. -/
theorem captures_ignorePattern_iff (hline : "//".toList <+: cs → '\n' ∉ cs)
    {list : Option (List Char)} :
    ignorePattern.captures cs = some list ↔ ∃ rest, IsIgnore cs rest ∧ listOf rest = list := by
  rw [captures_ignorePattern, Option.or_eq_some_iff, captures_name_iff (by decide) hline,
    captures_name_iff (by decide) hline]
  constructor
  · rintro (⟨rest, hcs, hends, hlist⟩ | ⟨-, rest, hcs, hends, hlist⟩)
    · exact ⟨rest, ⟨.inr hcs, hends⟩, hlist⟩
    · exact ⟨rest, ⟨.inl hcs, hends⟩, hlist⟩
  · rintro ⟨rest, ⟨hcs | hcs, hends⟩, hlist⟩
    · -- The longer name is tried first, and no text starts with both.
      have hother : afterText "//ctxflow:ignore".toList cs = none := by rw [hcs]; rfl
      exact .inr ⟨by rw [hother]; rfl, rest, hcs, hends, hlist⟩
    · exact .inl ⟨rest, hcs, hends, hlist⟩

/-! ### What a comment says -/

theorem isSome_afterWord (word cs : List Char) :
    (afterWord word cs).isSome = true ↔ ∃ rest, cs = word ++ rest ∧ EndsWord rest := by
  rw [afterWord, Option.isSome_filter, Option.any_eq_true]
  simp only [afterText_eq_some_iff, endsWord_iff]

/-- No text is both a directive and a mark. -/
theorem not_isMark (h : IsIgnore cs rest) : ¬ IsMark cs := by
  rintro ⟨rest', hmark, -⟩
  have hafter : afterText "//ctxflow:spawner".toList cs = none := by
    obtain ⟨rfl | rfl, -⟩ := h <;> rfl
  rw [afterText_eq_some_iff.2 hmark] at hafter
  cases hafter

theorem ofComment_of_isMark (h : IsMark (trimRight text.toList)) :
    ofComment text = some .spawnerMark :=
  if_pos ((isSome_afterWord _ _).2 h)

theorem ofComment_of_not_isMark (h : ¬ IsMark (trimRight text.toList)) :
    ofComment text = (ignorePattern.captures (trimRight text.toList)).map ofList :=
  if_neg fun hmark => h ((isSome_afterWord _ _).1 hmark)

theorem ofComment_eq_spawnerMark_iff : ofComment text = some .spawnerMark ↔
    IsMark (trimRight text.toList) := by
  refine ⟨fun h => ?_, ofComment_of_isMark⟩
  by_contra hmark
  rw [ofComment_of_not_isMark hmark, Option.map_eq_some_iff] at h
  obtain ⟨list, -, hlist⟩ := h
  cases list <;> cases hlist

/-- A comment reads as an ignore directive just when it is written as one. -/
theorem ofComment_eq_ignore_iff
    (hline : "//".toList <+: trimRight text.toList → '\n' ∉ trimRight text.toList)
    {checkers : Option (List String)} {malformed : Bool} :
    ofComment text = some (.ignore checkers malformed) ↔
      ∃ rest, IsIgnore (trimRight text.toList) rest ∧
        ofList (listOf rest) = .ignore checkers malformed := by
  constructor
  · intro h
    have hmark : ¬ IsMark (trimRight text.toList) := fun hmark => by
      rw [ofComment_of_isMark hmark] at h
      cases h
    rw [ofComment_of_not_isMark hmark, Option.map_eq_some_iff] at h
    obtain ⟨list, hlist, hremark⟩ := h
    obtain ⟨rest, hrest, rfl⟩ := (captures_ignorePattern_iff hline).1 hlist
    exact ⟨rest, hrest, hremark⟩
  · rintro ⟨rest, hrest, hremark⟩
    rw [ofComment_of_not_isMark (not_isMark hrest), (captures_ignorePattern_iff hline).2
      ⟨rest, hrest, rfl⟩]
    exact congrArg some hremark

theorem ofList_listOf (rest : List Char) :
    ofList (listOf rest) = .ignore (namesOf rest) (decide (IsMalformed rest)) := by
  by_cases hlist : IsList (firstWord rest)
  · have hempty : (pieces ',' (firstWord rest)).any List.isEmpty =
        decide ([] ∈ pieces ',' (firstWord rest)) := by
      rw [Bool.eq_iff_iff]
      simp
    simp [listOf, namesOf, IsMalformed, ofList, hlist, hempty]
  · simp [listOf, namesOf, IsMalformed, ofList, hlist]

end Remark

namespace Syntax.Node

def comments (root : Node) : List Node :=
  root.preorder.filter (·.kind == .comment)

/-- What a comment says: its text without the blanks at its end. -/
def said (n : Node) : List Char :=
  trimRight n.text.toList

end Syntax.Node

namespace Directive

open Remark

variable {n : Node} {d : Directive}

def reading (n : Node) (rest : List Char) : Directive where
  line := n.line
  span := n.span
  checkers := namesOf rest
  malformed := decide (IsMalformed rest)
  used := .none

theorem ofComment_eq_some_iff (hline : "//".toList <+: n.said → '\n' ∉ n.said) :
    ofComment n = some d ↔ ∃ rest, IsIgnore n.said rest ∧ d = reading n rest := by
  constructor
  · intro h
    unfold ofComment at h
    split at h
    next hremark =>
      obtain ⟨rest, hrest, hlist⟩ := (ofComment_eq_ignore_iff hline).1 hremark
      rw [ofList_listOf rest] at hlist
      cases hlist
      cases h
      exact ⟨rest, hrest, rfl⟩
    next => cases h
  · rintro ⟨rest, hrest, rfl⟩
    have hremark := (ofComment_eq_ignore_iff hline).2 ⟨rest, hrest, ofList_listOf rest⟩
    rw [ofComment, hremark]
    rfl

theorem line_of_ofComment (h : ofComment n = some d) : d.line = n.line := by
  unfold ofComment at h
  split at h <;> cases h
  rfl

theorem any_ofComment_iff {line : Nat}
    (hline : n.line = line → "//".toList <+: n.said → '\n' ∉ n.said) :
    (ofComment n).any (·.line == line) = true ↔ n.line = line ∧ ∃ rest, IsIgnore n.said rest := by
  rw [Option.any_eq_true]
  constructor
  · rintro ⟨d, hd, hd'⟩
    have hn : n.line = line := line_of_ofComment hd ▸ eq_of_beq hd'
    obtain ⟨rest, hrest, -⟩ := (ofComment_eq_some_iff (hline hn)).1 hd
    exact ⟨hn, rest, hrest⟩
  · rintro ⟨hn, rest, hrest⟩
    exact ⟨reading n rest, (ofComment_eq_some_iff (hline hn)).2 ⟨rest, hrest, rfl⟩, beq_iff_eq.2 hn⟩

theorem not_any_ofComment_iff {line : Nat}
    (hline : n.line = line → "//".toList <+: n.said → '\n' ∉ n.said) :
    (!(ofComment n).any (·.line == line)) = true ↔
      (n.line = line → ∀ rest, ¬ IsIgnore n.said rest) := by
  rw [Bool.not_eq_true', ← Bool.not_eq_true, any_ofComment_iff hline, not_and, not_exists]

end Directive

namespace Ledger

open Remark

/-- The first directive that was added for a line stays there. -/
theorem onLine_add (l : Ledger) (d : Directive) (line : Nat) :
    (l.add d).onLine line = (l.onLine line).or ([d].find? (·.line == line)) := by
  unfold add
  split
  next h =>
    by_cases hd : d.line = line
    · subst hd
      have hsome : (l.onLine d.line).isSome = true := by
        rw [onLine, List.find?_isSome]
        simpa using h
      obtain ⟨e, he⟩ := Option.isSome_iff_exists.1 hsome
      rw [he]
      rfl
    · simp [hd]
  next => exact List.find?_append

theorem onLine_foldl (ds : List Directive) (l : Ledger) (line : Nat) :
    (ds.foldl add l).onLine line = (l.onLine line).or (ds.find? (·.line == line)) := by
  induction ds generalizing l with
  | nil => simp
  | cons d ds ih =>
    rw [List.foldl_cons, ih, onLine_add, Option.or_assoc, ← List.find?_append]
    rfl

theorem marks_foldl (ds : List Directive) (l : Ledger) : (ds.foldl add l).marks = l.marks := by
  induction ds generalizing l with
  | nil => rfl
  | cons d ds ih =>
    rw [List.foldl_cons, ih]
    unfold add
    split <;> rfl

/-- The ledger has the first directive of each line. -/
theorem onLine_ofTree (root : Node) (line : Nat) :
    (ofTree root).onLine line = (root.comments.filterMap Directive.ofComment).find?
      (·.line == line) :=
  onLine_foldl _ _ line

theorem mem_marks_ofTree {root : Node} {line : Nat} :
    line ∈ (ofTree root).marks ↔ ∃ n ∈ root.comments, n.line = line ∧ IsMark n.said := by
  rw [ofTree, marks_foldl, List.mem_eraseDups, List.mem_map]
  refine exists_congr fun n => ?_
  rw [List.mem_filter, beq_iff_eq, ofComment_eq_spawnerMark_iff]
  exact and_right_comm.trans and_assoc

section

variable {root : Node} {line : Nat}
  (hline : ∀ n ∈ root.comments, n.line = line → "//".toList <+: n.said → '\n' ∉ n.said)

include hline

/-- The directive on a line is the first comment of the line that is one. -/
theorem onLine_ofTree_eq_some_iff {d : Directive} : (ofTree root).onLine line = some d ↔
    ∃ before n after rest, root.comments = before ++ n :: after ∧ n.line = line ∧
      IsIgnore n.said rest ∧ d = .reading n rest ∧ ∀ m ∈ before, m.line = line →
        ∀ rest, ¬ IsIgnore m.said rest := by
  rw [onLine_ofTree, List.find?_filterMap, Option.bind_eq_some_iff]
  constructor
  · rintro ⟨n, hfind, hd⟩
    obtain ⟨htest, before, after, hcomments, hbefore⟩ := List.find?_eq_some_iff_append.1 hfind
    have hn : n ∈ root.comments := List.mem_of_find?_eq_some hfind
    have hl : n.line = line := ((Directive.any_ofComment_iff (hline n hn)).1 htest).1
    obtain ⟨rest, hrest, rfl⟩ := (Directive.ofComment_eq_some_iff (hline n hn hl)).1 hd
    refine ⟨before, n, after, rest, hcomments, hl, hrest, rfl, fun m hm => ?_⟩
    have hm' : m ∈ root.comments := hcomments ▸ List.mem_append_left _ hm
    exact (Directive.not_any_ofComment_iff (hline m hm')).1 (hbefore m hm)
  · rintro ⟨before, n, after, rest, hcomments, hl, hrest, rfl, hbefore⟩
    have hn : n ∈ root.comments := hcomments ▸ List.mem_append_right _ List.mem_cons_self
    have htest := (Directive.any_ofComment_iff (hline n hn)).2 ⟨hl, rest, hrest⟩
    refine ⟨n, List.find?_eq_some_iff_append.2 ⟨htest, before, after, hcomments, fun m hm => ?_⟩,
      (Directive.ofComment_eq_some_iff (hline n hn hl)).2 ⟨rest, hrest, rfl⟩⟩
    have hm' : m ∈ root.comments := hcomments ▸ List.mem_append_left _ hm
    exact (Directive.not_any_ofComment_iff (hline m hm')).2 (hbefore m hm)

theorem onLine_ofTree_eq_none_iff : (ofTree root).onLine line = none ↔
    ∀ n ∈ root.comments, n.line = line → ∀ rest, ¬ IsIgnore n.said rest := by
  rw [onLine_ofTree, List.find?_eq_none]
  constructor
  · intro h n hn hl rest hrest
    have hd := (Directive.ofComment_eq_some_iff (hline n hn hl)).2 ⟨rest, hrest, rfl⟩
    exact h _ (List.mem_filterMap.2 ⟨n, hn, hd⟩) (beq_iff_eq.2 hl)
  · intro h d hd hl
    obtain ⟨n, hn, hd⟩ := List.mem_filterMap.1 hd
    have hl' : n.line = line := Directive.line_of_ofComment hd ▸ eq_of_beq hl
    obtain ⟨rest, hrest, -⟩ := (Directive.ofComment_eq_some_iff (hline n hn hl')).1 hd
    exact h n hn hl' rest hrest

end

/-- The ledger has the first directive of each line, read by the grammar, and the lines of all
marks. -/
theorem ofTree_reads (root : Node) (line : Nat)
    (hline : ∀ n ∈ root.comments, n.line = line → "//".toList <+: n.said → '\n' ∉ n.said) :
    (∀ d, (ofTree root).onLine line = some d ↔ ∃ before n after rest, root.comments = before ++ n ::
      after ∧ n.line = line ∧ IsIgnore n.said rest ∧ d = .reading n rest ∧
      ∀ m ∈ before, m.line = line → ∀ rest, ¬ IsIgnore m.said rest) ∧
    ((ofTree root).onLine line = none ↔ ∀ n ∈ root.comments, n.line = line →
      ∀ rest, ¬ IsIgnore n.said rest) ∧
    (line ∈ (ofTree root).marks ↔ ∃ n ∈ root.comments, n.line = line ∧ IsMark n.said) ∧
    ∀ cs rest, IsIgnore cs rest → ¬ IsMark cs :=
  ⟨fun _ => onLine_ofTree_eq_some_iff hline, onLine_ofTree_eq_none_iff hline, mem_marks_ofTree,
    fun _ _ => not_isMark⟩

def emptyName : String :=
  "package p\n\n//ctxflow:ignore a,,b because\n//ignore Because of it\n"

set_option maxRecDepth 4000 in
theorem ofTree_reads_emptyName :
    (∀ n ∈ (parse emptyName).comments, n.line = 3 → "//".toList <+: n.said → '\n' ∉ n.said) ∧
      ∃ d, (ofTree (parse emptyName)).onLine 3 = some d ∧ d.checkers = some ["a", "b"] ∧
        d.malformed = true := by
  have hline : ∀ n ∈ (parse emptyName).comments, n.line = 3 → "//".toList <+: n.said →
      '\n' ∉ n.said := by
    decide +kernel
  have hcomments : (parse emptyName).comments.map (fun n => (n.line, n.said)) =
      [(3, "//ctxflow:ignore a,,b because".toList), (4, "//ignore Because of it".toList)] := by
    decide +kernel
  obtain ⟨n, after, hsplit, hn, -⟩ := List.map_eq_cons_iff.1 hcomments
  have hignore : IsIgnore n.said " a,,b because".toList :=
    ⟨.inr (congrArg Prod.snd hn), .inr ⟨' ', "a,,b because".toList, rfl, by decide⟩⟩
  have hnames : namesOf " a,,b because".toList = some ["a", "b"] := by decide +kernel
  have hempty : decide (IsMalformed " a,,b because".toList) = true := by decide +kernel
  refine ⟨hline, .reading n " a,,b because".toList, ?_, hnames, hempty⟩
  exact ((ofTree_reads _ 3 hline).1 _).2
    ⟨[], n, after, _, hsplit, congrArg Prod.fst hn, hignore, rfl, by simp⟩

end Ledger

end Handoff
