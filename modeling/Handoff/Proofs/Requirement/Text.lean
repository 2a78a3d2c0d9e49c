import Handoff.Proofs.Requirement.Levels
import Handoff.Proofs.Text.Pieces
import Handoff.Resolution.Build
import Handoff.Syntax.Grammar.File

/-!
# Requirements as texts

A requirement is read from a table of member texts: rows between commas, entries between plus signs,
blanks around the entries dropped. Two texts with a comma between them have the rows of both, two
single rows with a plus sign between them make one row. So a comma takes the better outcome and a
plus sign the worse, and every text gets the best outcome of its rows, each with the worst outcome
of its entries.

## Main definitions

* `Requirement.memberTexts`: the table of member texts.
* `Requirement.Evaluates`: a text is accepted, and calls have an outcome for it.
* `CallSite.postponed`: the call, now deferred.

## Main statements

* `Requirement.parse_eq_ok_iff`: which texts are accepted, and as what.
* `Requirement.evaluates_text`: the outcome of a text from those of its parts.
-/

namespace Handoff

open Text

variable {r : Resolution} {calls calls' : List CallSite} {requirement : Requirement}
  {text a b : String} {x y : Outcome}

/-- Two steps succeed when the first does and the second does with what it gave. -/
theorem bind_eq_ok_iff {ε α β : Type} {x : Except ε α} {f : α → Except ε β} {b : β} :
    (x >>= f) = .ok b ↔ ∃ a, x = .ok a ∧ f a = .ok b := by
  cases x <;> simp [bind, Except.bind]

/-- Mapping with errors succeeds when it does so for each member. -/
theorem mapM_eq_ok_iff {ε α β : Type} {f : α → Except ε β} {xs : List α} {ys : List β} :
    xs.mapM f = .ok ys ↔ List.Forall₂ (fun x y => f x = .ok y) xs ys := by
  induction xs generalizing ys with
  | nil => cases ys <;> simp [pure, Except.pure]
  | cons x xs ih =>
    have hcons : (x :: xs).mapM f = .ok ys ↔ ∃ z zs, f x = .ok z ∧ xs.mapM f = .ok zs ∧
        z :: zs = ys := by
      rw [List.mapM_cons]
      cases f x <;> cases xs.mapM f <;> simp [bind, Except.bind, pure, Except.pure]
    rw [hcons, List.forall₂_cons_left_iff]
    simp only [ih, eq_comm]

namespace CallSite

def postponed (site : CallSite) : CallSite :=
  { site with deferred := true }

theorem within_counted_of_subset (h : calls ⊆ calls') (level : Outcome) :
    Within (counted level calls) (counted level calls') := by
  intro site hsite
  refine ⟨site, ?_, rfl⟩
  unfold counted at hsite ⊢
  split at hsite
  next hstart =>
    rw [if_pos hstart]
    obtain ⟨hmem, hfirst⟩ := List.mem_filter.1 hsite
    exact List.mem_filter.2 ⟨h hmem, hfirst⟩
  next hstart =>
    rw [if_neg hstart]
    exact h hsite

theorem within_counted_of_postponed (before after : List CallSite) (site : CallSite)
    (level : Outcome) :
    Within (counted level (before ++ site.postponed :: after))
      (counted level (before ++ site :: after)) := by
  intro s hs
  unfold counted at hs ⊢
  split at hs
  next hstart =>
    -- A deferred call does not count at the start, so the others are left.
    obtain ⟨hmem, hfirst⟩ := List.mem_filter.1 hs
    rw [if_pos hstart]
    refine ⟨s, List.mem_filter.2 ⟨?_, hfirst⟩, rfl⟩
    obtain hbefore | rfl | hafter : s ∈ before ∨ s = site.postponed ∨ s ∈ after := by
      simpa using hmem
    · exact List.mem_append_left _ hbefore
    · cases hfirst
    · exact List.mem_append_right _ (List.mem_cons_of_mem site hafter)
  next hstart =>
    rw [if_neg hstart]
    obtain hbefore | rfl | hafter : s ∈ before ∨ s = site.postponed ∨ s ∈ after := by simpa using hs
    · exact ⟨s, List.mem_append_left _ hbefore, rfl⟩
    · exact ⟨site, List.mem_append_right _ List.mem_cons_self, rfl⟩
    · exact ⟨s, List.mem_append_right _ (List.mem_cons_of_mem site hafter), rfl⟩

end CallSite

namespace Requirement

open Outcome CallSite

def memberTexts (cs : List Char) : List (List (List Char)) :=
  (pieces ',' cs).map fun group => (pieces '+' group).map trim

def Names : List (List (List Char)) → List (List QualifiedName) → Prop :=
  List.Forall₂ (List.Forall₂ fun member name => QualifiedName.ofChars member = some name)

theorem blind_memberTexts : Blind memberTexts :=
  (blind_trim.pieces (by decide)).pieces (by decide)

theorem ofChars_nil : QualifiedName.ofChars [] = none := by
  decide

theorem parseMember_eq_ok_iff {member : List Char} {name : QualifiedName} :
    parseMember text member = .ok name ↔ QualifiedName.ofChars (trim member) = some name := by
  unfold parseMember
  dsimp only
  split
  next hempty => simp [List.isEmpty_iff.1 hempty, ofChars_nil]
  next => split <;> simp_all

theorem mapM_parseGroup_eq_ok_iff (text : String) {cs : List Char}
    {groups : List (List QualifiedName)} :
    (pieces ',' cs).mapM (parseGroup text) = .ok groups ↔ Names (memberTexts cs) groups := by
  simp only [mapM_eq_ok_iff, parseGroup, parseMember_eq_ok_iff, Names, memberTexts,
    List.forall₂_map_left_iff]

/-- Nothing is read from an empty text. -/
theorem not_names_nil {groups : List (List QualifiedName)} : ¬ Names (memberTexts []) groups := by
  have hnil : memberTexts [] = [[[]]] := rfl
  rw [hnil]
  rintro (_ | ⟨_ | ⟨hname, _⟩, _⟩)
  rw [ofChars_nil] at hname
  cases hname

/-- A text is accepted when all its members are names, and then it asks for these. -/
theorem parse_eq_ok_iff :
    parse text = .ok requirement ↔
      Names (memberTexts text.toList) requirement.groups ∧ requirement.text = trimmed text := by
  have htrim : memberTexts (trim text.toList) = memberTexts text.toList :=
    blind_memberTexts.trim_eq _
  rw [← htrim, ← mapM_parseGroup_eq_ok_iff text]
  unfold parse trimmed
  dsimp only
  split
  next hempty =>
    have hnone : (pieces ',' (trim text.toList)).mapM (parseGroup text) ≠
        .ok requirement.groups := by
      rw [List.isEmpty_iff.1 hempty, ne_eq, mapM_parseGroup_eq_ok_iff]
      exact not_names_nil
    simp [hnone, throw, throwThe, MonadExceptOf.throw, bind, Except.bind]
  next hempty =>
    cases (pieces ',' (trim text.toList)).mapM (parseGroup text) with
    | error e => simp [bind, Except.bind]
    | ok groups =>
      have heq : (⟨groups, String.ofList (trim text.toList)⟩ : Requirement) = requirement ↔
          groups = requirement.groups ∧ requirement.text = String.ofList (trim text.toList) := by
        cases requirement
        rw [Requirement.mk.injEq]
        exact and_congr_right fun _ => eq_comm
      simpa [bind, Except.bind, pure, Except.pure] using heq

/-! ### Texts with a separator between them -/

theorem memberTexts_comma (cs ds : List Char) :
    memberTexts (cs ++ ',' :: ds) = memberTexts cs ++ memberTexts ds := by
  rw [memberTexts, pieces_append, List.map_append, memberTexts, memberTexts]

theorem memberTexts_of_not_mem {cs : List Char} (h : ',' ∉ cs) :
    memberTexts cs = [(pieces '+' cs).map trim] := by
  rw [memberTexts, pieces_of_not_mem h, List.map_singleton]

/-- The entry of a table is read as that entry alone. -/
theorem memberTexts_of_mem {cs member : List Char} {row : List (List Char)}
    (hrow : row ∈ memberTexts cs) (hmember : member ∈ row) : memberTexts member = [[member]] := by
  obtain ⟨group, hgroup, rfl⟩ := List.mem_map.1 hrow
  obtain ⟨piece, hpiece, rfl⟩ := List.mem_map.1 hmember
  obtain ⟨hplus, hsub⟩ := of_mem_pieces hpiece
  have hcomma : ',' ∉ piece := fun hin => (of_mem_pieces hgroup).1 (hsub hin)
  rw [blind_memberTexts.trim_eq, memberTexts_of_not_mem hcomma, pieces_of_not_mem hplus,
    List.map_singleton]

/-- Outcomes depend on the names only. -/
theorem outcome_congr {groups : List (List QualifiedName)} (text text' : String) :
    outcome ⟨groups, text⟩ r calls = outcome ⟨groups, text'⟩ r calls :=
  rfl

theorem outcome_append {groups groups' : List (List QualifiedName)} (text text' text'' : String) :
    outcome ⟨groups ++ groups', text⟩ r calls =
      max (outcome ⟨groups, text'⟩ r calls) (outcome ⟨groups', text''⟩ r calls) := by
  refine eq_of_levels fun level hlevel => ?_
  rw [le_max_iff, le_outcome_iff hlevel, le_outcome_iff hlevel, le_outcome_iff hlevel]
  simp only [isMet, List.any_append, Bool.or_eq_true]

theorem outcome_group_append {group group' : List QualifiedName} (text text' text'' : String) :
    outcome ⟨[group ++ group'], text⟩ r calls =
      min (outcome ⟨[group], text'⟩ r calls) (outcome ⟨[group'], text''⟩ r calls) := by
  refine eq_of_levels fun level hlevel => ?_
  rw [le_min_iff, le_outcome_iff hlevel, le_outcome_iff hlevel, le_outcome_iff hlevel]
  simp only [isMet, List.any_cons, List.any_nil, Bool.or_false, List.all_append, Bool.and_eq_true]

def Evaluates (r : Resolution) (calls : List CallSite) (text : String) (outcome : Outcome) : Prop :=
  ∃ requirement, parse text = .ok requirement ∧ requirement.outcome r calls = outcome

namespace Evaluates

theorem comma (ha : Evaluates r calls a x) (hb : Evaluates r calls b y) :
    Evaluates r calls (a ++ "," ++ b) (max x y) := by
  obtain ⟨p, hp, rfl⟩ := ha
  obtain ⟨q, hq, rfl⟩ := hb
  obtain ⟨hp, -⟩ := parse_eq_ok_iff.1 hp
  obtain ⟨hq, -⟩ := parse_eq_ok_iff.1 hq
  refine ⟨⟨p.groups ++ q.groups, _⟩, parse_eq_ok_iff.2 ⟨?_, rfl⟩, outcome_append _ _ _⟩
  have hlist : (a ++ "," ++ b).toList = a.toList ++ ',' :: b.toList := by simp
  rw [hlist, memberTexts_comma]
  exact List.rel_append hp hq

/-- A sum of two requirements has the worse of their outcomes. -/
theorem plus (ha : Evaluates r calls a x) (hb : Evaluates r calls b y) (hca : ',' ∉ a.toList)
    (hcb : ',' ∉ b.toList) : Evaluates r calls (a ++ "+" ++ b) (min x y) := by
  obtain ⟨⟨groups, _⟩, hp, rfl⟩ := ha
  obtain ⟨⟨groups', _⟩, hq, rfl⟩ := hb
  obtain ⟨hp, -⟩ := parse_eq_ok_iff.1 hp
  obtain ⟨hq, -⟩ := parse_eq_ok_iff.1 hq
  rw [memberTexts_of_not_mem hca] at hp
  rw [memberTexts_of_not_mem hcb] at hq
  obtain ⟨group, _, hgroup, hnil, rfl⟩ := List.forall₂_cons_left_iff.1 hp
  obtain rfl := List.forall₂_nil_left_iff.1 hnil
  obtain ⟨group', _, hgroup', hnil, rfl⟩ := List.forall₂_cons_left_iff.1 hq
  obtain rfl := List.forall₂_nil_left_iff.1 hnil
  refine ⟨⟨[group ++ group'], _⟩, parse_eq_ok_iff.2 ⟨?_, rfl⟩, outcome_group_append _ _ _⟩
  have hlist : (a ++ "+" ++ b).toList = a.toList ++ '+' :: b.toList := by simp
  have hcomma : ',' ∉ a.toList ++ '+' :: b.toList := by simp [hca, hcb]
  rw [hlist, memberTexts_of_not_mem hcomma, pieces_append, List.map_append]
  exact .cons (List.rel_append hgroup hgroup') .nil

/-- A name is a requirement of its own. -/
theorem member {member : List Char} {name : QualifiedName}
    (hmember : memberTexts member = [[member]]) (hname : QualifiedName.ofChars member = some name) :
    Evaluates r calls (String.ofList member) ((single name).outcome r calls) := by
  refine ⟨⟨[[name]], _⟩, parse_eq_ok_iff.2 ⟨?_, rfl⟩, outcome_congr _ name.display⟩
  rw [String.toList_ofList, hmember]
  exact .cons (.cons hname .nil) .nil

/-- The outcome of a text is the best of its rows, each with the worst outcome of its entries. -/
theorem best_worst (h : Evaluates r calls text x) : ∃ rows : List (List Outcome),
    List.Forall₂
      (List.Forall₂ fun member outcome => Evaluates r calls (String.ofList member) outcome)
      (memberTexts text.toList) rows ∧ x = best (rows.map worst) := by
  obtain ⟨requirement, hparse, rfl⟩ := h
  obtain ⟨hnames, -⟩ := parse_eq_ok_iff.1 hparse
  refine ⟨requirement.groups.map fun group => group.map fun name =>
    (single name).outcome r calls, ?_, ?_⟩
  · rw [List.forall₂_map_right_iff]
    refine ((List.forall₂_and_left _ _).2 ⟨fun _ => id, hnames⟩).imp fun row group hrow => ?_
    obtain ⟨hrow, hgroup⟩ := hrow
    rw [List.forall₂_map_right_iff]
    refine ((List.forall₂_and_left _ _).2 ⟨fun _ => id, hgroup⟩).imp fun entry name hentry => ?_
    exact .member (memberTexts_of_mem hrow hentry.1) hentry.2
  · rw [outcome_eq_best_worst, List.map_map]
    rfl

theorem mono (h : Evaluates r calls text x) (h' : Evaluates r calls' text y)
    (hwithin : ∀ level, Within (counted level calls) (counted level calls')) : x ≤ y := by
  obtain ⟨requirement, hparse, rfl⟩ := h
  obtain ⟨requirement', hparse', rfl⟩ := h'
  obtain rfl : requirement = requirement' := Except.ok.inj (hparse.symm.trans hparse')
  exact outcome_mono hwithin

end Evaluates

/-- A comma between texts takes the better outcome, and a plus sign between single groups the worse.
So the outcome of a text is the best over its groups of the worst over their members. More calls
never make it worse, and it never gets better when a call becomes deferred. -/
theorem evaluates_text (r : Resolution) (calls : List CallSite) :
    (∀ a b x y, Evaluates r calls a x → Evaluates r calls b y →
      Evaluates r calls (a ++ "," ++ b) (max x y) ∧
      (',' ∉ a.toList → ',' ∉ b.toList → Evaluates r calls (a ++ "+" ++ b) (min x y))) ∧
    ∀ text x, Evaluates r calls text x →
      (∃ rows : List (List Outcome),
        List.Forall₂
          (List.Forall₂ fun member outcome => Evaluates r calls (String.ofList member) outcome)
          (memberTexts text.toList) rows ∧ x = best (rows.map worst)) ∧
      (∀ calls' y, calls ⊆ calls' → Evaluates r calls' text y → x ≤ y) ∧
      ∀ before site after y, calls = before ++ site :: after →
        Evaluates r (before ++ site.postponed :: after) text y → y ≤ x := by
  refine ⟨fun a b x y ha hb => ⟨ha.comma hb, ha.plus hb⟩, fun text x h => ⟨h.best_worst, ?_, ?_⟩⟩
  · exact fun calls' y hsub h' => h.mono h' (within_counted_of_subset hsub)
  · rintro before site after y rfl h'
    exact h'.mono h (within_counted_of_postponed before after site)

def startAndEnd : String :=
  "package p\nfunc run() \x7b\n\tStart()\n\tdefer End()\n\x7d\n"

def evaluates (r : Resolution) (calls : List CallSite) (text : String) (outcome : Outcome) : Bool :=
  match parse text with
  | .ok requirement => requirement.outcome r calls == outcome
  | .error _ => false

theorem Evaluates.of_evaluates (h : evaluates r calls text x = true) :
    Evaluates r calls text x := by
  unfold evaluates at h
  split at h
  next requirement hparse => exact ⟨requirement, hparse, eq_of_beq h⟩
  next => cases h

theorem evaluates_text_startAndEnd :
    let r := Resolution.ofFile (Syntax.parse startAndEnd)
    let calls := CallSite.ofBody (Syntax.parse startAndEnd)
    Evaluates r calls " Start + End" .deferred ∧ Evaluates r calls "Other " .missing ∧
      Evaluates r calls " Start + End,Other " .deferred ∧
        Evaluates r calls " Start + End+Other " .missing := by
  intro r calls
  have hgroup : Evaluates r calls " Start + End" .deferred := .of_evaluates (by decide +kernel)
  have hother : Evaluates r calls "Other " .missing := .of_evaluates (by decide +kernel)
  obtain ⟨hcomma, hplus⟩ := (evaluates_text r calls).1 _ _ _ _ hgroup hother
  exact ⟨hgroup, hother, hcomma, hplus (by decide) (by decide)⟩

end Requirement

end Handoff
