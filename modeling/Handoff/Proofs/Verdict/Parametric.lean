import Handoff.Verdict.Search
import Mathlib.Data.List.Forall2

/-!
# Searches with related answers

A search does not look at the answers that it combines. So two searches of one file, with two tests
and two kinds of verdicts, give related answers whenever the tests do and combining keeps the
relation. One search may even stop early: where its test answers for the arguments of a factory
call, that answer only has to be related to all others.

## Main definitions

* `Verdict.Respects`: combining answers keeps a relation between them.
* `ClosureTest.Related`: two tests give related answers.

## Main statements

* `Search.search_related`: searches with related tests give related answers.
-/

namespace Handoff

open Syntax

section Combining

variable {V W : Type} [Verdict V] [Verdict W] {R : V → W → Prop}

structure Verdict.Respects (R : V → W → Prop) : Prop where
  assumed : R Verdict.assumed Verdict.assumed
  both {a b : V} {c d : W} : R a c → R b d → R (Verdict.both a b) (Verdict.both c d)
  either {a b : V} {c d : W} : R a c → R b d → R (Verdict.either a b) (Verdict.either c d)

namespace Verdict.Respects

theorem all (h : Respects R) {xs : List V} {ys : List W} (hxs : List.Forall₂ R xs ys) :
    R (Verdict.all xs) (Verdict.all ys) :=
  List.rel_foldl (P := R) (R := R) (fun _ _ ha _ _ hb => h.both ha hb) h.assumed hxs

theorem some (h : Respects R) {xs : List V} {ys : List W} (hxs : List.Forall₂ R xs ys) :
    R (Verdict.some xs) (Verdict.some ys) := by
  cases hxs with
  | nil => exact h.assumed
  | cons hx hxs =>
    exact List.rel_foldl (P := R) (R := R) (fun _ _ ha _ _ hb => h.either ha hb) hx hxs

end Verdict.Respects

end Combining

variable {V W : Type} {R : V → W → Prop}

/-- Two tests give related answers. The second may answer for the arguments of a factory call where
the first does not, with an answer that all answers are related to. -/
structure ClosureTest.Related (R : V → W → Prop) (test : ClosureTest V)
    (test' : ClosureTest W) : Prop where
  function (f : Node) : R (test.function f) (test'.function f)
  factoryArguments (call : Node) :
    Option.Rel R (test.factoryArguments call) (test'.factoryArguments call) ∨
      ∃ answer, test'.factoryArguments call = some answer ∧ ∀ a, R a answer

namespace Search

def Follow.Related (R : V → W → Prop) (next : Follow V) (next' : Follow W) : Prop :=
  ∀ goal expr site visited, R (next goal expr site visited) (next' goal expr site visited)

/-- Related answers on the members of one list. -/
theorem related_map {α : Type} {f : α → V} {g : α → W} (h : ∀ x, R (f x) (g x)) (xs : List α) :
    List.Forall₂ R (xs.map f) (xs.map g) := by
  rw [List.forall₂_map_left_iff, List.forall₂_map_right_iff, List.forall₂_same]
  exact fun x _ => h x

section Steps

variable [Verdict V] [Verdict W] {r : Resolution} {test : ClosureTest V} {test' : ClosureTest W}
  {next : Follow V} {next' : Follow W} {expr site : Node} {visited : List Nat}
  (hR : Verdict.Respects R)

include hR

/-- Writes that are followed alike give related answers. -/
theorem throughBinding_related {ident : Node} {supplies : Nat → Binding → List Supply}
    {follow : Node → Node → List Nat → V} {follow' : Node → Node → List Nat → W}
    (hfollow : ∀ value site visited, R (follow value site visited) (follow' value site visited)) :
    R (throughBinding r ident site visited supplies follow)
      (throughBinding r ident site visited supplies follow') := by
  unfold throughBinding
  split
  · exact hR.assumed
  · extract_lets isVariable
    split
    · exact hR.assumed
    · refine hR.all (related_map (fun s => ?_) _)
      split
      · exact hfollow _ _ _
      · exact hR.assumed

variable (hnext : Follow.Related R next next')

include hnext

theorem memberOf_related {key : Key} {value : Node} :
    R (memberOf next key value site visited) (memberOf next' key value site visited) := by
  unfold memberOf
  extract_lets value
  split
  · split
    · exact hnext _ _ _ _
    · exact hR.assumed
  · split
    · exact hnext _ _ _ _
    · exact hR.assumed

theorem member_related :
    R (member r next expr site visited) (member r next' expr site visited) := by
  unfold member
  split
  · extract_lets base
    split
    · split
      · exact hnext _ _ _ _
      · exact hR.assumed
    · exact throughBinding_related hR fun _ _ _ => memberOf_related hR hnext
    · exact hR.assumed
  · exact hR.assumed

theorem taskStep_related {wrapper : TaskConstructor} :
    R (taskStep r next wrapper expr site visited) (taskStep r next' wrapper expr site visited) := by
  unfold taskStep
  extract_lets expr
  split
  · split
    · split
      · exact hnext _ _ _ _
      · exact hR.assumed
    · exact hR.assumed
  · exact throughBinding_related hR (hnext _)
  · exact hR.assumed

theorem collectionStep_related {wrapper : Option TaskConstructor} :
    R (collectionStep r next wrapper expr site visited)
      (collectionStep r next' wrapper expr site visited) := by
  unfold collectionStep
  extract_lets expr
  split
  · split
    · exact hR.assumed
    · exact hR.all (related_map (fun _ => hnext _ _ _ _) _)
  · split
    · refine hR.all (related_map (fun argument => ?_) _)
      split
      · split
        · exact hnext _ _ _ _
        · exact hR.assumed
      · exact hnext _ _ _ _
    · exact hR.assumed
  · exact throughBinding_related hR (hnext _)
  · exact hR.assumed

variable (htest : ClosureTest.Related R test test')

include htest

theorem identifier_related {ident : Node} :
    R (identifier r test next ident site visited)
      (identifier r test' next' ident site visited) := by
  unfold identifier
  split
  · exact htest.function _
  · exact throughBinding_related hR (hnext .closure)

theorem factoryCall_related {depth : Nat} {call : Node} :
    R (factoryCall r test next depth call visited)
      (factoryCall r test' next' depth call visited) := by
  unfold factoryCall
  obtain harguments | ⟨answer, hanswer, hall⟩ := htest.factoryArguments call
  · revert harguments
    generalize test.factoryArguments call = found, test'.factoryArguments call = found'
    rintro (h | _)
    · exact h
    · dsimp only
      split
      · exact hR.assumed
      · split
        · exact hR.assumed
        · refine hR.some (List.rel_flatMap (R := Eq) (List.forall₂_refl _) ?_)
          rintro f _ rfl
          exact related_map (fun _ => hnext _ _ _ _) _
  · rw [hanswer]
    exact hall _

/-- One level of a search for a closure gives related answers. -/
theorem closureStep_related {depth : Nat} :
    R (closureStep r test next depth expr site visited)
      (closureStep r test' next' depth expr site visited) := by
  unfold closureStep
  extract_lets expr
  split
  · exact htest.function _
  · exact identifier_related hR hnext htest
  · exact factoryCall_related hR hnext htest
  · exact member_related hR hnext
  · exact member_related hR hnext
  · exact hR.assumed

omit hnext in
/-- Searches with related tests give related answers. -/
theorem search_related (depth : Nat) :
    Follow.Related R (search r test depth) (search r test' depth) := by
  induction depth with
  | zero => exact fun _ _ _ _ => hR.assumed
  | succ depth ih =>
    intro goal expr site visited
    cases goal with
    | closure => exact closureStep_related hR ih htest
    | task wrapper => exact taskStep_related hR ih
    | collection wrapper => exact collectionStep_related hR ih

end Steps

end Search

end Handoff
