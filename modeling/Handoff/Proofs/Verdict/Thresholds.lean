import Handoff.Proofs.Requirement.Levels
import Handoff.Proofs.Verdict.Parametric
import Mathlib.Data.Bool.Basic
import Mathlib.Order.Lattice

/-!
# Outcomes by two searches for a yes or no

A search for an outcome combines the outcomes of the functions it reaches by minimum and maximum.
Whether an outcome is good enough is a monotone question, and monotone questions commute with both.
So the question may be asked of each function instead, in a search that combines yes and no, and the
answer is the same.

## Main definitions

* `thresholdTest`: is the outcome of a function good enough?

## Main statements

* `Search.search_thresholdTest`: asking early and asking late is the same, for every monotone
  question.
* `Search.outcome_by_thresholds`: the answers of a search for an outcome, by two searches for a yes
  or no.
-/

namespace Handoff

open Syntax

variable {r : Resolution} {requirement : Requirement} {passes : Outcome → Bool}

/-- Is the outcome of a function good enough? A function without a body passes. -/
def thresholdTest (r : Resolution) (requirement : Requirement) (passes : Outcome → Bool) :
    ClosureTest Bool where
  function f :=
    match f.child? .body with
    | some body => passes (requirement.outcome r (CallSite.ofBody body))
    | none => true
  factoryArguments _ := none

namespace Outcome

/-- A question that what is assumed passes, and every outcome that is better than one that
passes. -/
structure IsThreshold (passes : Outcome → Bool) : Prop where
  atStart : passes .atStart = true
  monotone : Monotone passes

namespace IsThreshold

/-- A threshold commutes with the ways to combine answers. -/
theorem respects (h : IsThreshold passes) :
    Verdict.Respects (fun (outcome : Outcome) (answer : Bool) => passes outcome = answer) where
  assumed := h.atStart
  both {a b c d} ha hb := by
    calc passes (min a b)
        = min (passes a) (passes b) := h.monotone.map_min
      _ = (c && d) := by rw [ha, hb]; rfl
  either {a b c d} ha hb := by
    calc passes (max a b)
        = max (passes a) (passes b) := h.monotone.map_max
      _ = (c || d) := by rw [ha, hb]; rfl

theorem related (h : IsThreshold passes) :
    ClosureTest.Related (fun outcome answer => passes outcome = answer) (outcomeTest r requirement)
      (thresholdTest r requirement passes) where
  function f := by
    dsimp only [outcomeTest, thresholdTest]
    cases f.child? .body with
    | some body => rfl
    | none => exact h.atStart
  factoryArguments _ := .inl .none

end IsThreshold

theorem atStart_le_iff (outcome : Outcome) : .atStart ≤ outcome ↔ (outcome == .atStart) = true := by
  cases outcome <;> decide

theorem deferred_le_iff (outcome : Outcome) : .deferred ≤ outcome ↔
    (outcome != .missing) = true := by
  cases outcome <;> decide

/-- To ask for a level is a threshold. -/
theorem isThreshold_of_le_iff {level : Outcome}
    (h : ∀ outcome, level ≤ outcome ↔ passes outcome = true) : IsThreshold passes where
  atStart := (h .atStart).1 (le_atStart level)
  monotone a b hab := Bool.le_iff_imp.2 fun ha => (h b).1 (((h a).2 ha).trans hab)

end Outcome

namespace Search

open Outcome

/-- Whatever is searched for and however deep, the outcome passes a threshold just when a search for
functions that pass it finds so. -/
theorem search_thresholdTest (h : IsThreshold passes) (depth : Nat) (goal : Goal) (expr site : Node)
    (visited : List Nat) :
    passes (search r (outcomeTest r requirement) depth goal expr site visited) =
      search r (thresholdTest r requirement passes) depth goal expr site visited :=
  search_related h.respects h.related depth goal expr site visited

/-- A search for an outcome is two searches for a yes or no, for a closure and for a callback
alike. -/
theorem outcome_by_thresholds (r : Resolution) (requirement : Requirement) :
    (∀ expr site : Node,
      (closure r (outcomeTest r requirement) expr site = .atStart ↔
        closure r (thresholdTest r requirement (· == .atStart)) expr site = true) ∧
      (.deferred ≤ closure r (outcomeTest r requirement) expr site ↔
        closure r (thresholdTest r requirement (· != .missing)) expr site = true)) ∧
    ∀ (spawner : Spawner) (c : Callback) (call : Node),
      (callback r (outcomeTest r requirement) spawner c call = .atStart ↔
        callback r (thresholdTest r requirement (· == .atStart)) spawner c call = true) ∧
      (.deferred ≤ callback r (outcomeTest r requirement) spawner c call ↔
        callback r (thresholdTest r requirement (· != .missing)) spawner c call = true) := by
  unfold closure callback
  refine ⟨fun expr site => ⟨?_, ?_⟩, fun spawner c call => ⟨?_, ?_⟩⟩
  · rw [← search_thresholdTest (isThreshold_of_le_iff atStart_le_iff), beq_iff_eq]
  · rw [← search_thresholdTest (isThreshold_of_le_iff deferred_le_iff), deferred_le_iff]
  · rw [← search_thresholdTest (isThreshold_of_le_iff atStart_le_iff), beq_iff_eq]
  · rw [← search_thresholdTest (isThreshold_of_le_iff deferred_le_iff), deferred_le_iff]

end Search

end Handoff
