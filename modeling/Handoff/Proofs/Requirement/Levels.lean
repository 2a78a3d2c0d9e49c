import Handoff.Requirement.Outcome
import Mathlib.Data.List.Basic
import Mathlib.Order.MinMax

/-!
# Outcomes by level

Outcomes are ordered from worst to best. An outcome is known from the levels that it reaches, and
the outcome of a requirement reaches a level when the calls that count there meet it: all calls in
the one case, those outside `defer` in the other. So requirements are evaluated level by level, and
the outcome is the best of the alternatives, each as good as the worst of its members.

## Main definitions

* `CallSite.counted`: the calls that count at a level.
* `Outcome.best`, `Outcome.worst`: the maximum and the minimum of a list.

## Main statements

* `Requirement.le_outcome_iff`: when an outcome reaches a level.
* `Requirement.outcome_eq_best_worst`: the outcome as a maximum of minima.
* `Requirement.outcome_mono`: more calls, or calls that are no longer deferred, never make it worse.
-/

namespace Handoff

open Syntax

variable {level a b : Outcome} {r : Resolution} {calls calls' : List CallSite}
  {requirement : Requirement} {name : QualifiedName}

namespace Outcome

theorem rank_injective : Function.Injective rank := by
  intro a b h
  cases a <;> cases b <;> first | rfl | cases h

instance : LinearOrder Outcome where
  le_refl a := Nat.le_refl a.rank
  le_trans _ _ _ := Nat.le_trans
  le_antisymm _ _ h h' := rank_injective (Nat.le_antisymm h h')
  le_total a b := Nat.le_total a.rank b.rank
  toDecidableLE := inferInstance

theorem missing_le (a : Outcome) : missing ≤ a :=
  Nat.zero_le a.rank

theorem le_atStart (a : Outcome) : a ≤ atStart := by
  cases a <;> decide

theorem le_missing_iff : a ≤ missing ↔ a = missing :=
  ⟨fun h => le_antisymm h (missing_le a), fun h => h.le⟩

/-- An outcome that reaches all levels of another is no worse. -/
theorem le_of_levels (h : ∀ level ≠ missing, level ≤ a → level ≤ b) : a ≤ b := by
  by_cases ha : a = missing
  · exact ha ▸ missing_le b
  · exact h a ha le_rfl

theorem eq_of_levels (h : ∀ level ≠ missing, level ≤ a ↔ level ≤ b) : a = b :=
  le_antisymm (le_of_levels fun level hlevel => (h level hlevel).1)
    (le_of_levels fun level hlevel => (h level hlevel).2)

def best (outcomes : List Outcome) : Outcome :=
  outcomes.foldr max .missing

def worst (outcomes : List Outcome) : Outcome :=
  outcomes.foldr min .atStart

theorem le_best_iff {outcomes : List Outcome} (hlevel : level ≠ missing) :
    level ≤ best outcomes ↔ ∃ o ∈ outcomes, level ≤ o := by
  induction outcomes with
  | nil => simpa [best, le_missing_iff] using hlevel
  | cons o outcomes ih =>
    have hcons : best (o :: outcomes) = max o (best outcomes) := rfl
    rw [hcons, le_max_iff, ih, List.exists_mem_cons_iff]

theorem le_worst_iff {outcomes : List Outcome} : level ≤ worst outcomes ↔
    ∀ o ∈ outcomes, level ≤ o := by
  induction outcomes with
  | nil => simp [worst, le_atStart]
  | cons o outcomes ih =>
    have hcons : worst (o :: outcomes) = min o (worst outcomes) := rfl
    rw [hcons, le_min_iff, ih, List.forall_mem_cons]

end Outcome

namespace CallSite

/-- The calls that count at a level: at the start those outside `defer`, else all of them. -/
def counted (level : Outcome) (calls : List CallSite) : List CallSite :=
  if level = .atStart then calls.filter fun site => !site.deferred else calls

def Within (calls calls' : List CallSite) : Prop :=
  ∀ site ∈ calls, ∃ site' ∈ calls', site'.call = site.call

end CallSite

namespace Requirement

open Outcome CallSite

theorem isCalled_of_within (h : Within calls calls') (hcalled : isCalled r calls name = true) :
    isCalled r calls' name = true := by
  obtain ⟨site, hsite, hcall⟩ := List.any_eq_true.1 hcalled
  obtain ⟨site', hsite', heq⟩ := h site hsite
  exact List.any_eq_true.2 ⟨site', hsite', heq ▸ hcall⟩

theorem isMet_of_within (h : Within calls calls') (hmet : requirement.isMet r calls = true) :
    requirement.isMet r calls' = true := by
  obtain ⟨group, hgroup, hall⟩ := List.any_eq_true.1 hmet
  refine List.any_eq_true.2 ⟨group, hgroup, List.all_eq_true.2 fun name hname => ?_⟩
  exact isCalled_of_within h (List.all_eq_true.1 hall name hname)

/-- The outcome reaches a level when the calls that count there meet the requirement. -/
theorem le_outcome_iff (hlevel : level ≠ .missing) :
    level ≤ requirement.outcome r calls ↔ requirement.isMet r (counted level calls) = true := by
  have hsub : requirement.isMet r (calls.filter fun site => !site.deferred) = true →
      requirement.isMet r calls = true :=
    isMet_of_within fun site hsite => ⟨site, List.mem_of_mem_filter hsite, rfl⟩
  unfold outcome
  cases level with
  | missing => exact absurd rfl hlevel
  | deferred =>
    have hcounted : counted .deferred calls = calls := rfl
    rw [hcounted]
    split
    next hstart => exact iff_of_true (by decide) (hsub hstart)
    next =>
      split
      next hmet => exact iff_of_true le_rfl hmet
      next hmet => exact iff_of_false (by decide) hmet
  | atStart =>
    have hcounted : counted .atStart calls = calls.filter fun site => !site.deferred := rfl
    rw [hcounted]
    split
    next hstart => exact iff_of_true le_rfl hstart
    next hstart =>
      refine iff_of_false ?_ hstart
      split <;> decide

def single (name : QualifiedName) : Requirement :=
  ⟨[[name]], name.display⟩

theorem le_outcome_single_iff (hlevel : level ≠ .missing) :
    level ≤ (single name).outcome r calls ↔ isCalled r (counted level calls) name = true := by
  rw [le_outcome_iff hlevel]
  simp [isMet, single]

/-- The outcome is the best of the alternatives, each as good as the worst of its members. -/
theorem outcome_eq_best_worst (requirement : Requirement) (r : Resolution) (calls : List CallSite) :
    requirement.outcome r calls = best (requirement.groups.map fun group =>
      worst (group.map fun name => (single name).outcome r calls)) := by
  refine eq_of_levels fun level hlevel => ?_
  rw [le_outcome_iff hlevel, le_best_iff hlevel, isMet, List.any_eq_true]
  simp only [List.mem_map, exists_exists_and_eq_and, le_worst_iff, forall_exists_index, and_imp,
    forall_apply_eq_imp_iff₂, le_outcome_single_iff hlevel, List.all_eq_true]

theorem outcome_mono (h : ∀ level, Within (counted level calls) (counted level calls')) :
    requirement.outcome r calls ≤ requirement.outcome r calls' := by
  refine le_of_levels fun level hlevel => ?_
  rw [le_outcome_iff hlevel, le_outcome_iff hlevel]
  exact isMet_of_within (h level)

end Requirement

end Handoff
