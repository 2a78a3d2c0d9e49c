/-!
# Sets of code points

A property of the Unicode standard is a list of closed intervals of code points. Membership is a
scan of the list.
-/

namespace Handoff.Text

/-- A set of code points, as closed intervals in increasing order. -/
abbrev CodePoints := List (Nat × Nat)

namespace CodePoints

/-- Whether a character lies in one of the intervals. -/
def has (set : CodePoints) (c : Char) : Bool :=
  set.any fun (low, high) => low ≤ c.toNat && c.toNat ≤ high

@[simp]
theorem has_nil (c : Char) : has [] c = false := rfl

theorem has_cons (low high : Nat) (set : CodePoints) (c : Char) :
    has ((low, high) :: set) c = (decide (low ≤ c.toNat ∧ c.toNat ≤ high) || has set c) := by
  simp [has]

end CodePoints

end Handoff.Text
