import Mathlib.Algebra.Order.BigOperators.Group.List
import Mathlib.Algebra.Order.Group.Defs

/-!
# Streaks

What the entries of a history add up to since the last one that does not count. The history has its last entry first.
-/

namespace Streak

variable {α M : Type*} [AddCommMonoid M]

/-- The sum over the longest run of last entries that count. -/
def total (counts : α → Bool) (amount : α → M) (history : List α) : M := ((history.takeWhile counts).map amount).sum

variable {counts : α → Bool} {amount : α → M} {a : α} {history : List α}

@[simp] theorem total_nil : total counts amount [] = 0 := rfl

theorem total_cons_of_counts (h : counts a = true) :
    total counts amount (a :: history) = amount a + total counts amount history := by
  rw [total, List.takeWhile_cons_of_pos h, List.map_cons, List.sum_cons, total]

theorem total_cons_of_not_counts (h : counts a = false) : total counts amount (a :: history) = 0 := by
  rw [total, List.takeWhile_cons_of_neg (by rw [h]; exact Bool.false_ne_true), List.map_nil, List.sum_nil]

theorem total_nonneg [PartialOrder M] [IsOrderedAddMonoid M] (hamount : ∀ a, counts a = true → 0 ≤ amount a)
    (history : List α) : 0 ≤ total counts amount history := by
  induction history with
  | nil => exact le_rfl
  | cons a history ih =>
    cases h : counts a with
    | true =>
      rw [total_cons_of_counts h]
      exact add_nonneg (hamount a h) ih
    | false => rw [total_cons_of_not_counts h]

end Streak
