/-!
# Search by halving

The first index at which a test holds, for a test that holds at every later index too. The main
statements say that the test fails before the index found and holds at it.
-/

namespace TokenRing

/-- The first index from `low` on at which `test` holds, or `high` if it holds at none before. -/
def bisect (test : Nat → Bool) (low high : Nat) : Nat :=
  if low < high then
    let middle := (low + high) / 2
    if test middle then bisect test low middle else bisect test (middle + 1) high
  else low
termination_by high - low
decreasing_by all_goals omega

variable {test : Nat → Bool}

theorem bisect_le {low high : Nat} (h : low ≤ high) : bisect test low high ≤ high := by
  fun_induction bisect test low high with
  | case1 low high lt middle holds ih => exact Nat.le_trans (ih (by omega)) (by omega)
  | case2 low high lt middle fails ih => exact ih (by omega)
  | case3 low high not_lt => exact h

/-- The test holds at the index that is found, unless the search ran off the end. -/
theorem test_bisect {low high : Nat} (h : bisect test low high < high) :
    test (bisect test low high) = true := by
  fun_induction bisect test low high with
  | case1 low high lt middle holds ih =>
    by_cases found : bisect test low middle < middle
    · exact ih found
    · rwa [Nat.le_antisymm (bisect_le (by omega)) (Nat.not_lt.1 found)]
  | case2 low high lt middle fails ih => exact ih h
  | case3 low high not_lt => exact absurd h not_lt

/-- A test that stays true once it is true fails at all indices before the one that is found. -/
theorem not_test_of_lt_bisect (monotone : ∀ i j, i ≤ j → test i = true → test j = true)
    {low high i : Nat} (low_le : low ≤ i) (h : i < bisect test low high) : test i = false := by
  fun_induction bisect test low high with
  | case1 low high lt middle holds ih => exact ih low_le h
  | case2 low high lt middle fails ih =>
    by_cases le : i ≤ middle
    · cases holds : test i with
      | false => rfl
      | true => exact absurd (monotone i middle le holds) fails
    · exact ih (by omega) h
  | case3 low high not_lt => omega

end TokenRing
