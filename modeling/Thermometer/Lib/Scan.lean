import Mathlib.Data.List.Basic

namespace Thermometer.Lib.Scan

/-- The index a left-to-right scan ends on when it moves only to strictly
smaller values. -/
def firstMin (f : Nat → Nat) (n : Nat) : Nat :=
  (List.range n).foldl (fun w i => if f i < f w then i else w) 0

theorem firstMin_succ (f : Nat → Nat) (n : Nat) :
    firstMin f (n + 1) = if f n < f (firstMin f n) then n else firstMin f n := by
  rw [firstMin, List.range_succ, List.foldl_append]
  rfl

theorem firstMin_lt (f : Nat → Nat) {n : Nat} (h : 0 < n) : firstMin f n < n := by
  induction n with
  | zero => omega
  | succ n ih =>
      rw [firstMin_succ]
      split_ifs
      · omega
      · cases n with
        | zero => simp [firstMin]
        | succ n => exact Nat.lt_succ_of_lt (ih (by omega))

theorem firstMin_le (f : Nat → Nat) {n i : Nat} (hi : i < n) : f (firstMin f n) ≤ f i := by
  induction n with
  | zero => omega
  | succ n ih =>
      rw [firstMin_succ]
      rcases Nat.lt_succ_iff_lt_or_eq.mp hi with h | rfl
      · have := ih h
        split_ifs <;> omega
      · split_ifs <;> omega

theorem lt_of_lt_firstMin (f : Nat → Nat) {n i : Nat} (hi : i < firstMin f n) :
    f (firstMin f n) < f i := by
  induction n with
  | zero => simp [firstMin] at hi
  | succ n ih =>
      rw [firstMin_succ] at hi ⊢
      split_ifs at hi ⊢ with hc
      · exact Nat.lt_of_lt_of_le hc (firstMin_le f hi)
      · exact ih hi

end Thermometer.Lib.Scan
