import Mathlib.Logic.Function.Basic
import Mathlib.Order.Nat

namespace Thermometer.Lib.Tally

variable {A : Type} {p : A → Bool} {n i : Nat} {f : Nat → A} {x : A}

def tally (p : A → Bool) (n : Nat) (f : Nat → A) : Nat := (List.range n).countP (fun i => p (f i))

theorem tally_succ : tally p (n + 1) f = tally p n f + if p (f n) then 1 else 0 := by
  simp only [tally, List.range_succ, List.countP_append, List.countP_singleton]

theorem tally_update_out (h : n ≤ i) : tally p n (Function.update f i x) = tally p n f := by
  apply List.countP_congr
  intro j hj
  rw [Function.update_of_ne (Nat.ne_of_lt (Nat.lt_of_lt_of_le (List.mem_range.mp hj) h))]

theorem tally_update (h : i < n) :
    tally p n (Function.update f i x) + (if p (f i) then 1 else 0) = tally p n f + if p x then 1 else 0 := by
  induction n with
  | zero => cases h
  | succ n ih =>
      simp only [tally_succ]
      by_cases hi : i = n
      · subst hi
        rw [tally_update_out le_rfl, Function.update_self]
        omega
      · have hbefore := ih (Nat.lt_of_le_of_ne (Nat.le_of_lt_succ h) hi)
        rw [Function.update_of_ne (Ne.symm hi)]
        omega

theorem tally_pos (h : i < n) (hp : p (f i) = true) : 0 < tally p n f := by
  rw [tally, List.countP_pos_iff]
  exact ⟨i, List.mem_range.mpr h, hp⟩

theorem tally_eq_zero (h : ∀ i, i < n → p (f i) = false) : tally p n f = 0 := by
  rw [tally, List.countP_eq_zero]
  intro i hi
  rw [h i (List.mem_range.mp hi)]
  exact Bool.false_ne_true

end Thermometer.Lib.Tally
