import Mathlib.Algebra.Ring.Nat
import Mathlib.Logic.Function.Iterate
import Thermometer.Lib.Rings

namespace Thermometer.Lib.Stacks

open Rings

variable {A : Type}

def push (size : Nat) (l : List A) (x : A) : List A := (x :: l).take size

def prev (size i : Nat) : Nat := if i = 0 then size - 1 else i - 1

variable {size top i k : Nat} {blank x : A} {slots : Nat → A} {l : List A}

theorem prev_lt (h : i < size) : prev size i < size := by
  rw [prev]
  split_ifs <;> omega

theorem next_lt (h : i < size) : next size i < size := by
  rw [next]
  split_ifs <;> omega

theorem prev_next (size i : Nat) : prev size (next size i) = i := by
  rw [next]
  split_ifs with hend
  · rw [prev, if_pos rfl]
    omega
  · rw [prev, if_neg (Nat.succ_ne_zero i)]
    rfl

theorem prev_iterate (h : i < size) (hk : k ≤ size) : (prev size)^[k] i = if k ≤ i then i - k else i + size - k := by
  induction k with
  | zero => simp
  | succ k ih =>
      rw [Function.iterate_succ_apply', ih (by omega), prev]
      split_ifs <;> omega

theorem prev_iterate_ne (h : i < size) (hpos : 0 < k) (hk : k < size) : (prev size)^[k] i ≠ i := by
  rw [prev_iterate h hk.le]
  split_ifs <;> omega

theorem prev_iterate_size (h : i < size) : (prev size)^[size] i = i := by
  rw [prev_iterate h le_rfl]
  split_ifs <;> omega

structure Stands (size : Nat) (blank : A) (slots : Nat → A) (top : Nat) (l : List A) : Prop where
  top_lt : top < size
  length_le : l.length ≤ size
  slot : ∀ k < size, slots ((prev size)^[k] top) = l.getD k blank

theorem stands_nil (h : 0 < size) (blank : A) : Stands size blank (fun _ => blank) 0 [] :=
  ⟨h, Nat.zero_le _, fun _ _ => rfl⟩

theorem Stands.peek (h : Stands size blank slots top l) : slots top = l.getD 0 blank :=
  h.slot 0 (Nat.zero_lt_of_lt h.top_lt)

theorem Stands.push (h : Stands size blank slots top l) (x : A) :
    Stands size blank (Function.update slots (next size top) x) (next size top) (Stacks.push size l x) := by
  have hlt := next_lt h.top_lt
  refine ⟨hlt, List.length_take_le _ _, ?_⟩
  intro k hk
  have hget : (Stacks.push size l x).getD k blank = (x :: l).getD k blank := by
    rw [Stacks.push, List.getD_eq_getElem?_getD, List.getElem?_take_of_lt hk, List.getD_eq_getElem?_getD]
  rw [hget]
  cases k with
  | zero => exact Function.update_self _ _ _
  | succ k =>
      rw [Function.update_of_ne (prev_iterate_ne hlt (Nat.succ_pos k) hk), Function.iterate_succ_apply, prev_next,
        h.slot k (Nat.lt_of_succ_lt hk)]
      rfl

theorem Stands.pop (h : Stands size blank slots top l) :
    Stands size blank (Function.update slots top blank) (prev size top) l.tail := by
  have hlength := h.length_le
  refine ⟨prev_lt h.top_lt, by rw [List.length_tail]; omega, ?_⟩
  intro k hk
  rw [← Function.iterate_succ_apply]
  rcases Nat.lt_or_eq_of_le (Nat.succ_le_of_lt hk) with hk | hk
  · rw [Function.update_of_ne (prev_iterate_ne h.top_lt (Nat.succ_pos k) hk), h.slot (k + 1) hk]
    simp
  · rw [show k.succ = size from hk, prev_iterate_size h.top_lt, Function.update_self]
    have hnone : l.tail[k]? = none := by
      rw [List.getElem?_eq_none_iff, List.length_tail]
      omega
    rw [List.getD_eq_getElem?_getD, hnone]
    rfl

theorem push_append {l₁ : List A} (x y : A) (l₂ : List A) (h : l₁.length + 1 < size) :
    ∃ l₃, push size (l₁ ++ y :: l₂) x = (x :: l₁) ++ y :: l₃ := by
  refine ⟨l₂.take (size - (l₁.length + 2)), ?_⟩
  have hlength : (x :: l₁).length ≤ size := by
    rw [List.length_cons]
    omega
  have hrest : size - (x :: l₁).length = size - (l₁.length + 2) + 1 := by
    rw [List.length_cons]
    omega
  rw [push, ← List.cons_append, List.take_append, List.take_of_length_le hlength, hrest, List.take_succ_cons]

end Thermometer.Lib.Stacks
