import Mathlib.Data.List.Basic

namespace Thermometer.Lib.Fifo

variable {α : Type} {cap : Nat} {q xs : List α} {a : α}

def push (cap : Nat) (q : List α) (a : α) : List α := (if cap ≤ q.length then q.tail else q) ++ [a]

theorem push_eq_drop (hcap : 0 < cap) (hq : q.length ≤ cap) (a : α) : push cap q a = (q ++ [a]).drop (q.length + 1 - cap) := by
  rw [push]
  split_ifs with hfull
  · have hlen : q.length + 1 - cap = 1 := by omega
    cases q with
    | nil => exact absurd hfull (Nat.not_le.mpr hcap)
    | cons b q => rw [hlen, List.tail_cons, List.cons_append, List.drop_succ_cons, List.drop_zero]
  · have hlen : q.length + 1 - cap = 0 := by omega
    rw [hlen, List.drop_zero]

theorem push_length (hcap : 0 < cap) (hq : q.length ≤ cap) (a : α) : (push cap q a).length ≤ cap := by
  rw [push_eq_drop hcap hq, List.length_drop, List.length_append, List.length_singleton]
  omega

theorem foldl_push (hcap : 0 < cap) (hq : q.length ≤ cap) (xs : List α) :
    xs.foldl (push cap) q = (q ++ xs).drop (q.length + xs.length - cap) := by
  induction xs generalizing q with
  | nil =>
      have hlen : q.length + 0 - cap = 0 := by omega
      rw [List.foldl_nil, List.append_nil, List.length_nil, hlen, List.drop_zero]
  | cons a xs ih =>
      have hpush := push_eq_drop hcap hq a
      have hlen : (push cap q a).length + (q.length + 1 - cap) = q.length + 1 := by
        rw [hpush, List.length_drop, List.length_append, List.length_singleton]
        omega
      rw [List.foldl_cons, ih (push_length hcap hq a)]
      have hqa : (q ++ a :: xs).drop (q.length + 1 - cap) = push cap q a ++ xs := by
        rw [List.append_cons, List.drop_append_of_le_length, hpush]
        rw [List.length_append, List.length_singleton]
        omega
      rw [← hqa, List.drop_drop, List.length_cons]
      congr 1
      omega

end Thermometer.Lib.Fifo
