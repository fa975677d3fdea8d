import Thermometer.Lib.Contents

namespace Thermometer.Lib.SlotRings

open Lib.Rings Lib.Windows Lib.Contents

variable {α : Type}

/-- A ring that keeps no count: a slot that is free holds nothing. -/
structure SlotRing (α : Type) where
  size : Nat
  entry : Nat → Option α
  head : Nat
  tail : Nat

def SlotRing.initial (size : Nat) : SlotRing α := ⟨size, fun _ => none, 0, 0⟩

def SlotRing.push (r : SlotRing α) (x : α) : SlotRing α :=
  { r with entry := Function.update r.entry r.tail (some x), tail := next r.size r.tail }

def SlotRing.pop (r : SlotRing α) : SlotRing α :=
  { r with entry := Function.update r.entry r.head none, head := next r.size r.head }

def SlotRing.window (r : SlotRing α) (n : Nat) : Window (Option α) := ⟨r.size, r.entry, r.head, r.tail, n⟩

/-- The ring is the queue `q`. -/
structure Holds (r : SlotRing α) (q : List α) : Prop where
  shape : Shape (r.window q.length) none
  contents : contents (r.window q.length) = q.map some

variable {r : SlotRing α} {q : List α} {x : α} {size : Nat}

theorem holds_initial (h : 0 < size) : Holds (.initial size) ([] : List α) := ⟨initial_shape h, rfl⟩

theorem Holds.front (h : Holds r q) : r.entry r.head = q.head? := by
  cases q with
  | nil => exact h.shape.blank r.head (fun ⟨a, ha, _⟩ => absurd ha (Nat.not_lt_zero a))
  | cons x q =>
      have hcons := (contents_eq_cons h.shape (Nat.succ_pos q.length)).symm.trans h.contents
      exact (List.cons.inj hcons).1

theorem Holds.length_lt (h : Holds r q) (hfree : r.entry r.tail = none) : q.length < r.size := by
  refine lt_of_le_of_ne h.shape.occupancy_le (fun hfull => ?_)
  have htail : r.tail = r.head := by
    have hslot : r.tail = place r.size r.head q.length := h.shape.tail_eq
    have hfull : q.length = r.size := hfull
    rw [hslot, hfull, place, Nat.add_mod_right]
    exact Nat.mod_eq_of_lt h.shape.head_lt
  rw [htail, h.front, List.head?_eq_none_iff] at hfree
  rw [hfree] at hfull
  exact absurd hfull.symm (Nat.ne_of_gt h.shape.pos)

theorem Holds.free (h : Holds r q) (hroom : q.length < r.size) : r.entry r.tail = none :=
  h.shape.blank _ (not_live_tail h.shape hroom)

theorem Holds.push (h : Holds r q) (hfree : r.entry r.tail = none) (x : α) : Holds (r.push x) (q ++ [x]) := by
  have hroom := h.length_lt hfree
  have hwindow : (r.push x).window (q ++ [x]).length = (r.window q.length).push (some x) := by
    rw [List.length_append]
    rfl
  refine ⟨?_, ?_⟩
  · rw [hwindow]
    exact h.shape.push hroom
  · rw [hwindow, contents_push h.shape hroom, h.contents, List.map_append]
    rfl

theorem Holds.pop (h : Holds r (x :: q)) : Holds r.pop q := by
  have hpos : 0 < (x :: q).length := Nat.succ_pos _
  have hcons := (contents_eq_cons h.shape hpos).symm.trans h.contents
  exact ⟨h.shape.pop hpos, (List.cons.inj hcons).2⟩

end Thermometer.Lib.SlotRings
