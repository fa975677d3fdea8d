import Mathlib.Data.List.Basic

namespace Thermometer.StreamBuffer

structure Buffer where
  buffer : List (Nat × Nat)
  capacity : Nat

def Buffer.empty (capacity : Nat) : Buffer := ⟨[], capacity⟩

/-- `none` is a failed assertion: no room after the pop, or a zero target. -/
def prefetch (s : Buffer) (ip target : Nat) : Option Buffer :=
  let buffer := if s.capacity ≤ s.buffer.length then s.buffer.tail else s.buffer
  if buffer.length < s.capacity ∧ target ≠ 0 then
    some { s with buffer := buffer ++ [(ip, target)] }
  else none

def streamBufferPredict (s : Buffer) (ip : Nat) : Nat :=
  match s.buffer.find? (fun a => a.1 = ip) with
  | some a => a.2
  | none => 0

def streamBufferUpdate (s : Buffer) (ip : Nat) : Buffer × Nat :=
  ({ s with buffer := s.buffer.eraseP (fun a => a.1 = ip) }, streamBufferPredict s ip)

/-- The asserted bound, as an invariant. -/
structure Bounded (s : Buffer) : Prop where
  pos : 0 < s.capacity
  le : s.buffer.length ≤ s.capacity

theorem bounded_empty {capacity : Nat} (h : 0 < capacity) : Bounded (.empty capacity) :=
  ⟨h, Nat.zero_le _⟩

theorem prefetch_bounded {s : Buffer} (h : Bounded s) (ip : Nat) {target : Nat}
    (ht : target ≠ 0) : ∃ t, prefetch s ip target = some t ∧ Bounded t := by
  have hlen : (if s.capacity ≤ s.buffer.length then s.buffer.tail else s.buffer).length < s.capacity := by
    have := h.pos
    have := h.le
    split_ifs with hc
    · rw [List.length_tail]; omega
    · omega
  refine ⟨_, if_pos ⟨hlen, ht⟩, h.pos, ?_⟩
  rw [List.length_append]
  exact hlen

theorem update_bounded {s : Buffer} (h : Bounded s) (ip : Nat) :
    Bounded (streamBufferUpdate s ip).1 :=
  ⟨h.pos, Nat.le_trans List.length_eraseP_le h.le⟩

end Thermometer.StreamBuffer
