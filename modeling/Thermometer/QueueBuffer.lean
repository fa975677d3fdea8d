import Mathlib.Logic.Function.Basic
import Mathlib.Data.Nat.ModEq
import Mathlib.Order.Nat

namespace Thermometer.QueueBuffer

/-- The positions only grow; the slot of a position is its remainder. -/
structure CircularBuffer (α : Type) where
  size : Nat
  entry : Nat → α
  head : Nat
  tail : Nat
  head_le : head ≤ tail
  tail_le : tail ≤ head + size

variable {α : Type}

def CircularBuffer.initial [Inhabited α] (size : Nat) : CircularBuffer α :=
  ⟨size, fun _ => default, 0, 0, le_rfl, Nat.zero_le _⟩

def CircularBuffer.get (b : CircularBuffer α) (n : Nat) : α := b.entry (n % b.size)

def CircularBuffer.occupancy (b : CircularBuffer α) : Nat := b.tail - b.head

def CircularBuffer.empty (b : CircularBuffer α) : Bool := b.occupancy == 0

def CircularBuffer.full (b : CircularBuffer α) : Bool := b.occupancy == b.size

def CircularBuffer.front (b : CircularBuffer α) : α := b.get b.head

theorem room {b : CircularBuffer α} (h : b.full = false) : b.tail + 1 ≤ b.head + b.size := by
  have hle := b.tail_le
  have hhead := b.head_le
  have hne : b.tail - b.head ≠ b.size := beq_eq_false_iff_ne.mp h
  omega

def CircularBuffer.put (b : CircularBuffer α) (item : α) (h : b.full = false) : CircularBuffer α where
  size := b.size
  entry := Function.update b.entry (b.tail % b.size) item
  head := b.head
  tail := b.tail + 1
  head_le := Nat.le_succ_of_le b.head_le
  tail_le := room h

/-- `none` is a failed assertion. -/
def CircularBuffer.pushBack (b : CircularBuffer α) (item : α) : Option (CircularBuffer α) :=
  if h : b.full = false then some (b.put item h) else none

theorem remaining {b : CircularBuffer α} (h : b.empty = false) : b.head + 1 ≤ b.tail := by
  have hne : b.tail - b.head ≠ 0 := beq_eq_false_iff_ne.mp h
  omega

def CircularBuffer.drop (b : CircularBuffer α) (h : b.empty = false) : CircularBuffer α where
  size := b.size
  entry := b.entry
  head := b.head + 1
  tail := b.tail
  head_le := remaining h
  tail_le := b.tail_le.trans (Nat.add_le_add_right (Nat.le_succ _) _)

def CircularBuffer.popFront (b : CircularBuffer α) : Option (CircularBuffer α) :=
  if h : b.empty = false then some (b.drop h) else none

def CircularBuffer.modify (b : CircularBuffer α) (f : α → α) (n : Nat) : CircularBuffer α :=
  { b with entry := Function.update b.entry (n % b.size) (f (b.get n)) }

def CircularBuffer.modifyFrom (b : CircularBuffer α) (f : α → α) : Nat → Nat → CircularBuffer α
  | 0, _ => b
  | count + 1, n => (b.modify f n).modifyFrom f count (n + 1)

def CircularBuffer.forEach (b : CircularBuffer α) (f : α → α) : CircularBuffer α := b.modifyFrom f b.occupancy b.head

variable {b : CircularBuffer α} {f : α → α} {item : α} {n m count : Nat}

@[simp] theorem put_size (h : b.full = false) : (b.put item h).size = b.size := rfl

@[simp] theorem put_head (h : b.full = false) : (b.put item h).head = b.head := rfl

@[simp] theorem put_tail (h : b.full = false) : (b.put item h).tail = b.tail + 1 := rfl

@[simp] theorem drop_size (h : b.empty = false) : (b.drop h).size = b.size := rfl

@[simp] theorem drop_head (h : b.empty = false) : (b.drop h).head = b.head + 1 := rfl

@[simp] theorem drop_tail (h : b.empty = false) : (b.drop h).tail = b.tail := rfl

@[simp] theorem drop_get (h : b.empty = false) : (b.drop h).get n = b.get n := rfl

theorem modifyFrom_frame (b : CircularBuffer α) : (b.modifyFrom f count n).size = b.size ∧
    (b.modifyFrom f count n).head = b.head ∧ (b.modifyFrom f count n).tail = b.tail := by
  induction count generalizing b n with
  | zero => exact ⟨rfl, rfl, rfl⟩
  | succ count ih => exact ih (b.modify f n)

@[simp] theorem forEach_size : (b.forEach f).size = b.size := (modifyFrom_frame b).1

@[simp] theorem forEach_head : (b.forEach f).head = b.head := (modifyFrom_frame b).2.1

@[simp] theorem forEach_tail : (b.forEach f).tail = b.tail := (modifyFrom_frame b).2.2

theorem slot_ne {size : Nat} (hlt : n < m) (hturn : m < n + size) : m % size ≠ n % size := by
  intro h
  have hdvd : size ∣ m - n := (Nat.modEq_iff_dvd' hlt.le).mp h.symm
  have hle := Nat.le_of_dvd (by omega) hdvd
  omega

theorem put_get_tail (h : b.full = false) : (b.put item h).get b.tail = item := Function.update_self _ _ _

theorem put_get (h : b.full = false) (hge : b.head ≤ n) (hlt : n < b.tail) : (b.put item h).get n = b.get n := by
  have hroom := room h
  exact Function.update_of_ne (slot_ne hlt (by show b.tail < n + b.size; omega)).symm _ _

theorem modify_get : (b.modify f n).get n = f (b.get n) := Function.update_self _ _ _

theorem modify_get_of_ne (h : m % b.size ≠ n % b.size) : (b.modify f n).get m = b.get m := Function.update_of_ne h _ _

theorem modifyFrom_get_of_lt (b : CircularBuffer α) (hlt : m < n) (hturn : n + count ≤ m + b.size) :
    (b.modifyFrom f count n).get m = b.get m := by
  induction count generalizing b n with
  | zero => rfl
  | succ count ih =>
      rw [CircularBuffer.modifyFrom, ih (b.modify f n) (Nat.lt_succ_of_lt hlt)]
      · exact modify_get_of_ne (slot_ne hlt (by omega)).symm
      · show n + 1 + count ≤ m + b.size
        omega

theorem modifyFrom_get (b : CircularBuffer α) (hcount : count ≤ b.size) (hge : n ≤ m) (hlt : m < n + count) :
    (b.modifyFrom f count n).get m = f (b.get m) := by
  induction count generalizing b n with
  | zero => exact absurd hlt (Nat.not_lt.mpr hge)
  | succ count ih =>
      rw [CircularBuffer.modifyFrom]
      rcases Nat.eq_or_lt_of_le hge with rfl | hgt
      · rw [modifyFrom_get_of_lt (b.modify f n) (Nat.lt_succ_self n)]
        · exact modify_get
        · show n + 1 + count ≤ n + b.size
          omega
      · rw [ih (b.modify f n) (Nat.le_of_succ_le hcount) hgt (by omega)]
        rw [modify_get_of_ne (slot_ne hgt (by omega))]

theorem forEach_get (hge : b.head ≤ n) (hlt : n < b.tail) : (b.forEach f).get n = f (b.get n) := by
  have hhead := b.head_le
  have htail := b.tail_le
  apply modifyFrom_get b
  · simp only [CircularBuffer.occupancy]
    omega
  · exact hge
  · simp only [CircularBuffer.occupancy]
    omega

end Thermometer.QueueBuffer
