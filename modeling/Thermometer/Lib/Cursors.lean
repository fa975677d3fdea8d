import Mathlib.Data.List.Basic

namespace Thermometer.Lib.Cursors

variable {α : Type}

/-- A linked list with an iterator: what is before the iterator, the nearest first, and
what is from it on. At the end of the list nothing is. -/
structure Cursor (α : Type) where
  before : List α
  after : List α
  deriving DecidableEq

def Cursor.start (l : List α) : Cursor α := ⟨[], l⟩

def Cursor.list (c : Cursor α) : List α := c.before.reverse ++ c.after

def Cursor.next (c : Cursor α) : Cursor α :=
  match c.after with
  | [] => c
  | a :: rest => ⟨a :: c.before, rest⟩

def Cursor.insert (c : Cursor α) (l : List α) : Cursor α := ⟨l.reverse ++ c.before, c.after⟩

variable {c : Cursor α} {a : α} {l rest : List α}

@[simp] theorem list_start (l : List α) : (Cursor.start l).list = l := rfl

@[simp] theorem after_insert (c : Cursor α) (l : List α) : (c.insert l).after = c.after := rfl

@[simp] theorem list_insert (c : Cursor α) (l : List α) : (c.insert l).list = c.before.reverse ++ (l ++ c.after) := by
  simp [Cursor.list, Cursor.insert]

@[simp] theorem before_insert (c : Cursor α) (l : List α) : (c.insert l).before.reverse = c.before.reverse ++ l := by
  simp [Cursor.insert]

theorem after_next (h : c.after = a :: rest) : c.next.after = rest := by
  rw [Cursor.next, h]

theorem before_next (h : c.after = a :: rest) : c.next.before.reverse = c.before.reverse ++ [a] := by
  rw [Cursor.next, h]
  exact List.reverse_cons

@[simp] theorem list_next (c : Cursor α) : c.next.list = c.list := by
  cases h : c.after with
  | nil => rw [Cursor.next, h]
  | cons a rest =>
      rw [Cursor.list, before_next h, after_next h, Cursor.list, h]
      exact List.append_assoc _ _ _

end Thermometer.Lib.Cursors
