import Mathlib.Logic.Function.Basic
import Mathlib.Data.Nat.ModEq

namespace Thermometer.Lib.Rings

def place (size head a : Nat) : Nat := (head + a) % size

def next (size i : Nat) : Nat := if i + 1 = size then 0 else i + 1

variable {size head a b i x : Nat}

theorem place_lt (h : 0 < size) (head a : Nat) : place size head a < size := Nat.mod_lt _ h

theorem place_zero (h : head < size) : place size head 0 = head := Nat.mod_eq_of_lt h

theorem next_place (h : 0 < size) (head a : Nat) : next size (place size head a) = place size head (a + 1) := by
  have hlt : place size head a < size := place_lt h head a
  have hmod : place size head (a + 1) = (place size head a + 1) % size := by
    rw [place, place, Nat.mod_add_mod, Nat.add_assoc]
  rw [next, hmod]
  split_ifs with hend
  · rw [hend, Nat.mod_self]
  · exact (Nat.mod_eq_of_lt (by omega)).symm

theorem next_eq (h : head < size) : next size head = place size head 1 := by
  have hnext := next_place (Nat.zero_lt_of_lt h) head 0
  rwa [place_zero h] at hnext

theorem place_next (h : head < size) (a : Nat) : place size (next size head) a = place size head (a + 1) := by
  rw [next_eq h, place, place, place, Nat.mod_add_mod]
  congr 1
  omega

theorem place_inj (ha : a < size) (hb : b < size) (h : place size head a = place size head b) : a = b := by
  have hmod : a ≡ b [MOD size] := Nat.ModEq.add_left_cancel' head h
  rwa [Nat.ModEq, Nat.mod_eq_of_lt ha, Nat.mod_eq_of_lt hb] at hmod

theorem places_straight (h : head + a ≤ size) : (List.range a).map (place size head) = List.range' head a := by
  rw [List.range'_eq_map_range]
  apply List.map_congr_left
  intro b hb
  exact Nat.mod_eq_of_lt (by rw [List.mem_range] at hb; omega)

theorem places_wrapped (hhead : head < size) (hle : size ≤ head + a) (ha : a ≤ size) :
    (List.range a).map (place size head) = List.range' head (size - head) ++ List.range' 0 (head + a - size) := by
  have hsplit : a = (size - head) + (head + a - size) := by omega
  have hwrap : (List.range (head + a - size)).map (fun b => place size head (size - head + b))
      = List.range' 0 (head + a - size) := by
    rw [List.range'_eq_map_range]
    apply List.map_congr_left
    intro b hb
    rw [List.mem_range] at hb
    rw [place, show head + (size - head + b) = b + size by omega, Nat.add_mod_right, Nat.zero_add]
    exact Nat.mod_eq_of_lt (by omega)
  calc (List.range a).map (place size head)
      = (List.range ((size - head) + (head + a - size))).map (place size head) := by rw [← hsplit]
    _ = (List.range (size - head)).map (place size head)
          ++ (List.range (head + a - size)).map (fun b => place size head (size - head + b)) := by
        rw [List.range_add, List.map_append, List.map_map]
        rfl
    _ = List.range' head (size - head) ++ List.range' 0 (head + a - size) := by
        rw [hwrap, places_straight (by omega)]

/-- A queue of slot numbers in an array of as many slots. A free slot holds the size of the array. -/
structure Ring where
  slots : Nat → Nat
  head : Nat
  tail : Nat

def Ring.empty (size : Nat) : Ring := ⟨fun _ => size, 0, 0⟩

/-- `none` is the failed assertion that the slot at the tail is free. -/
def Ring.push (r : Ring) (size x : Nat) : Option Ring :=
  if r.slots r.tail < size then none
  else some { r with slots := Function.update r.slots r.tail x, tail := next size r.tail }

def Ring.front (r : Ring) (size : Nat) : Option Nat := if r.slots r.head < size then some (r.slots r.head) else none

def Ring.pop (r : Ring) (size : Nat) : Ring :=
  { r with slots := Function.update r.slots r.head size, head := next size r.head }

/-- The ring is the queue `q`. -/
structure Holds (size : Nat) (r : Ring) (q : List Nat) : Prop where
  head_lt : r.head < size
  tail_eq : r.tail = place size r.head q.length
  length_le : q.length ≤ size
  bound : ∀ x ∈ q, x < size
  used : ∀ a x, q[a]? = some x → r.slots (place size r.head a) = x
  free : ∀ a, q.length ≤ a → a < size → r.slots (place size r.head a) = size

variable {r : Ring} {q : List Nat}

theorem holds_empty (h : 0 < size) : Holds size (.empty size) [] := by
  refine ⟨h, ?_, Nat.zero_le _, ?_, ?_, fun _ _ _ => rfl⟩
  · exact (place_zero h).symm
  · intro x hx
    cases hx
  · intro a x hx
    cases hx

theorem push_holds (h : Holds size r q) (hlen : q.length < size) (hx : x < size) :
    ∃ r', r.push size x = some r' ∧ Holds size r' (q ++ [x]) := by
  have hfree : ¬r.slots r.tail < size := by
    rw [h.tail_eq, h.free q.length le_rfl hlen]
    exact lt_irrefl size
  refine ⟨_, if_neg hfree, h.head_lt, ?_, ?_, ?_, ?_, ?_⟩
  · rw [List.length_append, List.length_singleton]
    exact h.tail_eq ▸ next_place (Nat.zero_lt_of_lt hlen) r.head q.length
  · rw [List.length_append, List.length_singleton]
    exact hlen
  · intro y hy
    rcases List.mem_append.mp hy with hy | hy
    · exact h.bound y hy
    · exact List.mem_singleton.mp hy ▸ hx
  · intro a y hy
    rcases Nat.lt_trichotomy a q.length with ha | ha | ha
    · rw [List.getElem?_append_left ha] at hy
      have hne : place size r.head a ≠ r.tail := by
        rw [h.tail_eq]
        intro he
        exact absurd (place_inj (ha.trans hlen) hlen he) ha.ne
      exact (Function.update_of_ne hne _ _).trans (h.used a y hy)
    · subst ha
      rw [List.getElem?_concat_length, Option.some.injEq] at hy
      have htail : place size r.head q.length = r.tail := h.tail_eq.symm
      show Function.update r.slots r.tail x (place size r.head q.length) = y
      rw [htail, Function.update_self, hy]
    · rw [List.getElem?_eq_none (by rw [List.length_append, List.length_singleton]; exact ha)] at hy
      cases hy
  · intro a ha hlt
    rw [List.length_append, List.length_singleton] at ha
    have hne : place size r.head a ≠ r.tail := by
      rw [h.tail_eq]
      intro he
      exact absurd (place_inj hlt hlen he) (Nat.ne_of_gt ha)
    exact (Function.update_of_ne hne _ _).trans (h.free a (Nat.le_of_succ_le ha) hlt)

theorem front_nil (h : Holds size r []) : r.front size = none := by
  have hfree := h.free 0 le_rfl (Nat.zero_lt_of_lt h.head_lt)
  rw [place_zero h.head_lt] at hfree
  rw [Ring.front, hfree, if_neg (lt_irrefl size)]

theorem front_cons (h : Holds size r (x :: q)) : r.front size = some x := by
  have hused := h.used 0 x rfl
  rw [place_zero h.head_lt] at hused
  rw [Ring.front, hused, if_pos (h.bound x List.mem_cons_self)]

theorem pop_holds (h : Holds size r (x :: q)) : Holds size (r.pop size) q := by
  have hpos : 0 < size := Nat.zero_lt_of_lt h.head_lt
  have hlen := h.length_le
  rw [List.length_cons] at hlen
  have hplace : ∀ a, place size (next size r.head) a = place size r.head (a + 1) := place_next h.head_lt
  have hne : ∀ a, a + 1 < size → place size r.head (a + 1) ≠ r.head := by
    intro a ha he
    have hzero := place_inj ha hpos (he.trans (place_zero h.head_lt).symm)
    exact absurd hzero (Nat.succ_ne_zero a)
  refine ⟨?_, ?_, Nat.le_of_succ_le hlen, fun y hy => h.bound y (List.mem_cons_of_mem x hy), ?_, ?_⟩
  · rw [Ring.pop, next_eq h.head_lt]
    exact place_lt hpos _ _
  · exact h.tail_eq.trans (hplace q.length).symm
  · intro a y hy
    have ha : a + 1 < size := Nat.lt_of_lt_of_le (Nat.succ_lt_succ (List.getElem?_eq_some_iff.mp hy).1) hlen
    show Function.update r.slots r.head size (place size (next size r.head) a) = y
    rw [hplace, Function.update_of_ne (hne a ha)]
    exact h.used (a + 1) y hy
  · intro a ha hlt
    show Function.update r.slots r.head size (place size (next size r.head) a) = size
    rw [hplace]
    by_cases hend : a + 1 < size
    · rw [Function.update_of_ne (hne a hend)]
      exact h.free (a + 1) (Nat.succ_le_succ ha) hend
    · have hwrap : place size r.head (a + 1) = r.head := by
        rw [place, show a + 1 = size by omega, Nat.add_mod_right, Nat.mod_eq_of_lt h.head_lt]
      rw [hwrap, Function.update_self]

end Thermometer.Lib.Rings
