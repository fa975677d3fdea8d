import Mathlib.Algebra.BigOperators.Group.Finset.Basic
import Mathlib.Algebra.Order.BigOperators.Group.Finset
import Mathlib.Algebra.Order.Ring.Abs
import Mathlib.Algebra.Order.Ring.Int
import Mathlib.Data.List.Induction
import Mathlib.Data.List.Range
import Mathlib.Logic.Function.Basic

namespace Thermometer.Lib.Counters

variable {I : Type}

def bump (top c : Nat) (t : Bool) : Nat :=
  if t then if c < top then c + 1 else c else if 0 < c then c - 1 else c

def settle (top c : Nat) (ts : List Bool) : Nat := ts.foldl (bump top) c

/-- The outcomes of those events that met counter `k`, where the place of an event depends on what
came before. -/
def lessons (slot : List (I × Bool) → I → Nat) (bs : List (I × Bool)) (k : Nat) : List Bool :=
  (List.range bs.length).filterMap
    (fun j => (bs[j]?).bind (fun b => if slot (bs.take j) b.1 = k then some b.2 else none))

def Learned (slot : List (I × Bool) → I → Nat) (top c : Nat) (table : Nat → Nat)
    (bs : List (I × Bool)) : Prop :=
  ∀ k, table k = settle top c (lessons slot bs k)

variable {slot : List (I × Bool) → I → Nat} {top c k : Nat} {table : Nat → Nat}
variable {bs : List (I × Bool)} {b : I × Bool} {ts : List Bool}

theorem bump_le (h : c ≤ top) (t : Bool) : bump top c t ≤ top := by
  simp only [bump]
  split_ifs <;> omega

theorem settle_le (h : c ≤ top) (ts : List Bool) : settle top c ts ≤ top := by
  induction ts generalizing c with
  | nil => exact h
  | cons t ts ih => exact ih (bump_le h t)

theorem settle_concat (top c : Nat) (ts : List Bool) (t : Bool) : settle top c (ts ++ [t]) =
    bump top (settle top c ts) t :=
  List.foldl_concat ..

theorem settle_pair (h : c ≤ 3) (ts : List Bool) (t : Bool) : decide (2 ≤ settle 3 c (ts ++ [t, t])) = t := by
  have hle := settle_le h ts
  have hsplit : ts ++ [t, t] = (ts ++ [t]) ++ [t] := by
    rw [List.append_assoc, List.singleton_append]
  rw [hsplit, settle_concat, settle_concat]
  cases t
  · rw [decide_eq_false_iff_not]
    simp only [bump, Bool.false_eq_true, if_false]
    split_ifs <;> omega
  · rw [decide_eq_true_iff]
    simp only [bump, if_true]
    split_ifs <;> omega

theorem lessons_concat (slot : List (I × Bool) → I → Nat) (bs : List (I × Bool)) (b : I × Bool) (k : Nat) :
    lessons slot (bs ++ [b]) k = lessons slot bs k ++ if slot bs b.1 = k then [b.2] else [] := by
  rw [lessons, List.length_append, List.length_singleton, List.range_succ, List.filterMap_append]
  congr 1
  · apply List.filterMap_congr
    intro j hj
    rw [List.mem_range] at hj
    rw [List.getElem?_append_left hj, List.take_append_of_le_length (Nat.le_of_lt hj)]
  · rw [List.filterMap_cons, List.getElem?_concat_length, Option.bind_some, List.take_left' rfl]
    split_ifs <;> rfl

theorem learned_nil (slot : List (I × Bool) → I → Nat) (top c : Nat) :
    Learned slot top c (fun _ => c) [] := fun _ => rfl

theorem Learned.concat (h : Learned slot top c table bs) (b : I × Bool) :
    Learned slot top c (Function.update table (slot bs b.1) (bump top (table (slot bs b.1)) b.2))
      (bs ++ [b]) := by
  intro k
  rw [lessons_concat]
  by_cases hk : k = slot bs b.1
  · rw [hk, Function.update_self, if_pos rfl, settle_concat, h]
  · rw [Function.update_of_ne hk, if_neg (Ne.symm hk), List.append_nil, h]

def count {E : Type} (kind : List E → E → Bool) (es : List E) : Nat :=
  ((List.range es.length).filter (fun j => (es[j]?).any (kind (es.take j)))).length

theorem count_concat {E : Type} (kind : List E → E → Bool) (es : List E) (e : E) :
    count kind (es ++ [e]) = count kind es + if kind es e then 1 else 0 := by
  rw [count, List.length_append, List.length_singleton, List.range_succ, List.filter_append, List.length_append]
  congr 1
  · apply congrArg List.length
    apply List.filter_congr
    intro j hj
    rw [List.mem_range] at hj
    rw [List.getElem?_append_left hj, List.take_append_of_le_length (Nat.le_of_lt hj)]
  · rw [List.filter_cons, List.getElem?_concat_length, Option.any_some, List.take_left' rfl]
    split_ifs <;> rfl

end Thermometer.Lib.Counters

namespace Thermometer.Lib.Perceptrons

def sign (b : Bool) : Int := if b then 1 else -1

def margin (n : Nat) (w : Nat → Int) (h : Nat → Bool) : Int := w 0 + ∑ i ∈ Finset.range n,
    sign (h i) * w (i + 1)

def clamp (lo hi x : Int) : Int := max lo (min hi x)

def train (lo hi : Int) (n : Nat) (w : Nat → Int) (h : Nat → Bool) (t : Bool) : Nat → Int
  | 0 => clamp lo hi (w 0 + sign t)
  | i + 1 => if i < n then clamp lo hi (w (i + 1) + sign t * sign (h i)) else w (i + 1)

def learn (lo hi θ : Int) (n : Nat) (w : Nat → Int) (h : Nat → Bool) (t : Bool) : Nat → Int :=
  if θ < |margin n w h| ∧ decide (0 ≤ margin n w h) = t then w else train lo hi n w h t

variable {lo hi : Int} {w : Nat → Int}

def Bounded (lo hi : Int) (w : Nat → Int) : Prop := ∀ i, lo ≤ w i ∧ w i ≤ hi

theorem clamp_bounded (h : lo ≤ hi) (x : Int) : lo ≤ clamp lo hi x ∧ clamp lo hi x ≤ hi := by
  simp only [clamp]
  omega

theorem Bounded.train (hw : Bounded lo hi w) (hle : lo ≤ hi) (n : Nat) (h : Nat → Bool) (t : Bool) :
    Bounded lo hi (train lo hi n w h t) := by
  intro i
  cases i with
  | zero => exact clamp_bounded hle _
  | succ i =>
      simp only [Perceptrons.train]
      split_ifs
      · exact clamp_bounded hle _
      · exact hw (i + 1)

theorem Bounded.learn (hw : Bounded lo hi w) (hle : lo ≤ hi) (θ : Int) (n : Nat) (h : Nat → Bool) (t : Bool) :
    Bounded lo hi (learn lo hi θ n w h t) := by
  rw [Perceptrons.learn]
  split_ifs
  · exact hw
  · exact hw.train hle n h t

end Thermometer.Lib.Perceptrons
