import Mathlib.Data.List.Basic
import Mathlib.Order.Lattice
import Mathlib.Order.Nat

namespace Thermometer.Lib.Partition

def search (p : Nat → Bool) : Nat → Nat → Nat → Nat
  | 0, first, _ => first
  | fuel + 1, first, len =>
      if len = 0 then first
      else if p (first + len / 2) then search p fuel (first + len / 2 + 1) (len - len / 2 - 1)
      else search p fuel first (len / 2)

def partitionPoint (p : Nat → Bool) (first last : Nat) : Nat := search p (last - first) first (last - first)

/-- The positions that a search looks at when it ends in `goal`. -/
def midpoints (goal : Nat) : Nat → Nat → Nat → List Nat
  | 0, _, _ => []
  | fuel + 1, first, len =>
      if len = 0 then []
      else (first + len / 2) ::
        if first + len / 2 < goal then midpoints goal fuel (first + len / 2 + 1) (len - len / 2 - 1)
        else midpoints goal fuel first (len / 2)

/-- `goal` is the first position from `first` on without `p`, or `last`. -/
structure FirstWithout (p : Nat → Bool) (first last goal : Nat) : Prop where
  ge : first ≤ goal
  le : goal ≤ last
  before : ∀ i, first ≤ i → i < goal → p i = true
  without : goal < last → p goal = false

def firstWithout (p : Nat → Bool) (first last : Nat) : Nat :=
  ((List.range' first (last - first)).find? (fun i => !p i)).getD last

variable {p : Nat → Bool} {first last goal fuel len i : Nat}

theorem search_ge : first ≤ search p fuel first len := by
  induction fuel generalizing first len with
  | zero => exact le_rfl
  | succ fuel ih =>
      simp only [search]
      split_ifs
      · exact le_rfl
      · apply le_trans _ ih
        omega
      · exact ih

theorem search_le : search p fuel first len ≤ first + len := by
  induction fuel generalizing first len with
  | zero => exact Nat.le_add_right _ _
  | succ fuel ih =>
      simp only [search]
      split_ifs with hlen
      · exact Nat.le_add_right _ _
      · have hle := @ih (first + len / 2 + 1) (len - len / 2 - 1)
        omega
      · have hle := @ih first (len / 2)
        omega

theorem firstWithout_find (first count : Nat) :
    FirstWithout p first (first + count) (((List.range' first count).find? (fun i => !p i)).getD (first + count)) := by
  induction count generalizing first with
  | zero => exact ⟨le_rfl, le_rfl, fun i hge hlt => absurd hlt (Nat.not_lt.mpr hge), fun h => absurd h (lt_irrefl _)⟩
  | succ count ih =>
      rw [List.range'_succ]
      by_cases hp : p first = true
      · rw [List.find?_cons_of_neg (by simpa using hp), show first + (count + 1) = first + 1 + count by omega]
        obtain ⟨hge, hle, hbefore, hwithout⟩ := ih (first + 1)
        refine ⟨by omega, hle, fun i hi hlt => ?_, hwithout⟩
        rcases Nat.eq_or_lt_of_le hi with rfl | hi
        · exact hp
        · exact hbefore i hi hlt
      · have hp := Bool.eq_false_iff.mpr hp
        rw [List.find?_cons_of_pos (by simpa using hp)]
        exact ⟨le_rfl, by simp, fun i hi hlt => absurd hlt (Nat.not_lt.mpr hi), fun _ => hp⟩

theorem firstWithout_spec (h : first ≤ last) : FirstWithout p first last (firstWithout p first last) := by
  have hfind : FirstWithout p first (first + (last - first)) _ := firstWithout_find first (last - first)
  rwa [Nat.add_sub_cancel' h] at hfind

theorem FirstWithout.congr {q : Nat → Bool} (h : FirstWithout p first last goal)
    (hpq : ∀ i, first ≤ i → i < last → p i = q i) : FirstWithout q first last goal := by
  refine ⟨h.ge, h.le, fun i hi hlt => ?_, fun hlt => ?_⟩
  · rw [← hpq i hi (hlt.trans_le h.le)]
    exact h.before i hi hlt
  · rw [← hpq goal h.ge hlt]
    exact h.without hlt

theorem FirstWithout.unique {goal' : Nat} (h : FirstWithout p first last goal) (h' : FirstWithout p first last goal') :
    goal = goal' := by
  rcases Nat.lt_trichotomy goal goal' with hlt | heq | hlt
  · have hp := h'.before goal h.ge hlt
    rw [h.without (hlt.trans_le h'.le)] at hp
    cases hp
  · exact heq
  · have hp := h.before goal' h'.ge hlt
    rw [h'.without (hlt.trans_le h.le)] at hp
    cases hp

/-- The search finds the first failure exactly when nothing it looks at behind that failure misleads it. -/
theorem search_eq_iff (hfuel : len ≤ fuel) (h : FirstWithout p first (first + len) goal) :
    search p fuel first len = goal ↔ ∀ m ∈ midpoints goal fuel first len, goal ≤ m → p m = false := by
  induction fuel generalizing first len with
  | zero =>
      obtain rfl : len = 0 := Nat.le_zero.mp hfuel
      simp only [search, midpoints, List.not_mem_nil, false_implies, implies_true, iff_true]
      exact le_antisymm h.ge h.le
  | succ fuel ih =>
      simp only [search, midpoints]
      by_cases hlen : len = 0
      · subst hlen
        simp only [if_true, List.not_mem_nil, false_implies, implies_true, iff_true]
        exact le_antisymm h.ge h.le
      rw [if_neg hlen, if_neg hlen, List.forall_mem_cons]
      by_cases hgoal : first + len / 2 < goal
      · have hp := h.before (first + len / 2) (Nat.le_add_right _ _) hgoal
        rw [if_pos hp, if_pos hgoal, ih (by omega)]
        · exact ⟨fun hall => ⟨fun hle => absurd hgoal (Nat.not_lt.mpr hle), hall⟩, fun hall => hall.2⟩
        · have hend : first + len / 2 + 1 + (len - len / 2 - 1) = first + len := by omega
          rw [hend]
          exact ⟨hgoal, h.le, fun i hi => h.before i (by omega), h.without⟩
      · rw [if_neg hgoal]
        have hgoal := Nat.le_of_not_lt hgoal
        by_cases hp : p (first + len / 2) = true
        · rw [if_pos hp]
          constructor
          · intro heq
            have hge : first + len / 2 + 1 ≤ search p fuel (first + len / 2 + 1) (len - len / 2 - 1) := search_ge
            omega
          · intro hall
            rw [hall.1 hgoal] at hp
            cases hp
        · have hp' := Bool.eq_false_iff.mpr hp
          rw [if_neg hp, ih (by omega)]
          · exact ⟨fun hall => ⟨fun _ => hp', hall⟩, fun hall => hall.2⟩
          · exact ⟨h.ge, hgoal, h.before, fun hlt => h.without (by omega)⟩

theorem partitionPoint_eq_iff (h : FirstWithout p first last goal) :
    partitionPoint p first last = goal ↔ ∀ m ∈ midpoints goal (last - first) first (last - first), goal ≤ m → p m = false := by
  have hle : first ≤ last := h.ge.trans h.le
  apply search_eq_iff le_rfl
  rwa [Nat.add_sub_cancel' hle]

theorem midpoints_lt {m : Nat} (h : m ∈ midpoints goal fuel first len) : first ≤ m ∧ m < first + len := by
  induction fuel generalizing first len with
  | zero => cases h
  | succ fuel ih =>
      simp only [midpoints] at h
      by_cases hlen : len = 0
      · rw [if_pos hlen] at h
        cases h
      rw [if_neg hlen, List.mem_cons] at h
      rcases h with rfl | h
      · omega
      · by_cases hgoal : first + len / 2 < goal
        · rw [if_pos hgoal] at h
          have hm := ih h
          omega
        · rw [if_neg hgoal] at h
          have hm := ih h
          omega

theorem midpoints_of_partitioned (hpart : ∀ i j, first ≤ i → i ≤ j → j < last → p j = true → p i = true)
    (h : FirstWithout p first last goal) :
    ∀ m ∈ midpoints goal (last - first) first (last - first), goal ≤ m → p m = false := by
  intro m hm hle
  have hlt : m < last := by
    have hm := midpoints_lt hm
    omega
  rw [Bool.eq_false_iff]
  intro hp
  have hgoal := hpart goal m h.ge hle hlt hp
  rw [h.without (hle.trans_lt hlt)] at hgoal
  cases hgoal

theorem partitionPoint_ge : first ≤ partitionPoint p first last := search_ge

theorem partitionPoint_le (h : first ≤ last) : partitionPoint p first last ≤ last := by
  have hle : partitionPoint p first last ≤ first + (last - first) := search_le
  rwa [Nat.add_sub_cancel' h] at hle

end Thermometer.Lib.Partition
