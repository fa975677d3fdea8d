import Mathlib.Order.Basic
import Mathlib.Order.Nat
import Mathlib.Algebra.Order.Ring.Int

namespace Thermometer.Lib.SortedArrays

variable {α : Type} [LinearOrder α] {a a' : Nat → α} {x y : α} {n i left p : Nat}

def Ascending (a : Nat → α) (n : Nat) : Prop := ∀ i j, i < j → j < n → a i < a j

def Occurs (a : Nat → α) (n : Nat) (x : α) : Prop := ∃ j < n, a j = x

/-- The place of `x` among the elements from `i` on, of which `left` are left; `none` if it is one of them. -/
def place (a : Nat → α) (x : α) : Nat → Nat → Option Nat
  | 0, i => some i
  | left + 1, i => if a i = x then none else if x < a i then some i else place a x left (i + 1)

def linearSearch (a : Nat → α) (x : α) : Nat → Nat → Bool
  | 0, _ => false
  | left + 1, i => if x < a i then false else if a i = x then true else linearSearch a x left (i + 1)

def binarySearch (a : Nat → α) (x : α) : Nat → Int → Int → Int → Bool
  | 0, _, _, _ => false
  | turns + 1, first, last, middle =>
    let y := a middle.toNat
    if x < y then
      if middle - 1 < first then false else binarySearch a x turns first (middle - 1) ((first + (middle - 1)) / 2)
    else if y < x then
      if last < middle + 1 then false else binarySearch a x turns (middle + 1) last ((middle + 1 + last) / 2)
    else true

section Search

theorem linearSearch_from (h : Ascending a (i + left)) (hbelow : ∀ j < i, a j < x) :
    linearSearch a x left i = true ↔ Occurs a (i + left) x := by
  induction left generalizing i with
  | zero =>
      rw [linearSearch]
      apply iff_of_false Bool.false_ne_true
      rintro ⟨j, hj, rfl⟩
      exact lt_irrefl _ (hbelow j hj)
  | succ left ih =>
      rw [linearSearch]
      split_ifs with hlt heq
      · apply iff_of_false not_false
        rintro ⟨j, hj, rfl⟩
        rcases Nat.lt_or_ge j i with hji | hij
        · exact lt_irrefl _ (hbelow j hji)
        · rcases Nat.eq_or_lt_of_le hij with rfl | hij
          · exact lt_irrefl _ hlt
          · exact lt_irrefl _ (hlt.trans (h i j hij hj))
      · exact iff_of_true rfl ⟨i, by omega, heq⟩
      · have hnext : ∀ j < i + 1, a j < x := by
          intro j hj
          rcases Nat.eq_or_lt_of_le (Nat.le_of_lt_succ hj) with rfl | hj
          · exact lt_of_le_of_ne (not_lt.mp hlt) heq
          · exact hbelow j hj
        have hsum : i + (left + 1) = i + 1 + left := by omega
        rw [hsum] at h ⊢
        exact ih h hnext

theorem linearSearch_iff (h : Ascending a n) : linearSearch a x n 0 = true ↔ Occurs a n x := by
  rw [← Nat.zero_add n] at h
  have hall := linearSearch_from (x := x) h (fun j hj => absurd hj (Nat.not_lt_zero j))
  rw [Nat.zero_add] at hall
  exact hall

theorem Ascending.lt_iff (h : Ascending a n) {j k : Nat} (hj : j < n) (hk : k < n) : a j < a k ↔ j < k := by
  constructor
  · intro hlt
    by_contra hle
    rcases Nat.eq_or_lt_of_le (not_lt.mp hle) with rfl | hle
    · exact lt_irrefl _ hlt
    · exact lt_asymm hlt (h k j hle hj)
  · intro hjk
    exact h j k hjk hk

theorem binarySearch_in (h : Ascending a n) {turns : Nat} {first last middle : Int} (hfirst : 0 ≤ first) (hlast : last < n)
    (hmiddle : first ≤ middle ∧ middle ≤ last) (hturns : last - first < turns)
    (hin : ∀ j < n, a j = x → first ≤ (j : Int) ∧ (j : Int) ≤ last) :
    binarySearch a x turns first last middle = true ↔ Occurs a n x := by
  induction turns generalizing first last middle with
  | zero => omega
  | succ turns ih =>
      have hat : middle.toNat < n := by omega
      have hlow : x < a middle.toNat → ∀ j < n, a j = x → first ≤ (j : Int) ∧ (j : Int) ≤ middle - 1 := by
        intro hlt j hj hjx
        have hside := (h.lt_iff hj hat).mp (hjx.symm ▸ hlt)
        have hj' := hin j hj hjx
        omega
      have hhigh : a middle.toNat < x → ∀ j < n, a j = x → middle + 1 ≤ (j : Int) ∧ (j : Int) ≤ last := by
        intro hgt j hj hjx
        have hside := (h.lt_iff hat hj).mp (hjx.symm ▸ hgt)
        have hj' := hin j hj hjx
        omega
      rw [binarySearch]
      split_ifs with hlt hend hgt hend
      · apply iff_of_false not_false
        rintro ⟨j, hj, hjx⟩
        have hj' := hlow hlt j hj hjx
        omega
      · exact ih hfirst (by omega) (by omega) (by omega) (hlow hlt)
      · apply iff_of_false not_false
        rintro ⟨j, hj, hjx⟩
        have hj' := hhigh hgt j hj hjx
        omega
      · exact ih (by omega) hlast (by omega) (by omega) (hhigh hgt)
      · exact iff_of_true rfl ⟨middle.toNat, hat, le_antisymm (not_lt.mp hlt) (not_lt.mp hgt)⟩

theorem binarySearch_iff (h : Ascending a n) (hpos : 0 < n) :
    binarySearch a x n 0 (n - 1) ((n - 1) / 2) = true ↔ Occurs a n x := by
  apply binarySearch_in h le_rfl (by omega) (by omega) (by omega)
  intro j hj _
  omega

end Search

section Insert

structure Fits (a : Nat → α) (n : Nat) (x : α) (p : Nat) : Prop where
  le : p ≤ n
  below : ∀ j < p, a j < x
  above : ∀ j, p ≤ j → j < n → x < a j

theorem place_from (h : Ascending a (i + left)) (hbelow : ∀ j < i, a j < x) :
    match place a x left i with
    | none => Occurs a (i + left) x
    | some p => Fits a (i + left) x p := by
  induction left generalizing i with
  | zero =>
      rw [place]
      exact ⟨le_rfl, hbelow, fun j hij hj => absurd hj (not_lt.mpr hij)⟩
  | succ left ih =>
      rw [place]
      split_ifs with heq hlt
      · exact ⟨i, by omega, heq⟩
      · refine ⟨by omega, hbelow, fun j hij hj => ?_⟩
        rcases Nat.eq_or_lt_of_le hij with rfl | hij
        · exact hlt
        · exact hlt.trans (h i j hij hj)
      · have hnext : ∀ j < i + 1, a j < x := by
          intro j hj
          rcases Nat.eq_or_lt_of_le (Nat.le_of_lt_succ hj) with rfl | hj
          · exact lt_of_le_of_ne (not_lt.mp hlt) heq
          · exact hbelow j hj
        have hsum : i + (left + 1) = i + 1 + left := by omega
        rw [hsum] at h ⊢
        exact ih h hnext

theorem occurs_of_place (h : Ascending a n) (hnone : place a x n 0 = none) : Occurs a n x := by
  rw [← Nat.zero_add n] at h
  have hspec := place_from (x := x) h (fun j hj => absurd hj (Nat.not_lt_zero j))
  rw [hnone, Nat.zero_add] at hspec
  exact hspec

theorem fits_of_place (h : Ascending a n) (hsome : place a x n 0 = some p) : Fits a n x p := by
  rw [← Nat.zero_add n] at h
  have hspec := place_from (x := x) h (fun j hj => absurd hj (Nat.not_lt_zero j))
  rw [hsome, Nat.zero_add] at hspec
  exact hspec

def Inserted (a a' : Nat → α) (n p : Nat) (x : α) : Prop :=
  ∀ j ≤ n, a' j = if j < p then a j else if j = p then x else a (j - 1)

theorem Inserted.ascending (h : Ascending a n) (hp : Fits a n x p) (ha : Inserted a a' n p x) : Ascending a' (n + 1) := by
  have hle := hp.le
  intro i j hij hj
  rw [ha i (by omega), ha j (by omega)]
  split_ifs with hi hjp hjp' hip hjp hjp' hjp hjp'
  · exact h i j hij (by omega)
  · exact hp.below i hi
  · exact h i (j - 1) (by omega) (by omega)
  · omega
  · omega
  · exact hp.above (j - 1) (by omega) (by omega)
  · omega
  · omega
  · exact h (i - 1) (j - 1) (by omega) (by omega)

omit [LinearOrder α] in
theorem Inserted.occurs (hp : p ≤ n) (ha : Inserted a a' n p x) : Occurs a' (n + 1) y ↔ y = x ∨ Occurs a n y := by
  constructor
  · rintro ⟨j, hj, rfl⟩
    rw [ha j (by omega)]
    split_ifs with hlow heq
    · exact .inr ⟨j, by omega, rfl⟩
    · exact .inl rfl
    · exact .inr ⟨j - 1, by omega, rfl⟩
  · rintro (rfl | ⟨j, hj, rfl⟩)
    · refine ⟨p, by omega, ?_⟩
      rw [ha p hp, if_neg (lt_irrefl p), if_pos rfl]
    · by_cases hlow : j < p
      · refine ⟨j, by omega, ?_⟩
        rw [ha j (by omega), if_pos hlow]
      · refine ⟨j + 1, by omega, ?_⟩
        rw [ha (j + 1) (by omega), if_neg (by omega), if_neg (by omega), Nat.add_sub_cancel]

end Insert

end Thermometer.Lib.SortedArrays
