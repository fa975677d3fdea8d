import Mathlib.Logic.Function.Basic

namespace Thermometer.Lib.Pairing

variable {A B : Type} {f : A → Option B} {g : B → Option A} {a : A} {b : B}

def Paired (f : A → Option B) (g : B → Option A) : Prop := ∀ a b, f a = some b ↔ g b = some a

theorem paired_none : Paired (fun _ : A => (none : Option B)) (fun _ => none) := by
  intro a b
  simp

theorem Paired.unique (h : Paired f g) {a' : A} (ha : f a = some b) (ha' : f a' = some b) : a = a' := by
  have hb := (h a b).mp ha
  rw [(h a' b).mp ha', Option.some.injEq] at hb
  exact hb.symm

variable [DecidableEq A] [DecidableEq B]

theorem Paired.assign (h : Paired f g) (ha : f a = none) (hb : g b = none) :
    Paired (Function.update f a (some b)) (Function.update g b (some a)) := by
  intro x y
  by_cases hx : x = a
  · subst hx
    by_cases hy : y = b
    · subst hy
      simp
    · rw [Function.update_self, Function.update_of_ne hy, ← h x y, ha]
      simp [Ne.symm hy]
  · by_cases hy : y = b
    · subst hy
      rw [Function.update_of_ne hx, Function.update_self, h x y, hb]
      simp [Ne.symm hx]
    · rw [Function.update_of_ne hx, Function.update_of_ne hy]
      exact h x y

theorem Paired.release (h : Paired f g) (ha : f a = some b) :
    Paired (Function.update f a none) (Function.update g b none) := by
  intro x y
  by_cases hx : x = a
  · subst hx
    by_cases hy : y = b
    · subst hy
      simp
    · rw [Function.update_self, Function.update_of_ne hy, ← h x y, ha]
      simp [Ne.symm hy]
  · by_cases hy : y = b
    · subst hy
      rw [Function.update_of_ne hx, Function.update_self]
      constructor
      · intro hxy
        exact absurd (h.unique hxy ha) hx
      · intro hno
        cases hno
    · rw [Function.update_of_ne hx, Function.update_of_ne hy]
      exact h x y

end Thermometer.Lib.Pairing
