import Mathlib.Data.Option.Basic

namespace Thermometer.Lib.Cells

/-- A store whose entries are reached through pointers. -/
class Store (U : Type) (P X : outParam Type) where
  get : U → P → Option X
  modify : U → P → (X → X) → U
  get_modify_self : ∀ (u : U) (p : P) (f : X → X), get (modify u p f) p = (get u p).map f
  get_modify_ne : ∀ (u : U) (f : X → X) {p q : P}, q ≠ p → get (modify u p f) q = get u q

variable {U P X : Type} [Store U P X] {u : U} {p q : P} {f : X → X} {x y : X}

theorem get_modify_of_some (h : Store.get u p = some x) : Store.get (Store.modify u p f) p = some (f x) := by
  rw [Store.get_modify_self, h, Option.map_some]

end Thermometer.Lib.Cells
