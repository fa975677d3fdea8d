import Mathlib.Data.Nat.Notation
import Mathlib.Tactic.Linarith

namespace Thermometer.Lib.Fields

variable {N w w' : Nat} {m : BitVec N} {v : BitVec w} {i j : Nat}

def field (m : BitVec N) (w i : Nat) : BitVec w := m.extractLsb' (w * i) w

def setField (m : BitVec N) (i : Nat) (v : BitVec w) : BitVec N :=
  (m &&& ~~~((BitVec.allOnes w).setWidth N <<< (w * i))) ||| (v.setWidth N <<< (w * i))

theorem getLsbD_field {b : Nat} (hb : b < w) : (field m w i).getLsbD b = m.getLsbD (w * i + b) := by
  rw [field, BitVec.getLsbD_extractLsb', decide_eq_true hb, Bool.true_and]

theorem getLsbD_setField {b : Nat} (hb : b < N) : (setField m i v).getLsbD b =
    if w * i ≤ b ∧ b < w * i + w then v.getLsbD (b - w * i) else m.getLsbD b := by
  have hw : ¬b < w * i → (b - w * i < w ↔ b < w * i + w) := fun h => by omega
  simp only [setField, BitVec.getLsbD_or, BitVec.getLsbD_and, BitVec.getLsbD_not, BitVec.getLsbD_shiftLeft,
    BitVec.getLsbD_setWidth, BitVec.getLsbD_allOnes, hb, decide_true, Bool.true_and]
  by_cases hlow : b < w * i
  · rw [if_neg (by omega)]
    simp [hlow]
  · have hbound : b - w * i < N := by omega
    by_cases hin : b < w * i + w
    · rw [if_pos ⟨not_lt.mp hlow, hin⟩]
      simp [hlow, hbound, (hw hlow).mpr hin]
    · have hout : ¬b - w * i < w := fun h => hin ((hw hlow).mp h)
      rw [if_neg (fun h => hin h.2)]
      simp [hlow, hbound, hout, BitVec.getLsbD_of_ge v (b - w * i) (by omega)]

theorem field_setField_self (h : w * i + w ≤ N) : field (setField m i v) w i = v := by
  apply BitVec.eq_of_getLsbD_eq
  intro b hb
  rw [getLsbD_field hb, getLsbD_setField (by omega), if_pos (by omega), Nat.add_sub_cancel_left]

theorem field_setField_ne (h : w * j + w ≤ N) (hne : j ≠ i) : field (setField m i v) w j = field m w j := by
  apply BitVec.eq_of_getLsbD_eq
  intro b hb
  have hout : ¬(w * i ≤ w * j + b ∧ w * j + b < w * i + w) := by
    rintro ⟨hle, hlt⟩
    rcases Nat.lt_or_gt_of_ne hne with hlow | hhigh
    · have hmul : w * (j + 1) ≤ w * i := Nat.mul_le_mul_left w hlow
      rw [Nat.mul_succ] at hmul
      omega
    · have hmul : w * (i + 1) ≤ w * j := Nat.mul_le_mul_left w hhigh
      rw [Nat.mul_succ] at hmul
      omega
  rw [getLsbD_field hb, getLsbD_field hb, getLsbD_setField (by omega), if_neg hout]

end Thermometer.Lib.Fields
