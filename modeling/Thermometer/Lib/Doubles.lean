import Mathlib.Algebra.Order.Field.Power
import Mathlib.Data.Int.Log
import Mathlib.Data.Rat.Floor

namespace Thermometer.Lib.Doubles

variable {R : Type} [Field R]

def Representable (p : ℕ) (x : R) : Prop := ∃ (m : ℕ) (e : ℤ), m < 2 ^ p ∧ x = m * (2 : R) ^ e

variable {p : ℕ} {x y : R}

theorem representable_natCast {n : ℕ} (hn : n ≤ 2 ^ p) (hp : 0 < p) : Representable p (n : R) := by
  rcases hn.lt_or_eq with hlt | rfl
  · exact ⟨n, 0, hlt, by rw [zpow_zero, mul_one]⟩
  · exact ⟨1, p, Nat.one_lt_two_pow hp.ne', by rw [zpow_natCast, Nat.cast_one, one_mul, Nat.cast_pow, Nat.cast_ofNat]⟩

variable [LinearOrder R] [FloorRing R]

def roundEven (x : R) : ℤ :=
  if Int.fract x < 1 / 2 ∨ (Int.fract x = 1 / 2 ∧ Even ⌊x⌋) then ⌊x⌋ else ⌊x⌋ + 1

def spacing (p : ℕ) (x : R) : R := (2 : R) ^ (Int.log 2 x - p + 1)

def roundTo (p : ℕ) (x : R) : R := roundEven (x / spacing p x) * spacing p x

theorem floor_le_roundEven (x : R) : ⌊x⌋ ≤ roundEven x := by
  rw [roundEven]
  split_ifs <;> omega

theorem roundEven_le_floor (x : R) : roundEven x ≤ ⌊x⌋ + 1 := by
  rw [roundEven]
  split_ifs <;> omega

theorem two_pow_mul_spacing (p : ℕ) (x : R) : (2 : R) ^ p * spacing p x = 2 ^ (Int.log 2 x + 1) := by
  rw [spacing, ← zpow_natCast, ← zpow_add₀ two_ne_zero]
  congr 1
  omega

variable [IsStrictOrderedRing R]

theorem roundEven_intCast (n : ℤ) : roundEven (n : R) = n := by
  have hlt : Int.fract (n : R) < 1 / 2 := by
    rw [Int.fract_intCast]
    exact one_half_pos
  rw [roundEven, if_pos (.inl hlt), Int.floor_intCast]

theorem roundEven_mono (h : x ≤ y) : roundEven x ≤ roundEven y := by
  rcases (Int.floor_le_floor h).lt_or_eq with hlt | heq
  · have hx := roundEven_le_floor x
    have hy := floor_le_roundEven y
    omega
  · have hfract : Int.fract x ≤ Int.fract y := by
      rw [Int.fract, Int.fract, heq]
      exact sub_le_sub_right h _
    have hdown : Int.fract y < 1 / 2 ∨ (Int.fract y = 1 / 2 ∧ Even ⌊y⌋) →
        Int.fract x < 1 / 2 ∨ (Int.fract x = 1 / 2 ∧ Even ⌊x⌋) := by
      rintro (hy | ⟨hy, heven⟩)
      · exact .inl (hfract.trans_lt hy)
      · exact (hfract.trans_eq hy).lt_or_eq.imp_right (fun hx => ⟨hx, heq ▸ heven⟩)
    rw [roundEven, roundEven, heq]
    by_cases hy : Int.fract y < 1 / 2 ∨ (Int.fract y = 1 / 2 ∧ Even ⌊y⌋)
    · rw [if_pos hy, if_pos (heq ▸ hdown hy)]
    · rw [if_neg hy]
      split_ifs <;> omega

theorem spacing_pos (p : ℕ) (x : R) : 0 < spacing p x := zpow_pos two_pos _

theorem roundTo_zero (p : ℕ) : roundTo p (0 : R) = 0 := by
  have h : roundEven (0 : R) = 0 := by
    rw [← Int.cast_zero]
    exact roundEven_intCast 0
  rw [roundTo, zero_div, h, Int.cast_zero, zero_mul]

theorem roundTo_of_mul {n : ℤ} (h : x = n * spacing p x) : roundTo p x = x := by
  have hdiv : x / spacing p x = n := by
    rw [div_eq_iff (spacing_pos p x).ne']
    exact h
  rw [roundTo, hdiv, roundEven_intCast]
  exact h.symm

theorem roundTo_le_two_zpow (p : ℕ) (x : R) : roundTo p x ≤ 2 ^ (Int.log 2 x + 1) := by
  have hlt : x / spacing p x ≤ ((2 ^ p : ℤ) : R) := by
    rw [div_le_iff₀ (spacing_pos p x), Int.cast_pow, Int.cast_ofNat, two_pow_mul_spacing]
    exact_mod_cast (Int.lt_zpow_succ_log_self (R := R) one_lt_two x).le
  have hround := roundEven_mono hlt
  rw [roundEven_intCast] at hround
  have hcast : (roundEven (x / spacing p x) : R) ≤ 2 ^ p := by exact_mod_cast hround
  rw [roundTo, ← two_pow_mul_spacing p x]
  exact mul_le_mul_of_nonneg_right hcast (spacing_pos p x).le

theorem two_zpow_le_roundTo (hp : 0 < p) (hx : 0 < x) : 2 ^ Int.log 2 x ≤ roundTo p x := by
  have hscale : (2 : R) ^ (p - 1) * spacing p x = 2 ^ Int.log 2 x := by
    rw [spacing, ← zpow_natCast, ← zpow_add₀ two_ne_zero]
    congr 1
    omega
  have hle : ((2 ^ (p - 1) : ℤ) : R) ≤ x / spacing p x := by
    rw [le_div_iff₀ (spacing_pos p x), Int.cast_pow, Int.cast_ofNat, hscale]
    exact_mod_cast Int.zpow_log_le_self (R := R) one_lt_two hx
  have hround := roundEven_mono hle
  rw [roundEven_intCast] at hround
  have hcast : (2 : R) ^ (p - 1) ≤ roundEven (x / spacing p x) := by exact_mod_cast hround
  rw [roundTo, ← hscale]
  exact mul_le_mul_of_nonneg_right hcast (spacing_pos p x).le

theorem roundTo_mono (hp : 0 < p) (hx : 0 ≤ x) (h : x ≤ y) : roundTo p x ≤ roundTo p y := by
  rcases hx.eq_or_lt with rfl | hpos
  · rw [roundTo_zero]
    rcases h.eq_or_lt with rfl | hy
    · rw [roundTo_zero]
    · exact (zpow_pos two_pos _).le.trans (two_zpow_le_roundTo hp hy)
  · rcases (Int.log_mono_right (b := 2) hpos h).lt_or_eq with hlt | heq
    · calc
        roundTo p x ≤ 2 ^ (Int.log 2 x + 1) := roundTo_le_two_zpow p x
        _ ≤ 2 ^ Int.log 2 y := zpow_le_zpow_right₀ one_le_two hlt
        _ ≤ roundTo p y := two_zpow_le_roundTo hp (hpos.trans_le h)
    · have hspacing : spacing p x = spacing p y := by rw [spacing, spacing, heq]
      have hdiv : x / spacing p x ≤ y / spacing p y := by
        rw [hspacing]
        exact div_le_div_of_nonneg_right h (spacing_pos p y).le
      have hcast : (roundEven (x / spacing p x) : R) ≤ roundEven (y / spacing p y) := by
        exact_mod_cast roundEven_mono hdiv
      rw [roundTo, roundTo, hspacing]
      rw [hspacing] at hcast
      exact mul_le_mul_of_nonneg_right hcast (spacing_pos p y).le

theorem Representable.roundTo_eq (h : Representable p x) : roundTo p x = x := by
  obtain ⟨m, e, hm, rfl⟩ := h
  rcases Nat.eq_zero_or_pos m with rfl | hpos
  · rw [Nat.cast_zero, zero_mul, roundTo_zero]
  · have hx : (0 : R) < m * 2 ^ e := mul_pos (Nat.cast_pos.mpr hpos) (zpow_pos two_pos e)
    have hlt : (m : R) * 2 ^ e < 2 ^ (p + e : ℤ) := by
      rw [zpow_add₀ two_ne_zero, zpow_natCast]
      exact mul_lt_mul_of_pos_right (by exact_mod_cast hm) (zpow_pos two_pos e)
    have hlog : Int.log 2 ((m : R) * 2 ^ e) < p + e :=
      (Int.lt_zpow_iff_log_lt one_lt_two hx).mp (by exact_mod_cast hlt)
    obtain ⟨k, hk⟩ := Int.eq_ofNat_of_zero_le (show 0 ≤ e - (Int.log 2 ((m : R) * 2 ^ e) - p + 1) by omega)
    refine roundTo_of_mul (n := m * 2 ^ k) ?_
    have hsplit : (2 : R) ^ e = 2 ^ k * spacing p ((m : R) * 2 ^ e) := by
      rw [spacing, ← zpow_natCast, ← zpow_add₀ two_ne_zero]
      congr 1
      omega
    rw [Int.cast_mul, Int.cast_pow, Int.cast_ofNat, Int.cast_natCast, mul_assoc, ← hsplit]

theorem representable_roundTo (hp : 0 < p) (hx : 0 ≤ x) : Representable p (roundTo p x) := by
  rcases hx.eq_or_lt with rfl | hpos
  · rw [roundTo_zero]
    exact ⟨0, 0, Nat.two_pow_pos p, by rw [Nat.cast_zero, zero_mul]⟩
  · have hnonneg : 0 ≤ roundEven (x / spacing p x) := by
      rw [← roundEven_intCast (R := R) 0, Int.cast_zero]
      exact roundEven_mono (div_nonneg hx (spacing_pos p x).le)
    obtain ⟨m, hm⟩ := Int.eq_ofNat_of_zero_le hnonneg
    have hle : (m : R) ≤ 2 ^ p := by
      have h := roundTo_le_two_zpow p x
      rw [roundTo, ← two_pow_mul_spacing p x, hm, Int.cast_natCast] at h
      exact le_of_mul_le_mul_right h (spacing_pos p x)
    obtain ⟨k, e, hk, heq⟩ := representable_natCast (R := R) (n := m) (by exact_mod_cast hle) hp
    refine ⟨k, e + (Int.log 2 x - p + 1), hk, ?_⟩
    rw [roundTo, hm, Int.cast_natCast, heq, zpow_add₀ two_ne_zero, mul_assoc]
    rfl

theorem roundTo_le (hp : 0 < p) (hx : 0 ≤ x) (hy : Representable p y) (h : x ≤ y) : roundTo p x ≤ y :=
  (roundTo_mono hp hx h).trans_eq hy.roundTo_eq

theorem le_roundTo (hp : 0 < p) (hx : 0 ≤ x) (hrep : Representable p x) (h : x ≤ y) : x ≤ roundTo p y :=
  hrep.roundTo_eq.symm.trans_le (roundTo_mono hp hx h)

end Thermometer.Lib.Doubles
