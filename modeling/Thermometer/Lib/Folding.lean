import Mathlib.Algebra.Order.Group.Nat
import Mathlib.Data.List.Induction
import Mathlib.Data.Nat.Bitwise
import Mathlib.Logic.Function.Basic

namespace Thermometer.Lib.Folding

/-- A history with one more outcome; place 0 is the newest. -/
def push (b : Bool) (h : Nat → Bool) : Nat → Bool
  | 0 => b
  | j + 1 => h j

def pushAll (h : Nat → Bool) (bs : List Bool) : Nat → Bool := bs.foldl (fun h b => push b h) h

/-- The history that outcomes leave behind on a history of zeros. -/
def past (bs : List Bool) : Nat → Bool := pushAll (fun _ => false) bs

/-- The newest `n` places of a history, xored in words of `c` bits. -/
def fold (c : Nat) (h : Nat → Bool) : Nat → Nat
  | 0 => 0
  | n + 1 => fold c h n ^^^ ((h n).toNat <<< (n % c))

def wrap (c y : Nat) : Nat := (y ^^^ (y >>> c)) &&& (2 ^ c - 1)

variable {c i n m x y : Nat} {b : Bool} {h : Nat → Bool} {bs : List Bool}

@[simp] theorem push_zero : push b h 0 = b := rfl

@[simp] theorem push_succ (j : Nat) : push b h (j + 1) = h j := rfl

theorem pushAll_append (h : Nat → Bool) (bs ds : List Bool) : pushAll h (bs ++ ds) =
    pushAll (pushAll h bs) ds :=
  List.foldl_append

theorem bit_lt (hi : i < c) (b : Bool) : b.toNat <<< i < 2 ^ c := by
  have hle : 2 ^ (i + 1) ≤ 2 ^ c := Nat.pow_le_pow_right (by decide) hi
  rw [Nat.shiftLeft_eq]
  rw [Nat.pow_succ] at hle
  have hpos : 0 < 2 ^ i := Nat.two_pow_pos i
  cases b
  · simp only [Bool.toNat_false, Nat.zero_mul]
    omega
  · simp only [Bool.toNat_true, Nat.one_mul]
    omega

theorem wrap_xor (c x y : Nat) : wrap c (x ^^^ y) = wrap c x ^^^ wrap c y := by
  simp only [wrap, Nat.shiftRight_xor_distrib]
  rw [← Nat.and_xor_distrib_right]
  congr 1
  apply Nat.eq_of_testBit_eq
  intro j
  simp only [Nat.testBit_xor]
  cases x.testBit j <;> cases y.testBit j <;> cases (x >>> c).testBit j <;> cases (y >>> c).testBit j <;> rfl

theorem wrap_of_lt (hx : x < 2 ^ c) : wrap c x = x := by
  rw [wrap, Nat.shiftRight_eq_zero x c hx, Nat.xor_zero, Nat.and_two_pow_sub_one_eq_mod]
  exact Nat.mod_eq_of_lt hx

theorem wrap_bit (hi : i < c) (b : Bool) : wrap c (b.toNat <<< i <<< 1) = b.toNat <<< ((i + 1) % c) := by
  rw [← Nat.shiftLeft_add]
  rcases Nat.lt_or_eq_of_le (Nat.succ_le_of_lt hi) with hlt | heq
  · rw [Nat.mod_eq_of_lt hlt]
    exact wrap_of_lt (bit_lt hlt b)
  · obtain rfl : i + 1 = c := heq
    rw [Nat.mod_self, Nat.shiftLeft_zero, wrap, Nat.shiftLeft_shiftRight, Nat.and_xor_distrib_right]
    have hhigh : b.toNat <<< (i + 1) &&& 2 ^ (i + 1) - 1 = 0 := by
      rw [Nat.and_two_pow_sub_one_eq_mod, Nat.shiftLeft_eq, Nat.mul_mod_left]
    have hlow : b.toNat &&& 2 ^ (i + 1) - 1 = b.toNat := by
      rw [Nat.and_two_pow_sub_one_eq_mod]
      exact Nat.mod_eq_of_lt (bit_lt (Nat.succ_pos i) b)
    rw [hhigh, hlow, Nat.zero_xor]

theorem fold_push_succ (hc : 0 < c) (b : Bool) (h : Nat → Bool) (n : Nat) :
    fold c (push b h) (n + 1) = b.toNat ^^^ wrap c (fold c h n <<< 1) := by
  induction n with
  | zero => simp [fold, wrap]
  | succ n ih =>
      have hbit := wrap_bit (Nat.mod_lt n hc) (h n)
      rw [Nat.mod_add_mod] at hbit
      calc fold c (push b h) (n + 1 + 1)
          = fold c (push b h) (n + 1) ^^^ ((h n).toNat <<< ((n + 1) % c)) := rfl
        _ = (b.toNat ^^^ wrap c (fold c h n <<< 1)) ^^^ wrap c ((h n).toNat <<< (n % c) <<< 1) :=
          by rw [ih, hbit]
        _ = b.toNat ^^^ wrap c (fold c h n <<< 1 ^^^ (h n).toNat <<< (n % c) <<< 1) := by
            rw [wrap_xor, Nat.xor_assoc]
        _ = b.toNat ^^^ wrap c (fold c h (n + 1) <<< 1) := by rw [fold, Nat.shiftLeft_xor_distrib]

theorem fold_push (hc : 0 < c) (b : Bool) (h : Nat → Bool) (n : Nat) :
    fold c (push b h) n = (b.toNat ^^^ wrap c (fold c h n <<< 1)) ^^^ ((push b h n).toNat <<< (n % c)) := by
  rw [← fold_push_succ hc, fold, Nat.xor_assoc, Nat.xor_self, Nat.xor_zero]

theorem fold_register (hc : 0 < c) (b : Bool) (h : Nat → Bool) (n : Nat) :
    wrap c (((fold c h n <<< 1) ^^^ b.toNat) ^^^ ((push b h n).toNat <<< (n % c))) = fold c (push b h) n := by
  have hin : wrap c b.toNat = b.toNat := wrap_of_lt (bit_lt hc b)
  have hout : wrap c ((push b h n).toNat <<< (n % c)) = (push b h n).toNat <<< (n % c) :=
    wrap_of_lt (bit_lt (Nat.mod_lt n hc) _)
  rw [wrap_xor, wrap_xor, hin, hout, fold_push hc, Nat.xor_comm (wrap c _)]

theorem fold_add_mul (c : Nat) (h : Nat → Bool) (m n : Nat) :
    fold c h (c * m + n) = fold c h (c * m) ^^^ fold c (fun j => h (c * m + j)) n := by
  induction n with
  | zero => simp [fold]
  | succ n ih =>
      have hmod : (c * m + n) % c = n % c := Nat.mul_add_mod c m n
      rw [← Nat.add_assoc, fold, ih, hmod, Nat.xor_assoc]
      rfl

theorem testBit_fold (hn : n ≤ c) (h : Nat → Bool) (j : Nat) : (fold c h n).testBit j =
    (decide (j < n) && h j) := by
  induction n with
  | zero => simp [fold]
  | succ n ih =>
      have hmod : n % c = n := Nat.mod_eq_of_lt hn
      have hbit : ((h n).toNat <<< n).testBit j = (decide (j = n) && h n) := by
        rw [Nat.testBit_shiftLeft]
        rcases Nat.lt_trichotomy j n with hlt | rfl | hgt
        · simp [Nat.not_le_of_lt hlt, Nat.ne_of_lt hlt]
        · cases h j <;> simp
        · have hpos : j - n ≠ 0 := by omega
          rw [decide_eq_true (Nat.le_of_lt hgt), decide_eq_false (Nat.ne_of_gt hgt)]
          cases h n
          · simp
          · have hone : Nat.testBit 1 (j - n) = false := Nat.testBit_lt_two_pow (Nat.one_lt_two_pow hpos)
            simp [hone]
      rw [fold, Nat.testBit_xor, ih (Nat.le_of_succ_le hn), hmod, hbit]
      rcases Nat.lt_trichotomy j n with hlt | rfl | hgt
      · simp [hlt, Nat.lt_succ_of_lt hlt, Nat.ne_of_lt hlt]
      · simp
      · simp [Nat.not_lt_of_gt hgt, Nat.ne_of_gt hgt, show ¬j < n + 1 by omega]

/-- A register of `w` bits whose bits are the newest places of a history. -/
def Shifted (w g : Nat) (h : Nat → Bool) : Prop := ∀ j < w, g.testBit j = h j

theorem shifted_zero (w : Nat) : Shifted w 0 (fun _ => false) := fun j _ => Nat.zero_testBit j

theorem shifted_past_nil (w : Nat) : Shifted w 0 (past []) := shifted_zero w

theorem Shifted.push {w g : Nat} (hs : Shifted w g h) (b : Bool) : Shifted w (g <<< 1 ||| b.toNat)
    (push b h) := by
  intro j hj
  cases j with
  | zero => cases b <;> simp
  | succ j =>
      have hlow : b.toNat.testBit (j + 1) = false := Nat.testBit_lt_two_pow (bit_lt (Nat.succ_pos j) b)
      rw [Nat.testBit_or, Nat.testBit_shiftLeft, hlow, Bool.or_false, push_succ]
      simpa using hs j (by omega)

theorem Shifted.mod {w g : Nat} (hs : Shifted w g h) : Shifted w (g % 2 ^ w) h := by
  intro j hj
  rw [Nat.testBit_mod_two_pow, decide_eq_true hj, Bool.true_and]
  exact hs j hj

theorem Shifted.mono {w v g : Nat} (hs : Shifted w g h) (hle : v ≤ w) : Shifted v g h :=
  fun j hj => hs j (Nat.lt_of_lt_of_le hj hle)

theorem Shifted.eq_fold {w g : Nat} (hs : Shifted w g h) (hg : g < 2 ^ w) : g = fold w h w := by
  apply Nat.eq_of_testBit_eq
  intro j
  rw [testBit_fold (Nat.le_refl w)]
  by_cases hj : j < w
  · rw [hs j hj, decide_eq_true hj, Bool.true_and]
  · rw [decide_eq_false hj, Bool.false_and]
    exact Nat.testBit_lt_two_pow
      (Nat.lt_of_lt_of_le hg (Nat.pow_le_pow_right (by decide) (Nat.le_of_not_gt hj)))

/-- The cells of a ring, read from `pos` on, are the newest places of a history. -/
def Holds (size : Nat) (cells : Nat → Bool) (pos : Int) (h : Nat → Bool) : Prop :=
  ∀ j < size, cells ((pos + j) % size).toNat = h j

theorem Holds.push {size : Nat} {cells : Nat → Bool} {pos : Int} (hold : Holds size cells pos h) (b : Bool) :
    Holds size (Function.update cells ((pos - 1) % size).toNat b) (pos - 1) (push b h) := by
  intro j hj
  cases j with
  | zero =>
      rw [Int.natCast_zero, Int.add_zero, push_zero]
      exact Function.update_self _ _ _
  | succ k =>
      have hplace : pos - 1 + ((k + 1 : Nat) : Int) = pos + k := by
        rw [Int.natCast_add, Int.natCast_one]
        omega
      have hpos : (0 : Int) < size := by omega
      have hne : ((pos + k) % size).toNat ≠ ((pos - 1) % size).toNat := by
        intro heq
        have hle := Int.emod_nonneg (pos + k) (Int.ne_of_gt hpos)
        have hle' := Int.emod_nonneg (pos - 1) (Int.ne_of_gt hpos)
        have hmod : (pos + k) % (size : Int) = (pos - 1) % size := by omega
        have hdvd : (size : Int) ∣ k + 1 := by
          have hdiff : (size : Int) ∣ (pos + k) - (pos - 1) :=
            Int.dvd_of_emod_eq_zero (Int.emod_eq_emod_iff_emod_sub_eq_zero.mp hmod)
          have heq' : pos + k - (pos - 1) = (k : Int) + 1 := by omega
          rwa [heq'] at hdiff
        have hge := Int.le_of_dvd (by omega) hdvd
        omega
      rw [hplace, Function.update_of_ne hne, push_succ]
      exact hold k (by omega)

end Thermometer.Lib.Folding
