import Mathlib.Data.Nat.Bitwise
import Mathlib.Data.Nat.Log
import Thermometer.Trace

namespace Thermometer.SetMapping

/-- `total_btb_entries` as the option leaves it, in 64 bits. -/
def totalBtbEntries (arg : Int) : Nat :=
  let entries := (arg % 2 ^ 64).toNat
  if entries < 1024 then entries * 1024 else entries

/-- `total_btb_ways` has 8 bits. -/
def totalBtbWays (arg : Int) : Nat := (arg % 256).toNat

/-- `none` is a division by zero, here and below. -/
def basicBtbSets (entries ways : Nat) : Option Nat := if ways = 0 then none else some (entries / ways)

/-- The parts that map branches to sets on their own. -/
inductive User
  | coverageAccuracy
  | srripBtb
  | optBtb
  | basicBtb
  deriving DecidableEq

def maskIndex (sets ip : Nat) : Option Nat := some ((ip >>> 2) &&& ((sets + (2 ^ 64 - 1)) % 2 ^ 64))

def modIndex (sets ip : Nat) : Option Nat := if sets = 0 then none else some (Trace.setIndex sets ip)

def User.findSetIndex : User → Nat → Nat → Option Nat
  | .coverageAccuracy => maskIndex
  | .srripBtb => maskIndex
  | .optBtb => modIndex
  | .basicBtb => modIndex

def User.Shares (u : User) (sets a b : Nat) : Prop := ∃ i, u.findSetIndex sets a = some i ∧ u.findSetIndex sets b = some i

/-- All parts measure on one partition of the 64-bit addresses, without idle sets. -/
structure OneMapping (sets : Nat) : Prop where
  agree : ∀ (u v : User) (a b : Nat), a < 2 ^ 64 → b < 2 ^ 64 → (u.Shares sets a b ↔ v.Shares sets a b)
  reached : ∀ (u : User) (i : Nat), i < sets → ∃ ip < 2 ^ 64, u.findSetIndex sets ip = some i

variable {n sets : Nat}

theorem maskIndex_eq (hpos : 0 < sets) (hlt : sets < 2 ^ 64) (ip : Nat) :
    maskIndex sets ip = some (Trace.maskIndex sets ip) := by
  have hmask : (sets + (2 ^ 64 - 1)) % 2 ^ 64 = sets - 1 := by omega
  rw [maskIndex, hmask]
  rfl

theorem shiftRight_two_lt {ip : Nat} (h : ip < 2 ^ 64) : ip >>> 2 < 2 ^ 62 := by
  rw [Nat.shiftRight_eq_div_pow]
  omega

theorem exists_eq_two_pow (hpos : 0 < n) (h : ∀ i < n, ∃ x, x &&& (n - 1) = i) : ∃ k, n = 2 ^ k := by
  have hself : ∀ i < n, i &&& (n - 1) = i := by
    intro i hi
    obtain ⟨x, hx⟩ := h i hi
    rw [← hx, Nat.and_assoc, Nat.and_self]
  let k := Nat.log 2 n
  have hle : 2 ^ k ≤ n := Nat.pow_log_le_self 2 (Nat.ne_of_gt hpos)
  have hlt : n < 2 ^ (k + 1) := Nat.lt_pow_succ_log_self (by omega) n
  refine ⟨k, ?_⟩
  by_contra hne
  -- above the power itself, the mask has the top bit and every lower one
  have hall : ∀ i ≤ k, (n - 1).testBit i = true := by
    intro i hi
    have hbit : 2 ^ i < n := by
      have := Nat.pow_le_pow_right (n := 2) (by omega) hi
      omega
    have hsub := congrArg (fun x => x.testBit i) (hself (2 ^ i) hbit)
    simpa [Nat.testBit_and, Nat.testBit_two_pow_self] using hsub
  have hfull : n - 1 = 2 ^ (k + 1) - 1 := by
    apply Nat.eq_of_testBit_eq
    intro i
    rw [Nat.testBit_two_pow_sub_one]
    rcases Nat.lt_or_ge k i with hi | hi
    · rw [decide_eq_false (by omega)]
      apply Nat.testBit_eq_false_of_lt
      have := Nat.pow_le_pow_right (n := 2) (by omega) (Nat.succ_le_of_lt hi)
      omega
    · rw [decide_eq_true (by omega), hall i hi]
  omega

theorem maskIndex_two_pow {k : Nat} (hk : k ≤ 62) (ip : Nat) : maskIndex (2 ^ k) ip = modIndex (2 ^ k) ip := by
  have hpos : 0 < 2 ^ k := Nat.two_pow_pos k
  have hlt : 2 ^ k < 2 ^ 64 := Nat.pow_lt_pow_right (by omega) (by omega)
  rw [maskIndex_eq hpos hlt, modIndex, if_neg (Nat.ne_of_gt hpos), Trace.maskIndex, Nat.and_two_pow_sub_one_eq_mod]
  rfl

theorem oneMapping_two_pow {k : Nat} (hk : k ≤ 62) : OneMapping (2 ^ k) := by
  have hle : 2 ^ k ≤ 2 ^ 62 := Nat.pow_le_pow_right (by omega) hk
  have hall : ∀ (u : User) (ip : Nat), u.findSetIndex (2 ^ k) ip = some ((ip >>> 2) % 2 ^ k) := by
    intro u ip
    have hmod : modIndex (2 ^ k) ip = some ((ip >>> 2) % 2 ^ k) := if_neg (Nat.ne_of_gt (Nat.two_pow_pos k))
    cases u
    · exact (maskIndex_two_pow hk ip).trans hmod
    · exact (maskIndex_two_pow hk ip).trans hmod
    · exact hmod
    · exact hmod
  constructor
  · intro u v a b _ _
    rw [User.Shares, User.Shares, hall u, hall u, hall v, hall v]
  · intro u i hi
    refine ⟨i <<< 2, ?_, ?_⟩
    · rw [Nat.shiftLeft_eq]
      omega
    · rw [hall, Nat.shiftLeft_shiftRight, Nat.mod_eq_of_lt hi]

theorem OneMapping.pos (h : OneMapping sets) : 0 < sets := by
  rcases Nat.eq_zero_or_pos sets with rfl | hpos
  · have hshare : User.Shares .coverageAccuracy 0 0 0 := ⟨_, rfl, rfl⟩
    obtain ⟨i, hi, -⟩ := (h.agree .coverageAccuracy .optBtb 0 0 (by omega) (by omega)).mp hshare
    cases hi
  · exact hpos

theorem OneMapping.le (h : OneMapping sets) : sets ≤ 2 ^ 62 := by
  have hpos := h.pos
  obtain ⟨ip, hip, heq⟩ := h.reached .optBtb (sets - 1) (Nat.sub_one_lt (Nat.ne_of_gt hpos))
  change modIndex sets ip = some (sets - 1) at heq
  rw [modIndex, if_neg (Nat.ne_of_gt hpos), Option.some.injEq] at heq
  have hlt := shiftRight_two_lt hip
  have hle : Trace.setIndex sets ip ≤ ip >>> 2 := Nat.mod_le _ sets
  omega

theorem oneMapping_iff (sets : Nat) : OneMapping sets ↔ ∃ k ≤ 62, sets = 2 ^ k := by
  constructor
  · intro h
    have hpos := h.pos
    have hle := h.le
    have hmask : ∃ k, sets = 2 ^ k := by
      apply exists_eq_two_pow hpos
      intro i hi
      obtain ⟨ip, -, heq⟩ := h.reached .srripBtb i hi
      change maskIndex sets ip = some i at heq
      rw [maskIndex_eq hpos (by omega), Option.some.injEq] at heq
      exact ⟨_, heq⟩
    obtain ⟨k, rfl⟩ := hmask
    exact ⟨k, (Nat.pow_le_pow_iff_right (by omega)).mp hle, rfl⟩
  · rintro ⟨k, hk, rfl⟩
    exact oneMapping_two_pow hk

/-- The geometry of the command line is mapped in one way by all parts exactly
when it has a power of two many sets. -/
theorem geometry_oneMapping_iff (entries ways : Int) :
    (∃ sets, basicBtbSets (totalBtbEntries entries) (totalBtbWays ways) = some sets ∧ OneMapping sets) ↔
      ∃ k ≤ 62, basicBtbSets (totalBtbEntries entries) (totalBtbWays ways) = some (2 ^ k) := by
  constructor
  · rintro ⟨sets, hsets, h⟩
    obtain ⟨k, hk, rfl⟩ := (oneMapping_iff sets).mp h
    exact ⟨k, hk, hsets⟩
  · rintro ⟨k, hk, hsets⟩
    exact ⟨2 ^ k, hsets, oneMapping_two_pow hk⟩

/-- With 7979 entries and 4 ways the addresses 0 and 8 share a set of the masked
parts, and no set of the others. -/
theorem geometry_differs :
    ¬∃ sets, basicBtbSets (totalBtbEntries 7979) (totalBtbWays 4) = some sets ∧ OneMapping sets := by
  rintro ⟨sets, hsets, h⟩
  have hsets' : basicBtbSets (totalBtbEntries 7979) (totalBtbWays 4) = some 1994 := by decide
  obtain rfl : 1994 = sets := Option.some.inj (hsets'.symm.trans hsets)
  have hshare : User.Shares .coverageAccuracy 1994 0 8 := ⟨0, by decide, by decide⟩
  obtain ⟨i, h₀, h₈⟩ := (h.agree .coverageAccuracy .optBtb 0 8 (by omega) (by omega)).mp hshare
  have hne : User.findSetIndex .optBtb 1994 0 ≠ User.findSetIndex .optBtb 1994 8 := by decide
  exact hne (h₀.trans h₈.symm)

end Thermometer.SetMapping
