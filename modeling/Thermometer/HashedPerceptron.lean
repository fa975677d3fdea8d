import Thermometer.Lib.Folding
import Mathlib.Algebra.BigOperators.Group.Finset.Basic
import Mathlib.Algebra.Order.BigOperators.Group.Finset
import Mathlib.Algebra.Order.Ring.Abs
import Mathlib.Algebra.Order.Ring.Int

namespace Thermometer.HashedPerceptron

open Lib.Folding

def ntables : Nat := 16
def maxHist : Nat := 232
def speed : Int := 18
def logTableSize : Nat := 12
def tableSize : Nat := 1 <<< logTableSize
def nghistWords : Nat := maxHist / logTableSize + 1

def historyLengths : List Nat := [0, 3, 4, 6, 8, 10, 14, 19, 26, 36, 49, 67, 91, 125, 170, maxHist]

structure State where
  tables : Nat → Nat → Int
  ghistWords : Nat → Nat
  indices : Nat → Nat
  theta : Int
  tc : Int
  yout : Int

def initializeBranchPredictor : State := ⟨fun _ _ => 0, fun _ => 0, fun _ => 0, 10, 0, 0⟩

/-- The words of the history xored one after the other, the last of them in part, and then the
address. -/
def tableIndex (words : Nat → Nat) (pc n : Nat) : Nat :=
  let x := (List.range (n / logTableSize)).foldl (fun x j => x ^^^ words j) 0
  let x := x ^^^ (words (n / logTableSize) &&& (1 <<< (n % logTableSize) - 1))
  (x ^^^ pc) &&& (tableSize - 1)

def predictBranch (s : State) (pc : Nat) : State × Bool :=
  let indices := fun i => tableIndex s.ghistWords pc (historyLengths.getD i 0)
  let yout := (List.range ntables).foldl (fun y i => y + s.tables i (indices i)) 0
  ({ s with indices := indices, yout := yout }, decide (yout ≥ 1))

/-- The outcome goes into the first word, and what falls out of a word into the next. -/
def shiftWords (words : Nat → Nat) (b : Bool) : Nat → Nat
  | 0 => (words 0 <<< 1 ||| b.toNat) &&& (tableSize - 1)
  | i + 1 =>
      if i + 1 < nghistWords then
        (words (i + 1) <<< 1 ||| ((words i <<< 1) &&& tableSize != 0).toNat) &&& (tableSize - 1)
      else words (i + 1)

def trainWeight (c : Int) (taken : Bool) : Int :=
  if taken then if c < 127 then c + 1 else c else if c > -128 then c - 1 else c

/-- The threshold follows how often the answers were wrong, and how often right but weak. -/
def updateTheta (s : State) (correct : Bool) (a : Int) : State :=
  if !correct then
    if s.tc + 1 ≥ speed then { s with theta := s.theta + 1, tc := 0 } else { s with tc := s.tc + 1 }
  else if a < s.theta then
    if s.tc - 1 ≤ -speed then { s with theta := s.theta - 1, tc := 0 } else { s with tc := s.tc - 1 }
  else s

def lastBranchResult (s : State) (taken : Bool) : State :=
  let correct := taken == decide (s.yout ≥ 1)
  let s := { s with ghistWords := shiftWords s.ghistWords taken }
  let a := if s.yout < 0 then -s.yout else s.yout
  if !correct || decide (a < s.theta) then
    let tables := fun i x =>
      if i < ntables ∧ x = s.indices i then trainWeight (s.tables i x) taken else s.tables i x
    updateTheta { s with tables := tables } correct a
  else s

def step (s : State) (b : Nat × Bool) : State := lastBranchResult (predictBranch s b.1).1 b.2

def Holds (words : Nat → Nat) (h : Nat → Bool) : Prop :=
  ∀ i < nghistWords, words i = fold logTableSize (fun j => h (logTableSize * i + j)) logTableSize

structure Sound (s : State) : Prop where
  weights : ∀ i x, -128 ≤ s.tables i x ∧ s.tables i x ≤ 127
  theta : 0 ≤ s.theta
  tc : -speed < s.tc ∧ s.tc < speed

variable {s : State} {words : Nat → Nat} {h : Nat → Bool} {i n pc : Nat}

theorem fold_word_bits (h : Nat → Bool) (j : Nat) :
    (fold logTableSize h logTableSize).testBit j = (decide (j < logTableSize) && h j) :=
      testBit_fold (Nat.le_refl _) h j

theorem testBit_mask (x j : Nat) : (x &&& (tableSize - 1)).testBit j =
    (decide (j < logTableSize) && x.testBit j) := by
  rw [tableSize, Nat.one_shiftLeft, Nat.and_two_pow_sub_one_eq_mod, Nat.testBit_mod_two_pow]

theorem carry_eq (x : Nat) : ((x <<< 1) &&& tableSize != 0) = x.testBit 11 := by
  have hbit : (x <<< 1).testBit 12 = x.testBit 11 := by
    rw [Nat.testBit_shiftLeft]
    rfl
  rw [tableSize, logTableSize, Nat.one_shiftLeft, Nat.and_two_pow, hbit]
  cases x.testBit 11 <;> rfl

theorem Holds.testBit (hold : Holds words h) (hi : i < nghistWords) (j : Nat) :
    (words i).testBit j = (decide (j < logTableSize) && h (logTableSize * i + j)) := by
  rw [hold i hi, fold_word_bits]

theorem Holds.shiftWords (hold : Holds words h) (b : Bool) : Holds (shiftWords words b) (push b h) := by
  intro i hi
  apply Nat.eq_of_testBit_eq
  intro j
  have hlow : ∀ c : Bool, ∀ j, c.toNat.testBit (j + 1) = false :=
    fun c j => Nat.testBit_lt_two_pow (bit_lt (Nat.succ_pos j) c)
  have hin : ∀ (x : Nat) (c : Bool) (j : Nat), ((x <<< 1 ||| c.toNat) &&& (tableSize - 1)).testBit (j + 1) =
      (decide (j + 1 < logTableSize) && x.testBit j) := by
    intro x c j
    rw [testBit_mask, Nat.testBit_or, Nat.testBit_shiftLeft, hlow, Bool.or_false, Nat.add_sub_cancel,
      decide_eq_true (Nat.le_add_left 1 j), Bool.true_and]
  have hnew : ∀ (x : Nat) (c : Bool), ((x <<< 1 ||| c.toNat) &&& (tableSize - 1)).testBit 0 = c := by
    intro x c
    rw [testBit_mask, Nat.testBit_or, Nat.testBit_shiftLeft]
    cases c <;> rfl
  rw [fold_word_bits]
  cases i with
  | zero =>
      rw [HashedPerceptron.shiftWords, Nat.mul_zero, Nat.zero_add]
      cases j with
      | zero => exact hnew _ b
      | succ j =>
          rw [hin, hold.testBit (by decide), Nat.mul_zero, Nat.zero_add, push_succ]
          by_cases hj : j + 1 < logTableSize
          · simp [hj, Nat.lt_of_succ_lt hj]
          · simp [hj]
  | succ i =>
      rw [HashedPerceptron.shiftWords, if_pos hi, carry_eq, hold.testBit (by omega)]
      cases j with
      | zero =>
          have hplace : logTableSize * (i + 1) + 0 = logTableSize * i + 11 + 1 := by
            simp only [logTableSize]
            omega
          rw [hnew, hplace, push_succ]
          rfl
      | succ j =>
          rw [hin, hold.testBit hi, ← Nat.add_assoc, push_succ]
          by_cases hj : j + 1 < logTableSize
          · simp [hj, Nat.lt_of_succ_lt hj]
          · simp [hj]

theorem xor_words (hold : Holds words h) {m r : Nat} (hm : m < nghistWords) (hr : r < logTableSize) :
    (List.range m).foldl (fun x j => x ^^^ words j) 0 ^^^ (words m &&& (1 <<< r - 1)) =
      fold logTableSize h (logTableSize * m + r) := by
  have hwhole : ∀ k ≤ m, (List.range k).foldl (fun x j => x ^^^ words j) 0 =
    fold logTableSize h (logTableSize * k) := by
    intro k
    induction k with
    | zero => exact fun _ => rfl
    | succ k ih =>
        intro hk
        rw [List.range_succ, List.foldl_append, ih (Nat.le_of_succ_le hk), List.foldl_cons,
          List.foldl_nil, Nat.mul_succ,
          fold_add_mul, hold k (by omega)]
  have hpart : words m &&& (1 <<< r - 1) = fold logTableSize (fun j => h (logTableSize * m + j)) r := by
    apply Nat.eq_of_testBit_eq
    intro j
    rw [Nat.one_shiftLeft, Nat.and_two_pow_sub_one_eq_mod, Nat.testBit_mod_two_pow, hold m hm, fold_word_bits,
      testBit_fold (Nat.le_of_lt hr)]
    by_cases hj : j < r
    · simp [hj, Nat.lt_trans hj hr]
    · simp [hj]
  rw [hwhole m (Nat.le_refl m), hpart, fold_add_mul]

theorem tableIndex_eq (hold : Holds words h) (hn : n ≤ maxHist) (pc : Nat) :
    tableIndex words pc n = (fold logTableSize h n ^^^ pc) &&& (tableSize - 1) := by
  have hm : n / logTableSize < nghistWords := Nat.lt_succ_of_le (Nat.div_le_div_right hn)
  have hr : n % logTableSize < logTableSize := Nat.mod_lt _ (by decide)
  have hxor := xor_words hold hm hr
  rw [Nat.div_add_mod] at hxor
  simp only [tableIndex, hxor]

theorem lastBranchResult_words (s : State) (taken : Bool) :
    (lastBranchResult s taken).ghistWords = shiftWords s.ghistWords taken := by
  simp only [lastBranchResult, updateTheta]
  split_ifs <;> rfl

theorem holds_run (hold : Holds s.ghistWords h) (bs : List (Nat × Bool)) :
    Holds (bs.foldl step s).ghistWords (pushAll h (bs.map Prod.snd)) := by
  induction bs generalizing s h with
  | nil => exact hold
  | cons b bs ih =>
      apply ih
      rw [step, lastBranchResult_words]
      exact hold.shiftWords b.2

theorem length_le : ∀ n ∈ historyLengths, n ≤ maxHist := by decide

/-- After any branches, each table is indexed by the fold of as many real outcomes as it looks back
on, though the words only ever pass single bits on. -/
theorem indices_fold (bs : List (Nat × Bool)) (pc i : Nat) :
    (predictBranch (bs.foldl step initializeBranchPredictor) pc).1.indices i =
      (fold logTableSize (past (bs.map Prod.snd)) (historyLengths.getD i 0) ^^^ pc) &&& (tableSize - 1) := by
  have hzero : Holds initializeBranchPredictor.ghistWords (past []) := by
    intro i _
    exact (by decide : 0 = fold logTableSize (fun _ => false) logTableSize)
  have hlen : historyLengths.getD i 0 ≤ maxHist := by
    rw [List.getD_eq_getElem?_getD]
    cases hget : historyLengths[i]? with
    | none => exact Nat.zero_le _
    | some n => exact length_le n (List.mem_of_getElem? hget)
  exact tableIndex_eq (holds_run hzero bs) hlen pc

theorem Sound.predictBranch (hs : Sound s) (pc : Nat) : Sound (predictBranch s pc).1 :=
    ⟨hs.weights, hs.theta, hs.tc⟩

theorem Sound.updateTheta (hs : Sound s) (correct : Bool) {a : Int} (ha : 0 ≤ a) :
    Sound (updateTheta s correct a) := by
  have htheta := hs.theta
  obtain ⟨hl, hu⟩ := hs.tc
  simp only [HashedPerceptron.updateTheta]
  by_cases hwrong : (!correct) = true
  · simp only [if_pos hwrong]
    by_cases hup : s.tc + 1 ≥ speed
    · rw [if_pos hup]
      exact ⟨hs.weights, Int.le_add_one htheta, (by decide : -speed < 0 ∧ 0 < speed)⟩
    · rw [if_neg hup]
      exact ⟨hs.weights, htheta, Int.lt_add_one_of_le (Int.le_of_lt hl), Int.lt_of_not_ge hup⟩
  · simp only [if_neg hwrong]
    by_cases hweak : a < s.theta
    · rw [if_pos hweak]
      by_cases hdown : s.tc - 1 ≤ -speed
      · rw [if_pos hdown]
        exact ⟨hs.weights, Int.le_sub_one_of_lt (Int.lt_of_le_of_lt ha hweak),
          (by decide : -speed < 0 ∧ 0 < speed)⟩
      · rw [if_neg hdown]
        exact ⟨hs.weights, htheta, Int.lt_of_not_ge hdown,
          Int.lt_of_le_of_lt (Int.sub_le_self s.tc (by decide)) hu⟩
    · rw [if_neg hweak]
      exact hs

theorem Sound.lastBranchResult (hs : Sound s) (taken : Bool) : Sound (lastBranchResult s taken) := by
  have htrain : ∀ c : Int, -128 ≤ c ∧ c ≤ 127 → -128 ≤ trainWeight c taken ∧ trainWeight c taken ≤ 127 := by
    intro c hc
    simp only [trainWeight]
    split_ifs <;> omega
  have habs : 0 ≤ if s.yout < 0 then -s.yout else s.yout := by
    split_ifs <;> omega
  simp only [HashedPerceptron.lastBranchResult]
  by_cases hlearn :
    (!taken == decide (s.yout ≥ 1) || decide ((if s.yout < 0 then -s.yout else s.yout) < s.theta)) =
    true
  · rw [if_pos hlearn]
    apply Sound.updateTheta _ _ habs
    refine ⟨?_, hs.theta, hs.tc⟩
    intro i x
    dsimp only
    split_ifs
    · exact htrain _ (hs.weights i x)
    · exact hs.weights i x
  · rw [if_neg hlearn]
    exact ⟨hs.weights, hs.theta, hs.tc⟩

/-- Over any branches the weights stay in their eight bits, the threshold never falls below 0, and
neither the counter for it nor the sum that answers a branch leaves its range. -/
theorem weights_in_range (bs : List (Nat × Bool)) (pc : Nat) :
    Sound (bs.foldl step initializeBranchPredictor) ∧
      |(predictBranch (bs.foldl step initializeBranchPredictor) pc).1.yout| ≤ 16 * 128 := by
  have hall : ∀ s, Sound s → Sound (bs.foldl step s) := by
    induction bs with
    | nil => exact fun s hs => hs
    | cons b bs ih => exact fun s hs => ih _ ((hs.predictBranch b.1).lastBranchResult b.2)
  have hsound := hall initializeBranchPredictor ⟨fun _ _ => (by decide : (-128 : Int) ≤ 0 ∧ (0 : Int) ≤ 127),
    by decide, by decide⟩
  refine ⟨hsound, ?_⟩
  generalize bs.foldl step initializeBranchPredictor = s at hsound
  have hsum : ∀ n, |(List.range n).foldl
      (fun y i => y + s.tables i (tableIndex s.ghistWords pc (historyLengths.getD i 0))) 0| ≤ n * 128 := by
    intro n
    induction n with
    | zero => exact Int.le_refl 0
    | succ n ih =>
        have hw := hsound.weights n (tableIndex s.ghistWords pc (historyLengths.getD n 0))
        rw [List.range_succ, List.foldl_append, List.foldl_cons, List.foldl_nil]
        rw [abs_le] at ih ⊢
        push_cast
        omega
  exact hsum ntables

end Thermometer.HashedPerceptron
