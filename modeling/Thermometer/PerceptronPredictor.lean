import Thermometer.Lib.Folding
import Thermometer.Lib.Saturation
import Thermometer.Lib.Runs

namespace Thermometer.PerceptronPredictor

open Lib.Folding Lib.Perceptrons Lib.Runs

def perceptronHistory : Nat := 24
def numPerceptrons : Nat := 163
def perceptronBits : Nat := 8
def maxWeight : Int := 1 <<< (perceptronBits - 1) - 1
def minWeight : Int := -(maxWeight + 1)

def theta : Int := 193 * perceptronHistory / 100 + 14

def numUpdateEntries : Nat := 100

structure PerceptronState where
  output : Int
  prediction : Bool
  history : Nat
  perc : Nat

/-- `u` points to the state of the last prediction, at first nowhere. -/
structure State where
  perceptrons : Nat → Nat → Int
  buf : Nat → PerceptronState
  bufCtr : Nat
  specGlobalHistory : Nat
  globalHistory : Nat
  u : Option Nat

def initializeBranchPredictor : State := ⟨fun _ _ => 0, fun _ => ⟨0, false, 0, 0⟩, 0, 0, 0, none⟩

def shiftHistory (history : Nat) (b : Bool) : Nat := (history <<< 1 ||| b.toNat) % 2 ^ 64

/-- The bias, and each weight added or taken away by its bit of the history. -/
def output (w : Nat → Int) (history : Nat) : Int :=
  (List.range perceptronHistory).foldl
    (fun output i => if history.testBit i then output + w (i + 1) else output + -w (i + 1)) (w 0)

def predictBranch (s : State) (ip : Nat) : State × Bool :=
  let u := s.bufCtr
  let bufCtr := if s.bufCtr + 1 ≥ numUpdateEntries then 0 else s.bufCtr + 1
  let index := ip % numPerceptrons
  let out := output (s.perceptrons index) s.specGlobalHistory
  let prediction := decide (out ≥ 0)
  ({ s with
    buf := Function.update s.buf u ⟨out, prediction, s.specGlobalHistory, index⟩
    bufCtr := bufCtr
    specGlobalHistory := shiftHistory s.specGlobalHistory prediction
    u := some u }, prediction)

def saturate (w : Int) : Int :=
  let w := if w > maxWeight then maxWeight else w
  if w < minWeight then minWeight else w

def trainBias (w : Int) (taken : Bool) : Int := saturate (if taken then w + 1 else w - 1)

def trainWeight (w : Int) (bit taken : Bool) : Int :=
  if bit = taken then if w + 1 > maxWeight then maxWeight else w + 1
  else if w - 1 < minWeight then minWeight else w - 1

def trainPerceptron (w : Nat → Int) (history : Nat) (taken : Bool) : Nat → Int
  | 0 => trainBias (w 0) taken
  | i + 1 => if i < perceptronHistory then trainWeight (w (i + 1)) (history.testBit i) taken else w (i + 1)

/-- `none` is a null pointer. -/
def lastBranchResult (s : State) (taken : Bool) : Option State :=
  s.u.map (fun u =>
    let e := s.buf u
    let globalHistory := shiftHistory s.globalHistory taken
    let s := { s with
      globalHistory := globalHistory
      specGlobalHistory := if e.prediction ≠ taken then globalHistory else s.specGlobalHistory }
    if (e.output > theta ∧ taken) ∨ (e.output < -theta ∧ ¬taken) then s
    else { s with perceptrons :=
      Function.update s.perceptrons e.perc (trainPerceptron (s.perceptrons e.perc) e.history taken) })

def step (s : State) (b : Nat × Bool) : Option (State × Bool) :=
  let r := predictBranch s b.1
  (lastBranchResult r.1 b.2).map (·, r.2)

def predictions : State → List (Nat × Bool) → Option (List Bool)
  | _, [] => some []
  | s, b :: bs => (step s b).bind (fun r => (predictions r.1 bs).map (r.2 :: ·))

/-- What the predictor is for: perceptrons of signed inputs that see what the last branches really
did. -/
structure Learner where
  weights : Nat → Nat → Int
  history : Nat → Bool

def Learner.start : Learner := ⟨fun _ _ => 0, past []⟩

def Learner.answer (l : Learner) (ip : Nat) : Bool :=
  decide (0 ≤ margin perceptronHistory (l.weights (ip % numPerceptrons)) l.history)

def Learner.tell (l : Learner) (b : Nat × Bool) : Learner where
  weights := Function.update l.weights (b.1 % numPerceptrons)
    (learn minWeight maxWeight theta perceptronHistory (l.weights (b.1 % numPerceptrons)) l.history b.2)
  history := push b.2 l.history

def Learner.answers : Learner → List (Nat × Bool) → List Bool
  | _, [] => []
  | l, b :: bs => l.answer b.1 :: (l.tell b).answers bs

/-- The speculative history is the real one whenever a branch is predicted. -/
structure Refines (s : State) (l : Learner) : Prop where
  weights : s.perceptrons = l.weights
  spec : s.specGlobalHistory = s.globalHistory
  history : Shifted 64 s.globalHistory l.history
  bounded : ∀ i, Bounded minWeight maxWeight (l.weights i)

variable {s : State} {l : Learner} {w : Nat → Int} {history : Nat} {h : Nat → Bool}

theorem output_eq (w : Nat → Int) (hh : Shifted perceptronHistory history h) : output w history =
    margin perceptronHistory w h := by
  have hsum : ∀ n ≤ perceptronHistory, (List.range n).foldl
      (fun output i => if history.testBit i then output + w (i + 1) else output + -w (i + 1)) (w 0) =
        margin n w h := by
    intro n
    induction n with
    | zero =>
        intro _
        simp [margin]
    | succ n ih =>
        intro hn
        have hbit := hh n hn
        rw [List.range_succ, List.foldl_append, ih (Nat.le_of_succ_le hn)]
        simp only [List.foldl_cons, List.foldl_nil, hbit, margin, Finset.sum_range_succ, sign]
        cases h n
        · simp only [Bool.false_eq_true, if_false]
          omega
        · simp only [if_true]
          omega
  exact hsum perceptronHistory (Nat.le_refl _)

theorem trainPerceptron_eq (hw : Bounded minWeight maxWeight w)
    (hh : Shifted perceptronHistory history h) (t : Bool) :
    trainPerceptron w history t = train minWeight maxWeight perceptronHistory w h t := by
  funext i
  cases i with
  | zero =>
      simp only [trainPerceptron, trainBias, saturate, train, clamp, sign]
      have h0 := hw 0
      cases t <;> simp only [Bool.false_eq_true, if_false, if_true] <;> split_ifs <;> omega
  | succ i =>
      simp only [trainPerceptron, train]
      by_cases hi : i < perceptronHistory
      · have hi' := hw (i + 1)
        rw [if_pos hi, if_pos hi, hh i hi]
        simp only [trainWeight, clamp, sign]
        cases t <;> cases h i <;>
          simp only [Bool.false_eq_true, reduceCtorEq, if_false, if_true] <;> split_ifs <;> omega
      · rw [if_neg hi, if_neg hi]

theorem keeps_iff (m : Int) (t : Bool) :
    ((m > theta ∧ t) ∨ (m < -theta ∧ ¬t)) ↔ (theta < |m| ∧ decide (0 ≤ m) = t) := by
  have htheta : (0 : Int) ≤ theta := by decide
  rw [lt_abs]
  cases t
  · simp only [Bool.false_eq_true, and_false, false_or, not_false_eq_true, and_true, decide_eq_false_iff_not]
    omega
  · simp only [and_true, not_true_eq_false, and_false, or_false, decide_eq_true_eq]
    omega

theorem Refines.step (hr : Refines s l) (b : Nat × Bool) :
    ∃ s', step s b = some (s', l.answer b.1) ∧ Refines s' (l.tell b) := by
  have hlow : Shifted perceptronHistory s.globalHistory l.history := hr.history.mono (by decide)
  have hout : output (s.perceptrons (b.1 % numPerceptrons)) s.specGlobalHistory =
      margin perceptronHistory (l.weights (b.1 % numPerceptrons)) l.history := by
    rw [hr.spec, hr.weights]
    exact output_eq _ hlow
  have hshift : Shifted 64 (shiftHistory s.globalHistory b.2) (push b.2 l.history) := (hr.history.push b.2).mod
  have hanswer : decide (output (s.perceptrons (b.1 % numPerceptrons)) s.specGlobalHistory ≥ 0) =
    l.answer b.1 := by
    rw [hout]
    rfl
  have hspec : (if l.answer b.1 ≠ b.2 then shiftHistory s.globalHistory b.2
      else shiftHistory s.specGlobalHistory (l.answer b.1)) = shiftHistory s.globalHistory b.2 := by
    split_ifs with heq
    · rfl
    · rw [hr.spec, not_not.mp heq]
  have hbounded : ∀ i, Bounded minWeight maxWeight ((l.tell b).weights i) := by
    intro i
    simp only [Learner.tell]
    by_cases hi : i = b.1 % numPerceptrons
    · rw [hi, Function.update_self]
      exact (hr.bounded _).learn (by decide) _ _ _ _
    · rw [Function.update_of_ne hi]
      exact hr.bounded i
  simp only [PerceptronPredictor.step, predictBranch, lastBranchResult, Option.map_some,
    Function.update_self, hanswer]
  refine ⟨_, rfl, ?_⟩
  by_cases hkeep : (output (s.perceptrons (b.1 % numPerceptrons)) s.specGlobalHistory > theta ∧ b.2 = true) ∨
      (output (s.perceptrons (b.1 % numPerceptrons)) s.specGlobalHistory < -theta ∧ ¬b.2 = true)
  · rw [if_pos hkeep]
    rw [hout, keeps_iff] at hkeep
    refine ⟨?_, hspec, hshift, hbounded⟩
    simp only [Learner.tell, learn, if_pos hkeep, Function.update_eq_self]
    exact hr.weights
  · rw [if_neg hkeep]
    rw [hout, keeps_iff] at hkeep
    refine ⟨?_, hspec, hshift, hbounded⟩
    simp only [Learner.tell, learn, if_neg hkeep, hr.weights, hr.spec]
    rw [trainPerceptron_eq (hr.bounded _) hlow]

theorem refines_start : Refines initializeBranchPredictor .start :=
  ⟨rfl, rfl, shifted_past_nil 64, fun _ _ => (by decide : minWeight ≤ 0 ∧ 0 ≤ maxWeight)⟩

theorem Refines.predictions (hr : Refines s l) (bs : List (Nat × Bool)) : predictions s bs =
    some (l.answers bs) := by
  induction bs generalizing s l with
  | nil => rfl
  | cons b bs ih =>
      obtain ⟨s', hstep, hr'⟩ := hr.step b
      rw [PerceptronPredictor.predictions, hstep, Option.bind_some, ih hr']
      rfl

/-- With its speculative history, its buffer of states and its one-sided saturation, the predictor
answers every branch as perceptrons do that see the real outcomes of the last branches. -/
theorem perceptrons_refine (bs : List (Nat × Bool)) : predictions initializeBranchPredictor bs =
    some (Learner.start.answers bs) :=
  refines_start.predictions bs

end Thermometer.PerceptronPredictor
