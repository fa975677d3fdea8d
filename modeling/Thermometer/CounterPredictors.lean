import Thermometer.Lib.Saturation
import Thermometer.Lib.Folding

namespace Thermometer.CounterPredictors

open Lib.Counters Lib.Folding

namespace Bimodal

def bimodalPrime : Nat := 16381
def maxCounter : Nat := 3

def initializeBranchPredictor : Nat → Nat := fun _ => 0

def hash (ip : Nat) : Nat := ip % bimodalPrime

def predictBranch (table : Nat → Nat) (ip : Nat) : Bool := table (hash ip) ≥ (maxCounter + 1) / 2

def lastBranchResult (table : Nat → Nat) (b : Nat × Bool) : Nat → Nat :=
  if b.2 ∧ table (hash b.1) < maxCounter then Function.update table (hash b.1) (table (hash b.1) + 1)
  else if ¬b.2 ∧ table (hash b.1) > 0 then Function.update table (hash b.1) (table (hash b.1) - 1)
  else table

end Bimodal

namespace Gshare

def globalHistoryLength : Nat := 14
def gsHistoryTableSize : Nat := 16384

structure State where
  branchHistoryVector : Nat
  gsHistoryTable : Nat → Nat

def initializeBranchPredictor : State := ⟨0, fun _ => 2⟩

def gsTableHash (ip bhVector : Nat) : Nat :=
  (ip ^^^ (ip >>> globalHistoryLength) ^^^ (ip >>> (globalHistoryLength * 2)) ^^^ bhVector) % gsHistoryTableSize

def predictBranch (s : State) (ip : Nat) : Bool := s.gsHistoryTable (gsTableHash ip s.branchHistoryVector) ≥ 2

def lastBranchResult (s : State) (b : Nat × Bool) : State :=
  let h := gsTableHash b.1 s.branchHistoryVector
  let c := s.gsHistoryTable h
  { gsHistoryTable := Function.update s.gsHistoryTable h
      (if b.2 then if c < 3 then c + 1 else c else if c > 0 then c - 1 else c)
    branchHistoryVector := ((s.branchHistoryVector <<< 1) &&& (1 <<< globalHistoryLength - 1)) ||| b.2.toNat }

end Gshare

def bimodalSlot (_ : List (Nat × Bool)) (ip : Nat) : Nat := Bimodal.hash ip

/-- The counter of a branch that comes after others: by its address and their last 14 outcomes. -/
def gshareSlot (before : List (Nat × Bool)) (ip : Nat) : Nat :=
  Gshare.gsTableHash ip
    (fold Gshare.globalHistoryLength (past (before.map Prod.snd)) Gshare.globalHistoryLength)

variable {table : Nat → Nat} {bs : List (Nat × Bool)} {s : Gshare.State}

theorem bimodal_update (table : Nat → Nat) (b : Nat × Bool) : Bimodal.lastBranchResult table b =
    Function.update table (Bimodal.hash b.1) (bump Bimodal.maxCounter (table (Bimodal.hash b.1)) b.2) := by
  simp only [Bimodal.lastBranchResult, bump]
  cases b.2 <;> split_ifs <;> simp_all

theorem bimodal_learned (bs : List (Nat × Bool)) :
    Learned bimodalSlot Bimodal.maxCounter 0
      (bs.foldl Bimodal.lastBranchResult Bimodal.initializeBranchPredictor) bs := by
  induction bs using List.reverseRecOn with
  | nil => exact learned_nil _ _ _
  | append_singleton bs b ih =>
      rw [List.foldl_concat, bimodal_update]
      exact ih.concat b

/-- The history register is the last 14 outcomes, and the table has learned from all branches so far. -/
structure Sound (s : Gshare.State) (bs : List (Nat × Bool)) : Prop where
  history : s.branchHistoryVector = fold Gshare.globalHistoryLength
    (past (bs.map Prod.snd)) Gshare.globalHistoryLength
  learned : Learned gshareSlot 3 2 s.gsHistoryTable bs

theorem Sound.lastBranchResult (hs : Sound s bs) (b : Nat × Bool) : Sound (Gshare.lastBranchResult s b)
    (bs ++ [b]) := by
  refine ⟨?_, ?_⟩
  · have hpast : past ((bs ++ [b]).map Prod.snd) = push b.2 (past (bs.map Prod.snd)) := by
      rw [List.map_append, List.map_singleton]
      exact pushAll_append _ _ [b.2]
    have hshift : Shifted Gshare.globalHistoryLength s.branchHistoryVector (past (bs.map Prod.snd)) := by
      intro j hj
      rw [hs.history, testBit_fold (Nat.le_refl _), decide_eq_true hj, Bool.true_and]
    have hvector : (Gshare.lastBranchResult s b).branchHistoryVector =
        (s.branchHistoryVector <<< 1 ||| b.2.toNat) % 2 ^ Gshare.globalHistoryLength := by
      have hbit : b.2.toNat % 2 ^ Gshare.globalHistoryLength = b.2.toNat :=
        Nat.mod_eq_of_lt (bit_lt (by decide : 0 < 14) b.2)
      simp only [Gshare.lastBranchResult]
      rw [Nat.one_shiftLeft, Nat.and_two_pow_sub_one_eq_mod, Nat.or_mod_two_pow, hbit]
    rw [hpast, hvector]
    exact (hshift.push b.2).mod.eq_fold (Nat.mod_lt _ (Nat.two_pow_pos _))
  · have htable : (Gshare.lastBranchResult s b).gsHistoryTable = Function.update s.gsHistoryTable
      (gshareSlot bs b.1)
        (bump 3 (s.gsHistoryTable (gshareSlot bs b.1)) b.2) := by
      simp only [Gshare.lastBranchResult, gshareSlot, ← hs.history]
      rfl
    rw [htable]
    exact hs.learned.concat b

theorem gshare_sound (bs : List (Nat × Bool)) :
    Sound (bs.foldl Gshare.lastBranchResult Gshare.initializeBranchPredictor) bs := by
  induction bs using List.reverseRecOn with
  | nil => exact ⟨by decide, learned_nil _ _ _⟩
  | append_singleton bs b ih =>
      rw [List.foldl_concat]
      exact ih.lastBranchResult b

/-- After any branches, gshare answers a branch by one counter of two bits, that has settled on the
outcomes of just those earlier branches that met it: the address and the 14 outcomes before each
decide where it is. -/
theorem gshare_predicts (bs : List (Nat × Bool)) (ip : Nat) :
    Gshare.predictBranch (bs.foldl Gshare.lastBranchResult Gshare.initializeBranchPredictor) ip =
      decide (2 ≤ settle 3 2 (lessons gshareSlot bs (gshareSlot bs ip))) := by
  have hs := gshare_sound bs
  rw [Gshare.predictBranch, hs.history]
  exact congrArg (fun c => decide (2 ≤ c)) (hs.learned (gshareSlot bs ip))

/-- The bimodal table does the same by address alone. -/
theorem bimodal_predicts (bs : List (Nat × Bool)) (ip : Nat) :
    Bimodal.predictBranch (bs.foldl Bimodal.lastBranchResult Bimodal.initializeBranchPredictor) ip =
      decide (2 ≤ settle 3 0 (lessons bimodalSlot bs (bimodalSlot bs ip))) :=
  congrArg (fun c => decide (2 ≤ c)) (bimodal_learned bs (bimodalSlot bs ip))

/-- A context that went the same way twice in a row is answered so. -/
theorem gshare_settled {bs : List (Nat × Bool)} {ip : Nat} {ts : List Bool} {t : Bool}
    (h : lessons gshareSlot bs (gshareSlot bs ip) = ts ++ [t, t]) :
    Gshare.predictBranch (bs.foldl Gshare.lastBranchResult Gshare.initializeBranchPredictor) ip = t := by
  rw [gshare_predicts, h]
  exact settle_pair (by decide) ts t

end Thermometer.CounterPredictors
