import Mathlib.Data.List.GetD
import Thermometer.Lib.Runs
import Thermometer.Lib.Tables
import Thermometer.SideTables
import Thermometer.StreamBuffer

namespace Thermometer.ReusePredict

open Trace Lib.Tables

def srripDistantInterval : Nat := 3

def srripLongInterval : Nat := 2

def reuseDistanceLength : Nat := 20

def reuseDistanceUpperBound : Nat := 8

inductive NotFoundReturnMethod
  | random
  | average
  | recent
  deriving DecidableEq

structure Config where
  totalSets : Nat
  totalWays : Nat
  predictCheckNum : Nat
  notFoundReturnMethod : NotFoundReturnMethod

/-- The newest distance is at the front of `reuseDistance`. -/
structure Entry where
  ipTag : Nat
  target : Nat
  branchType : BranchType
  alwaysTaken : Bool
  rrpv : Nat
  countReuseDistance : Finset Nat
  reuseDistance : List Nat
  deriving DecidableEq

def Entry.new (ip branchTarget : Nat) (ty : BranchType) : Entry :=
  ⟨ip, branchTarget, ty, true, srripLongInterval, ∅, [reuseDistanceUpperBound - 1]⟩

def Entry.accessSelf (e : Entry) : Entry :=
  if reuseDistanceLength ≤ e.reuseDistance.length then
    { e with
      reuseDistance :=
        (if reuseDistanceUpperBound ≤ e.countReuseDistance.card then reuseDistanceUpperBound - 1
          else e.countReuseDistance.card) :: e.reuseDistance.dropLast
      countReuseDistance := ∅ }
  else e

def Entry.increase (accessIp : Nat) (e : Entry) : Entry :=
  if accessIp = e.ipTag then e.accessSelf
  else { e with countReuseDistance := insert accessIp e.countReuseDistance }

section Predict

/-- The inner loop of the prefix function, for as many rounds as given. -/
def fallBack (distances pi : List Nat) (i : Nat) : Nat → Nat → Nat
  | 0, j => j
  | n + 1, j =>
      if 0 < j ∧ distances[i]? ≠ distances[j]? then fallBack distances pi i n (pi.getD (j - 1) 0) else j

def prefixStep (distances pi : List Nat) (i : Nat) : List Nat :=
  let j := fallBack distances pi i i (pi.getD (i - 1) 0)
  pi ++ [if distances[i]? = distances[j]? then j + 1 else j]

def prefixFunction (distances : List Nat) : List Nat :=
  (List.range' 1 (distances.length - 1)).foldl (prefixStep distances) [0]

def repeats (config : Config) (pi : List Nat) (n i : Nat) : Bool :=
  if config.predictCheckNum = 2 then
    (i == 1 && pi.getD i 0 != 0) || (decide (1 < i ∧ i < n - 1) && pi.getD i 0 != 0 && pi.getD (i + 1) 0 != 0)
  else pi.getD i 0 != 0

def predictReuseDistance (config : Config) (rand : Nat) (e : Entry) : Nat :=
  let n := e.reuseDistance.length
  match (List.range' 1 (n - 1)).find? (repeats config (prefixFunction e.reuseDistance) n) with
  | some i => e.reuseDistance.getD (i - 1) 0
  | none =>
      match config.notFoundReturnMethod with
      | .random => rand % reuseDistanceUpperBound
      | .average => e.reuseDistance.sum / n
      | .recent => e.reuseDistance.headD 0

section PrefixFunction

variable {distances pi : List Nat} {i j n : Nat}

theorem fallBack_le (hpi : ∀ k, pi.getD k 0 ≤ k) (n j : Nat) : fallBack distances pi i n j ≤ j := by
  induction n generalizing j with
  | zero => exact le_rfl
  | succ n ih =>
      rw [fallBack]
      split_ifs
      · have hle := hpi (j - 1)
        exact (ih _).trans (by omega)
      · exact le_rfl

/-- The inner loop ends at a match or at 0, as the prefix function goes down in each round. -/
theorem fallBack_done (hpi : ∀ k, pi.getD k 0 ≤ k) (hj : j ≤ n) :
    fallBack distances pi i n j = 0 ∨ distances[i]? = distances[fallBack distances pi i n j]? := by
  induction n generalizing j with
  | zero => exact .inl (Nat.le_zero.mp hj)
  | succ n ih =>
      rw [fallBack]
      split_ifs with hmore
      · have hle := hpi (j - 1)
        exact ih (by omega)
      · rw [not_and_or, not_not] at hmore
        exact hmore.imp_left (fun h => Nat.eq_zero_of_not_pos h)

theorem prefixStep_le (hpi : ∀ k, pi.getD k 0 ≤ k) (hi : 1 ≤ i) (hlen : pi.length = i) (k : Nat) :
    (prefixStep distances pi i).getD k 0 ≤ k := by
  have hback : fallBack distances pi i i (pi.getD (i - 1) 0) ≤ pi.getD (i - 1) 0 := fallBack_le hpi i _
  have hstart := hpi (i - 1)
  rw [prefixStep]
  rcases Nat.lt_or_ge k pi.length with hk | hk
  · rw [List.getD_append _ _ _ _ hk]
    exact hpi k
  · rw [List.getD_append_right _ _ _ _ hk]
    rcases Nat.eq_zero_or_pos (k - pi.length) with hzero | hpos
    · rw [hzero, List.getD_cons_zero]
      split_ifs <;> omega
    · rw [List.getD_eq_default]
      · exact Nat.zero_le k
      · rw [List.length_singleton]
        exact hpos

theorem prefixFunction_le (distances : List Nat) (k : Nat) : (prefixFunction distances).getD k 0 ≤ k := by
  have hscan : ∀ n, ((List.range' 1 n).foldl (prefixStep distances) [0]).length = 1 + n ∧
      ∀ k, ((List.range' 1 n).foldl (prefixStep distances) [0]).getD k 0 ≤ k := by
    intro n
    induction n with
    | zero =>
        refine ⟨rfl, fun k => ?_⟩
        cases k <;> simp
    | succ n ih =>
        rw [List.range'_concat, List.foldl_append, one_mul]
        refine ⟨?_, prefixStep_le ih.2 (by omega) ih.1⟩
        rw [List.foldl_cons, List.foldl_nil, prefixStep, List.length_append, ih.1]
        rfl
  exact (hscan _).2 k

end PrefixFunction

end Predict

section Evict

def below (a b : Nat × Nat × Nat) : Bool :=
  decide (a.1 < b.1) || (a.1 == b.1 && (decide (a.2.1 < b.2.1) || (a.2.1 == b.2.1 && decide (a.2.2 < b.2.2))))

def victimTuple (config : Config) (rand : Nat) (ip : Nat) (e : Entry) : Nat × Nat × Nat :=
  let predictDist := predictReuseDistance config rand e
  let currDist := e.countReuseDistance.card
  if predictDist < currDist then (currDist % 256, predictDist, ip)
  else if predictDist = currDist then (0, predictDist, ip)
  else ((predictDist - currDist) % 256, predictDist, ip)

/-- `none` is the top of an empty queue. -/
def reusePredictEvict (config : Config) (o : IterOrder) (rand : Nat → Nat) (t : Table Entry) : Option Nat :=
  ((iterate o t).foldl (fun top entry =>
    let tuple := victimTuple config (rand entry.1) entry.1 entry.2
    if top.all (fun best => below best tuple) then some tuple else top) none).map (fun best => best.2.2)

/-- The loop of `srrip_evict`, for as many rounds as given: the entries age until one is distant. -/
def srripRounds : Nat → Table Entry → Option (Table Entry)
  | 0, _ => none
  | n + 1, t =>
      if t.entries.any (fun entry => entry.2.rrpv == srripDistantInterval) then some t
      else srripRounds n (mapValues (fun e => { e with rrpv := (e.rrpv + 1) % 2 ^ 64 }) t)

/-- What `srrip_evict` leaves of the set. Counters of 64 bits come round within `2 ^ 64` rounds. -/
def srripEvict (t : Table Entry) : Option (Table Entry) := srripRounds (2 ^ 64) t

end Evict

structure State where
  btb : Nat → Table Entry
  side : SideTables.Tables
  stream : StreamBuffer.Buffer

def State.initial : State := ⟨fun _ => ∅, .initial, .empty 32⟩

def getSetIndex (config : Config) (ip : Nat) : Nat := maskIndex config.totalSets ip

def State.withSet (s : State) (set : Nat) (t : Table Entry) : State := { s with btb := Function.update s.btb set t }

def findBtbEntry (config : Config) (s : State) (ip : Nat) : State × Option Entry :=
  let set := getSetIndex config ip
  (s.withSet set (modify (s.btb set) ip (fun e => { e with rrpv := 0 })), (s.btb set).lookup ip)

/-- What an insertion finds in its set: with room for one more. `none` is a failed assertion, or an empty queue. -/
def makeRoom (config : Config) (o : IterOrder) (rand : Nat → Nat) (t : Table Entry) : Option (Table Entry) :=
  if config.totalWays ≤ size t then do
    let victim ← reusePredictEvict config o rand t
    let aged ← srripEvict t
    some (aged.erase victim)
  else some t

def insertToBtb (config : Config) (o : IterOrder) (rand : Nat → Nat) (s : State) (ip branchTarget : Nat) (ty : BranchType) :
    Option State := do
  let set := getSetIndex config ip
  let t ← makeRoom config o rand (s.btb set)
  if size t < config.totalWays then
    some (s.withSet set ((mapValues (Entry.increase ip) t).insert ip (.new ip branchTarget ty)))
  else none

def access (config : Config) (s : State) (ip : Nat) : State :=
  let set := getSetIndex config ip
  s.withSet set (modify (mapValues (Entry.increase ip) (s.btb set)) ip (fun e => { e with rrpv := 0 }))

def modifyEntry (config : Config) (s : State) (ip : Nat) (f : Entry → Entry) : State :=
  let set := getSetIndex config ip
  s.withSet set (modify (s.btb set) ip f)

def updateExisting (config : Config) (s : State) (ip branchTarget : Nat) (taken : Bool) (ty : BranchType) : State :=
  let s :=
    if taken then access config (modifyEntry config s ip (fun e => { e with target := branchTarget })) ip
    else modifyEntry config s ip (fun e => { e with alwaysTaken := false })
  modifyEntry config s ip (fun e => { e with branchType := ty })

def btbPrediction (config : Config) (s : State) (ip : Nat) (ty : BranchType) : State × (Nat × Bool) :=
  match SideTables.predict s.side ip ty with
  | (side, some r) => ({ s with side := side }, r)
  | (side, none) =>
      match findBtbEntry config { s with side := side } ip with
      | (s, none) => (s, (StreamBuffer.streamBufferPredict s.stream ip, true))
      | (s, some e) => (s, (e.target, e.alwaysTaken))

def updateBtb (config : Config) (o : IterOrder) (rand : Nat → Nat) (s : State) (ip branchTarget : Nat) (taken : Bool)
    (ty : BranchType) : Option State :=
  let s := { s with side := SideTables.update s.side ip branchTarget taken ty }
  if ty.usesBtb then
    match findBtbEntry config s ip with
    | (s, none) =>
        let s := { s with stream := (StreamBuffer.streamBufferUpdate s.stream ip).1 }
        if branchTarget ≠ 0 ∧ taken then insertToBtb config o rand s ip branchTarget ty else some s
    | (s, some _) => some (updateExisting config s ip branchTarget taken ty)
  else some s

def prefetchBtb (config : Config) (o : IterOrder) (rand : Nat → Nat) (s : State) (ip branchTarget : Nat) (ty : BranchType)
    (taken toStreamBuffer : Bool) : Option State :=
  if ty.usesBtb then
    match findBtbEntry config s ip with
    | (s, none) =>
        if branchTarget ≠ 0 ∧ taken then
          if toStreamBuffer then
            (StreamBuffer.prefetch s.stream ip branchTarget).map (fun b => { s with stream := b })
          else insertToBtb config o rand s ip branchTarget ty
        else some s
    | (s, some _) => some (updateExisting config s ip branchTarget taken ty)
  else some s

/-- A call, with the order in which its loop meets the entries and the numbers drawn for them. -/
structure Input where
  order : IterOrder
  rand : Nat → Nat
  call : Call

def step (config : Config) (s : State) (x : Input) : Option State :=
  match x.call with
  | .predict ip ty => some (btbPrediction config s ip ty).1
  | .update ip target taken ty => updateBtb config x.order x.rand s ip target taken ty
  | .prefetch ip target ty taken toStreamBuffer => prefetchBtb config x.order x.rand s ip target ty taken toStreamBuffer

end Thermometer.ReusePredict
