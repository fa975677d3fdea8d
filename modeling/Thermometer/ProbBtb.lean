import Mathlib.Data.Prod.Lex
import Thermometer.Lib.Doubles
import Thermometer.Lib.Runs
import Thermometer.Lib.Tables
import Thermometer.SideTables
import Thermometer.StreamBuffer

namespace Thermometer.ProbBtb

open Trace Lib.Tables Lib.Doubles

def srripDistantInterval : Nat := 3

def srripLongInterval : Nat := 2

inductive ReplaceType
  | prob
  | probSrrip
  | srripProb
  deriving DecidableEq

/-- A bound of `2 ^ 64 - 1` stands for none. -/
structure Config where
  totalSets : Nat
  totalWays : Nat
  ways_pos : 0 < totalWays
  replaceType : ReplaceType
  calculateProbability : Bool
  clearWhenEvict : Bool
  counterUpperBound : Nat
  bound_lt : counterUpperBound < 2 ^ 64
  updateWhenEvict : Bool

structure Entry where
  ipTag : Nat
  target : Nat
  branchType : BranchType
  alwaysTaken : Bool
  rrpv : Nat
  deriving DecidableEq

def Entry.new (ip branchTarget : Nat) (ty : BranchType) : Entry := ⟨ip, branchTarget, ty, true, srripLongInterval⟩

/-- A change of a taken counter, with the counter it is made to. -/
inductive Event
  | increment (taken : Nat)
  | decrease (victimCounter taken : Nat)
  deriving DecidableEq

def Event.Fits : Event → Prop
  | .increment taken => taken + 1 < 2 ^ 64
  | .decrease victimCounter taken => victimCounter ≤ taken

structure Taken where
  taken : Nat
  notTaken : Nat
  branchType : BranchType
  deriving DecidableEq

/-- The doubles here are rational numbers of 53 binary digits, far from the ends of the range of exponents. -/
def toDouble (n : Nat) : ℚ := roundTo 53 (n : ℚ)

def Taken.takenProbability (config : Config) (c : Taken) : ℚ :=
  if config.calculateProbability = false then toDouble c.taken
  else if c.branchType ≠ .conditional ∨ (c.taken + c.notTaken) % 2 ^ 64 = 0 then 1
  else roundTo 53 (toDouble c.taken / roundTo 53 (toDouble c.taken + toDouble c.notTaken))

def Taken.retype (c : Taken) (ty : BranchType) : Taken := if ty ≠ c.branchType then ⟨0, 0, ty⟩ else c

def Taken.increment (c : Taken) : Taken × List Event := ({ c with taken := (c.taken + 1) % 2 ^ 64 }, [.increment c.taken])

def Taken.update (config : Config) (c : Taken) (ty : BranchType) (takenOrNot : Bool) : Taken × List Event :=
  let c := c.retype ty
  if takenOrNot then
    if config.calculateProbability then c.increment
    else if c.taken < config.counterUpperBound then c.increment else (c, [])
  else ({ c with notTaken := (c.notTaken + 1) % 2 ^ 64 }, [])

def Taken.clear (c : Taken) : Taken := { c with taken := 0, notTaken := 0 }

def Taken.decrease (c : Taken) (victimCounter : ℚ) : Taken :=
  { c with taken := (c.taken + 2 ^ 64 - ⌊victimCounter⌋₊ % 2 ^ 64) % 2 ^ 64 }

section Evict

variable (config : Config) (record : Table Taken)

def takenProbability (ip : Nat) : ℚ :=
  match record.lookup ip with
  | none => 0
  | some c => c.takenProbability config

def updateRrpv (t : Table Entry) : Table Entry :=
  mapValues (fun e => if e.rrpv < srripDistantInterval then { e with rrpv := e.rrpv + 1 } else e) t

def agingRounds : Nat → Table Entry → Option (Table Entry)
  | 0, _ => none
  | n + 1, t =>
      if t.entries.any (fun entry => entry.2.rrpv == srripDistantInterval) then some t else agingRounds n (updateRrpv t)

/-- The victim, and what becomes of the set. After three rounds no entry ages any more. -/
def srripProbEvict (t : Table Entry) : Option (Nat × Table Entry) := do
  let aged ← agingRounds (srripDistantInterval + 1) t
  let evictPq : List (ℚ ×ₗ ℕ) :=
    (aged.entries.filter (fun entry => entry.2.rrpv == srripDistantInterval)).map
      (fun entry => toLex (takenProbability config record entry.1, entry.1))
  let top ← evictPq.min?
  some ((ofLex top).2, aged)

/-- The least probability so far, above all of them at first, and the queue of those that have it. -/
def probSrripStep (current : WithTop ℚ × List (ℕ ×ₗ ℕ)) (entry : Nat × Entry) : WithTop ℚ × List (ℕ ×ₗ ℕ) :=
  let p : WithTop ℚ := takenProbability config record entry.1
  let current := if p < current.1 then (p, []) else current
  if p = current.1 then (current.1, toLex (entry.2.rrpv, entry.1) :: current.2) else current

def probSrripEvict (o : IterOrder) (t : Table Entry) : Option (Nat × Table Entry) := do
  let evictPq := ((iterate o t).foldl (probSrripStep config record) (⊤, [])).2
  let result ← evictPq.max?
  if (ofLex result).1 ≤ srripDistantInterval then
    some ((ofLex result).2, evictPq.foldl
      (fun t top => modify t (ofLex top).2 (fun e => { e with rrpv := e.rrpv + (srripDistantInterval - (ofLex result).1) })) t)
  else none

def probStep (current : WithTop ℚ × Nat) (entry : Nat × Entry) : WithTop ℚ × Nat :=
  let p : WithTop ℚ := takenProbability config record entry.1
  if p ≤ current.1 then (p, entry.1) else current

def probEvict (o : IterOrder) (t : Table Entry) : Nat := ((iterate o t).foldl (probStep config record) (⊤, 0)).2

def evict (o : IterOrder) (t : Table Entry) : Option (Nat × Table Entry) :=
  match config.replaceType with
  | .prob => some (probEvict config record o t, t)
  | .probSrrip => probSrripEvict config record o t
  | .srripProb => srripProbEvict config record t

end Evict

/-- `events` lists the changes of taken counters so far. -/
structure State where
  btb : Nat → Table Entry
  branchRecord : Table Taken
  side : SideTables.Tables
  stream : StreamBuffer.Buffer
  events : List Event

def State.initial : State := ⟨fun _ => ∅, ∅, .initial, .empty 32, []⟩

def getSetIndex (config : Config) (ip : Nat) : Nat := maskIndex config.totalSets ip

def State.withSet (s : State) (set : Nat) (t : Table Entry) : State := { s with btb := Function.update s.btb set t }

def findBtbEntry (config : Config) (s : State) (ip : Nat) : State × Option Entry :=
  let set := getSetIndex config ip
  (s.withSet set (modify (s.btb set) ip (fun e => { e with rrpv := 0 })), (s.btb set).lookup ip)

def lowerOne (victimCounter : ℚ) (s : State) (ip : Nat) : State :=
  match s.branchRecord.lookup ip with
  | none => s
  | some c =>
      { s with
        branchRecord := s.branchRecord.insert ip (c.decrease victimCounter)
        events := s.events ++ [.decrease ⌊victimCounter⌋₊ c.taken] }

def lowers (config : Config) : Bool :=
  config.updateWhenEvict && decide (config.counterUpperBound < 2 ^ 64 - 1) && config.clearWhenEvict

def evictFrom (config : Config) (o : IterOrder) (s : State) (set : Nat) : Option State := do
  let (evictIp, t) ← evict config s.branchRecord o (s.btb set)
  let p := takenProbability config s.branchRecord evictIp
  let s := if config.clearWhenEvict then { s with branchRecord := modify s.branchRecord evictIp Taken.clear } else s
  let rest := t.erase evictIp
  let s := s.withSet set rest
  some (if lowers config then (iterate o rest).foldl (fun s entry => lowerOne p s entry.1) s else s)

/-- `none` is a failed assertion. -/
def insertToBtb (config : Config) (o : IterOrder) (s : State) (ip branchTarget : Nat) (ty : BranchType) : Option State := do
  let set := getSetIndex config ip
  let s ← if config.totalWays ≤ size (s.btb set) then evictFrom config o s set else some s
  if size (s.btb set) < config.totalWays then
    some (s.withSet set (insertNew (s.btb set) ip (.new ip branchTarget ty)))
  else none

def updateProbability (config : Config) (s : State) (ip : Nat) (ty : BranchType) (taken : Bool) : State :=
  let c := (s.branchRecord.lookup ip).getD ⟨0, 0, ty⟩
  let (c, events) := c.update config ty taken
  { s with branchRecord := s.branchRecord.insert ip c, events := s.events ++ events }

def updateExisting (config : Config) (s : State) (ip branchTarget : Nat) (taken : Bool) (ty : BranchType) : State :=
  let set := getSetIndex config ip
  let s := s.withSet set (modify (s.btb set) ip (fun e =>
    { (if taken then { e with target := branchTarget } else { e with alwaysTaken := false }) with branchType := ty }))
  updateProbability config s ip ty taken

def btbPrediction (config : Config) (s : State) (ip : Nat) (ty : BranchType) : State × (Nat × Bool) :=
  match SideTables.predict s.side ip ty with
  | (side, some r) => ({ s with side := side }, r)
  | (side, none) =>
      match findBtbEntry config { s with side := side } ip with
      | (s, none) => (s, (StreamBuffer.streamBufferPredict s.stream ip, true))
      | (s, some e) => (s, (e.target, e.alwaysTaken))

def updateBtb (config : Config) (o : IterOrder) (s : State) (ip branchTarget : Nat) (taken : Bool) (ty : BranchType) :
    Option State :=
  let s := { s with side := SideTables.update s.side ip branchTarget taken ty }
  if ty.usesBtb then
    match findBtbEntry config s ip with
    | (s, none) =>
        let s := { s with stream := (StreamBuffer.streamBufferUpdate s.stream ip).1 }
        if branchTarget ≠ 0 ∧ taken then
          (insertToBtb config o s ip branchTarget ty).map (fun s => updateProbability config s ip ty taken)
        else some s
    | (s, some _) => some (updateExisting config s ip branchTarget taken ty)
  else some s

def prefetchBtb (config : Config) (o : IterOrder) (s : State) (ip branchTarget : Nat) (ty : BranchType)
    (taken toStreamBuffer : Bool) : Option State :=
  if ty.usesBtb then
    match findBtbEntry config s ip with
    | (s, none) =>
        if branchTarget ≠ 0 ∧ taken then
          if toStreamBuffer then
            (StreamBuffer.prefetch s.stream ip branchTarget).map (fun b => { s with stream := b })
          else (insertToBtb config o s ip branchTarget ty).map (fun s => updateProbability config s ip ty taken)
        else some s
    | (s, some _) => some (updateExisting config s ip branchTarget taken ty)
  else some s

/-- A call, with the order in which its loops meet the entries. -/
structure Input where
  order : IterOrder
  call : Call

def step (config : Config) (s : State) (x : Input) : Option State :=
  match x.call with
  | .predict ip ty => some (btbPrediction config s ip ty).1
  | .update ip target taken ty => updateBtb config x.order s ip target taken ty
  | .prefetch ip target ty taken toStreamBuffer => prefetchBtb config x.order s ip target ty taken toStreamBuffer

end Thermometer.ProbBtb
