import Mathlib.Order.Defs.LinearOrder
import Thermometer.Lib.Stamps
import Thermometer.Lib.Runs
import Thermometer.StreamBuffer
import Thermometer.SideTables

namespace Thermometer.HotWarmColdBtb

open Trace Lib.Tables Lib.Stamps

structure Entry where
  ipTag : Nat
  target : Nat
  alwaysTaken : Bool
  lru : Nat
  takenHistory : List Bool
  deriving DecidableEq, Repr

def Entry.new (ip target : Nat) : Entry := ⟨ip, target, true, 0, [true]⟩

/-- At most eight outcomes are kept. `none` is the failed assertion. -/
def addToTakenHistory (e : Entry) (taken : Bool) : Option Entry :=
  let history := if 8 ≤ e.takenHistory.length then e.takenHistory.tail else e.takenHistory
  if history.length < 8 then some { e with takenHistory := history ++ [taken] } else none

/-- `none` if the last outcome was taken, else how many were not before it. -/
def getLoopJudge (e : Entry) : Option Nat :=
  match e.takenHistory.reverse with
  | [] => none
  | last :: rest => if last then none else some (rest.takeWhile (fun b => !b)).length

/-- The constants a build of the template fixes. -/
structure Flags where
  sortHitAccess : Bool
  useLru : Bool
  considerWarmTaken : Bool
  considerHotTaken : Bool
  considerKeep : Bool
  considerTakenHistory : Bool
  currHotter : Bool

/-- What one call takes from outside: the order of its loops over a set, its
random numbers, and the direction predictor. `D` is the type of ratios. -/
structure Env (D : Type) where
  order : IterOrder
  rand : Nat
  ratio : Nat → D
  predictBranch : Nat → Bool

structure HotWarmCold (D : Type) where
  flags : Flags
  totalSets : Nat
  totalWays : Nat
  categoryBoundary : List D
  btb : Nat → Table Entry
  branchRecord : Table D

variable {D : Type} [LinearOrder D] [Zero D] [One D]

def HotWarmCold.init (flags : Flags) (sets ways : Nat) (hotLower coldUpper warmSplit : D) (record : Table D) :
    HotWarmCold D :=
  let boundary := if warmSplit = 0 ∨ warmSplit = coldUpper then [coldUpper, hotLower]
    else [coldUpper, warmSplit, hotLower]
  ⟨flags, sets, ways, boundary, fun _ => ∅, record⟩

def HotWarmCold.set (h : HotWarmCold D) (ip : Nat) : Nat := setIndex h.totalSets ip

def HotWarmCold.modify (h : HotWarmCold D) (set ip : Nat) (f : Entry → Entry) : HotWarmCold D :=
  { h with btb := Function.update h.btb set (Lib.Tables.modify (h.btb set) ip f) }

/-- `none` is the failed assertion that the branch is resident. -/
def updateLru (order : IterOrder) (h : HotWarmCold D) (ip : Nat) : Option (HotWarmCold D) :=
  let set := h.set ip
  if ip ∈ h.btb set then
    some (h.modify set ip (fun e => { e with lru := maxStamp Entry.lru order (h.btb set) + 1 }))
  else none

/-- A random candidate that is not resident is taken at once, else the oldest resident. -/
def findLruMin {V : Type} (lru : V → Nat) (rand : Nat) (t : Table V) (candidates : List Nat) : Nat :=
  let random := candidates.getD (rand % candidates.length) 0
  if random ∈ t then (oldest lru t candidates).getD 0 else random

def getHitAccessRatio (env : Env D) (h : HotWarmCold D) (ip : Nat) : D := (h.branchRecord.lookup ip).getD (env.ratio ip)

def findBtbEntry (h : HotWarmCold D) (ip : Nat) : Option Entry := (h.btb (h.set ip)).lookup ip

def sortStep (env : Env D) (h : HotWarmCold D) (best : D × Nat) (ip : Nat) : D × Nat :=
  if getHitAccessRatio env h ip ≤ best.1 then (getHitAccessRatio env h ip, ip) else best

def sortChooseVictim (env : Env D) (h : HotWarmCold D) (ip set uninitialized : Nat) : Nat :=
  let start := if h.flags.considerKeep then (getHitAccessRatio env h ip, ip) else (1, uninitialized)
  ((iterate env.order (h.btb set)).foldl (fun best entry => sortStep env h best entry.1) start).2

/-- The candidates of each category, and those of a negative ratio. -/
structure Candidates where
  categories : List (List Nat)
  dontCare : List Nat

def Candidates.push (c : Candidates) (i ip : Nat) : Candidates :=
  { c with categories := c.categories.modify i (fun l => l ++ [ip]) }

def addToCandidate (env : Env D) (h : HotWarmCold D) (currIp : Bool) (c : Candidates) (ip : Nat) : Candidates :=
  let hitAccess := getHitAccessRatio env h ip
  if hitAccess < 0 then { c with dontCare := c.dontCare ++ [ip] }
  else match h.categoryBoundary.findIdx? (fun b => hitAccess ≤ b) with
    | some i => if currIp ∧ i + 1 = h.categoryBoundary.length then c.push (i + 1) ip else c.push i ip
    | none => if currIp then c else c.push h.categoryBoundary.length ip

def historyStep (t : Table Entry) (best : Nat × Nat) (ip : Nat) : Nat × Nat :=
  match (t.lookup ip).bind getLoopJudge with
  | none => best
  | some n => if n < best.1 then (n, ip) else best

def chooseTakenHistory (h : HotWarmCold D) (candidates : List Nat) (set : Nat) : Nat :=
  if h.flags.considerTakenHistory then (candidates.foldl (historyStep (h.btb set)) (8, 0)).2 else 0

def chooseVictimOneCategory (env : Env D) (h : HotWarmCold D) (set : Nat) (category : List Nat)
    (considerTaken : Bool) : Nat :=
  let notTaken := if considerTaken then category.filter (fun ip => !env.predictBranch ip) else []
  let final := if notTaken = [] then category else notTaken
  if h.flags.useLru then findLruMin Entry.lru env.rand (h.btb set) final
  else if chooseTakenHistory h final set ≠ 0 then chooseTakenHistory h final set
  else final.getD (env.rand % final.length) 0

def judgeConsiderTaken (h : HotWarmCold D) (i : Nat) : Bool :=
  (h.flags.considerHotTaken && i = h.categoryBoundary.length) ||
    (h.flags.considerWarmTaken && 0 < i && i < h.categoryBoundary.length)

def candidates (env : Env D) (h : HotWarmCold D) (ip set : Nat) : Candidates :=
  let c : Candidates := ⟨List.replicate (h.categoryBoundary.length + 1) [], []⟩
  let c := (iterate env.order (h.btb set)).foldl (fun c entry => addToCandidate env h false c entry.1) c
  if h.flags.considerKeep then addToCandidate env h h.flags.currHotter c ip else c

/-- `none` is a failed assertion. -/
def chooseVictimGeneral (env : Env D) (h : HotWarmCold D) (ip set : Nat) : Option Nat :=
  let c := candidates env h ip set
  match c.categories.findIdx? (fun l => l ≠ []) with
  | some i =>
      let category := c.categories.getD i []
      if c.dontCare.all (fun j => j ∉ category) then
        some (chooseVictimOneCategory env h set (category ++ c.dontCare) (judgeConsiderTaken h i))
      else none
  | none => if c.dontCare ≠ [] then some (chooseVictimOneCategory env h set c.dontCare false) else none

def emplace (h : HotWarmCold D) (ip target : Nat) : HotWarmCold D :=
  let set := h.set ip
  { h with btb := Function.update h.btb set ((h.btb set).insert ip (.new ip target)) }

def evictChoice (env : Env D) (h : HotWarmCold D) (ip set uninitialized : Nat) : Option Nat :=
  if h.flags.sortHitAccess then some (sortChooseVictim env h ip set uninitialized)
  else chooseVictimGeneral env h ip set

/-- A victim equal to the incoming branch is a bypass, 0 is a failed assertion. -/
def replace (env : Env D) (h : HotWarmCold D) (ip target victim : Nat) : Option (HotWarmCold D) :=
  if victim = 0 then none
  else if victim = ip then some h
  else
    let set := h.set ip
    let h := { h with btb := Function.update h.btb set ((h.btb set).erase victim) }
    if size (h.btb set) < h.totalWays then updateLru env.order (emplace h ip target) ip else none

/-- `none` is a failed assertion. -/
def insert (env : Env D) (h : HotWarmCold D) (ip target uninitialized : Nat) : Option (HotWarmCold D) :=
  let set := h.set ip
  if ip ∈ h.btb set then none
  else if h.totalWays ≤ size (h.btb set) then
    (evictChoice env h ip set uninitialized).bind (replace env h ip target)
  else updateLru env.order (emplace h ip target) ip

structure State (D : Type) where
  btb : HotWarmCold D
  side : SideTables.Tables
  stream : StreamBuffer.Buffer

def initializeBtb (flags : Flags) (sets ways : Nat) (hotLower coldUpper warmSplit : D) (record : Table D) : State D :=
  ⟨.init flags sets ways hotLower coldUpper warmSplit record, .initial, .empty 32⟩

def btbPrediction (s : State D) (ip : Nat) (ty : BranchType) : State D × (Nat × Bool) :=
  match SideTables.predict s.side ip ty with
  | (side, some r) => ({ s with side := side }, r)
  | (side, none) =>
      match findBtbEntry s.btb ip with
      | none => ({ s with side := side }, (StreamBuffer.streamBufferPredict s.stream ip, true))
      | some e => ({ s with side := side }, (e.target, e.alwaysTaken))

def outcome (branchTarget : Nat) (taken : Bool) (e : Entry) : Entry :=
  if taken then { e with target := branchTarget } else { e with alwaysTaken := false }

def updateBtb (env : Env D) (s : State D) (ip branchTarget : Nat) (taken : Bool) (ty : BranchType)
    (uninitialized : Nat) : Option (State D) :=
  let s := { s with side := SideTables.update s.side ip branchTarget taken ty }
  if ty.usesBtb then
    match findBtbEntry s.btb ip with
    | none =>
        let s := { s with stream := (StreamBuffer.streamBufferUpdate s.stream ip).1 }
        if branchTarget ≠ 0 ∧ taken then
          (insert env s.btb ip branchTarget uninitialized).map (fun h => { s with btb := h })
        else some s
    | some e => do
        let e ← addToTakenHistory (outcome branchTarget taken e) taken
        let h ← updateLru env.order (s.btb.modify (s.btb.set ip) ip (fun _ => e)) ip
        some { s with btb := h }
  else some s

def prefetchBtb (env : Env D) (s : State D) (ip branchTarget : Nat) (ty : BranchType) (taken toStreamBuffer : Bool)
    (uninitialized : Nat) : Option (State D) :=
  if ty.usesBtb then
    match findBtbEntry s.btb ip with
    | none =>
        if branchTarget ≠ 0 ∧ taken then
          if toStreamBuffer then
            (StreamBuffer.prefetch s.stream ip branchTarget).map (fun b => { s with stream := b })
          else (insert env s.btb ip branchTarget uninitialized).map (fun h => { s with btb := h })
        else some s
    | some _ => do
        let h ← updateLru env.order (s.btb.modify (s.btb.set ip) ip (outcome branchTarget taken)) ip
        some { s with btb := h }
  else some s

/-- A call, with its environment and the stack word behind `min_ip`. -/
def step (s : State D) : Env D × Nat × Call → Option (State D)
  | (_, _, .predict ip ty) => some (btbPrediction s ip ty).1
  | (env, junk, .update ip target taken ty) => updateBtb env s ip target taken ty junk
  | (env, junk, .prefetch ip target ty taken toStreamBuffer) =>
      prefetchBtb env s ip target ty taken toStreamBuffer junk

end Thermometer.HotWarmColdBtb
