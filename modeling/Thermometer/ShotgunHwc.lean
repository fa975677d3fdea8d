import Thermometer.HotWarmColdBtb
import Thermometer.ShotgunFootprint

namespace Thermometer.ShotgunHwc

open Trace Lib.Tables Lib.Stamps Lib.Cells ShotgunFootprint
open HotWarmColdBtb (Entry Flags Env addToTakenHistory sortChooseVictim getHitAccessRatio chooseVictimOneCategory
  judgeConsiderTaken outcome)

def basicBtbSets : Nat := 384

def basicBtbWays : Nat := 4

def unconditionalBtbSets : Nat := 1280

def unconditionalBtbWays : Nat := 4

def basicBtbRasSize : Nat := 32

instance : BtbEntry Entry := ⟨Entry.ipTag, Entry.target⟩

instance : Wraps Entry Entry := ⟨id, id, id, fun _ _ => rfl⟩

structure HotWarmCold (D T : Type) where
  flags : Flags
  totalSets : Nat
  totalWays : Nat
  categoryBoundary : List D
  btb : Nat → Table T
  branchRecord : Table D

variable {D T : Type}

def HotWarmCold.init [DecidableEq D] [Zero D] (flags : Flags) (sets ways : Nat) (hotLower coldUpper warmSplit : D)
    (record : Table D) : HotWarmCold D T :=
  let boundary := if warmSplit = 0 ∨ warmSplit = coldUpper then [coldUpper, hotLower]
    else [coldUpper, warmSplit, hotLower]
  ⟨flags, sets, ways, boundary, fun _ => ∅, record⟩

def HotWarmCold.set (h : HotWarmCold D T) (ip : Nat) : Nat := setIndex h.totalSets ip

def findBtbEntry (h : HotWarmCold D T) (ip : Nat) : Option T := (h.btb (h.set ip)).lookup ip

def findEntry (h : HotWarmCold D T) (ip : Nat) : Option Nat := (findBtbEntry h ip).map (fun _ => ip)

def HotWarmCold.modify (h : HotWarmCold D T) (ip : Nat) (f : T → T) : HotWarmCold D T :=
  { h with btb := Function.update h.btb (h.set ip) (Lib.Tables.modify (h.btb (h.set ip)) ip f) }

/-- A pointer to the entry of a branch is named by the branch. -/
instance : Store (HotWarmCold D T) Nat T where
  get h ip := findBtbEntry h ip
  modify := HotWarmCold.modify
  get_modify_self := by
    intro h ip f
    have hset : (h.modify ip f).set ip = h.set ip := rfl
    simp only [findBtbEntry, hset]
    simp [HotWarmCold.modify, lookup_modify]
  get_modify_ne := by
    intro h f p q hq
    have hset : (h.modify p f).set q = h.set q := rfl
    simp only [findBtbEntry, hset]
    by_cases hs : h.set q = h.set p
    · simp [HotWarmCold.modify, hs, lookup_modify, hq]
    · simp [HotWarmCold.modify, Function.update_of_ne hs]

section HotWarmCold

variable [Wraps T Entry]

def view (h : HotWarmCold D T) : HotWarmColdBtb.HotWarmCold D :=
  ⟨h.flags, h.totalSets, h.totalWays, h.categoryBoundary, fun set => mapTable Wraps.base (h.btb set), h.branchRecord⟩

/-- `none` is the failed assertion that the branch is resident. -/
def updateLru (order : IterOrder) (h : HotWarmCold D T) (ip : Nat) : Option (HotWarmCold D T) :=
  let set := h.set ip
  if ip ∈ h.btb set then
    let max := maxStamp (fun t : T => (Wraps.base t).lru) order (h.btb set)
    some (Store.modify h ip (Wraps.mapBase (fun e : Entry => { e with lru := max + 1 })))
  else none

variable [LinearOrder D] [Zero D] [One D]

/-- Unlike the plain module, this one has no place apart for negative ratios. -/
def addToCandidate (env : Env D) (h : HotWarmCold D T) (currIp : Bool) (candidate : List (List Nat)) (ip : Nat) :
    List (List Nat) :=
  let hitAccess := getHitAccessRatio env (view h) ip
  match h.categoryBoundary.findIdx? (fun b => hitAccess ≤ b) with
  | some i =>
      if currIp ∧ i + 1 = h.categoryBoundary.length then candidate.modify (i + 1) (fun l => l ++ [ip])
      else candidate.modify i (fun l => l ++ [ip])
  | none => if currIp then candidate else candidate.modify h.categoryBoundary.length (fun l => l ++ [ip])

def candidates (env : Env D) (h : HotWarmCold D T) (ip set : Nat) : List (List Nat) :=
  let candidate := (iterate env.order (h.btb set)).foldl (fun c entry => addToCandidate env h false c entry.1)
    (List.replicate (h.categoryBoundary.length + 1) [])
  if h.flags.considerKeep then addToCandidate env h h.flags.currHotter candidate ip else candidate

/-- `none` is the end of the function without a return. -/
def chooseVictimGeneral (env : Env D) (h : HotWarmCold D T) (ip set : Nat) : Option Nat :=
  let candidate := candidates env h ip set
  (candidate.findIdx? (fun l => l ≠ [])).map (fun i =>
    chooseVictimOneCategory env (view h) set (candidate.getD i []) (judgeConsiderTaken (view h) i))

def chooseVictim (env : Env D) (h : HotWarmCold D T) (ip set uninitialized : Nat) : Option Nat :=
  if h.flags.sortHitAccess then some (sortChooseVictim env (view h) ip set uninitialized)
  else chooseVictimGeneral env h ip set

def emplace (h : HotWarmCold D T) (ip target : Nat) : HotWarmCold D T :=
  let set := h.set ip
  { h with btb := Function.update h.btb set ((h.btb set).insert ip (Wraps.wrap (Entry.new ip target))) }

def erase (h : HotWarmCold D T) (victim set : Nat) : HotWarmCold D T :=
  { h with btb := Function.update h.btb set ((h.btb set).erase victim) }

/-- A victim equal to the incoming branch is a bypass, 0 is a failed assertion. -/
def replace (env : Env D) (h : HotWarmCold D T) (ip target victim : Nat) : Option (HotWarmCold D T) :=
  if victim = 0 then none
  else if victim = ip then some h
  else
    let set := h.set ip
    let h := erase h victim set
    if size (h.btb set) < h.totalWays then updateLru env.order (emplace h ip target) ip else none

/-- `none` is a failed assertion. -/
def insert (env : Env D) (h : HotWarmCold D T) (ip target uninitialized : Nat) : Option (HotWarmCold D T) :=
  let set := h.set ip
  if ip ∈ h.btb set then none
  else if h.totalWays ≤ size (h.btb set) then
    (chooseVictim env h ip set uninitialized).bind (replace env h ip target)
  else updateLru env.order (emplace h ip target) ip

end HotWarmCold

abbrev Ubtb (D : Type) := HotWarmCold D (FootprintEntry Entry)

structure State (D : Type) where
  conditional : HotWarmCold D Entry
  front : Front (Ubtb D) Nat
  side : SideTables.Tables
  stream : StreamBuffer.Buffer

def State.withUnconditional (s : State D) (u : Ubtb D) : State D :=
  { s with front := { s.front with unconditional := u } }

def btbPrediction (s : State D) (ip : Nat) (ty : BranchType) : State D × (Nat × Bool) :=
  match SideTables.predictWith basicBtbRasSize s.side ip ty with
  | (side, some r) => ({ s with side := side }, r)
  | (side, none) =>
      let s := { s with side := side }
      if ty = .conditional then
        match findBtbEntry s.conditional ip with
        | none => (s, (StreamBuffer.streamBufferPredict s.stream ip, true))
        | some e => (s, (e.target, e.alwaysTaken))
      else
        match findBtbEntry s.front.unconditional ip with
        | none => (s, (0, true))
        | some e => (s, (e.base.target, e.base.alwaysTaken))

/-- `add_footprint` takes a copy of an entry of the C-BTB, if the branch has one. -/
def record (s : State D) (ip : Nat) : State D :=
  match findBtbEntry s.conditional ip with
  | none => s
  | some a => { s with front := addFootprint s.front a }

def updateReturn (o : IterOrder) (s : State D) (ip branchTarget : Nat) : State D :=
  let r := SideTables.recalibrate basicBtbRasSize s.side branchTarget
  { s with side := r.1, front := updateCurrent o s.front (findEntry s.front.unconditional ip) .ret }

variable [LinearOrder D] [Zero D] [One D]

def State.initial (flags : Flags) (sets ways unconditionalSets unconditionalWays : Nat) (hotLower coldUpper warmSplit : D)
    (conditionalRecord unconditionalRecord : Table D) : State D :=
  ⟨.init flags sets ways hotLower coldUpper warmSplit conditionalRecord,
    .initial (.init flags unconditionalSets unconditionalWays hotLower coldUpper warmSplit unconditionalRecord),
    .initial, .empty 32⟩

def initializeBtb (flags : Flags) (hotLower coldUpper warmSplit : D) (conditionalRecord unconditionalRecord : Table D) :
    State D :=
  .initial flags basicBtbSets basicBtbWays unconditionalBtbSets unconditionalBtbWays hotLower coldUpper warmSplit
    conditionalRecord unconditionalRecord

def updateConditional (env : Env D) (s : State D) (ip branchTarget : Nat) (taken : Bool) (uninitialized : Nat) :
    Option (State D) :=
  match findBtbEntry s.conditional ip with
  | none =>
      let s := { s with stream := (StreamBuffer.streamBufferUpdate s.stream ip).1 }
      if branchTarget ≠ 0 ∧ taken then do
        let b ← insert env s.conditional ip branchTarget uninitialized
        some (record { s with conditional := b } ip)
      else some s
  | some e => do
      let e ← addToTakenHistory (outcome branchTarget taken e) taken
      let b ← updateLru env.order (Store.modify s.conditional ip (fun _ => e)) ip
      some (record { s with conditional := b } ip)

def updateUnconditional (env : Env D) (s : State D) (ip branchTarget : Nat) (taken : Bool) (ty : BranchType)
    (uninitialized : Nat) : Option (State D) :=
  let u := s.front.unconditional
  match findEntry u ip with
  | none =>
      if branchTarget ≠ 0 ∧ taken then do
        let b ← insert env u ip branchTarget uninitialized
        let s := s.withUnconditional b
        match findEntry b ip with
        | none => some s
        | some p => some { s with front := updateCurrent env.order s.front (some p) ty }
      else some s
  | some p => do
      let b ← updateLru env.order (Store.modify u ip (Wraps.mapBase (outcome branchTarget taken))) ip
      let s := s.withUnconditional b
      some { s with front := updateCurrent env.order s.front (some p) ty }

def updateBtb (env : Env D) (s : State D) (ip branchTarget : Nat) (taken : Bool) (ty : BranchType) (uninitialized : Nat) :
    Option (State D) :=
  if ty = .indirect || ty = .indirectCall then some { s with side := SideTables.storeIndirect s.side ip branchTarget }
  else if ty = .conditional then
    updateConditional env { s with side := SideTables.shiftHistory s.side taken } ip branchTarget taken uninitialized
  else if ty = .ret then some (updateReturn env.order s ip branchTarget)
  else updateUnconditional env s ip branchTarget taken ty uninitialized

def prefetchConditional (env : Env D) (s : State D) (ip branchTarget : Nat) (taken toStreamBuffer : Bool)
    (uninitialized : Nat) : Option (State D) :=
  match findBtbEntry s.conditional ip with
  | none =>
      if branchTarget ≠ 0 ∧ taken then
        if toStreamBuffer then
          (StreamBuffer.prefetch s.stream ip branchTarget).map (fun b => { s with stream := b })
        else (insert env s.conditional ip branchTarget uninitialized).map (fun b => { s with conditional := b })
      else some s
  | some _ =>
      (updateLru env.order (Store.modify s.conditional ip (outcome branchTarget taken)) ip).map
        (fun b => { s with conditional := b })

def prefetchBtb (env : Env D) (s : State D) (ip branchTarget : Nat) (ty : BranchType) (taken toStreamBuffer : Bool)
    (uninitialized : Nat) : Option (State D) :=
  if ty = .conditional then prefetchConditional env s ip branchTarget taken toStreamBuffer uninitialized else some s

/-- A call, with its environment and the stack word behind `min_ip`. -/
def step (s : State D) : Env D × Nat × Call → Option (State D)
  | (_, _, .predict ip ty) => some (btbPrediction s ip ty).1
  | (env, junk, .update ip target taken ty) => updateBtb env s ip target taken ty junk
  | (env, junk, .prefetch ip target ty taken toStreamBuffer) =>
      prefetchBtb env s ip target ty taken toStreamBuffer junk

end Thermometer.ShotgunHwc
