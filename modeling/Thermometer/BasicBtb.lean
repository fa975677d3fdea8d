import Thermometer.Lib.Scan
import Thermometer.Lib.Runs
import Thermometer.StreamBuffer
import Thermometer.SideTables

namespace Thermometer.BasicBtb

open Trace Lib.Scan

structure Entry where
  ipTag : Nat
  target : Nat
  alwaysTaken : Bool
  lru : Nat
  deriving DecidableEq, Repr

def Entry.invalid : Entry := ⟨0, 0, false, 0⟩

def Entry.valid (e : Entry) : Bool := e.ipTag ≠ 0

/-- `index` is the module's set index of a branch. -/
structure State where
  index : Nat → Nat
  ways : Nat
  btb : Nat → List Entry
  lruCounter : Nat
  timestamp : Nat
  side : SideTables.Tables
  stream : StreamBuffer.Buffer

def State.initial (index : Nat → Nat) (ways : Nat) : State :=
  ⟨index, ways, fun _ => List.replicate ways .invalid, 0, 0, .initial, .empty 32⟩

def initializeBtb (sets ways : Nat) : State := .initial (setIndex sets) ways

def State.set (s : State) (ip : Nat) : Nat := s.index ip

def State.entry (s : State) (set way : Nat) : Entry := (s.btb set).getD way .invalid

def State.modify (s : State) (set way : Nat) (f : Entry → Entry) : State :=
  { s with btb := Function.update s.btb set ((s.btb set).modify way f) }

def findEntry (s : State) (ip : Nat) : Option Nat :=
  (s.btb (s.set ip)).findIdx? (fun e => e.ipTag = ip)

def getLruEntry (s : State) (set : Nat) : Nat := firstMin (fun i => (s.entry set i).lru) s.ways

def updateLru (s : State) (set way : Nat) : State :=
  { s.modify set way (fun e => { e with lru := s.lruCounter }) with lruCounter := s.lruCounter + 1 }

def btbPrediction (s : State) (ip : Nat) (ty : BranchType) : State × (Nat × Bool) :=
  match SideTables.predict s.side ip ty with
  | (side, some r) => ({ s with side := side }, r)
  | (side, none) =>
      let s := { s with side := side, timestamp := s.timestamp + 1 }
      match findEntry s ip with
      | none => (s, (StreamBuffer.streamBufferPredict s.stream ip, true))
      | some way =>
          let e := s.entry (s.set ip) way
          (updateLru s (s.set ip) way, (e.target, e.alwaysTaken))

def allocate (s : State) (ip branchTarget : Nat) : State :=
  let way := getLruEntry s (s.set ip)
  updateLru (s.modify (s.set ip) way (fun e => { e with ipTag := ip, target := branchTarget, alwaysTaken := true }))
    (s.set ip) way

/-- An outcome seen by a resident entry. Only a taken one moves the target. -/
def updateExisting (s : State) (set way branchTarget : Nat) (taken : Bool) : State :=
  s.modify set way (fun e =>
    if taken then { e with target := branchTarget } else { e with alwaysTaken := false })

def updateBtb (s : State) (ip branchTarget : Nat) (taken : Bool) (ty : BranchType) : State :=
  let s := { s with side := SideTables.update s.side ip branchTarget taken ty }
  if ty.usesBtb then
    match findEntry s ip with
    | none =>
        let s := { s with stream := (StreamBuffer.streamBufferUpdate s.stream ip).1 }
        if branchTarget ≠ 0 ∧ taken then allocate s ip branchTarget else s
    | some way => updateExisting s (s.set ip) way branchTarget taken
  else s

def prefetchBtb (s : State) (ip branchTarget : Nat) (ty : BranchType) (taken toStreamBuffer : Bool) :
    Option State :=
  if ty.usesBtb then
    match findEntry s ip with
    | none =>
        if branchTarget ≠ 0 ∧ taken then
          if toStreamBuffer then
            (StreamBuffer.prefetch s.stream ip branchTarget).map (fun b => { s with stream := b })
          else some (allocate s ip branchTarget)
        else some s
    | some way => some (updateExisting (updateLru s (s.set ip) way) (s.set ip) way branchTarget taken)
  else some s

def step (s : State) : Call → Option State
  | .predict ip ty => some (btbPrediction s ip ty).1
  | .update ip target taken ty => some (updateBtb s ip target taken ty)
  | .prefetch ip target ty taken toStreamBuffer => prefetchBtb s ip target ty taken toStreamBuffer

end Thermometer.BasicBtb
