import Thermometer.BasicBtb

namespace Thermometer.VictimBufferBtb

open Trace BasicBtb

def victimBufferSize : Nat := 128

/-- The basic BTB with a queue of what it replaced. -/
structure State extends BasicBtb.State where
  victimBuffer : List Entry

def initializeBtb (ways : Nat) : State := ⟨.initial (maskIndex (2048 * 4 / ways)) ways, []⟩

/-- Only the tag and the target of the replaced way are kept. `none` is a failed
assertion. -/
def addToVictimBuffer (victimBuffer : List Entry) (replEntry : Entry) : Option (List Entry) :=
  let buffer := if victimBufferSize ≤ victimBuffer.length then victimBuffer.tail else victimBuffer
  if buffer.length < victimBufferSize then some (buffer ++ [⟨replEntry.ipTag, replEntry.target, true, 0⟩]) else none

/-- Where an entry was found: in a way of the set of the branch, or at a position
of the victim buffer. -/
inductive Found
  | btb (way : Nat)
  | victimBuffer (i : Nat)

def lookup (s : State) (ip : Nat) : Option Found :=
  match findEntry s.toState ip with
  | some way => some (.btb way)
  | none => (s.victimBuffer.findIdx? (fun e => e.ipTag = ip)).map .victimBuffer

def btbPrediction (s : State) (ip : Nat) (ty : BranchType) : State × (Nat × Bool) :=
  match SideTables.predict s.side ip ty with
  | (side, some r) => ({ s with side := side }, r)
  | (side, none) =>
      let s := { s with side := side }
      match lookup s ip with
      | none => (s, (StreamBuffer.streamBufferPredict s.stream ip, true))
      | some (.btb way) =>
          let e := s.entry (s.set ip) way
          ({ s with toState := updateLru s.toState (s.set ip) way }, (e.target, e.alwaysTaken))
      | some (.victimBuffer i) =>
          let e := s.victimBuffer.getD i .invalid
          (s, (e.target, e.alwaysTaken))

/-- The replaced way goes to the victim buffer, also when it held no branch. -/
def allocate (s : State) (ip branchTarget : Nat) : Option State :=
  (addToVictimBuffer s.victimBuffer (s.entry (s.set ip) (getLruEntry s.toState (s.set ip)))).map
    (fun buffer => ⟨BasicBtb.allocate s.toState ip branchTarget, buffer⟩)

def updateExisting (s : State) (ip : Nat) (found : Found) (branchTarget : Nat) (taken : Bool) : State :=
  match found with
  | .btb way => { s with toState := BasicBtb.updateExisting s.toState (s.set ip) way branchTarget taken }
  | .victimBuffer i =>
      let f : Entry → Entry := fun e =>
        if taken then { e with target := branchTarget } else { e with alwaysTaken := false }
      { s with victimBuffer := s.victimBuffer.modify i f }

def updateBtb (s : State) (ip branchTarget : Nat) (taken : Bool) (ty : BranchType) : Option State :=
  let s := { s with side := SideTables.update s.side ip branchTarget taken ty }
  if ty.usesBtb then
    match lookup s ip with
    | none =>
        let s := { s with stream := (StreamBuffer.streamBufferUpdate s.stream ip).1 }
        if branchTarget ≠ 0 ∧ taken then allocate s ip branchTarget else some s
    | some found => some (updateExisting s ip found branchTarget taken)
  else some s

def touch (s : State) (ip : Nat) : Found → State
  | .btb way => { s with toState := updateLru s.toState (s.set ip) way }
  | .victimBuffer _ => s

def prefetchBtb (s : State) (ip branchTarget : Nat) (ty : BranchType) (taken toStreamBuffer : Bool) : Option State :=
  if ty.usesBtb then
    match lookup s ip with
    | none =>
        if branchTarget ≠ 0 ∧ taken then
          if toStreamBuffer then
            (StreamBuffer.prefetch s.stream ip branchTarget).map (fun b => { s with stream := b })
          else allocate s ip branchTarget
        else some s
    | some found => some (updateExisting (touch s ip found) ip found branchTarget taken)
  else some s

def step (s : State) : Call → Option State
  | .predict ip ty => some (btbPrediction s ip ty).1
  | .update ip target taken ty => updateBtb s ip target taken ty
  | .prefetch ip target ty taken toStreamBuffer => prefetchBtb s ip target ty taken toStreamBuffer

end Thermometer.VictimBufferBtb
