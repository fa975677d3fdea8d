import Mathlib.Data.Finset.Max
import Thermometer.Lib.Tables
import Thermometer.Lib.Runs
import Thermometer.AccessRecord
import Thermometer.StreamBuffer
import Thermometer.SideTables

namespace Thermometer.OptBtb

open Trace Lib.Tables AccessRecord

structure Entry where
  ipTag : Nat
  target : Nat
  alwaysTaken : Bool
  deriving DecidableEq, Repr

variable {T : Type}

abbrev Future := Nat → Table (Finset Nat)

def Future.times (f : Future) (set ip : Nat) : Finset Nat := ((f set).lookup ip).getD ∅

structure Opt (T : Type) where
  futureAccesses : Future
  futurePrefetches : Future
  currentBtb : Nat → Table T
  totalSets : Nat
  totalWays : Nat
  lastTimestamp : Nat
  timestamp : Nat

def Opt.init (sets ways : Nat) : Opt T := ⟨fun _ => ∅, fun _ => ∅, fun _ => ∅, sets, ways, 0, 0⟩

def addToFuture (sets ip counter : Nat) (future : Future) : Future :=
  let set := setIndex sets ip
  Function.update future set ((future set).insert ip (insert counter (future.times set ip)))

/-- One line of the demand record, with the prefetches Twig attaches to its branch. -/
def readLine (twig : Option (Table (List (Nat × Nat)))) (t : Opt T) (line : Nat × Nat) : Opt T :=
  let t := { t with futureAccesses := addToFuture t.totalSets line.1 line.2 t.futureAccesses }
  match twig.bind (fun m => m.lookup line.1) with
  | none => t
  | some ps =>
      { t with futurePrefetches :=
          ps.foldl (fun f a => addToFuture t.totalSets a.1 line.2 f) t.futurePrefetches }

def readRecord (t : Opt T) (record : List (Nat × Nat)) (twig : Option (Table (List (Nat × Nat)))) (counter : Nat) : Opt T :=
  { record.foldl (readLine twig) t with lastTimestamp := (record.getLast?.map Prod.snd).getD counter }

def upperBound (s : Finset Nat) (time : Nat) : Option Nat := (s.filter (fun c => time < c)).min

def Opt.set (t : Opt T) (ip : Nat) : Nat := setIndex t.totalSets ip

def Opt.time (t : Opt T) : Nat := if t.timestamp = 0 then 2 ^ 64 - 1 else t.timestamp - 1

def findBtbEntry (t : Opt T) (ip : Nat) : Option T := (t.currentBtb (t.set ip)).lookup ip

def nextAccess (t : Opt T) (set ip : Nat) : Option Nat := upperBound (t.futureAccesses.times set ip) t.time

def nextPrefetch (t : Opt T) (set ip : Nat) : Option Nat := upperBound (t.futurePrefetches.times set ip) t.time

/-- One resident met in the search for a prefetched victim. A prefetch that
comes after the next access is ignored. -/
def prefetchStep (t : Opt T) (set : Nat) (found : Option (Nat × Nat)) (ip : Nat) : Option (Nat × Nat) :=
  match nextPrefetch t set ip with
  | none => found
  | some p =>
      if (nextAccess t set ip).any (fun d => d < p) then found
      else match found with
        | some candidate => if candidate.1 < p then some (p, ip) else found
        | none => some (p, ip)

def prefetchCandidate (o : IterOrder) (t : Opt T) (set : Nat) : Option (Nat × Nat) :=
  (iterate o (t.currentBtb set)).foldl (fun found entry => prefetchStep t set found entry.1) none

def demandStep (t : Opt T) (set : Nat) (candidate : Nat × Nat) (ip : Nat) : Nat × Nat :=
  match nextAccess t set ip with
  | none => (t.lastTimestamp + 1, ip)
  | some c => if candidate.1 < c then (c, ip) else candidate

def demandCandidate (o : IterOrder) (t : Opt T) (set ip current : Nat) : Nat × Nat :=
  (iterate o (t.currentBtb set)).foldl (fun candidate entry => demandStep t set candidate entry.1) (current, ip)

def Opt.erase (t : Opt T) (ip : Nat) (set : Nat) : Opt T :=
  { t with currentBtb := Function.update t.currentBtb set ((t.currentBtb set).erase ip) }

def Opt.emplace (t : Opt T) (ip : Nat) (e : T) : Opt T :=
  let set := t.set ip
  { t with currentBtb := Function.update t.currentBtb set ((t.currentBtb set).insert ip e) }

/-- The victim of a full set, `none` for a bypass. -/
def chooseVictim (o : IterOrder) (t : Opt T) (ip : Nat) : Option Nat :=
  match nextAccess t (t.set ip) ip with
  | none => none
  | some current =>
      match prefetchCandidate o t (t.set ip) with
      | some candidate => some candidate.2
      | none =>
          let candidate := demandCandidate o t (t.set ip) ip current
          if candidate.2 = ip then none else some candidate.2

def insertToBtb (o : IterOrder) (t : Opt Entry) (r : Record) (ip : Nat) : Option (Opt Entry × Record × Bool) :=
  if size (t.currentBtb (t.set ip)) = t.totalWays then
    match chooseVictim o t ip with
    | none => some (t, r, false)
    | some victim => do
        let r ← evict r victim
        some ((t.erase victim (t.set ip)).emplace ip ⟨0, 0, false⟩, r, true)
  else some (t.emplace ip ⟨0, 0, false⟩, r, true)

structure State where
  opt : Opt Entry
  accessRecord : Record
  side : SideTables.Tables
  stream : StreamBuffer.Buffer

def initializeBtb (sets ways : Nat) (record : List (Nat × Nat)) (twig : Option (Table (List (Nat × Nat))))
    (counter : Nat) : State :=
  ⟨readRecord (.init sets ways) record twig counter, .empty .normal, .initial, .empty 32⟩

def modifyEntry (s : State) (ip : Nat) (f : Entry → Entry) : State :=
  let set := s.opt.set ip
  let btb := Function.update s.opt.currentBtb set (modify (s.opt.currentBtb set) ip f)
  { s with opt := { s.opt with currentBtb := btb } }

def btbPrediction (s : State) (ip : Nat) (ty : BranchType) : State × (Nat × Bool) :=
  match SideTables.predict s.side ip ty with
  | (side, some r) => ({ s with side := side }, r)
  | (side, none) =>
      let s := { s with side := side, opt := { s.opt with timestamp := s.opt.timestamp + 1 } }
      match findBtbEntry s.opt ip with
      | none => (s, (StreamBuffer.streamBufferPredict s.stream ip, true))
      | some e => (s, (e.target, e.alwaysTaken))

def allocate (o : IterOrder) (s : State) (ip branchTarget : Nat) (ty : BranchType) : Option State := do
  let (t, r, judge) ← insertToBtb o s.opt s.accessRecord ip
  let s := { s with opt := t, accessRecord := access r ip branchTarget ty false judge }
  some (if judge then modifyEntry s ip (fun _ => ⟨ip, branchTarget, true⟩) else s)

def updateExisting (s : State) (ip branchTarget : Nat) (taken : Bool) (ty : BranchType) : State :=
  if taken then
    { modifyEntry s ip (fun e => { e with target := branchTarget }) with
      accessRecord := access s.accessRecord ip branchTarget ty true false }
  else modifyEntry s ip (fun e => { e with alwaysTaken := false })

def updateBtb (o : IterOrder) (s : State) (ip branchTarget : Nat) (taken : Bool) (ty : BranchType) : Option State :=
  let s := { s with side := SideTables.update s.side ip branchTarget taken ty }
  if ty.usesBtb then
    match findBtbEntry s.opt ip with
    | none =>
        let s := { s with stream := (StreamBuffer.streamBufferUpdate s.stream ip).1 }
        if branchTarget ≠ 0 ∧ taken then allocate o s ip branchTarget ty else some s
    | some _ => some (updateExisting s ip branchTarget taken ty)
  else some s

def prefetchBtb (o : IterOrder) (s : State) (ip branchTarget : Nat) (ty : BranchType) (taken toStreamBuffer : Bool) :
    Option State :=
  let s := { s with accessRecord := { s.accessRecord with btbType := .predecoder } }
  if ty.usesBtb then
    match findBtbEntry s.opt ip with
    | none =>
        if branchTarget ≠ 0 ∧ taken then
          if toStreamBuffer then
            (StreamBuffer.prefetch s.stream ip branchTarget).map (fun b => { s with stream := b })
          else allocate o s ip branchTarget ty
        else some s
    | some _ => some (updateExisting s ip branchTarget taken ty)
  else some s

/-- A call comes with the order in which its loops meet the residents. -/
def step (s : State) : IterOrder × Call → Option State
  | (_, .predict ip ty) => some (btbPrediction s ip ty).1
  | (o, .update ip target taken ty) => updateBtb o s ip target taken ty
  | (o, .prefetch ip target ty taken toStreamBuffer) => prefetchBtb o s ip target ty taken toStreamBuffer

end Thermometer.OptBtb
