import Mathlib.Logic.Function.Basic
import Thermometer.Lib.Tables
import Thermometer.Lib.Runs
import Thermometer.StreamBuffer
import Thermometer.SideTables

namespace Thermometer.GhrpBtb

open Trace Lib.Tables

structure Entry where
  ipTag : Nat
  target : Nat
  alwaysTaken : Bool
  plruTimestamp : Bool
  lruTimestamp : Nat
  signature : Nat
  deadPrediction : Bool
  deriving DecidableEq, Repr

def Entry.empty : Entry := ⟨0, 0, false, false, 0, 0, false⟩

def isGhrpPlru : Bool := true
def numCounts : Nat := 4096
abbrev numPredTables : Nat := 3
def counterSize : Nat := 4
def bypassThresh : Nat := 3
def deadThresh : Nat := 3

abbrev PredTables := Nat → Fin numPredTables → Nat

structure State where
  btb : Nat → Table Entry
  sets : Nat
  numLines : Nat
  currentTimestamp : Nat
  globalHistory : Nat → Nat
  predTables : PredTables
  side : SideTables.Tables
  stream : StreamBuffer.Buffer

def initializeBtb (totalBtbWays : Nat) : State where
  btb _ := ∅
  sets := 2048 * 4 / totalBtbWays
  numLines := totalBtbWays
  currentTimestamp := 0
  globalHistory _ := 0
  predTables _ _ := 0
  side := .initial
  stream := .empty 32

def mixRound (r l q : Nat) (v : BitVec 64 × BitVec 64 × BitVec 64) : BitVec 64 × BitVec 64 × BitVec 64 :=
  let a := (v.1 - v.2.1 - v.2.2) ^^^ (v.2.2 >>> r)
  let b := (v.2.1 - v.2.2 - a) ^^^ (a <<< l)
  let c := (v.2.2 - a - b) ^^^ (b >>> q)
  (a, b, c)

def mix (a b c : BitVec 64) : BitVec 64 := (mixRound 3 10 15 (mixRound 12 16 5 (mixRound 13 8 13 (a, b, c)))).2.2

def f1 (x : BitVec 64) : BitVec 64 := mix 0xfeedface 0xdeadb10c x

def f2 (x : BitVec 64) : BitVec 64 := mix 0xc001d00d 0xfade2b1c x

def fi (x : BitVec 64) : BitVec 64 := f1 x + f2 x

def hash (signature : Nat) (i : Fin numPredTables) : Nat :=
  (match i with
    | 0 => f1 (BitVec.ofNat 64 signature)
    | 1 => f2 (BitVec.ofNat 64 signature)
    | 2 => fi (BitVec.ofNat 64 signature)).toNat &&& (numCounts - 1)

def makeSignature (pc his : Nat) : Nat := (pc ^^^ his) % 2 ^ 16

def computeIndices (signature : Nat) : Fin numPredTables → Nat := hash signature

def getCounters (p : PredTables) (indices : Fin numPredTables → Nat) : Fin numPredTables → Nat := fun t => p (indices t) t

def majorityVote (counters : Fin numPredTables → Nat) (threshold : Nat) : Bool :=
  numPredTables ≤ 2 * ((List.finRange numPredTables).filter (fun i => threshold ≤ counters i)).length

def updatePredTable (p : PredTables) (indices : Fin numPredTables → Nat) (isDead : Bool) : PredTables := fun i t =>
  if i = indices t then
    if isDead then if p i t < counterSize - 1 then p i t + 1 else p i t
    else p i t - 1
  else p i t

def State.set (s : State) (ip : Nat) : Nat := maskIndex s.sets ip

def State.find (s : State) (set addr : Nat) : Option Entry := (s.btb set).lookup addr

def State.sign (s : State) (set pc : Nat) : Nat := makeSignature pc (s.globalHistory set)

def State.counters (s : State) (set pc : Nat) : Fin numPredTables → Nat :=
  getCounters s.predTables (computeIndices (s.sign set pc))

def State.setTable (s : State) (set : Nat) (t : Table Entry) : State := { s with btb := Function.update s.btb set t }

def updateGlobalHistory (s : State) (pc set : Nat) : State :=
  let h := ((s.globalHistory set <<< 4) ||| ((pc &&& 7) <<< 1)) % 2 ^ 16
  { s with globalHistory := Function.update s.globalHistory set h }

/-- When every line of a full set is marked, all marks but the last are taken back. -/
def markUsed (numLines : Nat) (t : Table Entry) (addr : Nat) : Table Entry :=
  let full := size t = numLines ∧ (iterate .ascending t).all (fun e => e.2.plruTimestamp)
  let t := if full then mapValues (fun e => { e with plruTimestamp := false }) t else t
  modify t addr (fun e => { e with plruTimestamp := true })

def hitAccess (s : State) (set addr pc : Nat) : State :=
  let sign := s.sign set pc
  let dead := majorityVote (s.counters set pc) deadThresh
  let now := (s.currentTimestamp + 1) % 2 ^ 64
  let block := (s.find set addr).getD .empty
  let used : Entry → Entry := fun e =>
    { e with plruTimestamp := true, lruTimestamp := now, deadPrediction := dead, signature := sign }
  { s.setTable set (markUsed s.numLines (modify (s.btb set) addr used) addr) with
    currentTimestamp := now
    predTables := updatePredTable s.predTables (computeIndices block.signature) false }

/-- The line used longest ago, by marks or by stamps. -/
def oldest (t : Table Entry) : Option Nat :=
  let es := iterate .ascending t
  if isGhrpPlru then ((es.find? (fun e => !e.2.plruTimestamp)).or es.head?).map Prod.fst
  else
    (es.head?.map (fun first => es.foldl (fun o e => if e.2.lruTimestamp < o.2.lruTimestamp then e else o) first)).map
      Prod.fst

/-- The line that leaves a full set: a dead one before the oldest. -/
def evicted (s : State) (set : Nat) : Option Nat :=
  if size (s.btb set) < s.numLines then none
  else (((iterate .ascending (s.btb set)).find? (fun e => e.2.deadPrediction)).map Prod.fst).or (oldest (s.btb set))

def doEvition (s : State) (set : Nat) : State :=
  match evicted s set with
  | none => s
  | some addr => s.setTable set ((s.btb set).erase addr)

def needBypass (s : State) (set pc : Nat) : Bool := majorityVote (s.counters set pc) bypassThresh

def missAccess (s : State) (set addr pc : Nat) : State × Bool :=
  let sign := s.sign set pc
  let dead := majorityVote (s.counters set pc) deadThresh
  let now := (s.currentTimestamp + 1) % 2 ^ 64
  if needBypass s set pc then ({ s with currentTimestamp := now }, false)
  else
    let s := doEvition s set
    let block := Entry.empty
    let p := updatePredTable s.predTables (computeIndices block.signature) true
    let block := { block with plruTimestamp := true, lruTimestamp := now, deadPrediction := dead, signature := sign }
    ({ s.setTable set (markUsed s.numLines (insertNew (s.btb set) addr block) addr) with
        currentTimestamp := now, predTables := p }, true)

def btbPrediction (s : State) (ip : Nat) (ty : BranchType) : State × (Nat × Bool) :=
  match SideTables.predict s.side ip ty with
  | (side, some r) => ({ s with side := side }, r)
  | (side, none) =>
      let s := { s with side := side }
      match s.find (s.set ip) ip with
      | none => (s, (StreamBuffer.streamBufferPredict s.stream ip, true))
      | some e => (hitAccess s (s.set ip) ip ip, (e.target, e.alwaysTaken))

def allocate (s : State) (ip branchTarget : Nat) : State :=
  let set := s.set ip
  let (s, inserted) := missAccess s set ip ip
  let fill : Entry → Entry := fun e => { e with ipTag := ip, target := branchTarget, alwaysTaken := true }
  updateGlobalHistory (if inserted then s.setTable set (modify (s.btb set) ip fill) else s) ip set

def updateExisting (s : State) (ip branchTarget : Nat) (taken : Bool) : State :=
  let set := s.set ip
  let f : Entry → Entry := fun e => if taken then { e with target := branchTarget } else { e with alwaysTaken := false }
  updateGlobalHistory (s.setTable set (modify (s.btb set) ip f)) ip set

def updateBtb (s : State) (ip branchTarget : Nat) (taken : Bool) (ty : BranchType) : State :=
  let s := { s with side := SideTables.update s.side ip branchTarget taken ty }
  if ty.usesBtb then
    match s.find (s.set ip) ip with
    | none =>
        let s := { s with stream := (StreamBuffer.streamBufferUpdate s.stream ip).1 }
        if branchTarget ≠ 0 ∧ taken then allocate s ip branchTarget else s
    | some _ => updateExisting s ip branchTarget taken
  else s

def prefetchBtb (s : State) (ip branchTarget : Nat) (ty : BranchType) (taken toStreamBuffer : Bool) : Option State :=
  if ty.usesBtb then
    match s.find (s.set ip) ip with
    | none =>
        if branchTarget ≠ 0 ∧ taken then
          if toStreamBuffer then
            (StreamBuffer.prefetch s.stream ip branchTarget).map (fun b => { s with stream := b })
          else some (allocate s ip branchTarget)
        else some s
    | some _ => some (updateExisting (hitAccess s (s.set ip) ip ip) ip branchTarget taken)
  else some s

def step (s : State) : Call → Option State
  | .predict ip ty => some (btbPrediction s ip ty).1
  | .update ip target taken ty => some (updateBtb s ip target taken ty)
  | .prefetch ip target ty taken toStreamBuffer => prefetchBtb s ip target ty taken toStreamBuffer

end Thermometer.GhrpBtb
