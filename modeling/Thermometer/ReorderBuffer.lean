import Mathlib.Data.Finset.Sort
import Mathlib.Data.Fintype.Basic
import Thermometer.Lib.Rings
import Thermometer.Lib.Runs

namespace Thermometer.ReorderBuffer

open Lib.Rings Lib.Runs

abbrev numInstrSources : Nat := 4

/-- The values of `scheduled` and `executed`. -/
inductive Stage
  | idle
  | inflight
  | completed
  deriving DecidableEq, Repr

/-- The registers of an instruction, zero for none. -/
structure Instr where
  isMemory : Bool
  sourceRegisters : Fin numInstrSources → Nat
  destinationRegisters : List Nat

structure RobEntry where
  instrId : Nat
  isMemory : Bool
  sourceRegisters : Fin numInstrSources → Nat
  destinationRegisters : List Nat
  scheduled : Stage
  executed : Stage
  regReady : Bool
  regRawProducer : Bool
  producerId : Nat
  numRegDependent : Int
  regRawChecked : Fin numInstrSources → Bool
  registersInstrsDependOnMe : Finset Nat
  registersIndexDependOnMe : Fin numInstrSources → Finset Nat

def RobEntry.empty : RobEntry where
  instrId := 0
  isMemory := false
  sourceRegisters _ := 0
  destinationRegisters := []
  scheduled := .idle
  executed := .idle
  regReady := false
  regRawProducer := false
  producerId := 0
  numRegDependent := 0
  regRawChecked _ := false
  registersInstrsDependOnMe := ∅
  registersIndexDependOnMe _ := ∅

def RobEntry.dispatched (instrId : Nat) (i : Instr) : RobEntry :=
  { RobEntry.empty with
    instrId := instrId
    isMemory := i.isMemory
    sourceRegisters := i.sourceRegisters
    destinationRegisters := i.destinationRegisters }

/-- The buffer and the queue of what is ready. `placed` is history: the instructions put into
that queue, each with the number of registers it still waited for. So is `retired`. -/
structure State where
  size : Nat
  entry : Nat → RobEntry
  head : Nat
  tail : Nat
  occupancy : Nat
  readyToExecute : Ring
  instrUniqueId : Nat
  placed : List (Nat × Int)
  retired : List RobEntry

def State.initial (robSize : Nat) : State where
  size := robSize
  entry _ := .empty
  head := 0
  tail := 0
  occupancy := 0
  readyToExecute := .empty robSize
  instrUniqueId := 0
  placed := []
  retired := []

def State.slot (s : State) (a : Nat) : Nat := place s.size s.head a

def State.modifyEntry (s : State) (i : Nat) (f : RobEntry → RobEntry) : State :=
  { s with entry := Function.update s.entry i (f (s.entry i)) }

/-- Instructions are dispatched in the order in which they were numbered. -/
def dispatchInstruction (s : State) (i : Instr) : State :=
  if s.occupancy < s.size then
    { s with
      entry := Function.update s.entry s.tail (.dispatched s.instrUniqueId i)
      tail := next s.size s.tail
      occupancy := s.occupancy + 1
      instrUniqueId := s.instrUniqueId + 1 }
  else s

def scan (s : State) (i : Nat) : List Nat :=
  let prior := if i = 0 then s.size - 1 else i - 1
  if i = s.head then []
  else if s.head ≤ prior then (List.range' s.head (prior + 1 - s.head)).reverse
  else (List.range' 0 (prior + 1)).reverse ++ (List.range' s.head (s.size - s.head)).reverse

def RobEntry.writes (e : RobEntry) (register : Nat) : Bool := e.destinationRegisters.any (fun d => d ≠ 0 && d = register)

/-- The two sides of a dependency, at the producer and at its consumer. -/
def link (s : State) (prior current : Nat) (j : Fin numInstrSources) : State :=
  let s := s.modifyEntry prior (fun e =>
    { e with
      registersInstrsDependOnMe := insert current e.registersInstrsDependOnMe
      registersIndexDependOnMe :=
        Function.update e.registersIndexDependOnMe j (insert current (e.registersIndexDependOnMe j))
      regRawProducer := true })
  s.modifyEntry current (fun e =>
    { e with
      regReady := false
      producerId := (s.entry prior).instrId
      numRegDependent := e.numRegDependent + 1
      regRawChecked := Function.update e.regRawChecked j true })

def regRawDependency (s : State) (prior current : Nat) (j : Fin numInstrSources) : State :=
  if (s.entry prior).writes ((s.entry current).sourceRegisters j) then link s prior current j else s

/-- What the scan does at one older entry for one source. -/
def checkSource (current prior : Nat) (s : State) (j : Fin numInstrSources) : State :=
  if (s.entry current).sourceRegisters j ≠ 0 ∧ (s.entry current).regRawChecked j = false then
    regRawDependency s prior current j
  else s

def checkPrior (current : Nat) (s : State) (prior : Nat) : State :=
  if (s.entry prior).executed ≠ .completed then
    (List.finRange numInstrSources).foldl (checkSource current prior) s
  else s

def regDependency (s : State) (i : Nat) : State := (scan s i).foldl (checkPrior i) s

/-- `none` is the failed assertion that the slot at the tail of the queue is free. -/
def pushReady (s : State) (i : Nat) : Option State :=
  (s.readyToExecute.push s.size i).map (fun r =>
    { s with
      readyToExecute := r
      placed := s.placed ++ [((s.entry i).instrId, (s.entry i).numRegDependent)] })

def doScheduling (s : State) (i : Nat) : Option State :=
  let s := regDependency (s.modifyEntry i (fun e => { e with regReady := true })) i
  if (s.entry i).isMemory then some (s.modifyEntry i (fun e => { e with scheduled := .inflight }))
  else
    let s := s.modifyEntry i (fun e => { e with scheduled := .completed })
    if (s.entry i).regReady then pushReady s i else some s

/-- The turn of the scheduler's loop at an entry not yet scheduled. -/
def scheduleInstruction (s : State) (i : Nat) : Option State :=
  if (s.entry i).scheduled = .idle then doScheduling s i else some s

def doExecution (s : State) (i : Nat) : State := s.modifyEntry i (fun e => { e with executed := .inflight })

def executeInstruction (s : State) : State :=
  match s.readyToExecute.front s.size with
  | none => s
  | some i => { doExecution s i with readyToExecute := s.readyToExecute.pop s.size }

/-- A memory instruction with all its operands in the load and store queues. -/
def doMemoryScheduling (s : State) (i : Nat) : State :=
  if (s.entry i).isMemory ∧ (s.entry i).regReady ∧ (s.entry i).scheduled = .inflight then
    s.modifyEntry i (fun e =>
      { e with scheduled := .completed, executed := if e.executed = .idle then .inflight else e.executed })
  else s

/-- One source of one consumer. -/
def release (s : State) (i : Nat) : Option State :=
  let s := s.modifyEntry i (fun e => { e with numRegDependent := e.numRegDependent - 1 })
  if (s.entry i).numRegDependent = 0 then
    if (s.entry i).isMemory then some (s.modifyEntry i (fun e => { e with regReady := true, scheduled := .inflight }))
    else pushReady (s.modifyEntry i (fun e => { e with regReady := true, scheduled := .completed })) i
  else some s

def releaseSource (producer i : Nat) (s : State) (j : Fin numInstrSources) : Option State :=
  if i ∈ (s.entry producer).registersIndexDependOnMe j then release s i else some s

def regRawRelease (s : State) (producer : Nat) : Option State :=
  ((s.entry producer).registersInstrsDependOnMe.sort (fun a b => a ≤ b)).foldlM
    (fun s i => (List.finRange numInstrSources).foldlM (releaseSource producer i) s) s

/-- An instruction whose time has come, and whose memory operands are all there. -/
def completeExecution (s : State) (i : Nat) : Option State :=
  if (s.entry i).executed = .inflight then
    let s := s.modifyEntry i (fun e => { e with executed := .completed })
    if (s.entry i).regRawProducer then regRawRelease s i else some s
  else some s

def retireRob (s : State) : State :=
  if (s.entry s.head).executed = .completed then
    { s with
      entry := Function.update s.entry s.head .empty
      head := next s.size s.head
      occupancy := s.occupancy - 1
      retired := s.retired ++ [s.entry s.head] }
  else s

/-- The turns of the pipeline's loops. The clock, the widths and the memory only decide
which turn comes when. An entry is named by the number of instructions ahead of it. -/
inductive Event
  | dispatch (i : Instr)
  | schedule (a : Nat)
  | execute
  | scheduleMemory (a : Nat)
  | complete (a : Nat)
  | retire

/-- `none` is a failed assertion. -/
def step (s : State) : Event → Option State
  | .dispatch i => some (dispatchInstruction s i)
  | .schedule a => if a < s.occupancy then scheduleInstruction s (s.slot a) else some s
  | .execute => some (executeInstruction s)
  | .scheduleMemory a => if a < s.occupancy then some (doMemoryScheduling s (s.slot a)) else some s
  | .complete a => if a < s.occupancy then completeExecution s (s.slot a) else some s
  | .retire => some (retireRob s)

end Thermometer.ReorderBuffer
