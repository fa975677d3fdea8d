import Mathlib.Data.Finset.Sort
import Mathlib.Data.Fintype.Sum
import Thermometer.Lib.Runs
import Thermometer.Lib.Windows
import Thermometer.ReorderBuffer

namespace Thermometer.LoadStoreQueue

open Lib.Runs Lib.Windows

open ReorderBuffer (Stage numInstrSources)

abbrev numInstrDestinations : Nat := 4

abbrev Operand := Fin numInstrSources ⊕ Fin numInstrDestinations

/-- The addresses of an instruction, zero for none. -/
structure Instr where
  sourceMemory : Fin numInstrSources → Nat
  destinationMemory : Fin numInstrDestinations → Nat

def Instr.address (x : Instr) : Operand → Nat
  | .inl j => x.sourceMemory j
  | .inr i => x.destinationMemory i

def Instr.operands (x : Instr) : Finset Operand := {o | x.address o ≠ 0}

structure LsqEntry where
  instrId : Nat
  producerId : Option Nat
  virtualAddress : Nat
  robIndex : Nat
  dataIndex : Fin 4
  fetched : Bool

def LsqEntry.empty : LsqEntry where
  instrId := 0
  producerId := none
  virtualAddress := 0
  robIndex := 0
  dataIndex := 0
  fetched := false

structure RobEntry where
  instrId : Nat
  isMemory : Bool
  numMemOps : Int
  sourceMemory : Fin numInstrSources → Nat
  destinationMemory : Fin numInstrDestinations → Nat
  sourceAdded : Fin numInstrSources → Bool
  destinationAdded : Fin numInstrDestinations → Bool
  lqIndex : Fin numInstrSources → Option Nat
  sqIndex : Fin numInstrDestinations → Option Nat
  scheduled : Stage
  executed : Stage
  isProducer : Bool
  memoryInstrsDependOnMe : Finset Nat

def RobEntry.empty : RobEntry where
  instrId := 0
  isMemory := false
  numMemOps := 0
  sourceMemory _ := 0
  destinationMemory _ := 0
  sourceAdded _ := false
  destinationAdded _ := false
  lqIndex _ := none
  sqIndex _ := none
  scheduled := .idle
  executed := .idle
  isProducer := false
  memoryInstrsDependOnMe := ∅

def RobEntry.dispatched (instrId : Nat) (x : Instr) : RobEntry :=
  { RobEntry.empty with
    instrId := instrId
    isMemory := 0 < x.operands.card
    numMemOps := x.operands.card
    sourceMemory := x.sourceMemory
    destinationMemory := x.destinationMemory }

/-- An operand that has been counted down, and for a load the producer it had recorded
and the store, with its address, that released it. -/
structure Done where
  instrId : Nat
  operand : Operand
  address : Nat
  producerId : Option Nat
  releasedBy : Option (Nat × Nat)

/-- `storesToExecute` are the stores on their way through the data TLB, `loadsToReturn` the
loads on their way through the TLB and the cache. `program` and `done` are history. -/
structure State where
  rob : Window RobEntry
  lqSize : Nat
  lq : Nat → LsqEntry
  lqOccupancy : Nat
  sq : Window LsqEntry
  sta : List Nat
  storesToExecute : List Nat
  loadsToReturn : List Nat
  program : List Instr
  done : List Done

def State.initial (robSize lqSize sqSize : Nat) : State where
  rob := .initial robSize .empty
  lqSize := lqSize
  lq _ := .empty
  lqOccupancy := 0
  sq := .initial sqSize .empty
  sta := []
  storesToExecute := []
  loadsToReturn := []
  program := []
  done := []

def State.modifyRob (s : State) (i : Nat) (f : RobEntry → RobEntry) : State := { s with rob := s.rob.modify i f }

def State.modifyLq (s : State) (q : Nat) (f : LsqEntry → LsqEntry) : State :=
  { s with lq := Function.update s.lq q (f (s.lq q)) }

def State.modifySq (s : State) (q : Nat) (f : LsqEntry → LsqEntry) : State := { s with sq := s.sq.modify q f }

/-- Instructions are dispatched in the order in which they and their stores were numbered. -/
def dispatchInstruction (s : State) (x : Instr) : State :=
  if s.rob.occupancy < s.rob.size then
    { s with
      rob := s.rob.push (.dispatched s.program.length x)
      sta := s.sta ++ ((List.finRange numInstrDestinations).filter (fun i => x.destinationMemory i ≠ 0)).map
        (fun _ => s.program.length)
      program := s.program ++ [x] }
  else s

def RobEntry.stores (e : RobEntry) (address : Nat) : Bool :=
  (List.finRange numInstrDestinations).any (fun i => e.destinationMemory i ≠ 0 && e.destinationMemory i = address)

def memRawDependency (s : State) (prior current : Nat) (j : Fin numInstrSources) (q : Nat) : State :=
  if (s.rob.entry prior).stores ((s.rob.entry current).sourceMemory j) then
    let s := s.modifyRob prior (fun e =>
      { e with memoryInstrsDependOnMe := insert current e.memoryInstrsDependOnMe, isProducer := true })
    s.modifyLq q (fun e => { e with producerId := some (s.rob.entry prior).instrId })
  else s

def checkPrior (current : Nat) (j : Fin numInstrSources) (q : Nat) (s : State) (prior : Nat) : State :=
  if (s.lq q).producerId = none then memRawDependency s prior current j q else s

/-- A load that is done: its instruction waits for one operand less, its slot is free. -/
def releaseLoad (s : State) (q : Nat) (releasedBy : Option (Nat × Nat)) : State :=
  let e := s.lq q
  let s := s.modifyRob e.robIndex (fun r => { r with numMemOps := r.numMemOps - 1 })
  { s with
    lq := Function.update s.lq q .empty
    lqOccupancy := s.lqOccupancy - 1
    done := s.done ++ [⟨e.instrId, .inl e.dataIndex, e.virtualAddress, e.producerId, releasedBy⟩] }

/-- `none` is the failed assertion that no operand is counted twice. -/
def forward (s : State) (q : Nat) (store : LsqEntry) : Option State :=
  let t := releaseLoad s q (some (store.instrId, store.virtualAddress))
  if (t.rob.entry (s.lq q).robIndex).numMemOps < 0 then none else some t

/-- The store queue entry of the producer with the address of the load. A younger store with that
address, of which the load takes nothing, only has the load go to the cache. -/
def forwardingIndex (s : State) (current q : Nat) : Option Nat :=
  (List.range s.sq.size).find? (fun i =>
    (s.sq.entry i).virtualAddress ≠ 0 ∧ (s.sq.entry i).virtualAddress = (s.lq q).virtualAddress ∧
      current ≠ s.rob.head ∧ (s.lq q).producerId = some (s.sq.entry i).instrId)

def forwardFromQueue (s : State) (current q : Nat) : Option State :=
  match forwardingIndex s current q with
  | none => some s
  | some i => if (s.sq.entry i).fetched then forward s q (s.sq.entry i) else some s

def insertLoad (s : State) (current : Nat) (j : Fin numInstrSources) (q : Nat) : State :=
  let s := s.modifyRob current (fun e => { e with lqIndex := Function.update e.lqIndex j (some q) })
  let s := s.modifyLq q (fun e =>
    { e with
      instrId := (s.rob.entry current).instrId
      virtualAddress := (s.rob.entry current).sourceMemory j
      dataIndex := j
      robIndex := current })
  { s with lqOccupancy := s.lqOccupancy + 1 }

def finishAdding (s : State) (current : Nat) (j : Fin numInstrSources) (q : Nat) : State :=
  let s := s.modifyRob current (fun e => { e with sourceAdded := Function.update e.sourceAdded j true })
  if (s.lq q).virtualAddress ≠ 0 ∧ (s.lq q).producerId = none then { s with loadsToReturn := s.loadsToReturn ++ [q] }
  else s

/-- `none` is the failed assertion that a slot of the load queue is free. -/
def addLoadQueue (s : State) (current : Nat) (j : Fin numInstrSources) : Option State :=
  match (List.range s.lqSize).find? (fun i => (s.lq i).virtualAddress = 0) with
  | none => none
  | some q =>
    let s := insertLoad s current j q
    let s := (backward s.rob current).foldl (checkPrior current j q) s
    (forwardFromQueue s current q).map (fun s => finishAdding s current j q)

/-- `none` is the failed assertion that the slot at the tail of the store queue is free. -/
def addStoreQueue (s : State) (current : Nat) (i : Fin numInstrDestinations) : Option State :=
  if (s.sq.entry s.sq.tail).virtualAddress ≠ 0 then none
  else
    let q := s.sq.tail
    let e := s.rob.entry current
    let s := s.modifyRob current (fun e => { e with sqIndex := Function.update e.sqIndex i (some q) })
    let entry : LsqEntry :=
      { LsqEntry.empty with
        instrId := e.instrId
        virtualAddress := e.destinationMemory i
        dataIndex := i
        robIndex := current }
    let s := { s with sq := s.sq.push entry }
    let s := s.modifyRob current (fun e => { e with destinationAdded := Function.update e.destinationAdded i true })
    some { s with sta := s.sta.tail, storesToExecute := s.storesToExecute ++ [q] }

def checkLoad (current : Nat) (s : State) (j : Fin numInstrSources) : Option State :=
  if (s.rob.entry current).sourceMemory j ≠ 0 ∧ (s.rob.entry current).sourceAdded j = false ∧ s.lqOccupancy < s.lqSize then
    addLoadQueue s current j
  else some s

def checkStore (current : Nat) (s : State) (i : Fin numInstrDestinations) : Option State :=
  if (s.rob.entry current).destinationMemory i ≠ 0 ∧ (s.rob.entry current).destinationAdded i = false ∧
      s.sq.occupancy < s.sq.size ∧ s.sta.head? = some (s.rob.entry current).instrId then
    addStoreQueue s current i
  else some s

def checkAndAddLsq (s : State) (current : Nat) : Option State :=
  ((List.finRange numInstrSources).foldlM (checkLoad current) s).bind (fun s =>
    (List.finRange numInstrDestinations).foldlM (checkStore current) s)

def RobEntry.available (e : RobEntry) : Bool :=
  (List.finRange numInstrSources).all (fun j => e.sourceMemory j = 0 || e.sourceAdded j) &&
    (List.finRange numInstrDestinations).all (fun i => e.destinationMemory i = 0 || e.destinationAdded i)

def doMemoryScheduling (s : State) (current : Nat) : Option State :=
  (checkAndAddLsq s current).map (fun s =>
    if (s.rob.entry current).available then
      s.modifyRob current (fun e =>
        { e with scheduled := .completed, executed := if e.executed = .idle then .inflight else e.executed })
    else s)

/-- One source of one dependent of the store in slot `q`. -/
def resolveLoad (producer q dependent : Nat) (s : State) (j : Fin numInstrSources) : Option State :=
  let e := s.rob.entry dependent
  let store := s.sq.entry q
  if e.sourceMemory j ≠ 0 ∧ e.sourceAdded j = true ∧ e.sourceMemory j = store.virtualAddress then
    match e.lqIndex j with
    | none => none
    | some l =>
      if s.lqSize ≤ l then none
      else if (s.lq l).producerId ≠ some store.instrId then none
      else (forward s l store).map (fun s =>
        if j.val = numInstrSources - 1 then
          s.modifyRob producer (fun r => { r with memoryInstrsDependOnMe := insert dependent r.memoryInstrsDependOnMe })
        else s)
  else some s

def executeStore (s : State) (producer q : Nat) (i : Fin numInstrDestinations) : Option State :=
  let s := s.modifySq q (fun e => { e with fetched := true })
  let s := s.modifyRob producer (fun e => { e with numMemOps := e.numMemOps - 1 })
  let record : Done := ⟨(s.sq.entry q).instrId, .inr i, (s.sq.entry q).virtualAddress, none, none⟩
  let s := { s with done := s.done ++ [record] }
  if (s.rob.entry producer).numMemOps < 0 then none
  else if (s.rob.entry producer).isProducer then
    ((s.rob.entry producer).memoryInstrsDependOnMe.sort (fun a b => a ≤ b)).foldlM
      (fun s dependent => (List.finRange numInstrSources).foldlM (resolveLoad producer q dependent) s) s
  else some s

def completeExecution (s : State) (i : Nat) : State :=
  if (s.rob.entry i).isMemory = false ∨ (s.rob.entry i).numMemOps = 0 then
    if (s.rob.entry i).executed = .inflight then s.modifyRob i (fun e => { e with executed := .completed }) else s
  else s

/-- The stores of the instruction at the head, as far as the write queue has room. -/
def writeStores (s : State) : List (Fin numInstrDestinations) → Nat → State × Bool
  | [], _ => (s, true)
  | i :: rest, room =>
    if (s.rob.entry s.rob.head).destinationMemory i = 0 then writeStores s rest room
    else
      match room with
      | 0 => (s, false)
      | room + 1 => writeStores (s.modifyRob s.rob.head (fun e =>
          { e with destinationMemory := Function.update e.destinationMemory i 0 })) rest room

def releaseStore (s : State) (i : Fin numInstrDestinations) : State :=
  match (s.rob.entry s.rob.head).sqIndex i with
  | none => s
  | some q => { s with sq := s.sq.popAt .empty q }

def retireRob (s : State) (room : Nat) : State :=
  if (s.rob.entry s.rob.head).executed = .completed then
    match writeStores s (List.finRange numInstrDestinations) room with
    | (s, false) => s
    | (s, true) =>
      let s := (List.finRange numInstrDestinations).foldl releaseStore s
      { s with rob := s.rob.popAt .empty s.rob.head }
  else s

/-- The turns of the pipeline's loops. An instruction is named by the number of those ahead of it, a
store or a load on its way through the caches by its place in their list. The register
dependencies and the clock only decide which turn comes when. -/
inductive Event
  | dispatch (x : Instr)
  | schedule (a : Nat)
  | execute (a : Nat)
  | scheduleMemory (a : Nat)
  | executeStore (n : Nat)
  | returnLoad (n : Nat)
  | complete (a : Nat)
  | retire (room : Nat)

/-- `none` is a failed assertion. -/
def step (s : State) : Event → Option State
  | .dispatch x => some (dispatchInstruction s x)
  | .schedule a =>
    if a < s.rob.occupancy ∧ (s.rob.entry (s.rob.slot a)).scheduled = .idle then
      some (s.modifyRob (s.rob.slot a) (fun e => { e with scheduled := if e.isMemory then .inflight else .completed }))
    else some s
  | .execute a =>
    if a < s.rob.occupancy ∧ (s.rob.entry (s.rob.slot a)).isMemory = false ∧
        (s.rob.entry (s.rob.slot a)).scheduled = .completed ∧ (s.rob.entry (s.rob.slot a)).executed = .idle then
      some (s.modifyRob (s.rob.slot a) (fun e => { e with executed := .inflight }))
    else some s
  | .scheduleMemory a =>
    if a < s.rob.occupancy ∧ (s.rob.entry (s.rob.slot a)).isMemory = true ∧
        (s.rob.entry (s.rob.slot a)).scheduled = .inflight then
      doMemoryScheduling s (s.rob.slot a)
    else some s
  | .executeStore n =>
    match s.storesToExecute[n]? with
    | none => some s
    | some q => executeStore { s with storesToExecute := s.storesToExecute.eraseIdx n }
        (s.sq.entry q).robIndex q (s.sq.entry q).dataIndex
  | .returnLoad n =>
    match s.loadsToReturn[n]? with
    | none => some s
    | some q => some (releaseLoad { s with loadsToReturn := s.loadsToReturn.eraseIdx n } q none)
  | .complete a => if a < s.rob.occupancy then some (completeExecution s (s.rob.slot a)) else some s
  | .retire room => some (retireRob s room)

end Thermometer.LoadStoreQueue
