import Thermometer.Lib.SlotRings
import Thermometer.StoreFrame

namespace Thermometer.StorePipeline

open Lib.Rings Lib.Runs Lib.Windows Lib.Contents Lib.SlotRings StoreOrder StorePath

open LoadStoreQueue (Instr RobEntry LsqEntry numInstrDestinations addStoreQueue checkLoad)

open ReorderBuffer (Stage numInstrSources)

/-- What has become of a store: the write queue of the L1D has taken it, or its slot has been released. -/
inductive Passage
  | written (x : Store)
  | released (x : Store)
  deriving DecidableEq

/-- The tickets are in a ring, in which a free slot holds the largest number. `fetched` are the
instructions that have been read and not yet dispatched, `log` is history. -/
structure State where
  lsq : LoadStoreQueue.State
  sta : SlotRing Nat
  fetched : List Instr
  log : List Passage

def State.initial (robSize lqSize sqSize staSize : Nat) : State where
  lsq := .initial robSize lqSize sqSize
  sta := .initial staSize
  fetched := []
  log := []

def State.uniqueId (s : State) : Nat := s.lsq.program.length + s.fetched.length

/-- `none` is the failed assertion that only a full ring has a ticket at its tail. -/
def numberStore (n : Nat) (x : Instr) (sta : SlotRing Nat) (i : Fin numInstrDestinations) : Option (SlotRing Nat) :=
  if x.destinationMemory i = 0 then some sta
  else if sta.entry sta.tail ≠ none ∧ sta.head ≠ sta.tail then none
  else some (sta.push n)

def initInstruction (s : State) (x : Instr) : Option State :=
  ((List.finRange numInstrDestinations).foldlM (numberStore s.uniqueId x) s.sta).map (fun sta =>
    { s with sta := sta, fetched := s.fetched ++ [x] })

def dispatchInstruction (s : State) : State :=
  match s.fetched with
  | [] => s
  | x :: rest =>
    if s.lsq.rob.occupancy < s.lsq.rob.size then
      { s with lsq := LoadStoreQueue.dispatchInstruction s.lsq x, fetched := rest }
    else s

/-- The ticket at the head of the ring lets a store into the store queue. -/
def checkStore (current : Nat) (s : State) (i : Fin numInstrDestinations) : Option State :=
  if (s.lsq.rob.entry current).destinationMemory i ≠ 0 ∧ (s.lsq.rob.entry current).destinationAdded i = false ∧
      s.lsq.sq.occupancy < s.lsq.sq.size ∧ s.sta.entry s.sta.head = some (s.lsq.rob.entry current).instrId then
    (addStoreQueue s.lsq current i).map (fun lsq => { s with lsq := lsq, sta := s.sta.pop })
  else some s

def checkAndAddLsq (s : State) (current : Nat) : Option State :=
  ((List.finRange numInstrSources).foldlM (checkLoad current) s.lsq).bind (fun lsq =>
    (List.finRange numInstrDestinations).foldlM (checkStore current) { s with lsq := lsq })

def doMemoryScheduling (s : State) (current : Nat) : Option State :=
  (checkAndAddLsq s current).map (fun s =>
    if (s.lsq.rob.entry current).available then
      { s with
        lsq := s.lsq.modifyRob current (fun e =>
          { e with scheduled := .completed, executed := if e.executed = .idle then .inflight else e.executed }) }
    else s)

/-- The write queue refuses after it has taken `room` stores. `none` is a store without a slot. -/
def writeStores (s : State) : List (Fin numInstrDestinations) → Nat → Option (State × Bool)
  | [], _ => some (s, true)
  | i :: rest, room =>
    if (s.lsq.rob.entry s.lsq.rob.head).destinationMemory i = 0 then writeStores s rest room
    else
      match (s.lsq.rob.entry s.lsq.rob.head).sqIndex i, room with
      | none, _ => none
      | some _, 0 => some (s, false)
      | some q, room + 1 =>
        writeStores
          { s with
            lsq := s.lsq.modifyRob s.lsq.rob.head (fun e =>
              { e with destinationMemory := Function.update e.destinationMemory i 0 })
            log := s.log ++ [.written (storeOf (s.lsq.sq.entry q))] } rest room

def releaseStore (s : State) (i : Fin numInstrDestinations) : State :=
  match (s.lsq.rob.entry s.lsq.rob.head).sqIndex i with
  | none => s
  | some q =>
    { s with lsq := LoadStoreQueue.releaseStore s.lsq i, log := s.log ++ [.released (storeOf (s.lsq.sq.entry q))] }

def releaseRob (s : State) : State :=
  let s := (List.finRange numInstrDestinations).foldl releaseStore s
  { s with lsq := { s.lsq with rob := s.lsq.rob.popAt .empty s.lsq.rob.head } }

def retireRob (s : State) (room : Nat) : Option State :=
  if (s.lsq.rob.entry s.lsq.rob.head).executed = .completed then
    (writeStores s (List.finRange numInstrDestinations) room).map (fun (s, done) => if done then releaseRob s else s)
  else some s

inductive Event
  | init (x : Instr)
  | dispatch
  | schedule (a : Nat)
  | execute (a : Nat)
  | scheduleMemory (a : Nat)
  | executeStore (n : Nat)
  | returnLoad (n : Nat)
  | complete (a : Nat)
  | retire (room : Nat)

def State.turn (s : State) (e : LoadStoreQueue.Event) : Option State :=
  (LoadStoreQueue.step s.lsq e).map (fun lsq => { s with lsq := lsq })

/-- `none` is a failed assertion. -/
def step (s : State) : Event → Option State
  | .init x => initInstruction s x
  | .dispatch => some (dispatchInstruction s)
  | .schedule a => s.turn (.schedule a)
  | .execute a => s.turn (.execute a)
  | .scheduleMemory a =>
    if a < s.lsq.rob.occupancy ∧ (s.lsq.rob.entry (s.lsq.rob.slot a)).isMemory = true ∧
        (s.lsq.rob.entry (s.lsq.rob.slot a)).scheduled = .inflight then
      doMemoryScheduling s (s.lsq.rob.slot a)
    else some s
  | .executeStore n => s.turn (.executeStore n)
  | .returnLoad n => s.turn (.returnLoad n)
  | .complete a => s.turn (.complete a)
  | .retire room => retireRob s room

end Thermometer.StorePipeline
