import Mathlib.Algebra.Ring.Nat
import Mathlib.Order.Nat
import Thermometer.Lib.SortedMerge

namespace Thermometer.Packets

open Lib.SortedMerge

inductive RequestType
  | load
  | rfo
  | prefetch
  | writeback
  deriving DecidableEq, Repr

inductive Returned
  | none
  | inflight
  | completed
  deriving DecidableEq, Repr

/-- A request, with the producers in `R` that wait for its data. -/
structure Packet (R : Type) where
  fillLevel : Int := -1
  pfOriginLevel : Int := 0
  pfMetadata : Nat := 0
  returned : Returned := .none
  type : RequestType := .load
  lqIndexDependOnMe : List Nat := []
  sqIndexDependOnMe : List Nat := []
  instrDependOnMe : List Nat := []
  cpu : Nat := 1
  address : Nat := 0
  fullAddr : Nat := 0
  vAddress : Nat := 0
  fullVAddr : Nat := 0
  data : Nat := 0
  instrId : Nat := 0
  ip : Nat := 0
  eventCycle : Nat := 2 ^ 64 - 1
  cycleEnqueued : Nat := 0
  toReturn : List R := []

structure Block where
  valid : Bool := false
  prefetch : Bool := false
  dirty : Bool := false
  used : Bool := false
  address : Nat := 0
  fullAddr : Nat := 0
  vAddress : Nat := 0
  fullVAddr : Nat := 0
  data : Nat := 0
  ip : Nat := 0
  cpu : Nat := 0
  instrId : Nat := 0
  lru : Nat := 2 ^ 32 - 1

variable {R : Type}

def Packet.toBlock (p : Packet R) : Block where
  valid := true
  prefetch := p.type == .prefetch
  address := p.address
  fullAddr := p.fullAddr
  vAddress := p.vAddress
  fullVAddr := p.fullVAddr
  data := p.data
  ip := p.ip
  cpu := p.cpu
  instrId := p.instrId

def isValid (p : Packet R) : Bool := p.address != 0

def eqAddr (address : Nat) (p : Packet R) : Bool := isValid p && p.address == address

def eqFullAddr (address : Nat) (p : Packet R) : Bool := isValid p && p.fullAddr == address

def replies (p : Packet R) : List (R × Packet R) := p.toReturn.map (fun r => (r, p))

/-- Returned requests first, by their cycle. Any packet counts as below one that is not returned. -/
def minFillIndex (lhs rhs : Packet R) : Bool :=
  rhs.returned != .completed || (lhs.returned == .completed && decide (lhs.eventCycle < rhs.eventCycle))

theorem eqAddr_iff {address : Nat} {p : Packet R} : eqAddr address p = true ↔ p.address ≠ 0 ∧ p.address = address := by
  simp [eqAddr, isValid]

variable [LinearOrder R]

def mergeRead (packet found : Packet R) : Packet R :=
  { found with
    lqIndexDependOnMe := merge found.lqIndexDependOnMe packet.lqIndexDependOnMe
    sqIndexDependOnMe := merge found.sqIndexDependOnMe packet.sqIndexDependOnMe
    instrDependOnMe := merge found.instrDependOnMe packet.instrDependOnMe
    toReturn := merge found.toReturn packet.toReturn }

def mergePrefetch (packet found : Packet R) : Packet R :=
  { found with
    fillLevel := min found.fillLevel packet.fillLevel
    toReturn := merge found.toReturn packet.toReturn }

/-- The merge of a miss into an entry that is in flight. A demand takes the place of a prefetch. -/
def mergeMiss (packet entry : Packet R) : Packet R :=
  let merged := { mergeRead packet entry with fillLevel := min entry.fillLevel packet.fillLevel }
  if entry.type = .prefetch ∧ packet.type ≠ .prefetch then
    { packet with returned := entry.returned, eventCycle := entry.eventCycle }
  else merged

@[simp] theorem mergeMiss_returned (packet entry : Packet R) : (mergeMiss packet entry).returned = entry.returned := by
  simp only [mergeMiss]
  split_ifs <;> rfl

@[simp] theorem mergeMiss_eventCycle (packet entry : Packet R) :
    (mergeMiss packet entry).eventCycle = entry.eventCycle := by
  simp only [mergeMiss]
  split_ifs <;> rfl

theorem mergeMiss_address {packet entry : Packet R} (h : packet.address = entry.address) :
    (mergeMiss packet entry).address = entry.address := by
  simp only [mergeMiss]
  split_ifs
  · exact h
  · rfl

end Thermometer.Packets
