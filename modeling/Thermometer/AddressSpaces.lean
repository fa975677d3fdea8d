import Thermometer.LoadStoreQueue

namespace Thermometer.AddressSpaces

open Lib.Runs Lib.Windows

open LoadStoreQueue (Instr Operand LsqEntry numInstrDestinations)

open ReorderBuffer (numInstrSources)

abbrev Asid := Fin 2 → UInt8

/-- What instructions and queue entries are made with. -/
def Asid.unset : Asid := fun _ => 255

structure CloudsuiteInstr where
  ip : UInt64
  isBranch : UInt8
  branchTaken : UInt8
  destinationRegisters : Fin numInstrDestinations → UInt8
  sourceRegisters : Fin numInstrSources → UInt8
  destinationMemory : Fin numInstrDestinations → Nat
  sourceMemory : Fin numInstrSources → Nat
  asid : Asid
  deriving DecidableEq

def CloudsuiteInstr.operands (x : CloudsuiteInstr) : Instr := ⟨x.sourceMemory, x.destinationMemory⟩

structure OooModelInstr where
  ip : UInt64
  isBranch : Bool
  branchTaken : Bool
  destinationRegisters : Fin numInstrDestinations → UInt8
  sourceRegisters : Fin numInstrSources → UInt8
  destinationMemory : Fin numInstrDestinations → Nat
  sourceMemory : Fin numInstrSources → Nat
  asid : Asid

def OooModelInstr.empty : OooModelInstr where
  ip := 0
  isBranch := false
  branchTaken := false
  destinationRegisters _ := 0
  sourceRegisters _ := 0
  destinationMemory _ := 0
  sourceMemory _ := 0
  asid := .unset

def OooModelInstr.operands (m : OooModelInstr) : Instr := ⟨m.sourceMemory, m.destinationMemory⟩

/-- The elements of `src` from `first` up to `last`, put at the front of `dest`. -/
def copy {α : Type} {n : Nat} (src : Fin n → α) (first last : Nat) (dest : Fin n → α) (i : Fin n) : α :=
  if h : first + i < last ∧ first + i < n then src ⟨first + i, h.2⟩ else dest i

/-- The last of the five ranges begins and ends at the beginning. -/
def OooModelInstr.ofCloudsuite (_cpu : UInt8) (instr : CloudsuiteInstr) : OooModelInstr where
  destinationRegisters := copy instr.destinationRegisters 0 numInstrDestinations OooModelInstr.empty.destinationRegisters
  destinationMemory := copy instr.destinationMemory 0 numInstrDestinations OooModelInstr.empty.destinationMemory
  sourceRegisters := copy instr.sourceRegisters 0 numInstrSources OooModelInstr.empty.sourceRegisters
  sourceMemory := copy instr.sourceMemory 0 numInstrSources OooModelInstr.empty.sourceMemory
  ip := instr.ip
  isBranch := instr.isBranch ≠ 0
  branchTaken := instr.branchTaken ≠ 0
  asid := copy instr.asid 0 0 OooModelInstr.empty.asid

abbrev log2PageSize : Nat := 12

def page (address : Nat) : Nat := address >>> log2PageSize

def requestAddress (knobCloudsuite : Bool) (virtualAddress : Nat) (asid : Asid) : Nat :=
  if knobCloudsuite then (virtualAddress >>> log2PageSize) <<< 9 ||| (asid 1).toNat
  else virtualAddress >>> log2PageSize

inductive RequestType
  | load
  | rfo
  deriving DecidableEq

/-- `index` is the slot of the load queue or of the store queue. -/
structure Packet where
  type : RequestType
  cpu : UInt8
  dataIndex : Fin 4
  index : Nat
  address : Nat
  fullAddr : Nat
  instrId : Nat
  robIndex : Nat
  asid : Asid

def Packet.operand (p : Packet) : Operand :=
  match p.type with
  | .load => .inl p.dataIndex
  | .rfo => .inr p.dataIndex

/-- The queues, with the address space of each of their entries. `rtl0` and `rts0` are the slots that
wait for the data TLB. `trace` and `requests` are history. -/
structure State where
  lsq : LoadStoreQueue.State
  robAsid : Nat → Asid
  lqAsid : Nat → Asid
  sqAsid : Nat → Asid
  rtl0 : List Nat
  rts0 : List Nat
  trace : List CloudsuiteInstr
  requests : List Packet

def State.initial (robSize lqSize sqSize : Nat) : State where
  lsq := .initial robSize lqSize sqSize
  robAsid _ := .unset
  lqAsid _ := .unset
  sqAsid _ := .unset
  rtl0 := []
  rts0 := []
  trace := []
  requests := []

/-- What is left of an address space in a queue entry after a turn that may have emptied it. -/
def remaining (e : LsqEntry) (asid : Asid) : Asid := if e.virtualAddress = 0 then .unset else asid

def State.over (s : State) (lsq : LoadStoreQueue.State) : State :=
  { s with
    lsq := lsq
    lqAsid := fun q => remaining (lsq.lq q) (s.lqAsid q)
    sqAsid := fun q => remaining (lsq.sq.entry q) (s.sqAsid q) }

def State.turn (s : State) (e : LoadStoreQueue.Event) : Option State := (LoadStoreQueue.step s.lsq e).map s.over

def dispatchInstruction (cpu : UInt8) (s : State) (x : CloudsuiteInstr) : State :=
  if s.lsq.rob.occupancy < s.lsq.rob.size then
    { s with
      lsq := LoadStoreQueue.dispatchInstruction s.lsq (OooModelInstr.ofCloudsuite cpu x).operands
      robAsid := Function.update s.robAsid s.lsq.rob.tail (OooModelInstr.ofCloudsuite cpu x).asid
      trace := s.trace ++ [x] }
  else s

/-- A load that has neither been released nor waits for a store goes to the data TLB. -/
def addLoadQueue (s : State) (current : Nat) (j : Fin numInstrSources) : Option State :=
  match (List.range s.lsq.lqSize).find? (fun i => (s.lsq.lq i).virtualAddress = 0) with
  | none => none
  | some q =>
    (LoadStoreQueue.addLoadQueue s.lsq current j).map (fun lsq =>
      let s := { s with lqAsid := Function.update s.lqAsid q (s.robAsid current) }.over lsq
      if (lsq.lq q).virtualAddress ≠ 0 ∧ (lsq.lq q).producerId = none then { s with rtl0 := s.rtl0 ++ [q] } else s)

def addStoreQueue (s : State) (current : Nat) (i : Fin numInstrDestinations) : Option State :=
  (LoadStoreQueue.addStoreQueue s.lsq current i).map (fun lsq =>
    let q := s.lsq.sq.tail
    let s := { s with sqAsid := Function.update s.sqAsid q (s.robAsid current) }.over lsq
    { s with rts0 := s.rts0 ++ [q] })

def checkLoad (current : Nat) (s : State) (j : Fin numInstrSources) : Option State :=
  if (s.lsq.rob.entry current).sourceMemory j ≠ 0 ∧ (s.lsq.rob.entry current).sourceAdded j = false ∧
      s.lsq.lqOccupancy < s.lsq.lqSize then
    addLoadQueue s current j
  else some s

def checkStore (current : Nat) (s : State) (i : Fin numInstrDestinations) : Option State :=
  if (s.lsq.rob.entry current).destinationMemory i ≠ 0 ∧ (s.lsq.rob.entry current).destinationAdded i = false ∧
      s.lsq.sq.occupancy < s.lsq.sq.size ∧ s.lsq.sta.head? = some (s.lsq.rob.entry current).instrId then
    addStoreQueue s current i
  else some s

def checkAndAddLsq (s : State) (current : Nat) : Option State :=
  ((List.finRange numInstrSources).foldlM (checkLoad current) s).bind (fun s =>
    (List.finRange numInstrDestinations).foldlM (checkStore current) s)

def doMemoryScheduling (s : State) (current : Nat) : Option State :=
  (checkAndAddLsq s current).map (fun s =>
    if (s.lsq.rob.entry current).available then
      s.over (s.lsq.modifyRob current (fun e =>
        { e with scheduled := .completed, executed := if e.executed = .idle then .inflight else e.executed }))
    else s)

section OperateLsq

variable (knobCloudsuite : Bool) (cpu : UInt8)

def dataPacket (type : RequestType) (q : Nat) (e : LsqEntry) (asid : Asid) : Packet where
  type := type
  cpu := cpu
  dataIndex := e.dataIndex
  index := q
  address := requestAddress knobCloudsuite e.virtualAddress asid
  fullAddr := e.virtualAddress
  instrId := e.instrId
  robIndex := e.robIndex
  asid := asid

/-- The store at the head of its queue is offered to the data TLB, and stays when it is refused. -/
def issueStore (s : State) (accepted : Bool) : State :=
  match s.rts0 with
  | [] => s
  | q :: rest =>
    { s with
      requests := s.requests ++ [dataPacket knobCloudsuite cpu .rfo q (s.lsq.sq.entry q) (s.sqAsid q)]
      rts0 := if accepted then rest else s.rts0 }

def issueLoad (s : State) (accepted : Bool) : State :=
  match s.rtl0 with
  | [] => s
  | q :: rest =>
    { s with
      requests := s.requests ++ [dataPacket knobCloudsuite cpu .load q (s.lsq.lq q) (s.lqAsid q)]
      rtl0 := if accepted then rest else s.rtl0 }

end OperateLsq

/-- A store that executes and a load that returns have come through the data TLB. -/
def passed (waiting underway : List Nat) (n : Nat) : Bool :=
  match underway[n]? with
  | none => false
  | some q => q ∉ waiting

def retireRob (s : State) (room : Nat) : State :=
  let head := s.lsq.rob.head
  let leaves := (s.lsq.rob.entry head).executed = .completed ∧
    (LoadStoreQueue.writeStores s.lsq (List.finRange numInstrDestinations) room).2
  { s with robAsid := if leaves then Function.update s.robAsid head .unset else s.robAsid }.over
    (LoadStoreQueue.retireRob s.lsq room)

inductive Event
  | dispatch (x : CloudsuiteInstr)
  | schedule (a : Nat)
  | execute (a : Nat)
  | scheduleMemory (a : Nat)
  | issueStore (accepted : Bool)
  | issueLoad (accepted : Bool)
  | executeStore (n : Nat)
  | returnLoad (n : Nat)
  | complete (a : Nat)
  | retire (room : Nat)

/-- `none` is a failed assertion. -/
def step (knobCloudsuite : Bool) (cpu : UInt8) (s : State) : Event → Option State
  | .dispatch x => some (dispatchInstruction cpu s x)
  | .schedule a => s.turn (.schedule a)
  | .execute a => s.turn (.execute a)
  | .scheduleMemory a =>
    if a < s.lsq.rob.occupancy ∧ (s.lsq.rob.entry (s.lsq.rob.slot a)).isMemory = true ∧
        (s.lsq.rob.entry (s.lsq.rob.slot a)).scheduled = .inflight then
      doMemoryScheduling s (s.lsq.rob.slot a)
    else some s
  | .issueStore accepted => some (issueStore knobCloudsuite cpu s accepted)
  | .issueLoad accepted => some (issueLoad knobCloudsuite cpu s accepted)
  | .executeStore n => if passed s.rts0 s.lsq.storesToExecute n then s.turn (.executeStore n) else some s
  | .returnLoad n => if passed s.rtl0 s.lsq.loadsToReturn n then s.turn (.returnLoad n) else some s
  | .complete a => s.turn (.complete a)
  | .retire room => some (retireRob s room)

end Thermometer.AddressSpaces
