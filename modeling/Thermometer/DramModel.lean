import Mathlib.Logic.Function.Basic
import Thermometer.Packets

namespace Thermometer.DramModel

open Packets

def maxCycle : Nat := 2 ^ 64 - 1

def maxRow : Nat := 2 ^ 32 - 1

/-- Which of the two queues of a channel. -/
inductive Kind
  | read
  | write
  deriving DecidableEq, Repr

/-- A packet in a queue. -/
structure Request (R : Type) extends Packet R where
  scheduled : Bool := false

structure PacketQueue (R : Type) where
  entry : Nat → Request R
  size : Nat
  head : Nat
  tail : Nat
  occupancy : Nat
  nextScheduleIndex : Nat
  nextProcessIndex : Nat
  nextScheduleCycle : Nat
  nextProcessCycle : Nat

structure BankRequest where
  cycleAvailable : Nat := 0
  openRow : Nat := maxRow
  working : Bool := false
  workingType : RequestType := .load
  rowBufferHit : Bool := false
  isWrite : Bool := false
  isRead : Bool := false
  requestIndex : Int := -1

structure Place where
  channel : Nat
  rank : Nat
  bank : Nat
  deriving DecidableEq

structure Config where
  channels : Nat
  ranks : Nat
  banks : Nat
  columns : Nat
  rows : Nat
  size : Kind → Nat
  tRP : Nat
  tRCD : Nat
  tCAS : Nat
  dbusReturnTime : Nat
  dbusTurnAroundTime : Nat

/-- The current cycle of each core, below the value that stands for no cycle. -/
structure Clock where
  cycle : Nat → Nat
  lt_max : ∀ cpu, cycle cpu < maxCycle

/-- `returned` is what has been handed to `return_data` so far. -/
structure Controller (R : Type) where
  queue : Kind → Nat → PacketQueue R
  bank : Place → BankRequest
  writeMode : Nat → Bool
  scheduled : Kind → Nat → Nat
  dbusCycleAvailable : Nat → Nat
  warm : Bool
  returned : List (R × Packet R)

variable {R : Type}

section Addresses

variable (config : Config)

def dramSlice (count shift address : Nat) : Nat :=
  if Nat.log2 count = 0 then 0 else ((address >>> shift) % 2 ^ 32) &&& (count - 1)

def dramGetChannel (address : Nat) : Nat := dramSlice config.channels 0 address

def dramGetBank (address : Nat) : Nat := dramSlice config.banks (Nat.log2 config.channels) address

def dramGetRank (address : Nat) : Nat :=
  dramSlice config.ranks (Nat.log2 config.columns + Nat.log2 config.banks + Nat.log2 config.channels) address

def dramGetRow (address : Nat) : Nat :=
  dramSlice config.rows
    (Nat.log2 config.ranks + Nat.log2 config.columns + Nat.log2 config.banks + Nat.log2 config.channels) address

def placeOf (address : Nat) : Place :=
  ⟨dramGetChannel config address, dramGetRank config address, dramGetBank config address⟩

end Addresses

section Queues

def PacketQueue.initial (R : Type) (size : Nat) : PacketQueue R where
  entry := fun _ => {}
  size := size
  head := 0
  tail := 0
  occupancy := 0
  nextScheduleIndex := 0
  nextProcessIndex := 0
  nextScheduleCycle := maxCycle
  nextProcessCycle := maxCycle

def PacketQueue.modify (q : PacketQueue R) (i : Nat) (f : Request R → Request R) : PacketQueue R :=
  { q with entry := Function.update q.entry i (f (q.entry i)) }

/-- The first of the earliest entries that satisfy `p`, and its cycle. -/
def PacketQueue.earliest (q : PacketQueue R) (p : Request R → Bool) : Option Nat × Nat :=
  (List.range q.size).foldl
    (fun best i => if p (q.entry i) && decide ((q.entry i).eventCycle < best.2) then (some i, (q.entry i).eventCycle) else best)
    (none, maxCycle)

def PacketQueue.updateScheduleCycle (q : PacketQueue R) : PacketQueue R :=
  let best := q.earliest (fun e => e.address != 0 && !e.scheduled)
  { q with nextScheduleCycle := best.2, nextScheduleIndex := best.1.getD q.size }

def PacketQueue.updateProcessCycle (q : PacketQueue R) : PacketQueue R :=
  let best := q.earliest (fun e => e.scheduled)
  { q with nextProcessCycle := best.2, nextProcessIndex := best.1.getD q.size }

/-- `none` is the failed assertion that the queue is not empty. -/
def PacketQueue.removeQueue (q : PacketQueue R) (i : Nat) : Option (PacketQueue R) :=
  if q.occupancy = 0 ∧ q.head = q.tail then none
  else some { q.modify i (fun _ => {}) with
    occupancy := q.occupancy - 1
    head := if q.size ≤ q.head + 1 then 0 else q.head + 1 }

def PacketQueue.checkDramQueue (q : PacketQueue R) (packet : Packet R) : Option Nat :=
  (List.range q.size).find? (fun i => (q.entry i).address == packet.address)

/-- A packet takes the first empty entry, if there is one. It arrives unscheduled. -/
def PacketQueue.insert (q : PacketQueue R) (packet : Packet R) : PacketQueue R :=
  match (List.range q.size).find? (fun i => (q.entry i).address == 0) with
  | none => q
  | some i => { q.modify i (fun _ => { packet with }) with occupancy := q.occupancy + 1 }

end Queues

namespace Controller

def initial (R : Type) (config : Config) : Controller R where
  queue := fun k _ => .initial R (config.size k)
  bank := fun _ => {}
  writeMode := fun _ => false
  scheduled := fun _ _ => 0
  dbusCycleAvailable := fun _ => 0
  warm := false
  returned := []

def mode (s : Controller R) (c : Nat) : Kind := if s.writeMode c then .write else .read

def setQueue (s : Controller R) (k : Kind) (c : Nat) (q : PacketQueue R) : Controller R :=
  { s with queue := Function.update s.queue k (Function.update (s.queue k) c q) }

def updateBank (s : Controller R) (p : Place) (f : BankRequest → BankRequest) : Controller R :=
  { s with bank := Function.update s.bank p (f (s.bank p)) }

def updateScheduled (s : Controller R) (k : Kind) (c : Nat) (f : Nat → Nat) : Controller R :=
  { s with scheduled := Function.update s.scheduled k (Function.update (s.scheduled k) c (f (s.scheduled k c))) }

def setWriteMode (s : Controller R) (c : Nat) (b : Bool) : Controller R :=
  { s with writeMode := Function.update s.writeMode c b }

def setDbus (s : Controller R) (c cycle : Nat) : Controller R :=
  { s with dbusCycleAvailable := Function.update s.dbusCycleAvailable c cycle }

def returnData (s : Controller R) (packet : Packet R) : Controller R :=
  { s with returned := s.returned ++ replies packet }

section Operate

variable (config : Config) (clock : Clock) (s : Controller R) (k : Kind) (c : Nat)

def canStart (e : Request R) : Bool := !e.scheduled && e.address != 0 && !(s.bank (placeOf config e.address)).working

def hitsOpenRow (e : Request R) : Bool :=
  s.canStart config e && (s.bank (placeOf config e.address)).openRow == dramGetRow config e.address

def availableAt (e : Request R) (rowBufferHit : Bool) : Nat :=
  clock.cycle e.cpu + if rowBufferHit then config.tCAS else config.tRP + config.tRCD + config.tCAS

def startBank (e : Request R) (i available : Nat) (rowBufferHit : Bool) (b : BankRequest) : BankRequest :=
  { b with
    working := true
    workingType := e.type
    cycleAvailable := available
    requestIndex := i
    rowBufferHit := rowBufferHit
    isWrite := k == .write
    isRead := k == .read
    openRow := dramGetRow config e.address }

def start (i : Nat) (rowBufferHit : Bool) : Controller R :=
  let q := s.queue k c
  let e := q.entry i
  let p := placeOf config e.address
  let available := availableAt config clock e rowBufferHit
  ((s.updateBank p (startBank config k e i available rowBufferHit)).updateScheduled k p.channel (· + 1)).setQueue k c
    (q.modify i (fun e => { e with scheduled := true, eventCycle := available })).updateScheduleCycle.updateProcessCycle

/-- The oldest hit of an open row starts, else the oldest request that can. -/
def schedule : Controller R :=
  match ((s.queue k c).earliest (s.hitsOpenRow config)).1 with
  | some i => s.start config clock k c i true
  | none =>
      match ((s.queue k c).earliest (s.canStart config)).1 with
      | some i => s.start config clock k c i false
      | none => s

def freeBank (b : BankRequest) : BankRequest :=
  { b with requestIndex := -1, rowBufferHit := false, working := false, isWrite := false, isRead := false }

def answer (packet : Packet R) : Controller R := if k = .write then s else s.returnData packet

/-- The data of a request go over the bus, and its bank is ready. `q` is the queue without it. -/
def transfer (i : Nat) (q : PacketQueue R) : Controller R :=
  let e := (s.queue k c).entry i
  let p := placeOf config e.address
  let dbus := clock.cycle e.cpu + config.dbusReturnTime
  ((((s.answer k { e.toPacket with eventCycle := dbus }).setDbus p.channel dbus).updateBank p freeBank).updateScheduled k p.channel
    (· - 1)).setQueue k c q.updateProcessCycle

/-- `none` is a failed assertion. -/
def process : Option (Controller R) :=
  let q := s.queue k c
  let i := q.nextProcessIndex
  if i = q.size then none
  else
    let e := q.entry i
    let p := placeOf config e.address
    let now := clock.cycle e.cpu
    if (s.bank p).requestIndex ≠ i then none
    else if (s.bank p).cycleAvailable ≤ now then
      if s.dbusCycleAvailable p.channel ≤ now then (q.removeQueue i).map (s.transfer config clock k c i)
      else some (s.updateBank p (fun b => { b with cycleAvailable := s.dbusCycleAvailable p.channel }))
    else some s

/-- The bank of a request that is taken back. Its row stays open if it has been opened by now. -/
def resetBank (e : Request R) (b : BankRequest) : BankRequest :=
  let now := clock.cycle e.cpu
  { b with
    openRow := if (b.cycleAvailable + 2 ^ 64 - config.tCAS) % 2 ^ 64 ≤ now then dramGetRow config e.address else maxRow
    requestIndex := -1
    rowBufferHit := false
    working := false
    cycleAvailable := now
    isWrite := false
    isRead := b.isWrite && b.isRead }

def uncount (b : BankRequest) : Controller R :=
  if b.isWrite then s.updateScheduled .write c (· - 1)
  else if b.isRead then s.updateScheduled .read c (· - 1)
  else s

def resetEntry (i : Nat) : Controller R :=
  let q := s.queue k c
  let e := q.entry i
  if e.scheduled then
    let p := placeOf config e.address
    ((s.uncount c (s.bank p)).updateBank p (resetBank config clock e)).setQueue k c
      (q.modify i (fun e => { e with scheduled := false, eventCycle := clock.cycle e.cpu }))
  else s

def updateCycles : Controller R :=
  (s.setQueue .read c (s.queue .read c).updateScheduleCycle.updateProcessCycle).setQueue .write c
    (s.queue .write c).updateScheduleCycle.updateProcessCycle

/-- `none` is the failed assertion that no request of the queue is counted as scheduled any more. -/
def resetRemainRequests : Option (Controller R) :=
  let reset := ((List.range (s.queue k c).size).foldl (fun s i => s.resetEntry config clock k c i) s).updateCycles c
  if reset.scheduled k c ≠ 0 then none else some reset

def highWatermark : Nat := (config.size .write * 7) >>> 3

def lowWatermark : Nat := (config.size .write * 3) >>> 2

def turnAround : Controller R := s.setDbus c (s.dbusCycleAvailable c + config.dbusTurnAroundTime)

def switchMode : Option (Controller R) :=
  let reads := (s.queue .read c).occupancy
  let writes := (s.queue .write c).occupancy
  if s.writeMode c = false ∧ (highWatermark config ≤ writes ∨ reads = 0 ∧ 0 < writes) then
    ((s.setWriteMode c true).resetRemainRequests config clock .read c).map (fun s => s.turnAround config c)
  else if s.writeMode c = true ∧ (writes = 0 ∨ reads ≠ 0 ∧ writes < lowWatermark config) then
    ((s.setWriteMode c false).resetRemainRequests config clock .write c).map (fun s => s.turnAround config c)
  else some s

/-- Whether the entry with this index and cycle is the next of a queue that is served, and its cycle has come. -/
def isNext (index cycle : Nat) : Bool :=
  s.mode c == k && decide (index < (s.queue k c).size) && decide (cycle ≤ clock.cycle ((s.queue k c).entry index).cpu)

def scheduleNext : Controller R :=
  if s.isNext clock k c (s.queue k c).nextScheduleIndex (s.queue k c).nextScheduleCycle then s.schedule config clock k c else s

def processNext : Option (Controller R) :=
  if s.isNext clock k c (s.queue k c).nextProcessIndex (s.queue k c).nextProcessCycle then s.process config clock k c
  else some s

def operateChannel : Option (Controller R) :=
  (s.switchMode config clock c).bind (fun s =>
    ((s.scheduleNext config clock .write c).processNext config clock .write c).bind (fun s =>
      (s.scheduleNext config clock .read c).processNext config clock .read c))

def operate : Option (Controller R) := (List.range config.channels).foldlM (fun s c => s.operateChannel config clock c) s

end Operate

section Add

variable (config : Config) (s : Controller R) (packet : Packet R)

/-- With the index that the request is merged at, or -1. -/
def addRq : Controller R × Int :=
  let c := dramGetChannel config packet.address
  if s.warm then
    match (s.queue .write c).checkDramQueue packet with
    | some i => (s.returnData { packet with data := ((s.queue .write c).entry i).data }, -1)
    | none =>
        match (s.queue .read c).checkDramQueue packet with
        | some i => (s, i)
        | none => (s.setQueue .read c ((s.queue .read c).insert packet).updateScheduleCycle, -1)
  else (s.returnData packet, -1)

def addWq : Controller R × Int :=
  let c := dramGetChannel config packet.address
  if s.warm then
    match (s.queue .write c).checkDramQueue packet with
    | some i => (s, i)
    | none => (s.setQueue .write c ((s.queue .write c).insert packet).updateScheduleCycle, -1)
  else (s, -1)

end Add

end Controller

inductive Event (R : Type)
  | addRq (packet : Packet R) (h : packet.address ≠ 0)
  | addWq (packet : Packet R) (h : packet.address ≠ 0)
  | operate (clock : Clock)
  | warmUp

/-- `none` is a failed assertion. -/
def step (config : Config) (s : Controller R) : Event R → Option (Controller R)
  | .addRq packet _ => some (s.addRq config packet).1
  | .addWq packet _ => some (s.addWq config packet).1
  | .operate clock => s.operate config clock
  | .warmUp => some { s with warm := true }

end Thermometer.DramModel
