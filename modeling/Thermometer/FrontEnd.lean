import Thermometer.QueueList
import Thermometer.ReorderBuffer

namespace Thermometer.FrontEnd

open QueueBuffer QueueDelay

open ReorderBuffer (Stage)

structure Config where
  ifetchSize : Nat
  decodeSize : Nat
  decodeLatency : Nat
  dispatchSize : Nat
  dispatchLatency : Nat
  fetchWidth : Nat
  decodeWidth : Nat
  dispatchWidth : Nat
  itlbMaxRead : Nat
  l1iMaxRead : Nat
  log2DibWindowSize : Nat
  dibSet : Nat
  dibWay : Nat
  fetchWidth_pos : 0 < fetchWidth
  dibSet_pos : 0 < dibSet
  dibWay_pos : 0 < dibWay

def log2PageSize : Nat := 12

def log2BlockSize : Nat := 6

structure Instr where
  instrId : Nat
  ip : Nat
  instructionPa : Nat
  translated : Stage
  fetched : Stage
  decoded : Stage

instance : Inhabited Instr := ⟨⟨0, 0, 0, .idle, .idle, .idle⟩⟩

structure DibEntry where
  valid : Bool
  lru : Nat
  addr : Nat

/-- A packet that a cache has put among its processed ones. The iterators in it are positions of the
fetch buffer, that may have been passed on to other instructions since. -/
structure Return where
  address : Nat
  data : Nat
  eventCycle : Nat
  instrDependOnMe : List Nat

/-- A packet that has entered the read queue of a cache. -/
structure Request where
  address : Nat
  fullAddr : Nat
  ip : Nat
  instrDependOnMe : List Nat

/-- `entered`, `traceRead` and the lists of requests and of lines are history: what has been put
into the reorder buffer, the addresses of all instructions read, what was asked of the caches and
which lines they returned. -/
structure State where
  currentCoreCycle : Nat
  warmupComplete : Bool
  instrsToReadThisCycle : Nat
  instrUniqueId : Nat
  ifetchBuffer : CircularBuffer Instr
  decodeBuffer : DelayQueue Instr
  dispatchBuffer : DelayQueue Instr
  dib : Nat → Nat → DibEntry
  itlbProcessed : List Return
  l1iProcessed : List Return
  entered : List Instr
  traceRead : List Nat
  itlbRequests : List Request
  l1iRequests : List Request
  linesReturned : List Nat

def State.initial (c : Config) : State where
  currentCoreCycle := 0
  warmupComplete := false
  instrsToReadThisCycle := 0
  instrUniqueId := 0
  ifetchBuffer := .initial c.ifetchSize
  decodeBuffer := .initial c.decodeSize c.decodeLatency
  dispatchBuffer := .initial c.dispatchSize c.dispatchLatency
  dib := fun _ _ => ⟨false, c.dibWay, 0⟩
  itlbProcessed := []
  l1iProcessed := []
  entered := []
  traceRead := []
  itlbRequests := []
  l1iRequests := []
  linesReturned := []

def window (c : Config) (ip : Nat) : Nat := ip >>> c.log2DibWindowSize

def dibIndex (c : Config) (ip : Nat) : Nat := window c ip % c.dibSet

def findWay (c : Config) (set : Nat → DibEntry) (ip : Nat) : Option Nat :=
  (List.range c.dibWay).find? (fun w => (set w).valid && window c (set w).addr == window c ip)

/-- The ways used no longer ago than `way` age, `way` itself among them, before it is the one used
last. -/
def useWay (c : Config) (set : Nat → DibEntry) (way : Nat) : Nat → DibEntry :=
  let aged : Nat → DibEntry := fun w =>
    if w < c.dibWay ∧ (set w).lru ≤ (set way).lru then { set w with lru := (set w).lru + 1 } else set w
  Function.update aged way { aged way with lru := 0 }

def dibComparator (x y : DibEntry) : Bool := !y.valid || (x.valid && decide (x.lru < y.lru))

def dibVictim (c : Config) (set : Nat → DibEntry) : Nat :=
  (List.range' 1 (c.dibWay - 1)).foldl (fun l w => if dibComparator (set l) (set w) then w else l) 0

/-- The first position from `first` on whose instruction has `p`, or the end. -/
def findIf (b : CircularBuffer Instr) (p : Instr → Bool) (first : Nat) : Nat :=
  ((List.range' first (b.tail - first)).find? (fun n => p (b.get n))).getD b.tail

def markDecoded (x : Instr) : Instr :=
  { x with translated := .completed, fetched := .completed, decoded := .completed }

/-- One turn of the scan for instructions that hit in the decoded instruction buffer. -/
def checkDib (c : Config) (s : State) (n : Nat) : State :=
  let ip := (s.ifetchBuffer.get n).ip
  match findWay c (s.dib (dibIndex c ip)) ip with
  | none => s
  | some way =>
    { s with
      ifetchBuffer := s.ifetchBuffer.modify markDecoded n
      dib := Function.update s.dib (dibIndex c ip) (useWay c (s.dib (dibIndex c ip)) way) }

def scanDib (c : Config) (s : State) : State :=
  (List.range' s.ifetchBuffer.head (min s.ifetchBuffer.occupancy c.fetchWidth)).foldl (checkDib c) s

def askTranslation (x : Instr) : Instr := { x with translated := .inflight }

def askLine (x : Instr) : Instr := { x with fetched := .inflight }

def requestTranslation (s : State) (accepts : Bool) : State :=
  let b := s.ifetchBuffer
  let first := findIf b (fun x => x.translated == .idle) b.head
  let last := findIf b (fun x => (b.get first).ip >>> log2PageSize != x.ip >>> log2PageSize) first
  if (last ≠ b.tail ∨ first = b.head) ∧ accepts = true then
    { s with
      ifetchBuffer := b.modifyFrom askTranslation (last - first) first
      itlbRequests := s.itlbRequests ++
        [⟨(b.get first).ip >>> log2PageSize, (b.get first).ip, (b.get first).ip,
          List.range' first (last - first)⟩] }
  else s

def requestLine (s : State) (accepts : Bool) : State :=
  let b := s.ifetchBuffer
  let first := findIf b (fun x => x.translated == .completed && x.fetched == .idle) b.head
  let last :=
    findIf b (fun x => (b.get first).instructionPa >>> log2BlockSize != x.instructionPa >>> log2BlockSize) first
  if (last ≠ b.tail ∨ first = b.head) ∧ accepts = true then
    { s with
      ifetchBuffer := b.modifyFrom askLine (last - first) first
      l1iRequests := s.l1iRequests ++
        [⟨(b.get first).instructionPa >>> log2BlockSize, (b.get first).instructionPa, (b.get first).ip,
          List.range' first (last - first)⟩] }
  else s

/-- `push_back_ready` or `push_back`. `none` is a failed assertion of the buffer. -/
def push (q : DelayQueue Instr) (ready : Bool) (x : Instr) : Option (DelayQueue Instr) :=
  if ready then q.pushBackReady x else q.pushBack x

def sendToDecode : Nat → State → Option State
  | 0, s => some s
  | bandwidth + 1, s =>
    let x := s.ifetchBuffer.front
    if s.ifetchBuffer.empty = false ∧ s.decodeBuffer.buf.full = false ∧ x.translated = .completed ∧
        x.fetched = .completed then do
      let q ← push s.decodeBuffer (!s.warmupComplete || x.decoded != .idle) x
      let b ← s.ifetchBuffer.popFront
      sendToDecode bandwidth { s with decodeBuffer := q, ifetchBuffer := b }
    else some s

def fetchInstruction (c : Config) (s : State) (itlbAccepts l1iAccepts : Bool) : Option State :=
  if s.ifetchBuffer.empty = true then some s
  else sendToDecode c.fetchWidth (requestLine (requestTranslation (scanDib c s) itlbAccepts) l1iAccepts)

/-- The way found or a victim becomes the one for the window of `ip`. -/
def updateDib (c : Config) (s : State) (ip : Nat) : State :=
  let set := s.dib (dibIndex c ip)
  let way := (findWay c set ip).getD (dibVictim c set)
  { s with
    dib := Function.update s.dib (dibIndex c ip)
      (Function.update (useWay c set way) way ⟨true, 0, ip⟩) }

def sendToDispatch (c : Config) : Nat → State → Option State
  | 0, s => some s
  | bandwidth + 1, s =>
    if s.decodeBuffer.hasReady = true ∧ s.dispatchBuffer.buf.full = false then do
      let x := s.decodeBuffer.buf.front
      let s := updateDib c s x.ip
      let q ← push s.dispatchBuffer (!s.warmupComplete) x
      let d ← s.decodeBuffer.popFront
      sendToDispatch c bandwidth { s with dispatchBuffer := q, decodeBuffer := d }
    else some s

def decodeInstruction (c : Config) (s : State) : Option State :=
  if s.decodeBuffer.buf.empty = true then some s
  else (sendToDispatch c c.decodeWidth s).map (fun s => { s with decodeBuffer := s.decodeBuffer.operate })

def sendToRob : Nat → Nat → State → Option State
  | 0, _, s => some s
  | _ + 1, 0, s => some s
  | bandwidth + 1, room + 1, s =>
    if s.dispatchBuffer.hasReady = true then do
      let d ← s.dispatchBuffer.popFront
      sendToRob bandwidth room
        { s with dispatchBuffer := d, entered := s.entered ++ [s.dispatchBuffer.buf.front] }
    else some s

def dispatchInstruction (c : Config) (s : State) (room : Nat) : Option State :=
  if s.dispatchBuffer.buf.empty = true then some s
  else (sendToRob c.dispatchWidth room s).map (fun s => { s with dispatchBuffer := s.dispatchBuffer.operate })

/-- The instructions of one packet, as far as the bandwidth goes: what is left of both. -/
def serveDependents (accepts : Instr → Bool) (mark : Instr → Instr) :
    List Nat → Nat → CircularBuffer Instr → CircularBuffer Instr × List Nat × Nat
  | [], bandwidth, b => (b, [], bandwidth)
  | n :: rest, 0, b => (b, n :: rest, 0)
  | n :: rest, bandwidth + 1, b =>
    if accepts (b.get n) then serveDependents accepts mark rest bandwidth (b.modify mark n)
    else serveDependents accepts mark rest (bandwidth + 1) b

/-- The packets that a cache has returned by now, at most as many as it can have read in a cycle. -/
def serveReturns (accepts : Return → Instr → Bool) (mark : Return → Instr → Instr) (cycle : Nat) :
    Nat → Nat → CircularBuffer Instr × List Return → CircularBuffer Instr × List Return
  | 0, _, s => s
  | _ + 1, _, (b, []) => (b, [])
  | toRead + 1, bandwidth, (b, p :: rest) =>
    if 0 < bandwidth ∧ p.eventCycle ≤ cycle then
      let served := serveDependents (accepts p) (mark p) p.instrDependOnMe bandwidth b
      serveReturns accepts mark cycle toRead served.2.2
        (served.1, if served.2.1 = [] then rest else { p with instrDependOnMe := served.2.1 } :: rest)
    else (b, p :: rest)

def samePage (p : Return) (x : Instr) : Bool := x.ip >>> log2PageSize == p.address && x.translated != .idle

def markTranslated (p : Return) (x : Instr) : Instr :=
  { x with
    translated := .completed
    instructionPa := p.data <<< log2PageSize ||| (x.ip &&& (1 <<< log2PageSize - 1)) }

def sameLine (p : Return) (x : Instr) : Bool :=
  x.instructionPa >>> log2BlockSize == p.address && x.fetched != .idle && x.translated == .completed

def markFetched (_ : Return) (x : Instr) : Instr := { x with fetched := .completed }

/-- The part of it that is about instruction memory. -/
def handleMemoryReturn (c : Config) (s : State) : State :=
  let t := serveReturns samePage markTranslated s.currentCoreCycle c.itlbMaxRead c.fetchWidth
    (s.ifetchBuffer, s.itlbProcessed)
  let l := serveReturns sameLine markFetched s.currentCoreCycle c.l1iMaxRead c.fetchWidth (t.1, s.l1iProcessed)
  { s with ifetchBuffer := l.1, itlbProcessed := t.2, l1iProcessed := l.2 }

/-- `ends` is whether the instruction ends the reading, as a taken or a mispredicted branch does. -/
def initInstruction (c : Config) (s : State) (ip : Nat) (ends : Bool) : Option State :=
  let toRead :=
    if s.instrsToReadThisCycle = 0 then min c.fetchWidth (c.ifetchSize - s.ifetchBuffer.occupancy)
    else s.instrsToReadThisCycle
  (s.ifetchBuffer.pushBack ⟨s.instrUniqueId, ip, 0, .idle, .idle, .idle⟩).map (fun b =>
    { s with
      instrsToReadThisCycle := if ends then 0 else toRead - 1
      instrUniqueId := s.instrUniqueId + 1
      ifetchBuffer := b
      traceRead := s.traceRead ++ [ip] })

def readTrace (c : Config) (s : State) (ip : Nat) (ends stalled : Bool) : Option State :=
  if s.instrsToReadThisCycle = 0 ∧ (s.ifetchBuffer.full = true ∨ stalled = true) then some s
  else initInstruction c s ip ends

/-- The turns of the stages, and what the caches do on their own. -/
inductive Event
  | cycle
  | finishWarmup
  | read (ip : Nat) (ends stalled : Bool)
  | fetch (itlbAccepts l1iAccepts : Bool)
  | decode
  | dispatch (room : Nat)
  | memoryReturn
  | itlbReturns (p : Return)
  | l1iReturns (p : Return)

def step (c : Config) (s : State) : Event → Option State
  | .cycle => some { s with currentCoreCycle := s.currentCoreCycle + 1 }
  | .finishWarmup => some { s with warmupComplete := true }
  | .read ip ends stalled => readTrace c s ip ends stalled
  | .fetch itlbAccepts l1iAccepts => fetchInstruction c s itlbAccepts l1iAccepts
  | .decode => decodeInstruction c s
  | .dispatch room => dispatchInstruction c s room
  | .memoryReturn => some (handleMemoryReturn c s)
  | .itlbReturns p => some { s with itlbProcessed := s.itlbProcessed ++ [p] }
  | .l1iReturns p =>
    some { s with l1iProcessed := s.l1iProcessed ++ [p], linesReturned := s.linesReturned ++ [p.address] }

end Thermometer.FrontEnd
