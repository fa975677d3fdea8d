import Mathlib.Logic.Function.Basic
import Thermometer.Lib.ListSort
import Thermometer.Packets
import Thermometer.QueueList

namespace Thermometer.CacheModel

open Lib Packets QueueList

inductive CacheType
  | itlb
  | dtlb
  | stlb
  | l1i
  | l1d
  | l2c
  | llc
  deriving DecidableEq, Repr

structure Access where
  cpu : Nat
  fullAddr : Nat
  ip : Nat
  type : RequestType
  hit : Bool

/-- `find_victim` and `update_replacement_state`: a policy has a state of its own in `P`, and may
change the recency of the blocks of a set. -/
structure Policy (P R : Type) where
  findVictim : P → Nat → (Nat → Block) → Packet R → Nat
  update : P → Nat → Nat → Access → (Nat → Nat) → P × (Nat → Nat)

structure Config (P R : Type) where
  self : R
  cacheType : CacheType
  fillLevel : Int
  cpu : Nat := 0
  numSet : Nat
  numWay : Nat
  wqSize : Nat
  rqSize : Nat
  pqSize : Nat
  mshrSize : Nat
  hitLatency : Nat
  fillLatency : Nat
  maxRead : Nat
  maxWrite : Nat
  hasLower : Bool := true
  logBlockSize : Nat := 6
  logPageSize : Nat := 12
  policy : Policy P R

def numCpus : Nat := 1

def vaPrefetchTranslationLatency : Nat := 2

structure Cache (P R : Type) where
  config : Config P R
  block : Nat → Nat → Block
  mshr : List (Packet R)
  rq : Pending (Packet R)
  pq : Pending (Packet R)
  vapq : Pending (Packet R)
  wq : Pending (Packet R)
  policyState : P
  readsAvailable : Nat
  writesAvailable : Nat

variable {P R : Type}

def Cache.initial (config : Config P R) (policyState : P) : Cache P R where
  config := config
  block := fun _ _ => {}
  mshr := List.replicate config.mshrSize {}
  rq := .initial config.rqSize config.hitLatency
  pq := .initial config.pqSize config.hitLatency
  vapq := .initial config.pqSize vaPrefetchTranslationLatency
  wq := .initial config.wqSize config.hitLatency
  policyState := policyState
  readsAvailable := 0
  writesAvailable := 0

def Cache.getSet (c : Cache P R) (address : Nat) : Nat := address % 2 ^ Nat.log2 c.config.numSet

def Cache.getWay (c : Cache P R) (address set : Nat) : Nat :=
  ((List.range c.config.numWay).find? (fun way => (c.block set way).valid && (c.block set way).address == address)).getD
    c.config.numWay

def Cache.updateBlock (c : Cache P R) (set way : Nat) (f : Block → Block) : Cache P R :=
  { c with block := Function.update c.block set (Function.update (c.block set) way (f (c.block set way))) }

def Cache.updateReplacementState (c : Cache P R) (packet : Packet R) (set way fullAddr : Nat) (hit : Bool) : Cache P R :=
  let new := c.config.policy.update c.policyState set way ⟨packet.cpu, fullAddr, packet.ip, packet.type, hit⟩
    (fun way => (c.block set way).lru)
  { c with
    policyState := new.1
    block := Function.update c.block set (fun way => { c.block set way with lru := new.2 way }) }

def Cache.findVictim (c : Cache P R) (packet : Packet R) (set : Nat) : Nat :=
  c.config.policy.findVictim c.policyState set (c.block set) packet

section Add

def push (warm : Bool) (q : Pending (Packet R)) (packet : Packet R) : Pending (Packet R) :=
  if warm then q.pushBack packet else q.pushBackReady packet

/-- A packet joins a queue: 1 if it is merged into one there, -2 if there is no out. -/
def enqueue (warm : Bool) (q : Pending (Packet R)) (packet : Packet R) (found : Packet R → Bool)
    (merge : Packet R → Packet R) : Pending (Packet R) × Int :=
  match q.entries.findIdx? found with
  | some i => (q.modify i merge, 1)
  | none => if q.full then (q, -2) else (push warm q packet, -1)

structure Added (P R : Type) where
  cache : Cache P R
  result : Int
  replies : List (R × Packet R)

def Cache.matchesWq (c : Cache P R) (packet : Packet R) : Packet R → Bool :=
  if c.config.cacheType = .l1d then eqFullAddr packet.fullAddr else eqAddr packet.address

def Cache.foundWq (c : Cache P R) (packet : Packet R) : Option (Packet R) := c.wq.entries.find? (c.matchesWq packet)

def Cache.addWq (c : Cache P R) (warm : Bool) (packet : Packet R) : Cache P R × Int :=
  let added := enqueue warm c.wq packet (c.matchesWq packet) id
  ({ c with wq := added.1 }, added.2)

variable [LinearOrder R]

/-- `none` is the failed assertion that the address is not zero. -/
def Cache.addRq (c : Cache P R) (warm : Bool) (packet : Packet R) : Option (Added P R) :=
  if packet.address = 0 then none
  else match c.foundWq packet with
    | some found => some ⟨c, -1, replies { packet with data := found.data }⟩
    | none =>
        let added := enqueue warm c.rq packet (eqAddr packet.address) (mergeRead packet)
        some ⟨{ c with rq := added.1 }, added.2, []⟩

def Cache.addPq (c : Cache P R) (warm : Bool) (packet : Packet R) : Option (Added P R) :=
  if packet.address = 0 then none
  else match c.foundWq packet with
    | some found => some ⟨c, -1, replies { packet with data := found.data }⟩
    | none =>
        let added := enqueue warm c.pq packet (eqAddr packet.address) (mergePrefetch packet)
        some ⟨{ c with pq := added.1 }, added.2, []⟩

def Cache.prefetchPacket (c : Cache P R) (now ip pfAddr : Nat) (pfFillLevel : Int) (prefetchMetadata : Nat) : Packet R where
  fillLevel := pfFillLevel
  pfOriginLevel := c.config.fillLevel
  pfMetadata := prefetchMetadata
  cpu := c.config.cpu
  address := pfAddr >>> c.config.logBlockSize
  fullAddr := pfAddr
  ip := ip
  type := .prefetch
  eventCycle := now

def Cache.prefetchLine (c : Cache P R) (warm : Bool) (now ip baseAddr pfAddr : Nat) (pfFillLevel : Int)
    (prefetchMetadata : Nat) : Option (Added P R) :=
  if c.pq.full = false ∧ baseAddr >>> c.config.logPageSize = pfAddr >>> c.config.logPageSize then
    c.addPq warm (c.prefetchPacket now ip pfAddr pfFillLevel prefetchMetadata)
  else some ⟨c, 0, []⟩

def Cache.vaPrefetchPacket (c : Cache P R) (ip pfAddr : Nat) (pfFillLevel : Int) (prefetchMetadata : Nat) : Packet R where
  fillLevel := pfFillLevel
  pfOriginLevel := c.config.fillLevel
  pfMetadata := prefetchMetadata
  cpu := c.config.cpu
  vAddress := pfAddr >>> c.config.logBlockSize
  address := pfAddr >>> c.config.logBlockSize
  fullVAddr := pfAddr
  fullAddr := pfAddr
  ip := ip
  type := .prefetch
  eventCycle := 0
  toReturn := [c.config.self]

/-- `none` is the failed assertion that the address is not zero. -/
def Cache.vaPrefetchLine (c : Cache P R) (ip pfAddr : Nat) (pfFillLevel : Int) (prefetchMetadata : Nat) :
    Option (Cache P R) :=
  if pfAddr = 0 then none
  else if c.vapq.full then some c
  else if c.vapq.entries.any (eqAddr (pfAddr >>> c.config.logBlockSize)) then some c
  else some { c with vapq := c.vapq.pushBack (c.vaPrefetchPacket ip pfAddr pfFillLevel prefetchMetadata) }

/-- One translated prefetch moves on, at the physical address `fullAddr`. -/
def Cache.vaTranslatePrefetches (c : Cache P R) (warm : Bool) (fullAddr : Nat) : Option (Added P R) :=
  if c.pq.full = false ∧ c.vapq.hasReady = true then
    match c.vapq.front? with
    | none => some ⟨c, 0, []⟩
    | some front =>
        (c.addPq warm { front with fullAddr := fullAddr, address := fullAddr >>> c.config.logBlockSize }).map
          (fun added => { added with cache := { added.cache with vapq := added.cache.vapq.popFront } })
  else some ⟨c, 0, []⟩

end Add

section Mshr

def Cache.findMshr (c : Cache P R) (address : Nat) : Option Nat := c.mshr.findIdx? (eqAddr address)

def Cache.mshrFull (c : Cache P R) : Bool := c.mshr.all isValid

def Cache.completed (c : Cache P R) (warm : Bool) (now : Nat) (packet entry : Packet R) : Packet R :=
  { entry with
    returned := .completed
    data := packet.data
    pfMetadata := packet.pfMetadata
    eventCycle :=
      if warm then
        if entry.eventCycle < now then now + c.config.fillLatency else entry.eventCycle + c.config.fillLatency
      else now }

/-- `none` when there is no entry for the address. -/
def Cache.returnData (c : Cache P R) (warm : Bool) (now : Nat) (packet : Packet R) : Option (Cache P R) :=
  (c.findMshr packet.address).map (fun i =>
    { c with mshr := ListSort.sort minFillIndex (c.mshr.modify i (c.completed warm now packet)) })

def Cache.allocateMshr (c : Cache P R) (now : Nat) (packet : Packet R) : Cache P R :=
  match c.mshr.findIdx? (fun p => !isValid p) with
  | none => c
  | some i => { c with mshr := c.mshr.set i { packet with returned := .inflight, cycleEnqueued := now } }

/-- The cache once a miss has its entry, if it fills this level. -/
def Cache.allocated (c : Cache P R) (now : Nat) (packet : Packet R) : Cache P R :=
  if packet.fillLevel ≤ c.config.fillLevel then c.allocateMshr now packet else c

def Cache.releaseMshr (c : Cache P R) (address : Nat) : Cache P R :=
  match c.findMshr address with
  | none => c
  | some i => { c with mshr := ListSort.sort minFillIndex (c.mshr.set i {}) }

end Mshr

/-- What a cache asks for outside: which queues of the lower level have no room, the page table,
and the prefetcher at a fill. -/
structure Outside where
  readFull : Bool
  prefetchFull : Bool
  writeFull : Bool
  ppage : Nat
  metadata : Nat

/-- What one round of a loop of `operate` does: nothing (the loop ends), an access with its
replies, a miss sent to the lower level, a walk of the page table, or a fill with the block it
writes back. -/
inductive Round (P R : Type)
  | idle
  | done (c : Cache P R) (replies : List (R × Packet R))
  | sent (c : Cache P R) (packet : Packet R) (asPrefetch : Bool)
  | walked (c : Cache P R) (packet : Packet R)
  | filled (c : Cache P R) (writeback : Option (Packet R)) (entry : Option (Packet R))

/-- What an access does to its cache besides, once it has succeeded. -/
def Round.andThen (f : Cache P R → Cache P R) : Round P R → Round P R
  | .idle => .idle
  | .done c replies => .done (f c) replies
  | .sent c packet asPrefetch => .sent (f c) packet asPrefetch
  | .walked c packet => .walked (f c) packet
  | .filled c writeback entry => .filled (f c) writeback entry

def Cache.spendWrite (c : Cache P R) : Cache P R := { c with writesAvailable := c.writesAvailable - 1 }

def Cache.popWq (c : Cache P R) : Cache P R := { c with wq := c.wq.popFront, writesAvailable := c.writesAvailable - 1 }

def Cache.popRq (c : Cache P R) : Cache P R := { c with rq := c.rq.popFront, readsAvailable := c.readsAvailable - 1 }

def Cache.popPq (c : Cache P R) : Cache P R := { c with pq := c.pq.popFront, readsAvailable := c.readsAvailable - 1 }

section Rounds

def Cache.readlikeHit (c : Cache P R) (set way : Nat) (packet : Packet R) : Round P R :=
  let packet := { packet with data := (c.block set way).data }
  .done ((c.updateReplacementState packet set way (c.block set way).fullAddr true).updateBlock set way
    (fun b => { b with prefetch := false, used := true })) (replies packet)

/-- The block that a fill writes back. -/
def Cache.writebackPacket (c : Cache P R) (now : Nat) (packet : Packet R) (b : Block) : Packet R where
  fillLevel := 2 * c.config.fillLevel
  cpu := packet.cpu
  address := b.address
  fullAddr := b.fullAddr
  data := b.data
  instrId := packet.instrId
  ip := 0
  type := .writeback
  eventCycle := now

def Cache.fillBlock (c : Cache P R) (packet : Packet R) (b : Block) : Block :=
  { packet.toBlock with
    lru := b.lru
    dirty := packet.type == .writeback || (packet.type == .rfo && c.config.cacheType == .l1d) }

def Cache.evictingDirty (c : Cache P R) (set way : Nat) : Bool :=
  way != c.config.numWay && c.config.hasLower && (c.block set way).dirty

/-- The cache with the packet in its block, or only seen by the policy if it bypasses. -/
def Cache.install (c : Cache P R) (set way : Nat) (packet : Packet R) : Cache P R :=
  (if way = c.config.numWay then c else c.updateBlock set way (c.fillBlock packet)).updateReplacementState
    packet set way packet.fullAddr false

/-- `none` is the failed assertion that a writeback does not bypass. -/
def Cache.filllikeMiss (c : Cache P R) (out : Outside) (now set way : Nat) (packet : Packet R) (entry : Option (Packet R)) :
    Option (Round P R) :=
  if packet.type = .writeback ∧ way = c.config.numWay then none
  else if c.evictingDirty set way && out.writeFull then some .idle
  else
    some (.filled (c.install set way packet)
      (if c.evictingDirty set way then some (c.writebackPacket now packet (c.block set way)) else none) entry)

def Cache.filledEntry (c : Cache P R) (out : Outside) (way : Nat) (entry : Packet R) : Packet R :=
  { entry with
    pfMetadata := if c.config.cacheType = .l2c ∨ c.config.cacheType = .llc then out.metadata else entry.pfMetadata
    toReturn := if way = c.config.numWay then [] else entry.toReturn }

/-- The entry at the front is filled, if it is due. -/
def Cache.handleFill (c : Cache P R) (out : Outside) (now : Nat) : Option (Round P R) :=
  if c.writesAvailable = 0 then some .idle
  else match c.mshr.head? with
    | none => some .idle
    | some entry =>
        if entry.returned ≠ .completed ∨ now < entry.eventCycle then some .idle
        else
          let set := c.getSet entry.address
          let way := c.findVictim entry set
          (c.filllikeMiss out now set way entry (some (c.filledEntry out way entry))).map
            (Round.andThen Cache.spendWrite)

def due (q : Pending (Packet R)) (now : Nat) : Option (Packet R) :=
  if q.hasReady then q.front?.filter (fun p => decide (p.cpu < numCpus) && decide (p.eventCycle ≤ now)) else none

variable [LinearOrder R]

def Cache.mergeMshr (c : Cache P R) (i : Nat) (packet : Packet R) : Cache P R :=
  { c with mshr := c.mshr.modify i (mergeMiss packet) }

/-- The request that goes to the lower level: the reply comes back here if this level is filled. -/
def Cache.lowerPacket (c : Cache P R) (packet : Packet R) : Packet R :=
  { packet with toReturn := if packet.fillLevel ≤ c.config.fillLevel then [c.config.self] else [] }

def Cache.lowerPrefetch (c : Cache P R) (packet : Packet R) : Bool :=
  packet.type == .prefetch && c.config.cacheType != .llc

def Cache.readlikeMiss (c : Cache P R) (out : Outside) (now : Nat) (packet : Packet R) : Round P R :=
  match c.findMshr packet.address with
  | some i => .done (c.mergeMshr i packet) []
  | none =>
      if c.mshrFull then .idle
      else if c.config.cacheType = .llc ∧ out.readFull = true then .idle
      else if c.config.cacheType ≠ .llc ∧ packet.type = .prefetch ∧ out.prefetchFull = true then .idle
      else
        if c.config.cacheType ≠ .stlb then
          .sent (c.allocated now packet) (c.lowerPacket packet) (c.lowerPrefetch packet)
        else .walked (c.allocated now packet) { packet with data := out.ppage, eventCycle := now }

def Cache.readlike (c : Cache P R) (out : Outside) (now : Nat) (packet : Packet R) : Round P R :=
  let set := c.getSet packet.address
  let way := c.getWay packet.address set
  if way < c.config.numWay then c.readlikeHit set way packet else c.readlikeMiss out now packet

def Cache.handleWriteback (c : Cache P R) (out : Outside) (now : Nat) : Option (Round P R) :=
  if c.writesAvailable = 0 then some .idle
  else match due c.wq now with
    | none => some .idle
    | some packet =>
        let set := c.getSet packet.address
        let way := c.getWay packet.address set
        let round : Option (Round P R) :=
          if way < c.config.numWay then
            some (.done ((c.updateReplacementState packet set way (c.block set way).fullAddr true).updateBlock set way
              (fun b => { b with dirty := true })) [])
          else if c.config.cacheType = .l1d then some (c.readlikeMiss out now packet)
          else c.filllikeMiss out now set (c.findVictim packet set) packet none
        round.map (Round.andThen Cache.popWq)

def Cache.handleRead (c : Cache P R) (out : Outside) (now : Nat) : Round P R :=
  if c.readsAvailable = 0 then .idle
  else match due c.rq now with
    | none => .idle
    | some packet => (c.readlike out now packet).andThen Cache.popRq

def Cache.handlePrefetch (c : Cache P R) (out : Outside) (now : Nat) : Round P R :=
  if c.readsAvailable = 0 then .idle
  else match due c.pq now with
    | none => .idle
    | some packet => (c.readlike out now packet).andThen Cache.popPq

end Rounds

section Operate

def Cache.beginWrites (c : Cache P R) : Cache P R := { c with writesAvailable := c.config.maxWrite }

def Cache.endWrites (c : Cache P R) : Cache P R := { c with wq := c.wq.operate }

def Cache.beginReads (c : Cache P R) : Cache P R := { c with readsAvailable := c.config.maxRead }

def Cache.endReads (c : Cache P R) : Cache P R :=
  { c with rq := c.rq.operate, pq := c.pq.operate, vapq := c.vapq.operate }

end Operate

section Lru

/-- `std::max_element` under `lru_comparator`: the last invalid way, else the first of the oldest. -/
def lruComparator (lhs rhs : Block) : Bool := !rhs.valid || (lhs.valid && decide (lhs.lru < rhs.lru))

def lruVictim (numWay : Nat) (blocks : Nat → Block) : Nat :=
  (List.range' 1 (numWay - 1)).foldl (fun largest way => if lruComparator (blocks largest) (blocks way) then way else largest) 0

def lruUpdate (numWay way : Nat) (access : Access) (lru : Nat → Nat) : Nat → Nat :=
  if access.hit = true ∧ access.type = .writeback then lru
  else Function.update (fun w => if w < numWay ∧ lru w ≤ lru way then (lru w + 1) % 2 ^ 32 else lru w) way 0

def lruPolicy (R : Type) (numWay : Nat) : Policy Unit R where
  findVictim := fun _ _ blocks _ => lruVictim numWay blocks
  update := fun _ _ way access lru => ((), lruUpdate numWay way access lru)

theorem lruVictim_lt {numWay : Nat} (h : 0 < numWay) (blocks : Nat → Block) : lruVictim numWay blocks < numWay := by
  have hfold : ∀ (ways : List Nat) (start : Nat), start < numWay → (∀ w ∈ ways, w < numWay) →
      ways.foldl (fun largest way => if lruComparator (blocks largest) (blocks way) then way else largest) start < numWay := by
    intro ways
    induction ways with
    | nil => exact fun start hstart _ => hstart
    | cons way ways ih =>
        intro start hstart hways
        apply ih
        · by_cases hcomp : lruComparator (blocks start) (blocks way) = true
          · simpa only [if_pos hcomp] using hways way List.mem_cons_self
          · simpa only [if_neg hcomp] using hstart
        · exact fun w hw => hways w (List.mem_cons_of_mem way hw)
  apply hfold _ 0 h
  intro w hw
  rw [List.mem_range'_1] at hw
  omega

end Lru

end Thermometer.CacheModel
