import Thermometer.CacheMshr
import Thermometer.Lib.Runs

namespace Thermometer.CacheSystem

open Lib Runs Packets QueueList CacheModel

/-- Producers: caches, of which some have a lower level that is a cache, and buses. A first-level
data cache is no lower level. -/
structure Topology (R : Type) where
  isCache : R → Bool
  cacheType : R → CacheType
  lower : R → Option R
  lower_ne : ∀ r, lower r ≠ some r
  lower_not_l1d : ∀ r l, lower r = some l → cacheType l ≠ .l1d

/-- `memory` holds what the level below the last cache has accepted and not answered, and
`unmatched` the replies that found no entry. -/
structure State (P R : Type) where
  cache : R → Cache P R
  memory : List (Packet R)
  now : Nat
  warm : Bool
  unmatched : List (R × Packet R)

inductive MemoryAnswer
  | refused
  | forwarded (data : Nat)
  | accepted
  deriving DecidableEq

/-- What is outside the caches: the memory, the page table and the prefetchers. -/
structure Answers where
  memory : MemoryAnswer
  readFull : Bool
  prefetchFull : Bool
  writeFull : Bool
  ppage : Nat
  metadata : Nat

/-- Calls from outside, the rounds of `operate` with what comes before and after its loops, and
the steps of the outside. -/
inductive Event (R : Type)
  | addRq (r : R) (packet : Packet R)
  | addWq (r : R) (packet : Packet R)
  | addPq (r : R) (packet : Packet R)
  | prefetchLine (r : R) (ip baseAddr pfAddr : Nat) (pfFillLevel : Int) (prefetchMetadata : Nat)
  | vaPrefetchLine (r : R) (ip pfAddr : Nat) (pfFillLevel : Int) (prefetchMetadata : Nat)
  | beginWrites (r : R)
  | handleFill (r : R) (a : Answers)
  | handleWriteback (r : R) (a : Answers)
  | endWrites (r : R)
  | beginReads (r : R)
  | handleRead (r : R) (a : Answers)
  | vaTranslatePrefetches (r : R) (fullAddr : Nat)
  | handlePrefetch (r : R) (a : Answers)
  | endReads (r : R)
  | memoryReply (i data : Nat)
  | tick
  | warmUp

variable {P R : Type} [LinearOrder R]

def Topology.config (t : Topology R) (config : R → Config P R) (r : R) : Config P R :=
  { config r with self := r, cacheType := t.cacheType r }

def State.initial (t : Topology R) (config : R → Config P R) (policyState : R → P) : State P R where
  cache := fun r => .initial (t.config config r) (policyState r)
  memory := []
  now := 0
  warm := false
  unmatched := []

def State.set (s : State P R) (r : R) (c : Cache P R) : State P R := { s with cache := Function.update s.cache r c }

section Steps

variable (t : Topology R)

def outside (s : State P R) (r : R) (a : Answers) : Outside :=
  match t.lower r with
  | some l => ⟨(s.cache l).rq.full, (s.cache l).pq.full, (s.cache l).wq.full, a.ppage, a.metadata⟩
  | none => ⟨a.readFull, a.prefetchFull, a.writeFull, a.ppage, a.metadata⟩

def reply (s : State P R) (answer : R × Packet R) : State P R :=
  if t.isCache answer.1 then
    match (s.cache answer.1).returnData s.warm s.now answer.2 with
    | some c => s.set answer.1 c
    | none => { s with unmatched := s.unmatched ++ [answer] }
  else s

def deliver (s : State P R) (answers : List (R × Packet R)) : State P R := answers.foldl (reply t) s

def addBelow (s : State P R) (l : R) (packet : Packet R) (asPrefetch : Bool) : Option (Added P R) :=
  if asPrefetch then (s.cache l).addPq s.warm packet else (s.cache l).addRq s.warm packet

def send (s : State P R) (r : R) (packet : Packet R) (asPrefetch : Bool) (a : Answers) : Option (State P R) :=
  match t.lower r with
  | some l => (addBelow s l packet asPrefetch).map (fun added => deliver t (s.set l added.cache) added.replies)
  | none =>
      match a.memory with
      | .refused => some s
      | .forwarded data => some (deliver t s (replies { packet with data := data }))
      | .accepted => some { s with memory := s.memory ++ [packet] }

/-- `none` when the block that is written back is refused. -/
def writeBelow (s : State P R) (r : R) (writeback : Option (Packet R)) (a : Answers) : Option (State P R) :=
  match writeback with
  | none => some s
  | some packet =>
      match t.lower r with
      | none => if a.memory = .refused then none else some s
      | some l =>
          let added := (s.cache l).addWq s.warm packet
          if added.2 = -2 then none else some (s.set l added.1)

def release (s : State P R) (r : R) (entry : Option (Packet R)) : State P R :=
  match entry with
  | none => s
  | some e =>
      let answered := deliver t s (replies e)
      answered.set r ((answered.cache r).releaseMshr e.address)

def perform (s : State P R) (r : R) (a : Answers) : Round P R → Option (State P R)
  | .idle => some s
  | .done c answers => some (deliver t (s.set r c) answers)
  | .sent c packet asPrefetch => send t (s.set r c) r packet asPrefetch a
  | .walked c packet => some (reply t (s.set r c) (r, packet))
  | .filled c writeback entry =>
      match writeBelow t s r writeback a with
      | none => some s
      | some s' => some (release t (s'.set r c) r entry)

/-- A call from outside is for an address, and only buses wait for its reply. -/
def Outer (packet : Packet R) : Prop := packet.address ≠ 0 ∧ ∀ r ∈ packet.toReturn, t.isCache r = false

instance (packet : Packet R) : Decidable (Outer t packet) := by
  unfold Outer
  infer_instance

def added (s : State P R) (r : R) (result : Option (Added P R)) : Option (State P R) :=
  result.map (fun added => deliver t (s.set r added.cache) added.replies)

/-- `none` is a failed assertion, or not a call of the code. -/
def step (s : State P R) : Event R → Option (State P R)
  | .addRq r packet => if Outer t packet then added t s r ((s.cache r).addRq s.warm packet) else none
  | .addWq r packet => if Outer t packet then some (s.set r ((s.cache r).addWq s.warm packet).1) else none
  | .addPq r packet => if Outer t packet then added t s r ((s.cache r).addPq s.warm packet) else none
  | .prefetchLine r ip baseAddr pfAddr level metadata =>
      added t s r ((s.cache r).prefetchLine s.warm s.now ip baseAddr pfAddr level metadata)
  | .vaPrefetchLine r ip pfAddr level metadata => ((s.cache r).vaPrefetchLine ip pfAddr level metadata).map (s.set r)
  | .beginWrites r => some (s.set r (s.cache r).beginWrites)
  | .handleFill r a => ((s.cache r).handleFill (outside t s r a) s.now).bind (perform t s r a)
  | .handleWriteback r a => ((s.cache r).handleWriteback (outside t s r a) s.now).bind (perform t s r a)
  | .endWrites r => some (s.set r (s.cache r).endWrites)
  | .beginReads r => some (s.set r (s.cache r).beginReads)
  | .handleRead r a => perform t s r a ((s.cache r).handleRead (outside t s r a) s.now)
  | .vaTranslatePrefetches r fullAddr => added t s r ((s.cache r).vaTranslatePrefetches s.warm fullAddr)
  | .handlePrefetch r a => perform t s r a ((s.cache r).handlePrefetch (outside t s r a) s.now)
  | .endReads r => some (s.set r (s.cache r).endReads)
  | .memoryReply i data =>
      (s.memory[i]?).map (fun packet =>
        deliver t { s with memory := s.memory.eraseIdx i } (replies { packet with data := data }))
  | .tick => some { s with now := s.now + 1 }
  | .warmUp => some { s with warm := true }

end Steps

@[simp] theorem set_cache_self (s : State P R) (r : R) (c : Cache P R) : (s.set r c).cache r = c := Function.update_self _ _ _

theorem set_cache_of_ne (s : State P R) {r r' : R} (c : Cache P R) (h : r' ≠ r) : (s.set r c).cache r' = s.cache r' :=
  Function.update_of_ne h _ _

theorem set_set (s : State P R) (r : R) (c c' : Cache P R) : (s.set r c).set r c' = s.set r c' := by
  simp only [State.set, Function.update_idem]

@[simp] theorem set_warm (s : State P R) (r : R) (c : Cache P R) : (s.set r c).warm = s.warm := rfl

@[simp] theorem set_now (s : State P R) (r : R) (c : Cache P R) : (s.set r c).now = s.now := rfl

@[simp] theorem set_memory (s : State P R) (r : R) (c : Cache P R) : (s.set r c).memory = s.memory := rfl

end Thermometer.CacheSystem
