import Thermometer.Lib.Tables
import Thermometer.Lib.Runs
import Thermometer.HawkeyeOptgen

namespace Thermometer.HawkeyeReplacement

open Lib.Tables Lib.Runs HawkeyeOptgen

def basicBtbWays : Nat := 4
def maxRRPV : Nat := 7
def timerSize : Nat := 1024
def sampledCacheSize : Nat := 2800
def samplerWays : Nat := 8
def maxShct : Nat := 31
def shctSize : Nat := 2 ^ 11

inductive AccessType
  | load
  | rfo
  | prefetch
  | writeback
  deriving DecidableEq, Repr

structure AddrInfo where
  lastQuanta : Nat
  pc : Nat
  prefetched : Bool
  lru : Nat
  deriving DecidableEq, Repr

def crcStep (n : Nat) : Nat := if n % 2 = 1 then (n / 2) ^^^ 3988292384 else n / 2

def crc (blockAddress : Nat) : Nat := crcStep^[32] blockAddress

/-- The counters of a predictor. A counter that is not there stands at its middle. -/
abbrev PcPredictor := Table Nat

def PcPredictor.counter (p : PcPredictor) (pc : Nat) : Nat := (p.lookup (crc pc % shctSize)).getD ((1 + maxShct) / 2)

def PcPredictor.increment (p : PcPredictor) (pc : Nat) : PcPredictor :=
  p.insert (crc pc % shctSize) (if p.counter pc < maxShct then p.counter pc + 1 else maxShct)

def PcPredictor.decrement (p : PcPredictor) (pc : Nat) : PcPredictor :=
  p.insert (crc pc % shctSize) (if p.counter pc ≠ 0 then p.counter pc - 1 else 0)

def PcPredictor.getPrediction (p : PcPredictor) (pc : Nat) : Bool := ¬p.counter pc < (maxShct + 1) / 2

structure State where
  rrpv : Nat → Nat → Nat
  persetMytimer : Nat → Nat
  persetOptgen : Nat → OptGen
  signatures : Nat → Nat → Nat
  prefetched : Nat → Nat → Bool
  addrHistory : Nat → Table AddrInfo
  demandPredictor : PcPredictor
  prefetchPredictor : PcPredictor

def initReplacementState : State where
  rrpv _ _ := maxRRPV
  persetMytimer _ := 0
  persetOptgen _ := .init (basicBtbWays - 2)
  signatures _ _ := 0
  prefetched _ _ := false
  addrHistory _ := ∅
  demandPredictor := ∅
  prefetchPredictor := ∅

structure Access where
  set : Nat
  way : Nat
  paddr : Nat
  pc : Nat
  type : AccessType
  hit : Bool
  deriving DecidableEq, Repr

/-- Sixty-four of the sets are sampled. -/
def sampledSet (set : Nat) : Bool := set % 64 = set / 32 % 64

def Access.line (c : Access) : Nat := c.paddr / 64

/-- The divisor is the unbracketed `SAMPLED_CACHE_SIZE/SAMPLER_WAYS`. -/
def Access.samplerSet (c : Access) : Nat := c.line % sampledCacheSize / samplerWays

def Access.samplerTag (c : Access) : Nat := crc (c.line / 64) % 256

def State.entry (s : State) (c : Access) : Option AddrInfo := (s.addrHistory c.samplerSet).lookup c.samplerTag

/-- The victim is the oldest line, tag zero if there is none. -/
def replaceElement (t : Table AddrInfo) : Table AddrInfo :=
  t.erase ((((iterate .ascending t).find? (fun e => e.2.lru = samplerWays - 1)).map Prod.fst).getD 0)

/-- `none` is a stamp that would leave its range. -/
def updateLru (t : Table AddrInfo) (currLru : Nat) : Option (Table AddrInfo) :=
  if t.entries.all (fun e => e.2.lru < currLru → e.2.lru + 1 < samplerWays) then
    some (mapValues (fun e => if e.lru < currLru then { e with lru := e.lru + 1 } else e) t)
  else none

/-- The quantum of the next access to a set. -/
def State.currQuanta (s : State) (set : Nat) : Nat := s.persetMytimer set % optgenVectorSize

/-- The clock as it would read, had it not started again since `e` was seen. -/
def State.elapsed (s : State) (set : Nat) (e : AddrInfo) : Nat :=
  (if s.persetMytimer set < e.lastQuanta then s.persetMytimer set + timerSize else s.persetMytimer set) - e.lastQuanta

def State.kept (s : State) (set : Nat) (e : AddrInfo) : Bool :=
  !decide (optgenVectorSize < s.elapsed set e) &&
    (s.persetOptgen set).isCache (s.currQuanta set) (e.lastQuanta % optgenVectorSize)

def train (s : State) (e : AddrInfo) (positive : Bool) : State :=
  match e.prefetched, positive with
  | true, true => { s with prefetchPredictor := s.prefetchPredictor.increment e.pc }
  | true, false => { s with prefetchPredictor := s.prefetchPredictor.decrement e.pc }
  | false, true => { s with demandPredictor := s.demandPredictor.increment e.pc }
  | false, false => { s with demandPredictor := s.demandPredictor.decrement e.pc }

def State.setOptgen (s : State) (set : Nat) (g : OptGen) : State :=
  { s with persetOptgen := Function.update s.persetOptgen set g }

def State.setHistory (s : State) (samplerSet : Nat) (t : Table AddrInfo) : State :=
  { s with addrHistory := Function.update s.addrHistory samplerSet t }

def demandHit (s : State) (c : Access) (e : AddrInfo) : Option State :=
  let g := s.persetOptgen c.set
  let last := e.lastQuanta % optgenVectorSize
  let curr := s.currQuanta c.set
  let asked := if optgenVectorSize < s.elapsed c.set e then g else (g.shouldCache curr last).2
  let s := (train s e (s.kept c.set e)).setOptgen c.set (asked.addAccess curr)
  (updateLru (s.addrHistory c.samplerSet) e.lru).map (fun t =>
    s.setHistory c.samplerSet (modify t c.samplerTag (fun e => { e with prefetched := false })))

def firstAccess (s : State) (c : Access) : Option State :=
  let t := s.addrHistory c.samplerSet
  let t := if size t = samplerWays then replaceElement t else t
  if samplerWays ≤ size t then none
  else
    let g := s.persetOptgen c.set
    let curr := s.currQuanta c.set
    let s := s.setOptgen c.set (if c.type = .prefetch then g.addPrefetch curr else g.addAccess curr)
    (updateLru (t.insert c.samplerTag ⟨0, 0, c.type = .prefetch, 0⟩) (samplerWays - 1)).map
      (fun t => s.setHistory c.samplerSet t)

def prefetchHit (s : State) (c : Access) (e : AddrInfo) : Option State :=
  let g := s.persetOptgen c.set
  let last := e.lastQuanta % optgenVectorSize
  let curr := s.currQuanta c.set
  let recent := (s.persetMytimer c.set + 2 ^ 64 - e.lastQuanta) % 2 ^ 64 < 5
  let asked := if recent then (g.shouldCache curr last).2 else g
  let s := if recent ∧ g.isCache curr last then train s e true else s
  let s := s.setOptgen c.set (asked.addPrefetch curr)
  (updateLru (s.addrHistory c.samplerSet) e.lru).map (fun t =>
    s.setHistory c.samplerSet (modify t c.samplerTag (fun e => { e with prefetched := true })))

def sample (s : State) (c : Access) : Option State :=
  match s.entry c with
  | none => firstAccess s c
  | some e => if c.type ≠ .prefetch then demandHit s c e else prefetchHit s c e

def stampAccess (s : State) (c : Access) : State :=
  let now := s.persetMytimer c.set
  let t := modify (s.addrHistory c.samplerSet) c.samplerTag (fun e => { e with lastQuanta := now, pc := c.pc, lru := 0 })
  { s.setHistory c.samplerSet t with persetMytimer := Function.update s.persetMytimer c.set ((now + 1) % timerSize) }

def setRrpv (s : State) (set way value : Nat) : State :=
  { s with rrpv := Function.update s.rrpv set (Function.update (s.rrpv set) way value) }

/-- All friendly lines age, unless one of them is about to become averse. -/
def age (s : State) (set : Nat) : State :=
  if (List.range basicBtbWays).any (fun i => s.rrpv set i = maxRRPV - 1) then s
  else
    let aged := fun i => if i < basicBtbWays ∧ s.rrpv set i < maxRRPV - 1 then s.rrpv set i + 1 else s.rrpv set i
    { s with rrpv := Function.update s.rrpv set aged }

def placeLine (s : State) (c : Access) : State :=
  let predictor := if c.type = .prefetch then s.prefetchPredictor else s.demandPredictor
  let s := { s with signatures := Function.update s.signatures c.set (Function.update (s.signatures c.set) c.way c.pc) }
  if predictor.getPrediction c.pc then
    let s := setRrpv s c.set c.way 0
    setRrpv (if c.hit then s else age s c.set) c.set c.way 0
  else setRrpv s c.set c.way maxRRPV

def setPrefetched (s : State) (c : Access) : State :=
  let p := if c.type = .prefetch then s.prefetched c.set c.way || !c.hit else false
  { s with prefetched := Function.update s.prefetched c.set (Function.update (s.prefetched c.set) c.way p) }

def updateReplacementState (s : State) (c : Access) : Option State :=
  let s := setPrefetched s c
  if c.type = .writeback then some s
  else if sampledSet c.set then (sample s c).map (fun s => placeLine (stampAccess s c) c)
  else some (placeLine s c)

end Thermometer.HawkeyeReplacement
