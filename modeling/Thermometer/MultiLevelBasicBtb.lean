import Thermometer.Lib.Stamps
import Thermometer.MultiLevelDriver

namespace Thermometer.MultiLevelBasicBtb

open Trace Lib.Tables Lib.Stamps MultiLevelBtb MultiLevelCascade MultiLevelDriver

structure LRUBTBEntry extends BTBEntry where
  lru : Nat
  deriving DecidableEq, Repr

def LRUBTBEntry.new (ip target : Nat) (branchType : BranchType) : LRUBTBEntry := ⟨.new ip target branchType, 0⟩

instance : BTBEntryType LRUBTBEntry := ⟨LRUBTBEntry.toBTBEntry, fun e b => ⟨b, e.lru⟩⟩

abbrev LRUBTB := BTB LRUBTBEntry

def lruMin (o : IterOrder) (b : LRUBTB) (ip : Nat) : Option Nat :=
  oldest LRUBTBEntry.lru (b.tableOf ip) ((iterate o (b.tableOf ip)).map Prod.fst)

def update (o : IterOrder) (b : LRUBTB) (ip : Nat) : Option LRUBTB :=
  if ip ∈ b.tableOf ip then
    let max := maxStamp LRUBTBEntry.lru o (b.tableOf ip)
    some (b.modify ip (fun e => { e with lru := max + 1 }))
  else none

/-- The end of an insertion, which asserts that there is room. -/
def place (o : IterOrder) (b : LRUBTB) (ip target : Nat) (branchType : BranchType) : Option LRUBTB :=
  if size (b.tableOf ip) < b.totalWays then update o (b.emplace ip (.new ip target branchType)) ip else none

def insert (o : IterOrder) (b : LRUBTB) (ip target : Nat) (branchType : BranchType) : Option (LRUBTB × BTBEntry) :=
  if b.totalWays ≤ size (b.tableOf ip) then
    let w := (lruMin o b ip).getD 0
    (place o (b.erase ip w) ip target branchType).map (fun b' => (b', b.victimEntry ip w))
  else (place o b ip target branchType).map (fun b' => (b', .none))

instance : BTBType IterOrder LRUBTBEntry LRUBTB := ⟨id, fun _ b => b, insert, update⟩

/-- The levels of a hierarchy, given as latency, sets and ways. -/
def levels (levelInfo : List (Nat × Nat × Nat)) : List LRUBTB := levelInfo.map (fun a => .empty a.1 a.2.1 a.2.2)

def btbLevelInfo : List (Nat × Nat × Nat) := [(0, 16, 1), (1, 64, 1), (2, 64, 2), (3, 2048, 4)]

def initializeBtb (levelInfo : List (Nat × Nat × Nat)) : State LRUBTB :=
  MultiLevelDriver.initializeBtb (levels levelInfo)

def btbPrediction (s : State LRUBTB) (ip : Nat) (ty : BranchType) : State LRUBTB × (Nat × Bool) × Option Nat :=
  MultiLevelDriver.btbPrediction .plain s ip ty

def step (s : State LRUBTB) (c : (Nat → IterOrder) × Call) : Option (State LRUBTB) := MultiLevelDriver.step .plain s c

theorem initializeBtb_reach (levelInfo : List (Nat × Nat × Nat)) : Reach (initializeBtb levelInfo).multiLevelBtb := by
  apply Reach.start
  intro l hl set
  obtain ⟨a, -, rfl⟩ := List.mem_map.mp hl
  rfl

end Thermometer.MultiLevelBasicBtb
