import Thermometer.Lib.Cells
import Thermometer.Lib.Tables
import Thermometer.Trace

namespace Thermometer.ShotgunFootprint

open Trace Lib.Tables Lib.Cells

/-- The fields that the entry structs of all the variants have. -/
class BtbEntry (E : Type) where
  ipTag : E → Nat
  target : E → Nat

/-- A struct that carries the fields of `E`, alone or with others. -/
class Wraps (T : Type) (E : outParam Type) where
  wrap : E → T
  base : T → E
  mapBase : (E → E) → T → T
  base_mapBase : ∀ (f : E → E) (t : T), base (mapBase f t) = f (base t)

variable {E : Type}

abbrev Footprint (E : Type) := Table (List E)

def pushBack (footprint : Footprint E) (block : Nat) (access : E) : Footprint E :=
  footprint.insert block ((footprint.lookup block).getD [] ++ [access])

/-- An entry of the U-BTB: the fields of the variant's own entries in `base`, and the footprints. -/
structure FootprintEntry (E : Type) where
  base : E
  callFootprint : Footprint E
  returnFootprint : Footprint E

def FootprintEntry.new (base : E) : FootprintEntry E := ⟨base, ∅, ∅⟩

def FootprintEntry.footprint (e : FootprintEntry E) (call : Bool) : Footprint E :=
  if call then e.callFootprint else e.returnFootprint

def FootprintEntry.setFootprint (e : FootprintEntry E) (call : Bool) (footprint : Footprint E) : FootprintEntry E :=
  if call then { e with callFootprint := footprint } else { e with returnFootprint := footprint }

def FootprintEntry.mapBase (f : E → E) (e : FootprintEntry E) : FootprintEntry E := { e with base := f e.base }

instance : Wraps (FootprintEntry E) E := ⟨FootprintEntry.new, FootprintEntry.base, FootprintEntry.mapBase, fun _ _ => rfl⟩

def logBlockSize : Nat := 6

def inRange (accessBlock originalBlock : Nat) : Bool :=
  accessBlock ≤ (originalBlock + 6) % 2 ^ 64 && (originalBlock + (2 ^ 64 - 2)) % 2 ^ 64 ≤ accessBlock

section Entry

variable [BtbEntry E]

def originalBlock (updateCall : Bool) (e : FootprintEntry E) : Nat :=
  (if updateCall then BtbEntry.target e.base else BtbEntry.ipTag e.base) >>> logBlockSize

def cacheAccess (access : E) (updateCall : Bool) (e : FootprintEntry E) : FootprintEntry E :=
  let accessBlock := BtbEntry.ipTag access >>> logBlockSize
  if inRange accessBlock (originalBlock updateCall e) then
    e.setFootprint updateCall (pushBack (e.footprint updateCall) accessBlock access)
  else e

/-- The regions to prefetch, by the address the prefetcher looks them up with. -/
abbrev Regions := Nat → List Nat

def prefetchKey (prefetchCall : Bool) (e : FootprintEntry E) : Nat :=
  if prefetchCall then BtbEntry.ipTag e.base else BtbEntry.target e.base

/-- Every block of the footprint clears the region before it is added. -/
def publish (o : IterOrder) (footprint : Footprint E) (key : Nat) (region : Regions) : Regions :=
  (iterate o footprint).foldl (fun r a => Function.update r key (a.2.map BtbEntry.ipTag)) region

def operatePrefetch (o : IterOrder) (prefetchCall : Bool) (e : FootprintEntry E) (region : Regions) :
    FootprintEntry E × Regions :=
  (e.setFootprint prefetchCall ∅, publish o (e.footprint prefetchCall) (prefetchKey prefetchCall e) region)

end Entry

structure Shotgun (P : Type) where
  currentUnconditional : Option P
  branchType : BranchType

/-- The U-BTB with the pointer into it, and the regions it publishes. -/
structure Front (U P : Type) where
  unconditional : U
  shotgun : Shotgun P
  prefetchRegion : Regions

def Front.initial {P U : Type} (u : U) : Front U P := ⟨u, ⟨none, .other⟩, fun _ => []⟩

section Front

variable {U P : Type} [BtbEntry E] [Store U P (FootprintEntry E)]

def updateCurrent (o : IterOrder) (f : Front U P) (entry : Option P) (ty : BranchType) : Front U P :=
  let shotgun : Shotgun P := ⟨entry, ty⟩
  match entry with
  | none => { f with shotgun := shotgun }
  | some p =>
      match Store.get f.unconditional p with
      | none => { f with shotgun := shotgun }
      | some e =>
          let r := operatePrefetch o (ty != .ret) e f.prefetchRegion
          ⟨Store.modify f.unconditional p (fun _ => r.1), shotgun, r.2⟩

def addFootprint (f : Front U P) (access : E) : Front U P :=
  match f.shotgun.currentUnconditional with
  | none => f
  | some p =>
      { f with unconditional :=
          Store.modify f.unconditional p (cacheAccess access (f.shotgun.branchType != .ret)) }

end Front

end Thermometer.ShotgunFootprint
