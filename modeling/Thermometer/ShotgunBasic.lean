import Thermometer.Lib.Runs
import Thermometer.BasicBtb
import Thermometer.ShotgunFootprint

namespace Thermometer.ShotgunBasic

open Trace Lib.Scan Lib.Tables Lib.Cells ShotgunFootprint
open BasicBtb (Entry)

def conditionalBtbSets : Nat := 384

def conditionalBtbWays : Nat := 4

def unconditionalBtbSets : Nat := 1280

def unconditionalBtbWays : Nat := 4

def basicBtbRasSize : Nat := 1536

instance : BtbEntry Entry := ⟨Entry.ipTag, Entry.target⟩

instance : Wraps Entry Entry := ⟨id, id, id, fun _ _ => rfl⟩

/-- A BTB of slots. Tag 0 marks a slot that holds no branch. -/
structure Slots (T : Type) where
  sets : Nat
  ways : Nat
  btb : Nat → List T
  lruCounter : Nat

variable {T : Type}

def Slots.init [Wraps T Entry] (sets ways : Nat) : Slots T :=
  ⟨sets, ways, fun _ => List.replicate ways (Wraps.wrap Entry.invalid), 0⟩

/-- A pointer is a set and a way. -/
instance : Store (Slots T) (Nat × Nat) T where
  get b p := (b.btb p.1)[p.2]?
  modify b p f := { b with btb := Function.update b.btb p.1 ((b.btb p.1).modify p.2 f) }
  get_modify_self := by
    intro b p f
    simp
  get_modify_ne := by
    intro b f p q hq
    by_cases hs : q.1 = p.1
    · have hw : p.2 ≠ q.2 := fun hw => hq (Prod.ext hs hw.symm)
      simp [hs, hw]
    · simp [Function.update_of_ne hs]

section Slots

variable [Wraps T Entry]

def findEntry (b : Slots T) (ip : Nat) : Option (Nat × Nat) :=
  let set := setIndex b.sets ip
  ((b.btb set).findIdx? (fun a => (Wraps.base a).ipTag = ip)).map (fun way => (set, way))

def lruOf (b : Slots T) (set way : Nat) : Nat := ((b.btb set)[way]?.map (fun a => (Wraps.base a).lru)).getD 0

def getLruEntry (b : Slots T) (set : Nat) : Nat × Nat := (set, firstMin (lruOf b set) b.ways)

def updateLru (b : Slots T) (p : Nat × Nat) : Slots T :=
  { Store.modify b p (Wraps.mapBase (fun e : Entry => { e with lru := b.lruCounter })) with
    lruCounter := b.lruCounter + 1 }

/-- The least recently used slot of the set is overwritten, its footprints stay as they are. -/
def replEntry (b : Slots T) (ip : Nat) : Nat × Nat := getLruEntry b (setIndex b.sets ip)

def newBranch (ip branchTarget : Nat) (e : Entry) : Entry :=
  { e with ipTag := ip, target := branchTarget, alwaysTaken := true }

def allocate (b : Slots T) (ip branchTarget : Nat) : Slots T :=
  updateLru (Store.modify b (replEntry b ip) (Wraps.mapBase (newBranch ip branchTarget))) (replEntry b ip)

def outcome (branchTarget : Nat) (taken : Bool) (e : Entry) : Entry :=
  if taken then { e with target := branchTarget } else { e with alwaysTaken := false }

def updateExisting (b : Slots T) (p : Nat × Nat) (branchTarget : Nat) (taken : Bool) : Slots T :=
  Store.modify b p (Wraps.mapBase (outcome branchTarget taken))

def answer (b : Slots T) (p : Nat × Nat) : Nat × Bool :=
  ((Store.get b p).map (fun e => ((Wraps.base e).target, (Wraps.base e).alwaysTaken))).getD (0, true)

end Slots

abbrev Ubtb := Slots (FootprintEntry Entry)

structure State where
  conditional : Slots Entry
  front : Front Ubtb (Nat × Nat)
  side : SideTables.Tables
  stream : StreamBuffer.Buffer

def State.initial (conditionalSets conditionalWays unconditionalSets unconditionalWays : Nat) : State :=
  ⟨.init conditionalSets conditionalWays, .initial (.init unconditionalSets unconditionalWays), .initial, .empty 32⟩

def initializeBtb : State :=
  .initial conditionalBtbSets conditionalBtbWays unconditionalBtbSets unconditionalBtbWays

def State.withUnconditional (s : State) (u : Ubtb) : State := { s with front := { s.front with unconditional := u } }

def btbPrediction (s : State) (ip : Nat) (ty : BranchType) : State × (Nat × Bool) :=
  match SideTables.predictWith basicBtbRasSize s.side ip ty with
  | (side, some r) => ({ s with side := side }, r)
  | (side, none) =>
      let s := { s with side := side }
      if ty = .conditional then
        match findEntry s.conditional ip with
        | none => (s, (StreamBuffer.streamBufferPredict s.stream ip, true))
        | some p => ({ s with conditional := updateLru s.conditional p }, answer s.conditional p)
      else
        match findEntry s.front.unconditional ip with
        | none => (s, (0, true))
        | some p => (s.withUnconditional (updateLru s.front.unconditional p), answer s.front.unconditional p)

def record (s : State) (p : Nat × Nat) : State :=
  match Store.get s.conditional p with
  | none => s
  | some a => { s with front := addFootprint s.front a }

def updateConditional (s : State) (ip branchTarget : Nat) (taken : Bool) : State :=
  match findEntry s.conditional ip with
  | none =>
      let s := { s with stream := (StreamBuffer.streamBufferUpdate s.stream ip).1 }
      if branchTarget ≠ 0 ∧ taken then
        record { s with conditional := allocate s.conditional ip branchTarget } (replEntry s.conditional ip)
      else s
  | some p => record { s with conditional := updateExisting s.conditional p branchTarget taken } p

def updateReturn (o : IterOrder) (s : State) (branchTarget : Nat) : State :=
  let r := SideTables.recalibrate basicBtbRasSize s.side branchTarget
  { s with side := r.1, front := updateCurrent o s.front (findEntry s.front.unconditional r.2) .ret }

def updateUnconditional (o : IterOrder) (s : State) (ip branchTarget : Nat) (taken : Bool) (ty : BranchType) : State :=
  let u := s.front.unconditional
  match findEntry u ip with
  | none =>
      if branchTarget ≠ 0 ∧ taken then
        { s with front :=
            updateCurrent o { s.front with unconditional := allocate u ip branchTarget } (some (replEntry u ip)) ty }
      else s
  | some p =>
      { s with front :=
          updateCurrent o { s.front with unconditional := updateExisting u p branchTarget taken } (some p) ty }

def updateBtb (o : IterOrder) (s : State) (ip branchTarget : Nat) (taken : Bool) (ty : BranchType) : State :=
  if ty = .indirect || ty = .indirectCall then { s with side := SideTables.storeIndirect s.side ip branchTarget }
  else if ty = .conditional then
    updateConditional { s with side := SideTables.shiftHistory s.side taken } ip branchTarget taken
  else if ty = .ret then updateReturn o s branchTarget
  else updateUnconditional o s ip branchTarget taken ty

def prefetchConditional (s : State) (ip branchTarget : Nat) (taken toStreamBuffer : Bool) : Option State :=
  match findEntry s.conditional ip with
  | none =>
      if branchTarget ≠ 0 ∧ taken then
        if toStreamBuffer then
          (StreamBuffer.prefetch s.stream ip branchTarget).map (fun b => { s with stream := b })
        else some { s with conditional := allocate s.conditional ip branchTarget }
      else some s
  | some p => some { s with conditional := updateExisting (updateLru s.conditional p) p branchTarget taken }

def prefetchBtb (s : State) (ip branchTarget : Nat) (ty : BranchType) (taken toStreamBuffer : Bool) : Option State :=
  if ty = .conditional then prefetchConditional s ip branchTarget taken toStreamBuffer else some s

/-- A call comes with the order in which its loop meets the blocks of a footprint. -/
def step (s : State) : IterOrder × Call → Option State
  | (_, .predict ip ty) => some (btbPrediction s ip ty).1
  | (o, .update ip target taken ty) => some (updateBtb o s ip target taken ty)
  | (_, .prefetch ip target ty taken toStreamBuffer) => prefetchBtb s ip target ty taken toStreamBuffer

end Thermometer.ShotgunBasic
