import Thermometer.OptBtb
import Thermometer.ShotgunFootprint

namespace Thermometer.ShotgunOpt

open Trace Lib.Tables Lib.Cells AccessRecord ShotgunFootprint
open OptBtb (Entry Opt findBtbEntry chooseVictim readRecord)

def basicBtbSets : Nat := 384

def basicBtbWays : Nat := 4

def unconditionalBtbSets : Nat := 1280

def unconditionalBtbWays : Nat := 4

def basicBtbRasSize : Nat := 1536

instance : BtbEntry Entry := ⟨Entry.ipTag, Entry.target⟩

instance : Wraps Entry Entry := ⟨id, id, id, fun _ _ => rfl⟩

def defaultEntry : Entry := ⟨0, 0, true⟩

/-- In this module every `Opt` keeps a record of its own. -/
structure RecordedOpt (T : Type) where
  opt : Opt T
  accessRecord : Record

variable {T : Type}

def RecordedOpt.modify (b : RecordedOpt T) (ip : Nat) (f : T → T) : RecordedOpt T :=
  let set := b.opt.set ip
  let btb := Function.update b.opt.currentBtb set (Lib.Tables.modify (b.opt.currentBtb set) ip f)
  { b with opt := { b.opt with currentBtb := btb } }

/-- A pointer to the entry of a branch is named by the branch. -/
instance : Store (RecordedOpt T) Nat T where
  get b ip := findBtbEntry b.opt ip
  modify := RecordedOpt.modify
  get_modify_self := by
    intro b ip f
    have hset : (b.modify ip f).opt.set ip = b.opt.set ip := rfl
    simp only [findBtbEntry, hset]
    simp [RecordedOpt.modify, lookup_modify]
  get_modify_ne := by
    intro b f p q hq
    have hset : (b.modify p f).opt.set q = b.opt.set q := rfl
    simp only [findBtbEntry, hset]
    by_cases hs : b.opt.set q = b.opt.set p
    · simp [RecordedOpt.modify, hs, lookup_modify, hq]
    · simp [RecordedOpt.modify, Function.update_of_ne hs]

def findEntry (b : RecordedOpt T) (ip : Nat) : Option Nat := (findBtbEntry b.opt ip).map (fun _ => ip)

section RecordedOpt

variable [Wraps T Entry]

def insertToBtb (o : IterOrder) (b : RecordedOpt T) (ip : Nat) : Option (RecordedOpt T × Bool) :=
  if size (b.opt.currentBtb (b.opt.set ip)) = b.opt.totalWays then
    match chooseVictim o b.opt ip with
    | none => some (b, false)
    | some victim => do
        let r ← evict b.accessRecord victim
        some (⟨(b.opt.erase victim (b.opt.set ip)).emplace ip (Wraps.wrap defaultEntry), r⟩, true)
  else some (⟨b.opt.emplace ip (Wraps.wrap defaultEntry), b.accessRecord⟩, true)

def fill (b : RecordedOpt T) (ip branchTarget : Nat) : RecordedOpt T :=
  Store.modify b ip (Wraps.mapBase (fun _ : Entry => ⟨ip, branchTarget, true⟩))

/-- An insertion is recorded, and filled in unless it is a bypass. -/
def allocate (o : IterOrder) (b : RecordedOpt T) (ip branchTarget : Nat) (ty : BranchType) :
    Option (RecordedOpt T × Bool) := do
  let (b, judge) ← insertToBtb o b ip
  let b := { b with accessRecord := access b.accessRecord ip branchTarget ty false judge }
  some (if judge then fill b ip branchTarget else b, judge)

def outcome (branchTarget : Nat) (taken : Bool) (e : Entry) : Entry :=
  if taken then { e with target := branchTarget } else { e with alwaysTaken := false }

def updateExisting (b : RecordedOpt T) (ip branchTarget : Nat) (taken : Bool) : RecordedOpt T :=
  Store.modify b ip (Wraps.mapBase (outcome branchTarget taken))

def recordHit (b : RecordedOpt T) (ip branchTarget : Nat) (taken : Bool) (ty : BranchType) : RecordedOpt T :=
  if taken then { b with accessRecord := access b.accessRecord ip branchTarget ty true false } else b

def tick (b : RecordedOpt T) : RecordedOpt T := { b with opt := { b.opt with timestamp := b.opt.timestamp + 1 } }

end RecordedOpt

abbrev Ubtb := RecordedOpt (FootprintEntry Entry)

structure State where
  conditional : RecordedOpt Entry
  front : Front Ubtb Nat
  side : SideTables.Tables
  stream : StreamBuffer.Buffer

/-- The two demand records are read, `counter` is the local an empty one leaves uninitialised. -/
def State.initial (sets ways unconditionalSets unconditionalWays : Nat)
    (conditionalRecord unconditionalRecord : List (Nat × Nat))
    (counter : Nat) : State :=
  ⟨⟨readRecord (.init sets ways) conditionalRecord none counter, .empty .conditional⟩,
    .initial ⟨readRecord (.init unconditionalSets unconditionalWays) unconditionalRecord none counter, .empty .unconditional⟩,
    .initial, .empty 32⟩

def initializeBtb (conditionalRecord unconditionalRecord : List (Nat × Nat)) (counter : Nat) : State :=
  .initial basicBtbSets basicBtbWays unconditionalBtbSets unconditionalBtbWays conditionalRecord unconditionalRecord counter

def State.withUnconditional (s : State) (u : Ubtb) : State := { s with front := { s.front with unconditional := u } }

def btbPrediction (s : State) (ip : Nat) (ty : BranchType) : State × (Nat × Bool) :=
  match SideTables.predictWith basicBtbRasSize s.side ip ty with
  | (side, some r) => ({ s with side := side }, r)
  | (side, none) =>
      let s := { s with side := side }
      if ty = .conditional then
        let s := { s with conditional := tick s.conditional }
        match findBtbEntry s.conditional.opt ip with
        | none => (s, (StreamBuffer.streamBufferPredict s.stream ip, true))
        | some e => (s, (e.target, e.alwaysTaken))
      else
        let s := s.withUnconditional (tick s.front.unconditional)
        match findBtbEntry s.front.unconditional.opt ip with
        | none => (s, (0, true))
        | some e => (s, (e.base.target, e.base.alwaysTaken))

def record (s : State) (ip : Nat) : State :=
  match findBtbEntry s.conditional.opt ip with
  | none => s
  | some a => { s with front := addFootprint s.front a }

def updateConditional (o : IterOrder) (s : State) (ip branchTarget : Nat) (taken : Bool) : Option State :=
  match findEntry s.conditional ip with
  | none =>
      let s := { s with stream := (StreamBuffer.streamBufferUpdate s.stream ip).1 }
      if branchTarget ≠ 0 ∧ taken then do
        let (b, judge) ← allocate o s.conditional ip branchTarget .conditional
        let s := { s with conditional := b }
        some (if judge then record s ip else s)
      else some s
  | some _ =>
      let b := updateExisting s.conditional ip branchTarget taken
      some (record { s with conditional := recordHit b ip branchTarget taken .conditional } ip)

def updateReturn (o : IterOrder) (s : State) (ip branchTarget : Nat) : State :=
  let r := SideTables.recalibrate basicBtbRasSize s.side branchTarget
  { s with side := r.1, front := updateCurrent o s.front (findEntry s.front.unconditional ip) .ret }

def updateUnconditional (o : IterOrder) (s : State) (ip branchTarget : Nat) (taken : Bool) (ty : BranchType) :
    Option State :=
  let u := s.front.unconditional
  match findEntry u ip with
  | none =>
      if branchTarget ≠ 0 ∧ taken then do
        let (b, judge) ← allocate o u ip branchTarget ty
        let s := s.withUnconditional b
        some (if judge then { s with front := updateCurrent o s.front (some ip) ty } else s)
      else some s
  | some p =>
      let s := s.withUnconditional (recordHit (updateExisting u ip branchTarget taken) ip branchTarget taken ty)
      some { s with front := updateCurrent o s.front (some p) ty }

def updateBtb (o : IterOrder) (s : State) (ip branchTarget : Nat) (taken : Bool) (ty : BranchType) : Option State :=
  if ty = .indirect || ty = .indirectCall then some { s with side := SideTables.storeIndirect s.side ip branchTarget }
  else if ty = .conditional then
    updateConditional o { s with side := SideTables.shiftHistory s.side taken } ip branchTarget taken
  else if ty = .ret then some (updateReturn o s ip branchTarget)
  else updateUnconditional o s ip branchTarget taken ty

def prefetchConditional (o : IterOrder) (s : State) (ip branchTarget : Nat) (taken toStreamBuffer : Bool) : Option State :=
  match findEntry s.conditional ip with
  | none =>
      if branchTarget ≠ 0 ∧ taken then
        if toStreamBuffer then
          (StreamBuffer.prefetch s.stream ip branchTarget).map (fun b => { s with stream := b })
        else do
          let (b, judge) ← insertToBtb o s.conditional ip
          some { s with conditional := if judge then fill b ip branchTarget else b }
      else some s
  | some _ => some { s with conditional := updateExisting s.conditional ip branchTarget taken }

def prefetchBtb (o : IterOrder) (s : State) (ip branchTarget : Nat) (ty : BranchType) (taken toStreamBuffer : Bool) :
    Option State :=
  if ty = .conditional then prefetchConditional o s ip branchTarget taken toStreamBuffer else some s

/-- A call comes with the order in which its loops meet residents and blocks. -/
def step (s : State) : IterOrder × Call → Option State
  | (_, .predict ip ty) => some (btbPrediction s ip ty).1
  | (o, .update ip target taken ty) => updateBtb o s ip target taken ty
  | (o, .prefetch ip target ty taken toStreamBuffer) => prefetchBtb o s ip target ty taken toStreamBuffer

end Thermometer.ShotgunOpt
