import Mathlib.Data.List.MinMax
import Thermometer.Lib.Tables
import Thermometer.ShotgunFootprint

namespace Thermometer.FdipShotgun

open Trace Lib.Tables ShotgunFootprint

structure PredecodeEntry where
  ip : Nat
  target : Nat
  branchType : BranchType
  timer : Nat
  taken : Bool

structure Instr where
  actualTarget : Nat
  predictTarget : Nat
  branchType : BranchType
  actualTaken : Bool
  predictTaken : Bool
  mispredicted : Bool
  btbMiss : Bool

def Instr.new (ty : BranchType) (predictedTarget : Nat) (predictedTaken : Bool) (realTarget : Nat) : Instr :=
  let mispredicted := predictedTarget != realTarget
  let noTarget := predictedTarget == 0 && predictedTaken
  ⟨realTarget, predictedTarget, ty, realTarget != 0, predictedTaken, mispredicted,
    if ty = .ret ∨ ty = .indirect ∨ ty = .indirectCall then mispredicted || noTarget else noTarget⟩

structure Fdip where
  branchRecord : Table Instr
  ftq : List (Nat × Nat)
  decodeQueue : List PredecodeEntry
  prefetchQueue : List Nat
  runaheadInstrUniqueId : Nat
  runaheadIp : Nat
  runaheadEnable : Bool

def Fdip.initial : Fdip := ⟨∅, [], [], [], 0, 0, true⟩

structure Config where
  pt : Bool
  predecodeLatency : Nat
  l1iPqSize : Nat

def Config.offset (c : Config) : Nat := if c.pt then 1 else 4

def branchOperate (f : Fdip) (ip : Nat) (ty : BranchType) (predictedTarget : Nat) (predictedTaken : Bool)
    (realTarget : Nat) : Fdip :=
  { f with branchRecord := f.branchRecord.insert ip (.new ty predictedTarget predictedTaken realTarget) }

def cacheOperate (c : Config) (f : Fdip) (vAddr : Nat) : Fdip :=
  let ips := (List.range (2 ^ logBlockSize / c.offset)).map (fun k => (vAddr >>> logBlockSize) <<< logBlockSize + k * c.offset)
  { f with decodeQueue := f.decodeQueue ++ ips.filterMap (fun ip =>
      (f.branchRecord.lookup ip).map (fun i => ⟨ip, i.actualTarget, i.branchType, 0, i.actualTaken⟩)) }

/-- What one cycle meets: the ids in the IFETCH buffer, and whether the L1I accepts its
n-th prefetch. -/
structure Cycle where
  ifetchIds : List Nat
  accept : Nat → Bool

def drain (accept : Nat → Bool) : Nat → List Nat → Nat × List Nat
  | asked, [] => (asked, [])
  | asked, a :: queue => if accept asked then drain accept (asked + 1) queue else (asked + 1, a :: queue)

def tickDecodeQueue (queue : List PredecodeEntry) : List PredecodeEntry :=
  queue.map (fun a => { a with timer := (a.timer + 1) % 2 ^ 8 })

/-- The entries at the front that have waited long enough, and the rest. -/
def predecoded (c : Config) (queue : List PredecodeEntry) : List PredecodeEntry × List PredecodeEntry :=
  queue.span (fun a => c.predecodeLatency < a.timer)

structure Outcome where
  fdip : Fdip
  regions : Regions
  looked : Option (Nat × List Nat)

/-- The run-ahead follows a branch predicted taken. -/
def followTaken (e : Cycle) (asked : Nat) (f : Fdip) (r : Regions) (i : Instr) : Outcome :=
  if e.accept asked then
    let ip := f.runaheadIp
    let f := { f with
      ftq := f.ftq ++ [(ip, f.runaheadInstrUniqueId)]
      runaheadIp := i.predictTarget
      runaheadInstrUniqueId := f.runaheadInstrUniqueId + 1 }
    if i.branchType ≠ .conditional then
      let queue := (drain e.accept (asked + 1) (f.prefetchQueue ++ r ip)).2
      ⟨{ f with prefetchQueue := queue }, Function.update r ip [], some (ip, r ip)⟩
    else ⟨f, r, none⟩
  else ⟨f, r, none⟩

def advance (c : Config) (f : Fdip) : Fdip :=
  let isBranch := (f.branchRecord.lookup f.runaheadIp).isSome
  { f with
    ftq := if isBranch then f.ftq ++ [(f.runaheadIp, f.runaheadInstrUniqueId)] else f.ftq
    runaheadIp := (f.runaheadIp + c.offset) % 2 ^ 64
    runaheadInstrUniqueId := f.runaheadInstrUniqueId + 1 }

/-- The run-ahead goes on to the next instruction. `none` is a refused prefetch of its block. -/
def goOn (c : Config) (e : Cycle) (asked : Nat) (f : Fdip) : Option (Fdip × Nat) :=
  if f.runaheadIp >>> logBlockSize ≠ (advance c f).runaheadIp >>> logBlockSize then
    if e.accept asked then some (advance c f, 1) else none
  else some (advance c f, 0)

/-- The loop of a cycle. It ends at the newest instruction of the IFETCH buffer, so
`fuel` only has to reach that far. -/
def runAhead (c : Config) (e : Cycle) (r : Regions) : Nat → Nat → Nat → Fdip → Outcome
  | 0, _, _, f => ⟨f, r, none⟩
  | fuel + 1, prefetch, asked, f =>
      if prefetch < c.l1iPqSize ∧ f.runaheadEnable then
        if e.ifetchIds.any (fun id => f.runaheadInstrUniqueId ≤ id) then
          match f.branchRecord.lookup f.runaheadIp with
          | some i =>
              if i.btbMiss then ⟨{ f with ftq := [], runaheadEnable := false }, r, none⟩
              else if i.predictTaken then followTaken e asked f r i
              else
                match goOn c e asked f with
                | none => ⟨f, r, none⟩
                | some (g, n) => runAhead c e r fuel (prefetch + n) (asked + n) g
          | none =>
              match goOn c e asked f with
              | none => ⟨f, r, none⟩
              | some (g, n) => runAhead c e r fuel (prefetch + n) (asked + n) g
        else ⟨f, r, none⟩
      else ⟨f, r, none⟩

def enoughFuel (e : Cycle) (f : Fdip) : Nat := e.ifetchIds.foldr max 0 + 1 - f.runaheadInstrUniqueId

theorem goOn_id {c : Config} {e : Cycle} {asked n : Nat} {f g : Fdip} (h : goOn c e asked f = some (g, n)) :
    g.runaheadInstrUniqueId = f.runaheadInstrUniqueId + 1 := by
  simp only [goOn] at h
  split_ifs at h
  · exact (Prod.mk.inj (Option.some.inj h)).1 ▸ rfl
  · exact (Prod.mk.inj (Option.some.inj h)).1 ▸ rfl

theorem runAhead_fuel (c : Config) (e : Cycle) (r : Regions) (k : Nat) {fuel : Nat} (prefetch asked : Nat) {f : Fdip}
    (h : ∀ id ∈ e.ifetchIds, id < f.runaheadInstrUniqueId + fuel) :
    runAhead c e r (fuel + k) prefetch asked f = runAhead c e r fuel prefetch asked f := by
  induction fuel generalizing prefetch asked f with
  | zero =>
      cases k with
      | zero => rfl
      | succ k =>
          have hold : e.ifetchIds.any (fun id => f.runaheadInstrUniqueId ≤ id) = false := by
            rw [List.any_eq_false]
            intro id hid
            have := h id hid
            simp only [decide_eq_true_eq]
            omega
          simp only [runAhead, hold, Bool.false_eq_true, if_false, ite_self]
  | succ fuel ih =>
      have hgo : (match goOn c e asked f with
            | none => (⟨f, r, none⟩ : Outcome)
            | some (g, n) => runAhead c e r (fuel + k) (prefetch + n) (asked + n) g) =
          match goOn c e asked f with
            | none => ⟨f, r, none⟩
            | some (g, n) => runAhead c e r fuel (prefetch + n) (asked + n) g := by
        cases hg : goOn c e asked f with
        | none => rfl
        | some a =>
            refine ih _ _ ?_
            intro id hid
            have := h id hid
            rw [goOn_id hg]
            omega
      rw [show fuel + 1 + k = (fuel + k) + 1 by omega, runAhead, runAhead, hgo]

theorem lt_enoughFuel (e : Cycle) (f : Fdip) : ∀ id ∈ e.ifetchIds, id < f.runaheadInstrUniqueId + enoughFuel e f := by
  intro id hid
  have hle : id ≤ e.ifetchIds.foldr max 0 := List.le_max_of_le' 0 hid (Nat.le_refl id)
  rw [enoughFuel]
  omega

theorem runAhead_enough (c : Config) (e : Cycle) (r : Regions) (k prefetch asked : Nat) (f : Fdip) :
    runAhead c e r (enoughFuel e f + k) prefetch asked f = runAhead c e r (enoughFuel e f) prefetch asked f :=
  runAhead_fuel c e r k prefetch asked (lt_enoughFuel e f)

def cycleOperate (c : Config) (e : Cycle) (f : Fdip) (r : Regions) : Outcome :=
  let (asked, queue) := drain e.accept 0 f.prefetchQueue
  let f := { f with prefetchQueue := queue }
  if queue = [] then runAhead c e r (enoughFuel e f) 0 asked f else ⟨f, r, none⟩

structure Outcome.Reads (x : Outcome) (r : Regions) : Prop where
  idle : x.looked = none → x.regions = r
  taken : ∀ k l, x.looked = some (k, l) → l = r k ∧ x.regions = Function.update r k []

theorem reads_none (f : Fdip) (r : Regions) : Outcome.Reads ⟨f, r, none⟩ r :=
  ⟨fun _ => rfl, fun _ _ h => absurd h (by simp)⟩

theorem followTaken_reads (e : Cycle) (asked : Nat) (f : Fdip) (r : Regions) (i : Instr) :
    (followTaken e asked f r i).Reads r := by
  simp only [followTaken]
  split_ifs
  · refine ⟨fun h => absurd h (by simp), ?_⟩
    intro k l h
    obtain ⟨rfl, rfl⟩ := Prod.mk.inj (Option.some.inj h)
    exact ⟨rfl, rfl⟩
  · exact reads_none _ r
  · exact reads_none _ r

theorem runAhead_reads (c : Config) (e : Cycle) (r : Regions) (fuel prefetch asked : Nat) (f : Fdip) :
    (runAhead c e r fuel prefetch asked f).Reads r := by
  induction fuel generalizing prefetch asked f with
  | zero => exact reads_none f r
  | succ fuel ih =>
      have hgo : (match goOn c e asked f with
            | none => (⟨f, r, none⟩ : Outcome)
            | some (g, n) => runAhead c e r fuel (prefetch + n) (asked + n) g).Reads r := by
        split
        · exact reads_none f r
        · exact ih _ _ _
      rw [runAhead]
      split_ifs
      · split
        · split_ifs
          · exact reads_none _ r
          · exact followTaken_reads e asked f r _
          · exact hgo
        · exact hgo
      · exact reads_none f r
      · exact reads_none f r

theorem cycleOperate_reads (c : Config) (e : Cycle) (f : Fdip) (r : Regions) : (cycleOperate c e f r).Reads r := by
  simp only [cycleOperate]
  split_ifs
  · exact runAhead_reads c e r _ _ _ _
  · exact reads_none _ r

/-- The fields of an instruction that the resolution of a branch reads. -/
structure Resolved where
  ip : Nat
  instrId : Nat
  branchTarget : Nat
  pfcFinished : Bool
  branchMispredictedAll : Bool

def resetFtq (c : Config) (f : Fdip) (instr : Resolved) : Fdip :=
  { f with
    runaheadInstrUniqueId := instr.instrId + 1
    runaheadIp := if instr.branchTarget = 0 then (instr.ip + c.offset) % 2 ^ 64 else instr.branchTarget
    runaheadEnable := true }

/-- The prefetcher after a branch is resolved, and the `pfc_finished` of its instruction. -/
def resolvedBranchOperate (c : Config) (f : Fdip) (instr : Resolved) (decodeStage : Bool) : Fdip × Bool :=
  if decodeStage then
    match f.ftq.findIdx? (fun a => a = (instr.ip, instr.instrId)) with
    | some i => (resetFtq c { f with ftq := f.ftq.take i } instr, true)
    | none => (f, instr.pfcFinished)
  else if instr.pfcFinished then (f, true)
  else
    match f.ftq with
    | [] => (resetFtq c f instr, false)
    | first :: rest =>
        if instr.ip ≠ first.1 ∨ instr.branchMispredictedAll then (resetFtq c { f with ftq := [] } instr, false)
        else ({ f with ftq := rest }, false)

end Thermometer.FdipShotgun
