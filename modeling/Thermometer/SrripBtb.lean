import Thermometer.Lib.Runs
import Thermometer.StreamBuffer
import Thermometer.SideTables

namespace Thermometer.SrripBtb

open Trace

def srripCounterSize : Nat := 2

def distantInterval : Nat := 2 ^ srripCounterSize - 1

def longInterval : Nat := 2 ^ srripCounterSize - 2

def takenOnly : Bool := false

structure Entry where
  ipTag : Nat
  target : Nat
  alwaysTaken : Bool
  rrpv : Nat
  deriving DecidableEq, Repr

def Entry.invalid : Entry := ⟨0, 0, false, distantInterval⟩

/-- Tag 0 marks a way that holds no branch. -/
def Entry.valid (e : Entry) : Bool := e.ipTag ≠ 0

def Entry.withRrpv (e : Entry) (rrpv : Nat) : Entry := { e with rrpv := rrpv }

structure State where
  sets : Nat
  ways : Nat
  btb : Nat → List Entry
  side : SideTables.Tables
  stream : StreamBuffer.Buffer

def initializeBtb (sets ways : Nat) : State :=
  ⟨sets, ways, fun _ => List.replicate ways .invalid, .initial, .empty 32⟩

def State.setIndex (s : State) (ip : Nat) : Nat := maskIndex s.sets ip

def State.withSet (s : State) (set : Nat) (entries : List Entry) : State :=
  { s with btb := Function.update s.btb set entries }

def findEntry (s : State) (ip : Nat) : Option Nat := (s.btb (s.setIndex ip)).findIdx? (fun e => e.ipTag = ip)

/-- The loop of `get_srrip_entry`, for as many rounds as given: the ways age until
one of them is distant. -/
def searchRounds : Nat → List Entry → Option (Nat × List Entry)
  | 0, _ => none
  | n + 1, entries =>
      match entries.findIdx? (fun e => e.rrpv = distantInterval) with
      | some way => some (way, entries.modify way (fun e => e.withRrpv longInterval))
      | none => searchRounds n (entries.map (fun e => e.withRrpv ((e.rrpv + 1) % 2 ^ 64)))

/-- Counters of 64 bits come round within `2 ^ 64` rounds. A loop that has not
ended by then never does, which is the result `none`. -/
def getSrripEntry (entries : List Entry) : Option (Nat × List Entry) := searchRounds (2 ^ 64) entries

def btbPrediction (s : State) (ip : Nat) (ty : BranchType) : State × (Nat × Bool) :=
  match SideTables.predict s.side ip ty with
  | (side, some r) => ({ s with side := side }, r)
  | (side, none) =>
      let s := { s with side := side }
      match (findEntry s ip).bind (fun way => (s.btb (s.setIndex ip))[way]?) with
      | none => (s, (StreamBuffer.streamBufferPredict s.stream ip, true))
      | some e => (s, (e.target, e.alwaysTaken))

def allocate (s : State) (ip branchTarget : Nat) : Option State :=
  (getSrripEntry (s.btb (s.setIndex ip))).map (fun r =>
    s.withSet (s.setIndex ip) (r.2.modify r.1 (fun e =>
      { e with ipTag := ip, target := branchTarget, alwaysTaken := true })))

def reReference (branchTarget : Nat) (taken : Bool) (e : Entry) : Entry :=
  let e := if takenOnly && !taken then e else e.withRrpv 0
  if taken then { e with target := branchTarget } else { e with alwaysTaken := false }

def updateExisting (s : State) (ip way branchTarget : Nat) (taken : Bool) : State :=
  s.withSet (s.setIndex ip) ((s.btb (s.setIndex ip)).modify way (reReference branchTarget taken))

def updateBtb (s : State) (ip branchTarget : Nat) (taken : Bool) (ty : BranchType) : Option State :=
  let s := { s with side := SideTables.update s.side ip branchTarget taken ty }
  if ty.usesBtb then
    match findEntry s ip with
    | none =>
        let s := { s with stream := (StreamBuffer.streamBufferUpdate s.stream ip).1 }
        if branchTarget ≠ 0 ∧ taken then allocate s ip branchTarget else some s
    | some way => some (updateExisting s ip way branchTarget taken)
  else some s

def prefetchBtb (s : State) (ip branchTarget : Nat) (ty : BranchType) (taken toStreamBuffer : Bool) : Option State :=
  if ty.usesBtb then
    match findEntry s ip with
    | none =>
        if branchTarget ≠ 0 ∧ taken then
          if toStreamBuffer then
            (StreamBuffer.prefetch s.stream ip branchTarget).map (fun b => { s with stream := b })
          else allocate s ip branchTarget
        else some s
    | some way => some (updateExisting s ip way branchTarget taken)
  else some s

def step (s : State) : Call → Option State
  | .predict ip ty => some (btbPrediction s ip ty).1
  | .update ip target taken ty => updateBtb s ip target taken ty
  | .prefetch ip target ty taken toStreamBuffer => prefetchBtb s ip target ty taken toStreamBuffer

/-! What a step can do to the sets. -/

variable {s s' : State} {ip branchTarget : Nat} {taken toStreamBuffer : Bool} {ty : BranchType}

/-- A set is left alone, a branch is put into it, or a resident branch is used. -/
inductive Touched (s : State) (ip : Nat) : State → Prop
  | kept {s' : State} : s'.btb = s.btb → Touched s ip s'
  | allocated {s' : State} {way : Nat} {entries : List Entry} {target : Nat} :
      getSrripEntry (s.btb (s.setIndex ip)) = some (way, entries) →
      s'.btb = Function.update s.btb (s.setIndex ip) (entries.modify way (fun e =>
        { e with ipTag := ip, target := target, alwaysTaken := true })) → Touched s ip s'
  | used {s' : State} {way target : Nat} {taken : Bool} : findEntry s ip = some way →
      s'.btb = Function.update s.btb (s.setIndex ip) ((s.btb (s.setIndex ip)).modify way (reReference target taken)) →
      Touched s ip s'

theorem btbPrediction_btb (s : State) (ip : Nat) (ty : BranchType) : (btbPrediction s ip ty).1.btb = s.btb := by
  rw [btbPrediction]
  rcases SideTables.predict s.side ip ty with ⟨side, r⟩
  cases r with
  | some r => rfl
  | none =>
      simp only
      split <;> rfl

theorem updateBtb_touched (h : updateBtb s ip branchTarget taken ty = some s') : Touched s ip s' := by
  rw [updateBtb] at h
  by_cases hty : ty.usesBtb = true
  · rw [if_pos hty] at h
    have hsame : findEntry { s with side := SideTables.update s.side ip branchTarget taken ty } ip = findEntry s ip := rfl
    rw [hsame] at h
    cases hfind : findEntry s ip with
    | some way =>
        simp only [hfind, Option.some.injEq] at h
        exact .used hfind (congrArg State.btb h).symm
    | none =>
        simp only [hfind] at h
        by_cases halloc : branchTarget ≠ 0 ∧ taken = true
        · rw [if_pos halloc] at h
          obtain ⟨⟨way, entries⟩, hget, rfl⟩ := Option.map_eq_some_iff.mp h
          exact .allocated hget rfl
        · rw [if_neg halloc, Option.some.injEq] at h
          exact .kept (congrArg State.btb h).symm
  · rw [if_neg hty, Option.some.injEq] at h
    exact .kept (congrArg State.btb h).symm

theorem prefetchBtb_touched (h : prefetchBtb s ip branchTarget ty taken toStreamBuffer = some s') : Touched s ip s' := by
  rw [prefetchBtb] at h
  by_cases hty : ty.usesBtb = true
  · rw [if_pos hty] at h
    cases hfind : findEntry s ip with
    | some way =>
        simp only [hfind, Option.some.injEq] at h
        exact .used hfind (congrArg State.btb h).symm
    | none =>
        simp only [hfind] at h
        by_cases halloc : branchTarget ≠ 0 ∧ taken = true
        · rw [if_pos halloc] at h
          by_cases hstream : toStreamBuffer = true
          · rw [if_pos hstream] at h
            obtain ⟨b, -, rfl⟩ := Option.map_eq_some_iff.mp h
            exact .kept rfl
          · rw [if_neg hstream] at h
            obtain ⟨⟨way, entries⟩, hget, rfl⟩ := Option.map_eq_some_iff.mp h
            exact .allocated hget rfl
        · rw [if_neg halloc, Option.some.injEq] at h
          exact .kept (congrArg State.btb h).symm
  · rw [if_neg hty, Option.some.injEq] at h
    exact .kept (congrArg State.btb h).symm

theorem step_touched {c : Call} (h : step s c = some s') : Touched s c.ip s' := by
  cases c with
  | predict ip ty =>
      obtain rfl := Option.some.inj h
      exact .kept (btbPrediction_btb s ip ty)
  | update ip target taken ty => exact updateBtb_touched h
  | prefetch ip target ty taken toStreamBuffer => exact prefetchBtb_touched h

/-- A step fails only where a search for a way does not end. -/
theorem step_total (c : Call) (hb : StreamBuffer.Bounded s.stream) (hget : ∀ set, ∃ r, getSrripEntry (s.btb set) = some r) :
    ∃ s', step s c = some s' ∧ StreamBuffer.Bounded s'.stream := by
  have hallocate : ∀ (s₁ : State) (ip target : Nat), StreamBuffer.Bounded s₁.stream → s₁.btb = s.btb →
      ∃ s', allocate s₁ ip target = some s' ∧ StreamBuffer.Bounded s'.stream := by
    intro s₁ ip target hb₁ hbtb
    obtain ⟨r, hr⟩ := hget (s₁.setIndex ip)
    rw [allocate, hbtb, hr]
    exact ⟨_, rfl, hb₁⟩
  cases c with
  | predict ip ty =>
      refine ⟨_, rfl, ?_⟩
      rw [btbPrediction]
      rcases SideTables.predict s.side ip ty with ⟨side, r⟩
      cases r with
      | some r => exact hb
      | none =>
          simp only
          split <;> exact hb
  | update ip target taken ty =>
      rw [step, updateBtb]
      by_cases hty : ty.usesBtb = true
      · simp only [if_pos hty]
        have hsame : findEntry { s with side := SideTables.update s.side ip target taken ty } ip = findEntry s ip := rfl
        rw [hsame]
        cases findEntry s ip with
        | some way => exact ⟨_, rfl, hb⟩
        | none =>
            have hb' := StreamBuffer.update_bounded hb ip
            by_cases halloc : target ≠ 0 ∧ taken = true
            · simp only [if_pos halloc]
              exact hallocate _ ip target hb' rfl
            · simp only [if_neg halloc]
              exact ⟨_, rfl, hb'⟩
      · simp only [if_neg hty]
        exact ⟨_, rfl, hb⟩
  | prefetch ip target ty taken toStreamBuffer =>
      rw [step, prefetchBtb]
      by_cases hty : ty.usesBtb = true
      · simp only [if_pos hty]
        cases findEntry s ip with
        | some way => exact ⟨_, rfl, hb⟩
        | none =>
            by_cases halloc : target ≠ 0 ∧ taken = true
            · simp only [if_pos halloc]
              by_cases hstream : toStreamBuffer = true
              · obtain ⟨b, hpush, hb'⟩ := StreamBuffer.prefetch_bounded hb ip halloc.1
                simp only [if_pos hstream, hpush]
                exact ⟨_, rfl, hb'⟩
              · simp only [if_neg hstream]
                exact hallocate s ip target hb rfl
            · simp only [if_neg halloc]
              exact ⟨_, rfl, hb⟩
      · simp only [if_neg hty]
        exact ⟨_, rfl, hb⟩

end Thermometer.SrripBtb
