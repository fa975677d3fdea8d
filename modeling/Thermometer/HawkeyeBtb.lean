import Thermometer.HawkeyeSampler
import Thermometer.SideTables
import Thermometer.StreamBuffer

namespace Thermometer.HawkeyeBtb

open Trace HawkeyeReplacement

structure Entry where
  ipTag : Nat
  target : Nat
  alwaysTaken : Bool
  deriving DecidableEq, Repr

/-- Entries by set and way. -/
structure State where
  btb : Nat → Nat → Entry
  replacement : HawkeyeReplacement.State
  side : SideTables.Tables
  stream : StreamBuffer.Buffer

def basicBtbSets : Nat := 2048

def initializeBtb : State := ⟨fun _ _ => ⟨0, 0, false⟩, initReplacementState, .initial, .empty 32⟩

def setIndex (ip : Nat) : Nat := maskIndex basicBtbSets ip

def findEntry (s : State) (ip : Nat) : Option Nat :=
  (List.range basicBtbWays).find? (fun way => (s.btb (setIndex ip) way).ipTag = ip)

/-- The last of the ways with the greatest rrpv, and that rrpv. -/
def lruVictim (rrpv : Nat → Nat) : Nat × Option Nat :=
  (List.range basicBtbWays).foldl (fun best way => if best.1 ≤ rrpv way then (rrpv way, some way) else best) (0, none)

def trainEviction (r : HawkeyeReplacement.State) (set way : Nat) : HawkeyeReplacement.State :=
  if sampledSet set then
    if r.prefetched set way then
      { r with prefetchPredictor := r.prefetchPredictor.decrement (r.signatures set way) }
    else { r with demandPredictor := r.demandPredictor.decrement (r.signatures set way) }
  else r

/-- `none` is the failed assertion that there is a way at all. -/
def getVictimInSet (r : HawkeyeReplacement.State) (set : Nat) : Option (HawkeyeReplacement.State × Nat) :=
  match (List.range basicBtbWays).find? (fun way => r.rrpv set way = maxRRPV) with
  | some way => some (r, way)
  | none => (lruVictim (r.rrpv set)).2.map (fun way => (trainEviction r set way, way))

def State.modify (s : State) (set way : Nat) (f : Entry → Entry) : State :=
  { s with btb := Function.update s.btb set (Function.update (s.btb set) way (f (s.btb set way))) }

/-- The call of `UpdateReplacementState` for a branch: its address stands for the line and for the PC. -/
def touchLine (s : State) (ip way : Nat) (type : AccessType) (hit : Bool) : Option State :=
  (updateReplacementState s.replacement ⟨setIndex ip, way, ip, ip, type, hit⟩).map (fun r => { s with replacement := r })

def btbPrediction (s : State) (ip : Nat) (ty : BranchType) : Option (State × (Nat × Bool)) :=
  match SideTables.predict s.side ip ty with
  | (side, some r) => some ({ s with side := side }, r)
  | (side, none) =>
      let s := { s with side := side }
      match findEntry s ip with
      | none => some (s, (StreamBuffer.streamBufferPredict s.stream ip, true))
      | some way =>
          let e := s.btb (setIndex ip) way
          (touchLine s ip way .load true).map (fun s => (s, (e.target, e.alwaysTaken)))

def updateExisting (s : State) (ip way branchTarget : Nat) (taken : Bool) : State :=
  s.modify (setIndex ip) way (fun e =>
    if taken then { e with target := branchTarget } else { e with alwaysTaken := false })

def updateBtb (s : State) (ip branchTarget : Nat) (taken : Bool) (ty : BranchType) : Option State :=
  let s := { s with side := SideTables.update s.side ip branchTarget taken ty }
  if ty.usesBtb then
    match findEntry s ip with
    | none =>
        let s := { s with stream := (StreamBuffer.streamBufferUpdate s.stream ip).1 }
        if branchTarget ≠ 0 ∧ taken then
          (getVictimInSet s.replacement (setIndex ip)).bind (fun v =>
            let s := { s with replacement := v.1 }
            touchLine (s.modify (setIndex ip) v.2 (fun _ => ⟨ip, branchTarget, true⟩)) ip v.2 .load false)
        else some s
    | some way => some (updateExisting s ip way branchTarget taken)
  else some s

/-- The test for a used way guards the line after the commented-out one, so a way
that was not in use gets no tag. -/
def fillPrefetched (ip branchTarget : Nat) (e : Entry) : Entry :=
  let e := if e.ipTag ≠ 0 then { e with ipTag := ip } else e
  { e with target := branchTarget, alwaysTaken := true }

def prefetchBtb (s : State) (ip branchTarget : Nat) (ty : BranchType) (taken toStreamBuffer : Bool) : Option State :=
  if ty.usesBtb then
    match findEntry s ip with
    | none =>
        if branchTarget ≠ 0 ∧ taken then
          if toStreamBuffer then
            (StreamBuffer.prefetch s.stream ip branchTarget).map (fun b => { s with stream := b })
          else
            (getVictimInSet s.replacement (setIndex ip)).bind (fun v =>
              let s := { s with replacement := v.1 }
              touchLine (s.modify (setIndex ip) v.2 (fillPrefetched ip branchTarget)) ip v.2 .prefetch false)
        else some s
    | some way => (touchLine s ip way .prefetch true).map (fun s => updateExisting s ip way branchTarget taken)
  else some s

def step (s : State) : Call → Option State
  | .predict ip ty => (btbPrediction s ip ty).map Prod.fst
  | .update ip target taken ty => updateBtb s ip target taken ty
  | .prefetch ip target ty taken toStreamBuffer => prefetchBtb s ip target ty taken toStreamBuffer

variable {s s' : State} {r r' : HawkeyeReplacement.State} {ip set way : Nat} {e : Entry}

theorem findEntry_eq_some (h : findEntry s ip = some way) : way < basicBtbWays ∧ (s.btb (setIndex ip) way).ipTag = ip :=
  ⟨List.mem_range.mp (List.mem_of_find?_eq_some h), by simpa using List.find?_some h⟩

theorem findEntry_eq_none : findEntry s ip = none ↔ ∀ way < basicBtbWays, (s.btb (setIndex ip) way).ipTag ≠ ip := by
  simp [findEntry]

theorem findEntry_of_unique (hway : way < basicBtbWays) (htag : (s.btb (setIndex ip) way).ipTag = ip)
    (hother : ∀ j < basicBtbWays, j ≠ way → (s.btb (setIndex ip) j).ipTag ≠ ip) : findEntry s ip = some way := by
  cases hfind : findEntry s ip with
  | none => exact absurd htag (findEntry_eq_none.mp hfind way hway)
  | some j =>
      obtain ⟨hj, htagj⟩ := findEntry_eq_some hfind
      by_cases heq : j = way
      · rw [heq]
      · exact absurd htagj (hother j hj heq)

theorem lruVictim_lt (rrpv : Nat → Nat) : ∃ way < basicBtbWays, (lruVictim rrpv).2 = some way := by
  have hscan : ∀ n, ∃ way < n + 1, ((List.range (n + 1)).foldl
      (fun (best : Nat × Option Nat) way => if best.1 ≤ rrpv way then (rrpv way, some way) else best) (0, none)).2 = some way := by
    intro n
    induction n with
    | zero => exact ⟨0, Nat.zero_lt_one, by simp⟩
    | succ n ih =>
        obtain ⟨way, hlt, hway⟩ := ih
        rw [List.range_succ, List.foldl_append, List.foldl_cons, List.foldl_nil]
        split_ifs
        · exact ⟨n + 1, Nat.lt_succ_self _, rfl⟩
        · exact ⟨way, Nat.lt_succ_of_lt hlt, hway⟩
  exact hscan 3

theorem getVictimInSet_total (h : HawkeyeSampler.Invariant r) (set : Nat) : ∃ r' way, getVictimInSet r set = some (r', way) ∧
    way < basicBtbWays ∧ HawkeyeSampler.Invariant r' ∧ r'.rrpv = r.rrpv ∧
    (r.rrpv set way = maxRRPV ∧ (∀ j < way, r.rrpv set j ≠ maxRRPV) ∨ ∀ j < basicBtbWays, r.rrpv set j ≠ maxRRPV) := by
  rw [getVictimInSet]
  cases hfind : (List.range basicBtbWays).find? (fun way => r.rrpv set way = maxRRPV) with
  | some way =>
      have hway := List.mem_range.mp (List.mem_of_find?_eq_some hfind)
      obtain ⟨hmax, hleft⟩ := (List.find?_range_eq_some).mp hfind
      refine ⟨r, way, rfl, hway, h, rfl, .inl ⟨by simpa using hmax, ?_⟩⟩
      intro j hj
      simpa using hleft.2 j hj
  | none =>
      obtain ⟨way, hlt, hway⟩ := lruVictim_lt (r.rrpv set)
      have hno : ∀ j < basicBtbWays, r.rrpv set j ≠ maxRRPV := by simpa using hfind
      have htrain : HawkeyeSampler.Invariant (trainEviction r set way) ∧ (trainEviction r set way).rrpv = r.rrpv := by
        rw [trainEviction]
        split_ifs <;> exact ⟨⟨h.ranked, h.full, h.optgen, h.rrpv⟩, rfl⟩
      exact ⟨_, way, by rw [hway]; rfl, hlt, htrain.1, htrain.2, .inr hno⟩

end Thermometer.HawkeyeBtb
