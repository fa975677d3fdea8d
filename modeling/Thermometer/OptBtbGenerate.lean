import Thermometer.BasicBtb

namespace Thermometer.OptBtbGenerate

open Trace BasicBtb Lib.Runs

/-- An LRU BTB that writes the demand record of the trace it sees. -/
structure State extends BasicBtb.State where
  record : List (Nat × Nat)

def initializeBtb (ways : Nat) : State := ⟨.initial (maskIndex (2048 * 4 / ways)) ways, []⟩

def btbPrediction (s : State) (ip : Nat) (ty : BranchType) : State × (Nat × Bool) :=
  match SideTables.predict s.side ip ty with
  | (side, some r) => ({ s with side := side }, r)
  | (side, none) =>
      let s := { s with side := side }
      match findEntry s.toState ip with
      | none => (s, (StreamBuffer.streamBufferPredict s.stream ip, true))
      | some way =>
          let e := s.entry (s.set ip) way
          ({ s with toState := updateLru s.toState (s.set ip) way }, (e.target, e.alwaysTaken))

def updateBtb (s : State) (ip branchTarget : Nat) (taken : Bool) (ty : BranchType) : State :=
  let s := { s with side := SideTables.update s.side ip branchTarget taken ty }
  if ty.usesBtb then
    let s : State :=
      match findEntry s.toState ip with
      | none =>
          let s := { s with stream := (StreamBuffer.streamBufferUpdate s.stream ip).1 }
          if branchTarget ≠ 0 ∧ taken then
            ⟨allocate s.toState ip branchTarget, s.record ++ [(ip, s.timestamp)]⟩
          else s
      | some way =>
          let t := updateExisting s.toState (s.set ip) way branchTarget taken
          if taken then ⟨t, s.record ++ [(ip, s.timestamp)]⟩ else ⟨t, s.record⟩
    { s with timestamp := s.timestamp + 1 }
  else s

def prefetchBtb (s : State) (ip branchTarget : Nat) (ty : BranchType) (taken toStreamBuffer : Bool) : Option State :=
  (BasicBtb.prefetchBtb s.toState ip branchTarget ty taken toStreamBuffer).map (fun t => ⟨t, s.record⟩)

def step (s : State) : Call → Option State
  | .predict ip ty => some (btbPrediction s ip ty).1
  | .update ip target taken ty => some (updateBtb s ip target taken ty)
  | .prefetch ip target ty taken toStreamBuffer => prefetchBtb s ip target ty taken toStreamBuffer

structure Quiet (s t : State) : Prop where
  record : t.record = s.record
  timestamp : t.timestamp = s.timestamp
  bounded : StreamBuffer.Bounded t.stream

variable {s t : State}

theorem btbPrediction_quiet (hb : StreamBuffer.Bounded s.stream) (ip : Nat) (ty : BranchType) :
    Quiet s (btbPrediction s ip ty).1 := by
  rw [btbPrediction]
  split
  · exact ⟨rfl, rfl, hb⟩
  · dsimp only
    split
    · exact ⟨rfl, rfl, hb⟩
    · exact ⟨rfl, rfl, hb⟩

theorem prefetchBtb_quiet (hb : StreamBuffer.Bounded s.stream) (ip target : Nat) (ty : BranchType)
    (taken toStreamBuffer : Bool) :
    ∃ t, prefetchBtb s ip target ty taken toStreamBuffer = some t ∧ Quiet s t := by
  have hquiet : ∃ u, BasicBtb.prefetchBtb s.toState ip target ty taken toStreamBuffer = some u ∧
      u.timestamp = s.timestamp ∧ StreamBuffer.Bounded u.stream := by
    rw [BasicBtb.prefetchBtb]
    by_cases hty : ty.usesBtb = true
    · rw [if_pos hty]
      cases findEntry s.toState ip with
      | none =>
          by_cases ha : target ≠ 0 ∧ taken = true
          · simp only [if_pos ha]
            cases toStreamBuffer with
            | true =>
                obtain ⟨b, hpre, hbb⟩ := StreamBuffer.prefetch_bounded hb ip ha.1
                exact ⟨{ s.toState with stream := b }, by simp [hpre], rfl, hbb⟩
            | false => exact ⟨_, rfl, rfl, hb⟩
          · simp only [if_neg ha]
            exact ⟨_, rfl, rfl, hb⟩
      | some way => exact ⟨_, rfl, rfl, hb⟩
    · rw [if_neg hty]
      exact ⟨_, rfl, rfl, hb⟩
  obtain ⟨u, hu, htime, hbu⟩ := hquiet
  exact ⟨⟨u, s.record⟩, by rw [prefetchBtb, hu]; rfl, rfl, htime, hbu⟩

theorem updateBtb_record (hb : StreamBuffer.Bounded s.stream) {b : Branch} (hwf : b.WellFormed) :
    let t := updateBtb s b.ip b.branchTarget b.taken b.branchType
    StreamBuffer.Bounded t.stream ∧ ∀ bs, t.record ++ demandRecord t.timestamp bs =
      s.record ++ demandRecord s.timestamp (b :: bs) := by
  simp only [updateBtb, demandRecord]
  by_cases hty : b.branchType.usesBtb = true
  · simp only [if_pos hty]
    cases findEntry _ b.ip with
    | none =>
        cases ht : b.taken with
        | true =>
            have htarget := hwf.taken_iff.mp ht
            simp only [if_pos (And.intro htarget trivial)]
            refine ⟨StreamBuffer.update_bounded hb b.ip, fun bs => ?_⟩
            simp [allocate, updateLru, State.modify]
        | false =>
            simp only [Bool.false_eq_true, and_false, if_false]
            exact ⟨StreamBuffer.update_bounded hb b.ip, fun _ => trivial⟩
    | some way =>
        cases ht : b.taken with
        | true =>
            refine ⟨hb, fun bs => ?_⟩
            simp [updateExisting, State.modify]
        | false => exact ⟨hb, fun _ => rfl⟩
  · simp only [if_neg hty]
    exact ⟨hb, fun bs => trivial⟩

theorem prefetches_quiet {ps : List Call} (hps : ∀ p ∈ ps, p.isPrefetch = true)
    (hb : StreamBuffer.Bounded s.stream) : ∃ t, run step s ps = some t ∧ Quiet s t := by
  induction ps generalizing s with
  | nil => exact ⟨s, rfl, rfl, rfl, hb⟩
  | cons p ps ih =>
      cases p with
      | predict ip ty => exact absurd (hps _ List.mem_cons_self) (by simp [Call.isPrefetch])
      | update ip target taken ty => exact absurd (hps _ List.mem_cons_self) (by simp [Call.isPrefetch])
      | prefetch ip target ty taken toStreamBuffer =>
          obtain ⟨t, ht, hq⟩ := prefetchBtb_quiet hb ip target ty taken toStreamBuffer
          obtain ⟨u, hu, hr⟩ := ih (fun p hp => hps p (List.mem_cons_of_mem _ hp)) hq.bounded
          refine ⟨u, ?_, hr.record.trans hq.record, hr.timestamp.trans hq.timestamp, hr.bounded⟩
          rw [run_cons, step, ht]
          exact hu

theorem run_record {bs : List Branch} {cs : List Call} (h : Drives bs cs) (hwf : ∀ b ∈ bs, b.WellFormed)
    (hb : StreamBuffer.Bounded s.stream) :
    ∃ t, run step s cs = some t ∧ t.record = s.record ++ demandRecord s.timestamp bs := by
  induction h generalizing s with
  | nil => exact ⟨s, rfl, by rw [demandRecord, List.append_nil]⟩
  | prefetch p hp h ih =>
      obtain ⟨t, ht, hq⟩ := @prefetches_quiet s [p] (by simpa using hp) hb
      obtain ⟨u, hu, hr⟩ := ih hwf hq.bounded
      refine ⟨u, ?_, by rw [hr, hq.record, hq.timestamp]⟩
      rw [← List.singleton_append, run_append, ht]
      exact hu
  | @branch bs cs ps b hps h ih =>
      have hq₁ := btbPrediction_quiet hb b.ip b.branchType
      obtain ⟨t, ht, hq₂⟩ := prefetches_quiet hps hq₁.bounded
      obtain ⟨hbu, hrec⟩ := updateBtb_record hq₂.bounded (hwf b List.mem_cons_self)
      obtain ⟨u, hu, hr⟩ := ih (fun b hb => hwf b (List.mem_cons_of_mem _ hb)) hbu
      refine ⟨u, ?_, ?_⟩
      · rw [run_cons, step, Option.bind_some, run_append, ht, Option.bind_some, run_cons]
        exact hu
      · rw [hr, hrec, hq₂.record, hq₂.timestamp, hq₁.record, hq₁.timestamp]

end Thermometer.OptBtbGenerate
