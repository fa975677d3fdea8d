import Thermometer.OptStep
import Thermometer.OptBtbGenerate

namespace Thermometer.OptReplay

open Trace Lib.Tables Lib.Runs OptBtb OptFuture OptStep

def ticks : Call → Nat
  | .predict _ ty => if ty.usesBtb then 1 else 0
  | _ => 0

/-- The number of a branch that comes after `bs`. -/
def number (bs : List Branch) : Nat := (bs.filter (fun b => b.branchType.usesBtb)).length

theorem ticks_prefetches {ps : List Call} (h : ∀ p ∈ ps, p.isPrefetch = true) : (ps.map ticks).sum = 0 := by
  induction ps with
  | nil => rfl
  | cons p ps ih =>
      have hp : ticks p = 0 := by
        cases p with
        | predict ip ty => exact absurd (h _ List.mem_cons_self) (by simp [Call.isPrefetch])
        | update ip target taken ty => rfl
        | prefetch ip target ty taken toStreamBuffer => rfl
      rw [List.map_cons, List.sum_cons, hp, ih (fun q hq => h q (List.mem_cons_of_mem _ hq))]

theorem ticks_drives {bs : List Branch} {cs : List Call} (h : Drives bs cs) : (cs.map ticks).sum = number bs := by
  induction h with
  | nil => rfl
  | prefetch p hp h ih =>
      rw [List.map_cons, List.sum_cons, ih]
      have hone := @ticks_prefetches [p] (by simpa using hp)
      simpa using hone
  | @branch bs cs ps b hps h ih =>
      rw [List.map_cons, List.sum_cons, List.map_append, List.sum_append, ticks_prefetches hps, List.map_cons,
        List.sum_cons, ih, number, number, List.filter_cons]
      cases hty : b.branchType.usesBtb <;> simp [ticks, hty, Nat.add_comm]

structure Clock (s u : State) (n : Nat) : Prop where
  sound : Sound u
  accesses : u.opt.futureAccesses = s.opt.futureAccesses
  time : u.opt.timestamp = s.opt.timestamp + n

variable {s : State}

theorem step_clock (hs : Sound s) (e : IterOrder × Call) : ∃ u, step s e = some u ∧ Clock s u (ticks e.2) := by
  obtain ⟨o, c⟩ := e
  cases c with
  | predict ip ty =>
      obtain ⟨hopt, -⟩ := btbPrediction_opt s ip ty
      exact ⟨_, rfl, btbPrediction_sound hs ip ty, by rw [hopt], by rw [hopt]; rfl⟩
  | update ip target taken ty =>
      obtain ⟨u, hu, h⟩ := updateBtb_served hs o ip target taken ty
      exact ⟨u, hu, h.sound, h.same.accesses, h.same.time⟩
  | prefetch ip target ty taken toStreamBuffer =>
      obtain ⟨u, hu, h⟩ := prefetchBtb_served hs o ip target ty taken toStreamBuffer
      exact ⟨u, hu, h.sound, h.same.accesses, h.same.time⟩

theorem run_clock (hs : Sound s) (es : List (IterOrder × Call)) :
    ∃ u, run step s es = some u ∧ Clock s u ((es.map Prod.snd).map ticks).sum := by
  induction es generalizing s with
  | nil => exact ⟨s, rfl, hs, rfl, rfl⟩
  | cons e es ih =>
      obtain ⟨t, ht, hc⟩ := step_clock hs e
      obtain ⟨u, hu, hd⟩ := ih hc.sound
      refine ⟨u, by rw [run_cons, ht]; exact hu, hd.sound, hd.accesses.trans hc.accesses, ?_⟩
      rw [hd.time, hc.time, List.map_cons, List.map_cons, List.sum_cons, Nat.add_assoc]

/-- The generator writes the demand record of its trace, and when the OPT BTB runs
the same trace its clock shows the number of the branch being updated, so that
what it looks up comes later in that trace. -/
theorem record_replay {bs : List Branch} {cs : List Call} (h : Drives bs cs) (hwf : ∀ b ∈ bs, b.WellFormed)
    {g₀ : OptBtbGenerate.State} (hb : StreamBuffer.Bounded g₀.stream) (htime : g₀.timestamp = 0)
    (hrec : g₀.record = []) :
    ∃ g, run OptBtbGenerate.step g₀ cs = some g ∧ g.record = demandRecord 0 bs ∧
      ∀ sets ways twig counter bs₁ b bs₂ cs₁ ps (es : List (IterOrder × Call)),
        bs = bs₁ ++ b :: bs₂ → b.branchType.usesBtb = true → Drives bs₁ cs₁ →
        (∀ p ∈ ps, p.isPrefetch = true) → es.map Prod.snd = cs₁ ++ .predict b.ip b.branchType :: ps →
        ∃ s, run step (initializeBtb sets ways g.record twig counter) es = some s ∧
          s.opt.time = number bs₁ ∧
          ∀ i ip c, nextAccess s.opt i ip = some c → number bs₁ < c ∧
            ∃ b', (bs.filter (fun b => b.branchType.usesBtb))[c]? = some b' ∧ b'.taken = true ∧ b'.ip = ip := by
  obtain ⟨g, hg, hgr⟩ := OptBtbGenerate.run_record h hwf hb
  rw [hrec, htime, List.nil_append] at hgr
  refine ⟨g, hg, hgr, ?_⟩
  intro sets ways twig counter bs₁ b bs₂ cs₁ ps es _ hty h₁ hps hes
  obtain ⟨s, hs, hclock⟩ := run_clock (initial_sound sets ways g.record twig counter) es
  have hstart : (initializeBtb sets ways g.record twig counter).opt.timestamp = 0 :=
    (readRecord_same twig (Opt.init (T := OptBtb.Entry) sets ways) g.record counter).time
  have hsum : ((es.map Prod.snd).map ticks).sum = number bs₁ + 1 := by
    rw [hes, List.map_append, List.sum_append, ticks_drives h₁, List.map_cons, List.sum_cons,
      ticks_prefetches hps, ticks, if_pos hty]
  have htime : s.opt.time = number bs₁ := by
    rw [Opt.time, hclock.time, hstart, hsum, if_neg (by omega)]
    omega
  refine ⟨s, hs, htime, fun i ip c hc => ?_⟩
  obtain ⟨hmem, hlt, -⟩ := upperBound_eq_some hc
  rw [hclock.accesses, initializeBtb, mem_times_readRecord, hgr, mem_demandRecord, Nat.sub_zero] at hmem
  rw [htime] at hlt
  exact ⟨hlt, hmem.2.2⟩

theorem drives_calls (bs : List Branch) : Drives bs (bs.flatMap Branch.calls) := by
  induction bs with
  | nil => exact .nil
  | cons b bs ih => exact @Drives.branch bs _ [] b (fun _ hp => absurd hp List.not_mem_nil) ih

def jumpAgain : List Branch :=
  [⟨4, 40, true, .directJump⟩, ⟨8, 0, false, .conditional⟩, ⟨16, 100, true, .ret⟩, ⟨4, 40, true, .directJump⟩]

def upToBranch : List (IterOrder × Call) :=
  [(.stored, .predict 4 .directJump), (.stored, .update 4 40 true .directJump), (.stored, .predict 8 .conditional)]

theorem record_replay_jumpAgain :
    ∃ g s, run OptBtbGenerate.step (OptBtbGenerate.initializeBtb 4) (jumpAgain.flatMap Branch.calls) = some g ∧
      g.record = [(4, 0), (4, 2)] ∧ run step (initializeBtb 1 1 g.record none 0) upToBranch = some s ∧
      s.opt.time = 1 ∧ nextAccess s.opt 0 4 = some 2 ∧
      ∃ b, (jumpAgain.filter (fun b => b.branchType.usesBtb))[2]? = some b ∧ b.taken = true ∧ b.ip = 4 := by
  obtain ⟨g, hg, hrecord, hreplay⟩ := @record_replay jumpAgain _ (drives_calls jumpAgain)
    (fun b hb => ⟨by revert b; decide, by revert b; decide⟩) (OptBtbGenerate.initializeBtb 4)
    (StreamBuffer.bounded_empty (by decide)) rfl rfl
  obtain ⟨s, hs, htime, hnext⟩ := hreplay 1 1 none 0 [⟨4, 40, true, .directJump⟩] ⟨8, 0, false, .conditional⟩
    [⟨16, 100, true, .ret⟩, ⟨4, 40, true, .directJump⟩] _ [] upToBranch rfl rfl (drives_calls _)
    (fun _ hp => absurd hp List.not_mem_nil) rfl
  have hagain : nextAccess s.opt 0 4 = some 2 := by
    have hcode : (run step (initializeBtb 1 1 (demandRecord 0 jumpAgain) none 0) upToBranch).map
        (fun s => nextAccess s.opt 0 4) = some (some 2) := by decide +kernel
    rw [← hrecord, hs] at hcode
    exact Option.some.inj hcode
  exact ⟨g, s, hg, hrecord, hs, htime, hagain, (hnext 0 4 2 hagain).2⟩

end Thermometer.OptReplay
