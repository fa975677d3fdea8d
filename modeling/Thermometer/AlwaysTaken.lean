import Thermometer.Lib.Runs
import Thermometer.Trace

namespace Thermometer.AlwaysTaken

open Trace Lib.Runs

/-- The BTB is told that the branch was not taken. -/
def notTaken (ip : Nat) : Call → Prop
  | .update ip' _ taken ty => ip' = ip ∧ taken = false ∧ ty.usesBtb = true
  | _ => False

variable {S C P : Type} [DecidableEq P]

/-- A BTB module, with where it holds a branch and the flag it reports for one. -/
structure Module (S C P : Type) where
  step : S → C → Option S
  call : C → Call
  place : S → Nat → Option P
  reports : S → Nat → Bool

/-- While a branch stays in its place, from the call that brought it there on, a
reported flag is refuted by no outcome. -/
def Module.Sound (m : Module S C P) (initial : S) (ip : Nat) : Prop :=
  ∀ (cs ds : List C) (s t : S) (p : P), run m.step initial cs = some s →
    run (within m.step (fun u => m.place u ip = some p)) s ds = some t → m.reports t ip = true →
    ∀ c ∈ ds, ¬notTaken ip (m.call c)

/-- The places taken together: the branch is held somewhere. -/
def Module.anywhere (m : Module S C P) : Module S C Unit where
  step := m.step
  call := m.call
  place s ip := (m.place s ip).map (fun _ => ())
  reports := m.reports

/-- It is enough that a not taken outcome clears the flag and that no call sets
it while the branch stays. -/
theorem Module.sound_of {m : Module S C P} {initial : S} {ip : Nat} {I : S → Prop} (hinit : I initial)
    (hI : ∀ s c t, I s → m.step s c = some t → I t)
    (hclear : ∀ s c t p, I s → m.step s c = some t → notTaken ip (m.call c) → m.place t ip = some p →
      m.reports t ip = false)
    (hkeep : ∀ s c t p, I s → m.step s c = some t → m.place s ip = some p → m.place t ip = some p →
      m.reports t ip = true → m.reports s ip = true) : m.Sound initial ip := by
  intro cs ds s t p hcs hds hrep
  have hs : I s := run_preserves (fun s t c _ => hI s c t) hinit hcs
  refine run_within_none (F := fun u => m.reports u ip = true) hI ?_ ?_ hs hds hrep
  · intro s c t hs hstep hc hp
    rw [hclear s c t p hs hstep hc hp]
    exact Bool.false_ne_true
  · intro s c t hs hstep
    exact hkeep s c t p hs hstep

theorem Module.not_sound_of_run {m : Module S C P} {initial : S} {ip : Nat} {p : P} {ds : List C}
    (hrun : (run (within m.step (fun u => m.place u ip = some p)) initial ds).any (fun t => m.reports t ip) = true)
    (hds : ∃ c ∈ ds, notTaken ip (m.call c)) : ¬m.Sound initial ip := by
  intro h
  cases ht : run (within m.step (fun u => m.place u ip = some p)) initial ds with
  | none =>
      rw [ht] at hrun
      cases hrun
  | some t =>
      rw [ht] at hrun
      obtain ⟨c, hc, hno⟩ := hds
      exact h [] ds initial t p rfl ht hrun c hc hno

end Thermometer.AlwaysTaken
