import Thermometer.ProfileFile
import Thermometer.OptStep

namespace Thermometer.OptProfile

open Trace Lib.Tables Lib.Runs AccessRecord ProfileFile OptBtb OptStep

variable {D : Type} [NatCast D] [Add D] [Div D]

theorem accesses_pos {e : RecordEntry} {m : RecordType} {ms : List RecordType} (h : e.record = m :: ms)
    (hm : m ≠ .evict) : 0 < hits e.record + misses e.record := by
  rw [h, hits, misses]
  cases m with
  | hit => simp
  | missOnly => simp
  | missInsert => simp
  | evict => exact absurd rfl hm

/-- Whatever an OPT run has recorded, the profile read from its file has the same
branches, each with its hits over its accesses, of which there is at least one. -/
theorem profile_round_trip (sets ways : Nat) (record : List (Nat × Nat)) (twig : Option (Table (List (Nat × Nat))))
    (counter : Nat) (es : List (IterOrder × Call)) :
    ∃ s, run step (initializeBtb sets ways record twig counter) es = some s ∧
      ∃ profile : Table D, initRecord (printFinalStats s.accessRecord) = some profile ∧
        (∀ ip, ip ∈ profile ↔ ip ∈ s.accessRecord.branchRecord) ∧
        ∀ ip e, s.accessRecord.branchRecord.lookup ip = some e →
          profile.lookup ip = some ((hits e.record : D) / ((hits e.record : D) + (misses e.record : D))) ∧
            hits e.record + misses e.record ≠ 0 := by
  have hrun : ∃ s, run step (initializeBtb sets ways record twig counter) es = some s ∧ Sound s :=
    run_total (fun _ e _ h => step_sound h e) (initial_sound sets ways record twig counter)
  obtain ⟨s, hs, hsound⟩ := hrun
  obtain ⟨profile, hp, hlook⟩ := initRecord_printFinalStats (D := D) s.accessRecord
  refine ⟨s, hs, profile, hp, fun ip => ?_, fun ip e he => ⟨(hlook ip _).mpr ⟨e, he, rfl⟩, ?_⟩⟩
  · rw [mem_iff_lookup, mem_iff_lookup]
    constructor
    · rintro ⟨q, hq⟩
      obtain ⟨e, he, -⟩ := (hlook ip q).mp hq
      exact ⟨e, he⟩
    · rintro ⟨e, he⟩
      exact ⟨_, (hlook ip _).mpr ⟨e, he, rfl⟩⟩
  · obtain ⟨m, ms, hrec, hm⟩ := hsound.started.access ip e he
    exact Nat.ne_of_gt (accesses_pos hrec hm)

end Thermometer.OptProfile
