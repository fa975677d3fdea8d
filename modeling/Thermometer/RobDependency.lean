import Thermometer.RobExact

namespace Thermometer.RobDependency

open Lib.Rings Lib.Runs ReorderBuffer RobShape RobEdges RobCounts RobScan RobQueue RobWakeup RobExact

variable {s t u : State} {i k l a : Nat} {j source : Fin numInstrSources} {P : Nat → Prop}

def hits (s : State) (i : Nat) (j : Fin numInstrSources) (k : Nat) : Bool :=
  (s.entry i).sourceRegisters j ≠ 0 ∧ (s.entry k).executed ≠ .completed ∧
    (s.entry k).writes ((s.entry i).sourceRegisters j) = true

theorem hits_iff : hits s i j k = true ↔ (s.entry i).sourceRegisters j ≠ 0 ∧ (s.entry k).executed ≠ .completed ∧
    (s.entry k).writes ((s.entry i).sourceRegisters j) = true :=
  decide_eq_true_iff

theorem hits_looked (h : Looked i s t) : hits t i j k = hits s i j k := by
  rw [Bool.eq_iff_iff, hits_iff, hits_iff, RobEntry.writes, RobEntry.writes, h.sources, h.executed, h.destinations]

theorem checkSource_recorded (l : Nat) (j source : Fin numInstrSources) (hs : Scanning i s) (hold : Older s k i)
    (hpending : (s.entry k).executed ≠ .completed) :
    (Recorded (checkSource i k s source) l i j ↔ Recorded s l i j ∨
      l = k ∧ j = source ∧ hits s i source k = true ∧ ¬(s.entry i).regRawChecked source = true) ∧
    (((checkSource i k s source).entry i).regRawChecked j = true ↔
      (s.entry i).regRawChecked j = true ∨ j = source ∧ hits s i source k = true) := by
  have hne : k ≠ i := hold.ne hs.shape
  by_cases hgo : (s.entry i).sourceRegisters source ≠ 0 ∧ (s.entry i).regRawChecked source = false
  · rw [checkSource, if_pos hgo, regRawDependency]
    by_cases hw : (s.entry k).writes ((s.entry i).sourceRegisters source) = true
    · have hhit : hits s i source k = true := hits_iff.mpr ⟨hgo.1, hpending, hw⟩
      rw [if_pos hw]
      refine ⟨?_, ?_⟩
      · rw [link_recorded hne]
        simp [hhit, hgo.2]
      · rw [link_entry_current hne]
        show Function.update (s.entry i).regRawChecked source true j = true ↔ _
        by_cases hj : j = source
        · simp [hj, hhit]
        · simp [hj]
    · have hhit : hits s i source k ≠ true := fun h => hw (hits_iff.mp h).2.2
      rw [if_neg hw]
      simp [hhit]
  · rw [checkSource, if_neg hgo]
    refine ⟨?_, ?_⟩
    · refine ⟨.inl, fun h => h.resolve_right ?_⟩
      rintro ⟨-, -, hhit, hunchecked⟩
      exact hgo ⟨(hits_iff.mp hhit).1, Bool.eq_false_iff.mpr hunchecked⟩
    · refine ⟨.inl, fun h => h.elim id ?_⟩
      rintro ⟨rfl, hhit⟩
      by_contra hunchecked
      exact hgo ⟨(hits_iff.mp hhit).1, Bool.eq_false_iff.mpr hunchecked⟩

theorem checkSources_recorded (l : Nat) (j : Fin numInstrSources) (sources : List (Fin numInstrSources))
    (hs : Scanning i s) (hold : Older s k i)
    (hpending : (s.entry k).executed ≠ .completed) :
    (Recorded (sources.foldl (checkSource i k) s) l i j ↔ Recorded s l i j ∨
      l = k ∧ j ∈ sources ∧ hits s i j k = true ∧ ¬(s.entry i).regRawChecked j = true) ∧
    (((sources.foldl (checkSource i k) s).entry i).regRawChecked j = true ↔
      (s.entry i).regRawChecked j = true ∨ j ∈ sources ∧ hits s i j k = true) := by
  induction sources generalizing s with
  | nil => simp
  | cons source sources ih =>
      obtain ⟨hstep, hlooked⟩ := checkSource_scanning source hs hold hpending
      have hpending' : ((checkSource i k s source).entry k).executed ≠ .completed := by
        rw [hlooked.executed]
        exact hpending
      obtain ⟨hrecorded, hchecked⟩ := checkSource_recorded l j source hs hold hpending
      obtain ⟨hrecorded', hchecked'⟩ := ih hstep (hlooked.older.mpr hold) hpending'
      rw [List.foldl_cons, hrecorded', hchecked', hrecorded, hchecked, hits_looked hlooked, List.mem_cons]
      clear ih hs hold hpending hstep hlooked hpending' hrecorded hchecked hrecorded' hchecked'
      generalize Recorded s l i j = recorded
      generalize (s.entry i).regRawChecked = checked
      by_cases hj : j = source
      · subst hj
        generalize (checked j = true) = done, (hits s i j k = true) = hit
        tauto
      · generalize (checked j = true) = done, (hits s i j k = true) = hit
        tauto

theorem checkPrior_recorded (hs : Scanning i s) (hold : Older s k i) :
    (Recorded (checkPrior i s k) l i j ↔ Recorded s l i j ∨
      l = k ∧ hits s i j k = true ∧ ¬(s.entry i).regRawChecked j = true) ∧
    (((checkPrior i s k).entry i).regRawChecked j = true ↔ (s.entry i).regRawChecked j = true ∨ hits s i j k = true) := by
  rw [checkPrior]
  by_cases hpending : (s.entry k).executed ≠ .completed
  · rw [if_pos hpending]
    have h := checkSources_recorded l j (List.finRange numInstrSources) hs hold hpending
    simpa only [List.mem_finRange, true_and] using h
  · have hhit : hits s i j k ≠ true := fun h => hpending (hits_iff.mp h).2.1
    rw [if_neg hpending]
    simp [hhit]

theorem checkPriors_recorded {priors : List Nat} (hs : Scanning i s) (hold : ∀ k ∈ priors, Older s k i) :
    Recorded (priors.foldl (checkPrior i) s) l i j ↔
      Recorded s l i j ∨ ¬(s.entry i).regRawChecked j = true ∧ priors.find? (hits s i j) = some l := by
  induction priors generalizing s with
  | nil => simp
  | cons k priors ih =>
      obtain ⟨hstep, hlooked⟩ := checkPrior_scanning hs (hold k List.mem_cons_self)
      obtain ⟨hrecorded, hchecked⟩ := checkPrior_recorded (l := l) (j := j) hs (hold k List.mem_cons_self)
      have hhits : hits (checkPrior i s k) i j = hits s i j := funext (fun _ => hits_looked hlooked)
      have hrest := ih hstep (fun m hm => hlooked.older.mpr (hold m (List.mem_cons_of_mem k hm)))
      rw [List.foldl_cons, hrest, hrecorded, hhits, hchecked]
      clear ih hs hold hstep hlooked hrecorded hchecked hhits hrest
      generalize Recorded s l i j = recorded
      generalize ((s.entry i).regRawChecked j = true) = done
      by_cases hk : hits s i j k = true
      · rw [List.find?_cons_of_pos hk, Option.some.injEq]
        tauto
      · rw [List.find?_cons_of_neg hk]
        tauto

theorem pushReady_entry (h : pushReady s i = some u) : u.entry = s.entry := by
  rw [pushReady, Option.map_eq_some_iff] at h
  obtain ⟨r, -, rfl⟩ := h
  rfl

theorem doScheduling_recorded (h : doScheduling s i = some u) :
    Recorded u l i j ↔ Recorded (regDependency (s.modifyEntry i (fun e => { e with regReady := true })) i) l i j := by
  rw [doScheduling] at h
  generalize regDependency (s.modifyEntry i (fun e => { e with regReady := true })) i = t at h ⊢
  have hkeep : ∀ stage, Recorded (t.modifyEntry i (fun e => { e with scheduled := stage })) l i j ↔ Recorded t l i j := by
    intro stage
    rw [Recorded, entry_keeps RobEntry.registersIndexDependOnMe rfl, Recorded]
  by_cases hmem : (t.entry i).isMemory = true
  · rw [if_pos hmem, Option.some.injEq] at h
    rw [← h]
    exact hkeep .inflight
  · simp only [if_neg hmem] at h
    split_ifs at h with hready
    · rw [Recorded, pushReady_entry h]
      exact hkeep .completed
    · rw [← Option.some.inj h]
      exact hkeep .completed

theorem schedule_recorded (h : Inv [] s) (hi : Live s i) (hidle : (s.entry i).scheduled = .idle)
    (hu : scheduleInstruction s i = some u) : Recorded u l i j ↔ (scan s i).find? (hits s i j) = some l := by
  rw [scheduleInstruction, if_pos hidle] at hu
  have hscan := start_scanning h.shape h.edges h.counts hi hidle
  have hlooked := start_looked hi
  have hstart : ¬Recorded (s.modifyEntry i (fun e => { e with regReady := true })) l i j := by
    rw [Recorded, entry_keeps RobEntry.registersIndexDependOnMe rfl]
    exact fun hr => not_begun hidle (h.edges.begun hr)
  have hunchecked : ¬((s.modifyEntry i (fun e => { e with regReady := true })).entry i).regRawChecked j = true := by
    rw [entry_self]
    exact Bool.eq_false_iff.mp (h.edges.fresh (not_begun hidle) j)
  have hhits : hits (s.modifyEntry i (fun e => { e with regReady := true })) i j = hits s i j :=
    funext (fun _ => hits_looked hlooked)
  have hrecorded := checkPriors_recorded (l := l) (j := j) hscan (fun k hk => older_of_mem_scan hscan.shape hscan.live hk)
  rw [hhits, or_iff_right hstart, and_iff_right hunchecked] at hrecorded
  exact (doScheduling_recorded hu).trans hrecorded

def Youngest (s : State) (i : Nat) (P : Nat → Prop) (k : Nat) : Prop :=
  Older s k i ∧ P k ∧ ∀ l, Older s l i → P l → l = k ∨ Older s l k

theorem find_youngest {f : Nat → Nat} {p : Nat → Bool} (h : ((List.range a).map f).reverse.find? p = some k) :
    ∃ b < a, f b = k ∧ p k = true ∧ ∀ c, b < c → c < a → p (f c) = false := by
  induction a with
  | zero => cases h
  | succ a ih =>
      rw [List.range_succ, List.map_append, List.reverse_append] at h
      by_cases hp : p (f a) = true
      · have hk := (List.find?_cons_of_pos hp).symm.trans h
        rw [Option.some.injEq] at hk
        exact ⟨a, Nat.lt_succ_self a, hk, hk ▸ hp, fun c hc hca => absurd hca (Nat.not_lt.mpr hc)⟩
      · obtain ⟨b, hb, hfb, hpk, hlater⟩ := ih ((List.find?_cons_of_neg hp).symm.trans h)
        refine ⟨b, Nat.lt_succ_of_lt hb, hfb, hpk, fun c hbc hc => ?_⟩
        rcases Nat.lt_succ_iff_lt_or_eq.mp hc with hc | rfl
        · exact hlater c hbc hc
        · exact Bool.eq_false_iff.mpr hp

theorem youngest_unique (hs : Shape s) (hk : Youngest s i P k) (hl : Youngest s i P l) : k = l := by
  rcases hk.2.2 l hl.1 hl.2.1 with rfl | hlk
  · rfl
  · rcases hl.2.2 k hk.1 hk.2.1 with rfl | hkl
    · rfl
    · obtain ⟨a, b, hab, hb, rfl, rfl⟩ := hlk
      obtain ⟨c, d, hcd, hd, hc, hd'⟩ := hkl
      have hcb := slot_inj hs (hcd.trans hd) hb hc
      have hda := slot_inj hs hd (hab.trans hb) hd'
      omega

theorem youngest_of_find (hs : Shape s) (hi : Live s i) {p : Nat → Bool} (h : (scan s i).find? p = some k) :
    Youngest s i (fun k => p k = true) k := by
  obtain ⟨a, ha, rfl⟩ := hi
  rw [scan_slot hs ha] at h
  obtain ⟨b, hb, rfl, hp, hlater⟩ := find_youngest h
  refine ⟨⟨b, a, hb, ha, rfl, rfl⟩, hp, fun l hl hpl => ?_⟩
  obtain ⟨c, d, hcd, hd, rfl, hda⟩ := hl
  have hda := slot_inj hs hd ha hda
  rcases Nat.lt_trichotomy c b with hcb | rfl | hbc
  · exact .inr ⟨c, b, hcb, hb.trans ha, rfl, rfl⟩
  · exact .inl rfl
  · rw [hlater c hbc (hda ▸ hcd)] at hpl
    cases hpl

theorem mem_scan_of_older (hs : Shape s) (h : Older s k i) : k ∈ scan s i := by
  obtain ⟨a, b, hab, hb, rfl, rfl⟩ := h
  rw [scan_slot hs hb, List.mem_reverse]
  exact List.mem_map_of_mem (List.mem_range.mpr hab)

theorem find_eq_some_iff_youngest (hs : Shape s) (hi : Live s i) {p : Nat → Bool} :
    (scan s i).find? p = some k ↔ Youngest s i (fun k => p k = true) k := by
  refine ⟨youngest_of_find hs hi, fun h => ?_⟩
  cases hfind : (scan s i).find? p with
  | none => exact absurd h.2.1 (List.find?_eq_none.mp hfind k (mem_scan_of_older hs h.1))
  | some l => rw [youngest_unique hs (youngest_of_find hs hi hfind) h]

/-- An older instruction that writes a source of `i`. -/
def Writer (s : State) (i : Nat) (j : Fin numInstrSources) (k : Nat) : Prop :=
  (s.entry k).writes ((s.entry i).sourceRegisters j) = true

def Pending (s : State) (k : Nat) : Prop := (s.entry k).executed ≠ .completed

/-- The producer of a source is recorded just as it should be. -/
def Faithful (s u : State) (i : Nat) (j : Fin numInstrSources) : Prop :=
  ∀ k, Recorded u k i j ↔ Youngest s i (Writer s i j) k ∧ Pending s k

def Covered (s : State) (i : Nat) (j : Fin numInstrSources) : Prop :=
  (∃ k, Older s k i ∧ Writer s i j k ∧ Pending s k) → ∃ k, Youngest s i (Writer s i j) k ∧ Pending s k

theorem recorded_iff (h : Inv [] s) (hi : Live s i) (hidle : (s.entry i).scheduled = .idle)
    (hu : scheduleInstruction s i = some u) (hj : (s.entry i).sourceRegisters j ≠ 0) :
    Recorded u k i j ↔ Youngest s i (fun k => Pending s k ∧ Writer s i j k) k := by
  have hpred : (fun k => hits s i j k = true) = fun k => Pending s k ∧ Writer s i j k := by
    funext k
    rw [hits_iff, and_iff_right hj, Pending, Writer]
  rw [schedule_recorded h hi hidle hu, find_eq_some_iff_youngest h.shape hi, hpred]

theorem exists_youngest (hs : Shape s) [DecidablePred P] (h : Older s k i) (hk : P k) : ∃ l, Youngest s i P l := by
  cases hfind : (scan s i).find? (fun k => P k) with
  | none => exact absurd (decide_eq_true hk) (List.find?_eq_none.mp hfind k (mem_scan_of_older hs h))
  | some l =>
      refine ⟨l, ?_⟩
      simpa only [decide_eq_true_eq] using youngest_of_find hs h.right hfind

theorem faithful_iff_covered (h : Inv [] s) (hi : Live s i) (hidle : (s.entry i).scheduled = .idle)
    (hu : scheduleInstruction s i = some u) (hj : (s.entry i).sourceRegisters j ≠ 0) :
    Faithful s u i j ↔ Covered s i j := by
  rw [Faithful]
  simp only [recorded_iff h hi hidle hu hj]
  constructor
  · rintro hlaw ⟨k, hold, hwrites, hpending⟩
    have hdec : DecidablePred (fun k => Pending s k ∧ Writer s i j k) := Classical.decPred _
    obtain ⟨l, hl⟩ := exists_youngest (P := fun k => Pending s k ∧ Writer s i j k) h.shape hold ⟨hpending, hwrites⟩
    exact ⟨l, (hlaw l).mp hl⟩
  · intro hcovered k
    constructor
    · intro hk
      obtain ⟨l, hl, hpending⟩ := hcovered ⟨k, hk.1, hk.2.1.2, hk.2.1.1⟩
      have hlk : Youngest s i (fun k => Pending s k ∧ Writer s i j k) l :=
        ⟨hl.1, ⟨hpending, hl.2.1⟩, fun m hm hp => hl.2.2 m hm hp.2⟩
      rw [youngest_unique h.shape hk hlk]
      exact ⟨hl, hpending⟩
    · rintro ⟨hk, hpending⟩
      exact ⟨hk.1, ⟨hpending, hk.2.1⟩, fun m hm hp => hk.2.2 m hm hp.2⟩

/-- What the scheduling of one instruction does for all its sources. -/
def SchedulesFaithfully (s : State) (e : Event) : Prop :=
  ∀ a u, e = .schedule a → a < s.occupancy → (s.entry (s.slot a)).scheduled = .idle → step s e = some u →
    ∀ j, (s.entry (s.slot a)).sourceRegisters j ≠ 0 → Faithful s u (s.slot a) j

def SchedulesCovered (s : State) (e : Event) : Prop :=
  ∀ a, e = .schedule a → a < s.occupancy → (s.entry (s.slot a)).scheduled = .idle →
    ∀ j, (s.entry (s.slot a)).sourceRegisters j ≠ 0 → Covered s (s.slot a) j

theorem schedulesFaithfully_iff (h : Inv [] s) (e : Event) : SchedulesFaithfully s e ↔ SchedulesCovered s e := by
  constructor
  · rintro hf a rfl ha hidle j hj
    obtain ⟨u, hu, -⟩ := step_inv h (.schedule a)
    have hsched : scheduleInstruction s (s.slot a) = some u := by
      rwa [step, if_pos ha] at hu
    exact (faithful_iff_covered h (live_slot ha) hidle hsched hj).mp (hf a u rfl ha hidle hu j hj)
  · rintro hc a u rfl ha hidle hu j hj
    rw [step, if_pos ha] at hu
    exact (faithful_iff_covered h (live_slot ha) hidle hu hj).mpr (hc a rfl ha hidle j hj)

/-- In a run each source waits for its youngest older writer and for no one else just
when at no scheduling a pending writer of it is older than a completed one. -/
theorem run_faithful_iff {robSize : Nat} (h : 0 < robSize) (es : List Event) :
    EveryStep step (.initial robSize) (fun _ => SchedulesFaithfully) es ↔
      EveryStep step (.initial robSize) (fun _ => SchedulesCovered) es :=
  everyStep_congr (fun _ e _ _ _ hs => schedulesFaithfully_iff (reachable_inv h hs) e)

theorem run_faithful_iff_two : EveryStep step (.initial 2) (fun _ => SchedulesFaithfully)
      [.dispatch ⟨false, fun _ => 0, [5]⟩, .schedule 0, .dispatch ⟨false, fun _ => 5, [6]⟩, .schedule 1] ↔
    EveryStep step (.initial 2) (fun _ => SchedulesCovered)
      [.dispatch ⟨false, fun _ => 0, [5]⟩, .schedule 0, .dispatch ⟨false, fun _ => 5, [6]⟩, .schedule 1] :=
  run_faithful_iff (by decide) _

section Overwritten

/-- A load into a register, then another write of the same register that has completed. -/
def overwritten : List Event :=
  [.dispatch ⟨true, fun _ => 0, [5]⟩, .dispatch ⟨false, fun _ => 0, [5]⟩, .schedule 0, .schedule 1, .scheduleMemory 0,
    .execute, .complete 1, .dispatch ⟨false, fun _ => 5, [6]⟩]

theorem overwritten_run : ∃ s u, run step (.initial 3) overwritten = some s ∧ step s (.schedule 2) = some u ∧
    s.slot 2 = 2 ∧ 2 < s.occupancy ∧ (s.entry 2).scheduled = .idle ∧ (s.entry 2).sourceRegisters 0 = 5 ∧
    Recorded u 0 2 0 ∧ (s.entry 1).writes 5 = true ∧ s.slot 1 = 1 ∧ s.head = 0 := by
  have hrun : ((run step (.initial 3) overwritten).any (fun s => (step s (.schedule 2)).any (fun u =>
      s.slot 2 = 2 ∧ 2 < s.occupancy ∧ (s.entry 2).scheduled = .idle ∧ (s.entry 2).sourceRegisters 0 = 5 ∧
      Recorded u 0 2 0 ∧ (s.entry 1).writes 5 = true ∧ s.slot 1 = 1 ∧ s.head = 0))) = true := by
    decide +kernel
  obtain ⟨s, hs, hrest⟩ := (Option.any_eq_true _ _).mp hrun
  obtain ⟨u, hu, hfacts⟩ := (Option.any_eq_true _ _).mp hrest
  exact ⟨s, u, hs, hu, of_decide_eq_true hfacts⟩

/-- The consumer waits for the load all the same. -/
theorem overwritten_not_faithful :
    ¬EveryStep step (.initial 3) (fun _ => SchedulesFaithfully) (overwritten ++ [.schedule 2]) := by
  obtain ⟨s, u, hs, hu, hslot, hocc, hidle, hsource, hrecorded, hwrites, hslot', hhead⟩ := overwritten_run
  have hinv := reachable_inv (by decide) hs
  intro h
  have hlaw := h.last hs 2 u rfl hocc (by rw [hslot]; exact hidle) hu 0 (by rw [hslot, hsource]; decide)
  rw [hslot] at hlaw
  obtain ⟨⟨-, -, hyoungest⟩, -⟩ := (hlaw 0).mp hrecorded
  rcases hyoungest 1 ⟨1, 2, by decide, hocc, hslot', hslot⟩ (by rw [Writer, hsource]; exact hwrites) with he | hold
  · exact absurd he (by decide)
  · exact not_older_head hinv.shape (hhead ▸ hold)

end Overwritten

end Thermometer.RobDependency
