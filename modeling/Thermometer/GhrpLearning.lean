import Thermometer.GhrpBtb

namespace Thermometer.GhrpLearning

open Trace Lib.Tables Lib.Runs GhrpBtb

/-- The call is a taken miss that is not bypassed. -/
def misses (s : State) (c : Call) : Bool :=
  c.allocates && (s.find (s.set c.ip) c.ip).isNone && !needBypass s (s.set c.ip) c.ip

def evictedSignature (s : State) (c : Call) : Option Nat :=
  (evicted s (s.set c.ip)).bind (fun addr => (s.find (s.set c.ip) addr).map Entry.signature)

/-- The dead update of a miss goes to the signature of the evicted entry. -/
def Learns (_ : List Call) (s : State) (c : Call) : Prop :=
  misses s c = true → ∀ u, step s c = some u → u.predTables =
    match evictedSignature s c with
    | some signature => updatePredTable s.predTables (computeIndices signature) true
    | none => s.predTables

def Saturated (p : PredTables) (i : Nat) (t : Fin numPredTables) : Prop := counterSize - 1 ≤ p i t

/-- What is done to the signature of an entry not yet filled in makes no difference. -/
def Harmless (_ : List Call) (s : State) (c : Call) : Prop :=
  misses s c = true → ∀ t, match evictedSignature s c with
    | some signature => hash 0 t = hash signature t ∨
        Saturated s.predTables (hash 0 t) t ∧ Saturated s.predTables (hash signature t) t
    | none => Saturated s.predTables (hash 0 t) t

def loggedStep (a : State × List Nat) (c : Call) : Option (State × List Nat) :=
  (step a.1 c).map (fun u => (u, a.2 ++ if misses a.1 c then (evictedSignature a.1 c).toList else []))

/-- A counter stands no higher than the number of evictions that map to it. -/
def Learned (ways : Nat) (cs : List Call) : Prop :=
  ∀ a, run loggedStep (initializeBtb ways, []) cs = some a →
    ∀ i t, a.1.predTables i t ≤ a.2.countP (fun signature => hash signature t = i)

variable {s u : State} {p : PredTables} {f g : Fin numPredTables → Nat} {c : Call} {cs : List Call} {ways : Nat}
  {a : State × List Nat}

theorem updatePredTable_dead (p : PredTables) (f : Fin numPredTables → Nat) (i : Nat) (t : Fin numPredTables) :
    updatePredTable p f true i t = if i = f t ∧ p i t < counterSize - 1 then p i t + 1 else p i t := by
  by_cases hi : i = f t
  · rw [updatePredTable, if_pos hi, if_pos rfl]
    by_cases hlt : p i t < counterSize - 1
    · rw [if_pos hlt, if_pos ⟨hi, hlt⟩]
    · rw [if_neg hlt, if_neg (fun h => hlt h.2)]
  · rw [updatePredTable, if_neg hi, if_neg (fun h => hi h.1)]

theorem updatePredTable_alive (p : PredTables) (f : Fin numPredTables → Nat) (i : Nat) (t : Fin numPredTables) :
    updatePredTable p f false i t ≤ p i t := by
  by_cases hi : i = f t
  · rw [updatePredTable, if_pos hi, if_neg Bool.false_ne_true]
    exact Nat.sub_le _ _
  · rw [updatePredTable, if_neg hi]

theorem dead_eq_self : updatePredTable p f true = p ↔ ∀ t, Saturated p (f t) t := by
  constructor
  · intro h t
    by_contra hlt
    have hft := congrFun (congrFun h (f t)) t
    rw [updatePredTable_dead, if_pos ⟨rfl, not_le.mp hlt⟩] at hft
    omega
  · intro h
    funext i t
    rw [updatePredTable_dead]
    apply if_neg
    rintro ⟨rfl, hlt⟩
    exact absurd (h t) (not_le.mpr hlt)

theorem dead_eq_dead :
    updatePredTable p f true = updatePredTable p g true ↔
      ∀ t, f t = g t ∨ Saturated p (f t) t ∧ Saturated p (g t) t := by
  constructor
  · intro h t
    by_cases hfg : f t = g t
    · exact .inl hfg
    · right
      constructor
      · by_contra hlt
        have hft := congrFun (congrFun h (f t)) t
        rw [updatePredTable_dead, updatePredTable_dead, if_pos ⟨rfl, not_le.mp hlt⟩, if_neg (fun h => hfg h.1)] at hft
        omega
      · by_contra hlt
        have hgt := congrFun (congrFun h (g t)) t
        rw [updatePredTable_dead, updatePredTable_dead, if_neg (fun h => hfg h.1.symm), if_pos ⟨rfl, not_le.mp hlt⟩] at hgt
        omega
  · intro h
    funext i t
    rw [updatePredTable_dead, updatePredTable_dead]
    rcases h t with heq | ⟨hf, hg⟩
    · rw [heq]
    · rw [if_neg, if_neg]
      · rintro ⟨rfl, hlt⟩
        exact absurd hg (not_le.mpr hlt)
      · rintro ⟨rfl, hlt⟩
        exact absurd hf (not_le.mpr hlt)

theorem doEvition_predTables (s : State) (set : Nat) : (doEvition s set).predTables = s.predTables := by
  rw [doEvition]
  cases evicted s set <;> rfl

theorem allocate_predTables (s : State) (ip branchTarget : Nat) :
    (allocate s ip branchTarget).predTables =
      if needBypass s (s.set ip) ip then s.predTables else updatePredTable s.predTables (computeIndices 0) true := by
  rw [allocate, missAccess]
  split_ifs with hb
  · simp [updateGlobalHistory]
  · simp only [updateGlobalHistory, State.setTable, if_true, doEvition_predTables]
    rfl

theorem find_side (s : State) (side : SideTables.Tables) (ip : Nat) :
    State.find { s with side := side } (State.set { s with side := side } ip) ip = s.find (s.set ip) ip := rfl

theorem hitAccess_le (s : State) (set addr pc i : Nat) (t : Fin numPredTables) :
    (hitAccess s set addr pc).predTables i t ≤ s.predTables i t :=
  updatePredTable_alive _ _ _ _

theorem misses_of_allocate (target : Nat) (hc : c.allocates = true) (hfind : s.find (s.set c.ip) c.ip = none)
    (hu : u.predTables = (allocate s c.ip target).predTables) :
    (misses s c = true ∧ u.predTables = updatePredTable s.predTables (computeIndices 0) true) ∨
      (misses s c = false ∧ ∀ i t, u.predTables i t ≤ s.predTables i t) := by
  rw [allocate_predTables] at hu
  rw [misses, hc, hfind]
  cases hb : needBypass s (s.set c.ip) c.ip with
  | true =>
      rw [if_pos hb] at hu
      exact .inr ⟨rfl, fun i t => by rw [hu]⟩
  | false =>
      rw [if_neg (by simp [hb])] at hu
      exact .inl ⟨rfl, hu⟩

/-- What a call does to the prediction tables. -/
theorem step_predTables (h : step s c = some u) :
    (misses s c = true ∧ u.predTables = updatePredTable s.predTables (computeIndices 0) true) ∨
      (misses s c = false ∧ ∀ i t, u.predTables i t ≤ s.predTables i t) := by
  have hfound : ∀ e, s.find (s.set c.ip) c.ip = some e → misses s c = false := by
    intro e he
    simp [misses, he]
  have hidle : c.allocates = false → misses s c = false := by
    intro hc
    simp [misses, hc]
  cases c with
  | predict ip ty =>
      rw [step, Option.some.injEq, btbPrediction] at h
      refine .inr ⟨hidle rfl, fun i t => ?_⟩
      subst h
      split
      · exact le_rfl
      · simp only [find_side]
        cases s.find (s.set ip) ip with
        | none => exact le_rfl
        | some e => exact hitAccess_le _ _ _ _ _ _
  | update ip target taken ty =>
      rw [step, Option.some.injEq, updateBtb] at h
      by_cases hty : ty.usesBtb = true
      · simp only [if_pos hty, find_side] at h
        cases hf : s.find (s.set ip) ip with
        | none =>
            simp only [hf] at h
            by_cases ha : target ≠ 0 ∧ taken = true
            · rw [if_pos ha] at h
              apply misses_of_allocate target (Call.update_allocates_iff.mpr ⟨hty, ha⟩) hf
              rw [← h, allocate_predTables, allocate_predTables]
              rfl
            · rw [if_neg ha] at h
              exact .inr ⟨hidle (Call.update_idle ha), fun i t => by rw [← h]⟩
        | some e =>
            simp only [hf] at h
            refine .inr ⟨hfound e hf, fun i t => ?_⟩
            rw [← h]
            exact le_rfl
      · simp only [if_neg hty] at h
        exact .inr ⟨hidle (Call.idle_of_type hty), fun i t => by rw [← h]⟩
  | prefetch ip target ty taken toStreamBuffer =>
      rw [step, prefetchBtb] at h
      by_cases hty : ty.usesBtb = true
      · rw [if_pos hty] at h
        cases hf : s.find (s.set ip) ip with
        | none =>
            simp only [hf] at h
            by_cases ha : target ≠ 0 ∧ taken = true
            · rw [if_pos ha] at h
              cases toStreamBuffer with
              | true =>
                  obtain ⟨b, -, rfl⟩ := Option.map_eq_some_iff.mp h
                  exact .inr ⟨hidle (by simp [Call.allocates]), fun i t => le_rfl⟩
              | false =>
                  rw [if_neg Bool.false_ne_true, Option.some.injEq] at h
                  apply misses_of_allocate target (Call.prefetch_allocates_iff.mpr ⟨hty, ha, rfl⟩) hf
                  rw [← h]
                  rfl
            · rw [if_neg ha, Option.some.injEq] at h
              exact .inr ⟨hidle (Call.prefetch_idle ha), fun i t => by rw [← h]⟩
        | some e =>
            simp only [hf, Option.some.injEq] at h
            refine .inr ⟨hfound e hf, fun i t => ?_⟩
            rw [← h]
            exact hitAccess_le s (s.set ip) ip ip i t
      · rw [if_neg hty, Option.some.injEq] at h
        exact .inr ⟨hidle (Call.idle_of_type hty), fun i t => by rw [← h]⟩

theorem misses_step (h : misses s c = true) : ∃ u, step s c = some u := by
  cases c with
  | predict ip ty => exact ⟨_, rfl⟩
  | update ip target taken ty => exact ⟨_, rfl⟩
  | prefetch ip target ty taken toStreamBuffer =>
      simp only [misses, Bool.and_eq_true, Option.isNone_iff_eq_none] at h
      obtain ⟨⟨halloc, hf⟩, -⟩ := h
      obtain ⟨hty, htaken, hstream⟩ := Call.prefetch_allocates_iff.mp halloc
      have hf : s.find (s.set ip) ip = none := hf
      rw [step, prefetchBtb, if_pos hty, hf, if_pos htaken, if_neg (by simp [hstream])]
      exact ⟨_, rfl⟩

theorem learns_iff (pre : List Call) (s : State) (c : Call) : Learns pre s c ↔ Harmless pre s c := by
  rw [Learns, Harmless]
  refine imp_congr_right (fun hm => ?_)
  have hpred : ∀ u, step s c = some u → u.predTables = updatePredTable s.predTables (computeIndices 0) true := by
    intro u hu
    rcases step_predTables hu with ⟨-, h⟩ | ⟨h, -⟩
    · exact h
    · rw [hm] at h
      cases h
  obtain ⟨u, hu⟩ := misses_step hm
  have hlaw : ∀ q : PredTables, (∀ v, step s c = some v → v.predTables = q) ↔
      updatePredTable s.predTables (computeIndices 0) true = q := by
    intro q
    constructor
    · intro h
      rw [← hpred u hu, h u hu]
    · intro h v hv
      rw [hpred v hv, h]
  rw [hlaw]
  cases evictedSignature s c with
  | none => exact dead_eq_self
  | some signature => exact dead_eq_dead

theorem run_loggedStep (h : run loggedStep (initializeBtb ways, []) cs = some a) :
    run step (initializeBtb ways) cs = some a.1 := by
  induction cs using List.reverseRecOn generalizing a with
  | nil =>
      rw [run_nil, Option.some.injEq] at h
      rw [← h]
      rfl
  | append_singleton cs c ih =>
      obtain ⟨b, hb, ha⟩ := run_concat h
      obtain ⟨u, hu, rfl⟩ := Option.map_eq_some_iff.mp ha
      rw [run_append, ih hb, Option.bind_some, run_cons, hu]
      rfl

theorem learned_of_learns (h : EveryStep step (initializeBtb ways) Learns cs) : Learned ways cs := by
  intro a ha i t
  induction cs using List.reverseRecOn generalizing a with
  | nil =>
      rw [run_nil, Option.some.injEq] at ha
      rw [← ha]
      exact le_rfl
  | append_singleton cs c ih =>
      obtain ⟨b, hb, ha⟩ := run_concat ha
      have hold := ih h.of_append b hb
      obtain ⟨u, hu, rfl⟩ := Option.map_eq_some_iff.mp ha
      rw [List.countP_append]
      rcases step_predTables hu with ⟨hm, -⟩ | ⟨hm, hle⟩
      · have hlaw := h.last (run_loggedStep hb) hm u hu
        rw [if_pos hm, hlaw]
        cases evictedSignature b.1 c with
        | none => exact Nat.le_add_right_of_le hold
        | some signature =>
            simp only [Option.toList_some, List.countP_singleton, decide_eq_true_iff]
            rw [updatePredTable_dead]
            split_ifs with hi hs hs
            · omega
            · exact absurd hi.1.symm hs
            · omega
            · omega
      · exact Nat.le_add_right_of_le ((hle i t).trans hold)

/-- Exactly the harmless misses learn from what they evict. -/
theorem dead_update_iff (ways : Nat) (cs : List Call) :
    (∀ s, run step (initializeBtb ways) cs = some s → ∀ c, Learns cs s c ↔ Harmless cs s c) ∧
      (EveryStep step (initializeBtb ways) Learns cs ∧ Learned ways cs ↔
        EveryStep step (initializeBtb ways) Harmless cs) := by
  have hiff : EveryStep step (initializeBtb ways) Learns cs ↔ EveryStep step (initializeBtb ways) Harmless cs :=
    everyStep_congr (fun pre c _ s _ _ => learns_iff pre s c)
  refine ⟨fun s _ c => learns_iff cs s c, ?_⟩
  rw [← hiff]
  exact ⟨And.left, fun h => ⟨h, learned_of_learns h⟩⟩

/-- Two branches of one set. -/
def firstBranch : Call := .update 4 64 true .conditional

def secondBranch : Call := .update 32772 64 true .conditional

/-- The second branch evicts the first, and the dead update goes to signature zero. -/
theorem dead_update_misplaced : ¬EveryStep step (initializeBtb 1) Learns [firstBranch, secondBranch] := by
  intro h
  have hrun : (run step (initializeBtb 1) [firstBranch]).any (fun s =>
      misses s secondBranch && decide (evictedSignature s secondBranch = some 4 ∧ hash 0 0 ≠ hash 4 0 ∧
        s.predTables (hash 0 0) 0 < counterSize - 1)) = true := by decide +kernel
  obtain ⟨s, hs, hstate⟩ := (Option.any_eq_true _ _).mp hrun
  simp only [Bool.and_eq_true, decide_eq_true_iff] at hstate
  obtain ⟨hm, hsig, hne, hlt⟩ := hstate
  have hharm := (learns_iff _ _ _).mp (h [firstBranch] secondBranch [] s rfl hs) hm 0
  rw [hsig] at hharm
  rcases hharm with heq | ⟨hsat, -⟩
  · exact hne heq
  · exact absurd hsat (not_le.mpr hlt)

end Thermometer.GhrpLearning
