import Thermometer.OptFuture

namespace Thermometer.OptStep

open Trace Lib.Tables Lib.Runs AccessRecord OptBtb OptFuture

def residents (t : Opt Entry) (set : Nat) : Finset Nat := dom (t.currentBtb set)

/-- What an insertion leaves alone. -/
structure SameFuture (t u : Opt Entry) : Prop where
  accesses : u.futureAccesses = t.futureAccesses
  prefetches : u.futurePrefetches = t.futurePrefetches
  sets : u.totalSets = t.totalSets
  ways : u.totalWays = t.totalWays
  last : u.lastTimestamp = t.lastTimestamp
  time : u.timestamp = t.timestamp

theorem SameFuture.refl (t : Opt Entry) : SameFuture t t := ⟨rfl, rfl, rfl, rfl, rfl, rfl⟩

/-- What an insertion leaves in the set of its branch. -/
inductive Placement (o : IterOrder) (t : Opt Entry) (ip : Nat) : Finset Nat → Prop
  | bypass : size (t.currentBtb (t.set ip)) = t.totalWays → chooseVictim o t ip = none →
      Placement o t ip (residents t (t.set ip))
  | fill : size (t.currentBtb (t.set ip)) ≠ t.totalWays →
      Placement o t ip (insert ip (residents t (t.set ip)))
  | replace (v : Nat) : size (t.currentBtb (t.set ip)) = t.totalWays → chooseVictim o t ip = some v →
      Placement o t ip (insert ip ((residents t (t.set ip)).erase v))

/-- Residents have a record, and the asserted bounds hold. -/
structure Sound (s : State) : Prop where
  bounded : StreamBuffer.Bounded s.stream
  started : Started s.accessRecord
  recorded : ∀ i, ∀ j ∈ residents s.opt i, j ∈ s.accessRecord.branchRecord

variable {s : State} {o : IterOrder} {t : Opt Entry} {r : Record} {ip : Nat}

theorem residents_update (t : Opt Entry) (i : Nat) (table : Table Entry) :
    residents { t with currentBtb := Function.update t.currentBtb i table } =
      Function.update (residents t) i (dom table) := by
  funext j
  by_cases hj : j = i
  · subst hj
    simp [residents]
  · simp [residents, Function.update_of_ne hj]

theorem residents_emplace (t : Opt Entry) (ip : Nat) (e : Entry) :
    residents (t.emplace ip e) = Function.update (residents t) (t.set ip) (insert ip (residents t (t.set ip))) := by
  rw [Opt.emplace, residents_update, dom_insert]
  rfl

theorem residents_erase (t : Opt Entry) (v i : Nat) :
    residents (t.erase v i) = Function.update (residents t) i ((residents t i).erase v) := by
  rw [Opt.erase, residents_update, dom_erase]
  rfl

theorem residents_modifyEntry (s : State) (ip : Nat) (f : Entry → Entry) :
    residents (modifyEntry s ip f).opt = residents s.opt := by
  rw [modifyEntry, residents_update, dom_modify]
  exact Function.update_eq_self _ _

theorem findBtbEntry_eq_none : findBtbEntry t ip = none ↔ ip ∉ residents t (t.set ip) := by
  rw [findBtbEntry, AList.lookup_eq_none, residents, mem_dom]

theorem insertToBtb_spec (o : IterOrder) (hr : ∀ j ∈ residents t (t.set ip), j ∈ r.branchRecord) :
    ∃ u r' judge D, insertToBtb o t r ip = some (u, r', judge) ∧ Placement o t ip D ∧
      residents u = Function.update (residents t) (t.set ip) D ∧ SameFuture t u ∧
      (r' = r ∨ ∃ v, evict r v = some r') := by
  rw [insertToBtb]
  by_cases hfull : size (t.currentBtb (t.set ip)) = t.totalWays
  · rw [if_pos hfull]
    cases hv : chooseVictim o t ip with
    | none =>
        refine ⟨t, r, false, _, rfl, .bypass hfull hv, ?_, .refl t, .inl rfl⟩
        exact (Function.update_eq_self _ _).symm
    | some v =>
        obtain ⟨r', hr', -, -⟩ := evict_eq_some (hr v ((mem_dom _ _).mpr (chooseVictim_mem hv)))
        have hset : (t.erase v (t.set ip)).set ip = t.set ip := rfl
        refine ⟨(t.erase v (t.set ip)).emplace ip ⟨0, 0, false⟩, r', true, _, by simp [hr'], .replace v hfull hv, ?_,
          ⟨rfl, rfl, rfl, rfl, rfl, rfl⟩, .inr ⟨v, hr'⟩⟩
        rw [residents_emplace, residents_erase, hset, Function.update_self, Function.update_idem]
  · rw [if_neg hfull]
    exact ⟨t.emplace ip ⟨0, 0, false⟩, r, true, _, rfl, .fill hfull, residents_emplace t ip _, ⟨rfl, rfl, rfl, rfl, rfl, rfl⟩,
      .inl rfl⟩

theorem Placement.subset {D : Finset Nat} (h : Placement o t ip D) : D ⊆ insert ip (residents t (t.set ip)) := by
  cases h with
  | bypass hfull hv => exact Finset.subset_insert _ _
  | fill hfull => exact subset_rfl
  | replace v hfull hv => exact Finset.insert_subset_insert _ (Finset.erase_subset _ _)

theorem mem_update_subset {C : Nat → Finset Nat} {i j ip : Nat} {D : Finset Nat} (hD : D ⊆ insert ip (C i)) {k : Nat}
    (hj : j ∈ Function.update C i D k) : j = ip ∨ j ∈ C k := by
  by_cases hk : k = i
  · subst hk
    rw [Function.update_self] at hj
    exact Finset.mem_insert.mp (hD hj)
  · rw [Function.update_of_ne hk] at hj
    exact .inr hj

theorem allocate_spec (hs : Sound s) (o : IterOrder) (ip branchTarget : Nat) (ty : BranchType) :
    ∃ u D, allocate o s ip branchTarget ty = some u ∧ Placement o s.opt ip D ∧
      residents u.opt = Function.update (residents s.opt) (s.opt.set ip) D ∧ SameFuture s.opt u.opt ∧ Sound u := by
  obtain ⟨t, r, judge, D, hins, hplace, hres, hsame, hr⟩ :=
    insertToBtb_spec o (hs.recorded (s.opt.set ip))
  have hmem : ∀ j, j ∈ r.branchRecord ↔ j ∈ s.accessRecord.branchRecord := by
    rcases hr with rfl | ⟨v, hv⟩
    · exact fun _ => Iff.rfl
    · intro j
      rw [evict] at hv
      split_ifs at hv with hm
      rw [Option.some.injEq] at hv
      subst hv
      exact mem_modify _ _ _ _
  have hstarted : Started r := by
    rcases hr with rfl | ⟨v, hv⟩
    · exact hs.started
    · exact evict_started hs.started hv
  let u : State := { s with opt := t, accessRecord := access r ip branchTarget ty false judge }
  have hsound : ∀ v : State, v.stream = s.stream → v.accessRecord = u.accessRecord →
      residents v.opt = residents t → Sound v := by
    intro v hst hrec hv
    refine ⟨hst ▸ hs.bounded, hrec ▸ access_started hstarted _ _ _ _ _, fun i j hj => ?_⟩
    rw [hrec, mem_access, hmem]
    rw [hv, hres] at hj
    rcases mem_update_subset hplace.subset hj with rfl | hj
    · exact .inl rfl
    · exact .inr (hs.recorded i j hj)
  rw [allocate, hins]
  cases judge with
  | false => exact ⟨u, D, rfl, hplace, hres, hsame, hsound u rfl rfl rfl⟩
  | true =>
      refine ⟨modifyEntry u ip (fun _ => ⟨ip, branchTarget, true⟩), D, rfl, hplace, ?_,
        ⟨hsame.1, hsame.2, hsame.3, hsame.4, hsame.5, hsame.6⟩, ?_⟩
      · rw [residents_modifyEntry]
        exact hres
      · exact hsound _ rfl rfl (residents_modifyEntry u ip _)

theorem updateExisting_sound (hs : Sound s) (ip branchTarget : Nat) (taken : Bool) (ty : BranchType) :
    Sound (updateExisting s ip branchTarget taken ty) ∧
      residents (updateExisting s ip branchTarget taken ty).opt = residents s.opt ∧
      SameFuture s.opt (updateExisting s ip branchTarget taken ty).opt := by
  cases taken with
  | false =>
      refine ⟨⟨hs.bounded, hs.started, fun i j hj => ?_⟩, residents_modifyEntry s ip _, ⟨rfl, rfl, rfl, rfl, rfl, rfl⟩⟩
      rw [updateExisting, if_neg (by simp), residents_modifyEntry] at hj
      exact hs.recorded i j hj
  | true =>
      refine ⟨⟨hs.bounded, access_started hs.started _ _ _ _ _, fun i j hj => ?_⟩,
        residents_modifyEntry s ip _, ⟨rfl, rfl, rfl, rfl, rfl, rfl⟩⟩
      have hj : j ∈ residents s.opt i := by
        rw [updateExisting, if_pos rfl] at hj
        exact residents_modifyEntry s ip _ ▸ hj
      exact (mem_access _ _ _ _ _ _ _).mpr (.inr (hs.recorded i j hj))

theorem btbPrediction_opt (s : State) (ip : Nat) (ty : BranchType) :
    (btbPrediction s ip ty).1.opt =
        { s.opt with timestamp := s.opt.timestamp + if ty.usesBtb then 1 else 0 } ∧
      (btbPrediction s ip ty).1.accessRecord = s.accessRecord ∧ (btbPrediction s ip ty).1.stream = s.stream := by
  have hty := SideTables.predict_none_iff s.side ip ty
  rw [btbPrediction]
  split
  · rename_i side res hp
    rw [hp] at hty
    have : ty.usesBtb = false := by simpa using hty
    simp [this]
  · rename_i side hp
    rw [hp] at hty
    have : ty.usesBtb = true := hty.mp rfl
    simp only [this, if_true]
    split <;> exact ⟨rfl, rfl, rfl⟩

structure Served (o : IterOrder) (s u : State) (ip : Nat) (allocates : Prop) : Prop where
  sound : Sound u
  same : SameFuture s.opt u.opt
  placed : allocates → ∃ D, Placement o s.opt ip D ∧
    residents u.opt = Function.update (residents s.opt) (s.opt.set ip) D
  kept : ¬allocates → residents u.opt = residents s.opt

theorem served_of_same {u : State} {p : Prop} (hp : ¬p) (hs : Sound u) (ho : u.opt = s.opt) : Served o s u ip p :=
  ⟨hs, ho ▸ .refl _, fun h => absurd h hp, fun _ => by rw [ho]⟩

theorem Sound.of_eq {u : State} (hs : Sound s) (hst : StreamBuffer.Bounded u.stream) (ho : u.opt = s.opt)
    (hr : u.accessRecord.branchRecord = s.accessRecord.branchRecord) : Sound u := by
  refine ⟨hst, ⟨fun ip e he => hs.started.key ip e (hr ▸ he), fun ip e he => hs.started.access ip e (hr ▸ he)⟩, ?_⟩
  intro i j hj
  rw [hr]
  exact hs.recorded i j (ho ▸ hj)

theorem allocate_served {u : State} (hu : Sound u) (ho : u.opt = s.opt) (o : IterOrder) (ip branchTarget : Nat)
    (ty : BranchType) {p : Prop} (hp : p) :
    ∃ v, allocate o u ip branchTarget ty = some v ∧ Served o s v ip p := by
  obtain ⟨v, D, hv, hplace, hres, hsame, hsound⟩ := allocate_spec hu o ip branchTarget ty
  rw [ho] at hplace hres hsame
  exact ⟨v, hv, hsound, hsame, fun _ => ⟨D, hplace, hres⟩, fun h => absurd hp h⟩

theorem existing_served {u : State} (hu : Sound u) (ho : u.opt = s.opt) (o : IterOrder) (ip branchTarget : Nat)
    (taken : Bool) (ty : BranchType) {p : Prop} (hp : ¬p) :
    Served o s (updateExisting u ip branchTarget taken ty) ip p := by
  obtain ⟨hsound, hres, hsame⟩ := updateExisting_sound hu ip branchTarget taken ty
  rw [ho] at hres hsame
  exact ⟨hsound, hsame, fun h => absurd h hp, fun _ => hres⟩

theorem updateBtb_served (hs : Sound s) (o : IterOrder) (ip branchTarget : Nat) (taken : Bool) (ty : BranchType) :
    ∃ u, updateBtb o s ip branchTarget taken ty = some u ∧
      Served o s u ip (ty.usesBtb = true ∧ findBtbEntry s.opt ip = none ∧ branchTarget ≠ 0 ∧ taken = true) := by
  let s₁ : State := { s with side := SideTables.update s.side ip branchTarget taken ty }
  let s₂ : State := { s₁ with stream := (StreamBuffer.streamBufferUpdate s₁.stream ip).1 }
  have h₁ : Sound s₁ := hs.of_eq hs.bounded rfl rfl
  have h₂ : Sound s₂ := hs.of_eq (StreamBuffer.update_bounded hs.bounded ip) rfl rfl
  rw [updateBtb]
  by_cases hty : ty.usesBtb = true
  · simp only [if_pos hty]
    cases hf : findBtbEntry s.opt ip with
    | none =>
        by_cases ha : branchTarget ≠ 0 ∧ taken = true
        · simp only [if_pos ha]
          refine @allocate_served s s₂ h₂ rfl o ip branchTarget ty _ ?_
          exact ⟨hty, trivial, ha⟩
        · simp only [if_neg ha]
          exact ⟨s₂, rfl, served_of_same (fun h => ha h.2.2) h₂ rfl⟩
    | some e =>
        refine ⟨_, rfl, @existing_served s s₁ h₁ rfl o _ _ _ _ _ ?_⟩
        rintro ⟨-, h, -⟩
        cases h
  · simp only [if_neg hty]
    exact ⟨s₁, rfl, served_of_same (fun h => hty h.1) h₁ rfl⟩

theorem prefetchBtb_served (hs : Sound s) (o : IterOrder) (ip branchTarget : Nat) (ty : BranchType)
    (taken toStreamBuffer : Bool) :
    ∃ u, prefetchBtb o s ip branchTarget ty taken toStreamBuffer = some u ∧
      Served o s u ip (ty.usesBtb = true ∧ findBtbEntry s.opt ip = none ∧
        (branchTarget ≠ 0 ∧ taken = true) ∧ toStreamBuffer = false) := by
  let s₁ : State := { s with accessRecord := { s.accessRecord with btbType := .predecoder } }
  have h₁ : Sound s₁ := hs.of_eq hs.bounded rfl rfl
  rw [prefetchBtb]
  by_cases hty : ty.usesBtb = true
  · simp only [if_pos hty]
    cases hf : findBtbEntry s.opt ip with
    | none =>
        by_cases ha : branchTarget ≠ 0 ∧ taken = true
        · simp only [if_pos ha]
          cases hst : toStreamBuffer with
          | true =>
              obtain ⟨b, hb, hbb⟩ := StreamBuffer.prefetch_bounded hs.bounded ip ha.1
              have hu : Sound { s₁ with stream := b } := hs.of_eq hbb rfl rfl
              refine ⟨{ s₁ with stream := b }, by simp [hb, s₁], served_of_same ?_ hu rfl⟩
              rintro ⟨-, -, -, h⟩
              cases h
          | false =>
              rw [if_neg (by simp)]
              refine @allocate_served s s₁ h₁ rfl o ip branchTarget ty _ ?_
              exact ⟨hty, trivial, ha, rfl⟩
        · simp only [if_neg ha]
          exact ⟨s₁, rfl, served_of_same (fun h => ha h.2.2.1) h₁ rfl⟩
    | some e =>
        refine ⟨_, rfl, @existing_served s s₁ h₁ rfl o _ _ _ _ _ ?_⟩
        rintro ⟨-, h, -⟩
        cases h
  · simp only [if_neg hty]
    exact ⟨s₁, rfl, served_of_same (fun h => hty h.1) h₁ rfl⟩

theorem btbPrediction_sound (hs : Sound s) (ip : Nat) (ty : BranchType) : Sound (btbPrediction s ip ty).1 := by
  obtain ⟨hopt, hrec, hst⟩ := btbPrediction_opt s ip ty
  refine ⟨hst ▸ hs.bounded, hrec ▸ hs.started, fun i j hj => ?_⟩
  rw [hrec]
  rw [hopt] at hj
  exact hs.recorded i j hj

theorem step_sound (hs : Sound s) (e : IterOrder × Call) : ∃ u, step s e = some u ∧ Sound u := by
  obtain ⟨o, c⟩ := e
  cases c with
  | predict ip ty => exact ⟨_, rfl, btbPrediction_sound hs ip ty⟩
  | update ip target taken ty =>
      obtain ⟨u, hu, h⟩ := updateBtb_served hs o ip target taken ty
      exact ⟨u, hu, h.sound⟩
  | prefetch ip target ty taken toStreamBuffer =>
      obtain ⟨u, hu, h⟩ := prefetchBtb_served hs o ip target ty taken toStreamBuffer
      exact ⟨u, hu, h.sound⟩

theorem initial_sound (sets ways : Nat) (record : List (Nat × Nat)) (twig : Option (Table (List (Nat × Nat))))
    (counter : Nat) : Sound (initializeBtb sets ways record twig counter) := by
  refine ⟨StreamBuffer.bounded_empty (by decide), started_empty _, fun i j hj => ?_⟩
  have hsame := readRecord_same twig (Opt.init (T := Entry) sets ways) record counter
  rw [residents, initializeBtb, hsame.btb] at hj
  cases hj

end Thermometer.OptStep
