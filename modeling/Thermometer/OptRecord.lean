import Thermometer.OptStep
import Thermometer.RecordProtocol

namespace Thermometer.OptRecord

open Trace Lib.Tables Lib.Runs AccessRecord RecordProtocol OptBtb OptFuture OptStep

def Resident (t : Opt Entry) (ip : Nat) : Prop := ∃ set, ip ∈ t.currentBtb set

structure Coupled (t : Opt Entry) (r : Record) : Prop where
  home : ∀ i, ∀ j ∈ residents t i, i = t.set j
  follows : ∀ j, Follows (marks r j) (decide (j ∈ residents t (t.set j)))

inductive Insertion (t : Opt Entry) (r : Record) (ip : Nat) : Opt Entry → Record → Bool → Prop
  | bypass : Insertion t r ip t r false
  | fill : Insertion t r ip (t.emplace ip ⟨0, 0, false⟩) r true
  | replace {v : Nat} {r' : Record} : v ∈ residents t (t.set ip) → evict r v = some r' →
      Insertion t r ip ((t.erase v (t.set ip)).emplace ip ⟨0, 0, false⟩) r' true

variable {t u : Opt Entry} {r r' : Record} {o : IterOrder} {ip i j v : Nat} {s : State}

theorem mem_residents_emplace (e : Entry) :
    j ∈ residents (t.emplace ip e) i ↔ (i = t.set ip ∧ j = ip) ∨ j ∈ residents t i := by
  rw [residents_emplace]
  by_cases hi : i = t.set ip
  · subst hi
    simp
  · simp [hi]

theorem mem_residents_erase {k : Nat} :
    j ∈ residents (t.erase v k) i ↔ ¬(i = k ∧ j = v) ∧ j ∈ residents t i := by
  rw [residents_erase]
  by_cases hi : i = k
  · subst hi
    simp
  · simp [hi]

theorem insertToBtb_cases {judge : Bool} (h : insertToBtb o t r ip = some (u, r', judge)) :
    Insertion t r ip u r' judge := by
  rw [insertToBtb] at h
  by_cases hfull : size (t.currentBtb (t.set ip)) = t.totalWays
  · rw [if_pos hfull] at h
    cases hv : chooseVictim o t ip with
    | none =>
        simp only [hv, Option.some.injEq, Prod.mk.injEq] at h
        obtain ⟨rfl, rfl, rfl⟩ := h
        exact .bypass
    | some v =>
        simp only [hv, Option.bind_eq_bind, Option.bind_eq_some_iff, Option.some.injEq, Prod.mk.injEq] at h
        obtain ⟨r'', hr, rfl, rfl, rfl⟩ := h
        exact .replace ((mem_dom _ _).mpr (chooseVictim_mem hv)) hr
  · rw [if_neg hfull, Option.some.injEq, Prod.mk.injEq, Prod.mk.injEq] at h
    obtain ⟨rfl, rfl, rfl⟩ := h
    exact .fill

theorem Coupled.of_eq (h : Coupled t r) (hres : residents u = residents t) (hsets : u.totalSets = t.totalSets)
    (hmarks : ∀ j, marks r' j = marks r j) : Coupled u r' := by
  have hset : ∀ j, u.set j = t.set j := fun j => by rw [Opt.set, Opt.set, hsets]
  constructor
  · intro i j hj
    rw [hset]
    exact h.home i j (hres ▸ hj)
  · intro j
    rw [hmarks, hres, hset]
    exact h.follows j

theorem Coupled.access (h : Coupled t r) {target : Nat} {ty : BranchType} {hit insertOnMiss : Bool}
    (hfollows : Follows (marks r ip ++ [mark hit insertOnMiss]) (decide (ip ∈ residents t (t.set ip)))) :
    Coupled t (access r ip target ty hit insertOnMiss) := by
  refine ⟨h.home, fun j => ?_⟩
  rw [marks_access]
  by_cases hj : j = ip
  · subst hj
    rw [if_pos rfl]
    exact hfollows
  · rw [if_neg hj]
    exact h.follows j

theorem Coupled.emplace (h : Coupled t r) (hnew : ip ∉ residents t (t.set ip)) (e : Entry) (target : Nat)
    (ty : BranchType) : Coupled (t.emplace ip e) (AccessRecord.access r ip target ty false true) := by
  constructor
  · intro i j hj
    rcases (mem_residents_emplace e).mp hj with ⟨rfl, rfl⟩ | hj
    · rfl
    · exact h.home i j hj
  · intro j
    have hset : (t.emplace ip e).set j = t.set j := rfl
    have hj := h.follows j
    rw [marks_access, hset]
    by_cases hne : j = ip
    · subst hne
      rw [decide_eq_false hnew] at hj
      rw [if_pos rfl, decide_eq_true ((mem_residents_emplace e).mpr (.inl ⟨rfl, rfl⟩))]
      exact .missInsert hj
    · have hmem : j ∈ residents (t.emplace ip e) (t.set j) ↔ j ∈ residents t (t.set j) := by
        simp [mem_residents_emplace, hne]
      rw [if_neg hne, decide_eq_decide.mpr hmem]
      exact hj

theorem Coupled.erase (h : Coupled t r) (hv : v ∈ residents t i) (hr : evict r v = some r') :
    Coupled (t.erase v i) r' := by
  have hi := h.home i v hv
  constructor
  · intro k j hj
    exact h.home k j (mem_residents_erase.mp hj).2
  · intro j
    have hset : (t.erase v i).set j = t.set j := rfl
    have hj := h.follows j
    rw [marks_evict hr, hset]
    by_cases hne : j = v
    · subst hne
      rw [decide_eq_true (hi ▸ hv)] at hj
      have hgone : j ∉ residents (t.erase j i) (t.set j) := fun hm => (mem_residents_erase.mp hm).1 ⟨hi.symm, rfl⟩
      rw [if_pos rfl, decide_eq_false hgone]
      exact .evict hj
    · have hmem : j ∈ residents (t.erase v i) (t.set j) ↔ j ∈ residents t (t.set j) := by
        simp [mem_residents_erase, hne]
      rw [if_neg hne, decide_eq_decide.mpr hmem]
      exact hj

theorem Coupled.insertion (h : Coupled t r) (hnew : ip ∉ residents t (t.set ip)) {judge : Bool}
    (hins : Insertion t r ip u r' judge) (target : Nat) (ty : BranchType) :
    Coupled u (AccessRecord.access r' ip target ty false judge) := by
  cases hins with
  | bypass =>
      have hline := h.follows ip
      rw [decide_eq_false hnew] at hline
      refine h.access ?_
      rw [decide_eq_false hnew]
      exact .missOnly hline
  | fill => exact h.emplace hnew _ _ _
  | replace hv hr =>
      refine (h.erase hv hr).emplace ?_ _ _ _
      intro hm
      exact hnew (mem_residents_erase.mp hm).2

theorem coupled_allocate {w : State} (h : Coupled s.opt s.accessRecord) (hnew : findBtbEntry s.opt ip = none)
    {target : Nat} {ty : BranchType} (hw : allocate o s ip target ty = some w) : Coupled w.opt w.accessRecord := by
  simp only [allocate, Option.bind_eq_bind, Option.bind_eq_some_iff, Option.some.injEq] at hw
  obtain ⟨⟨t, r, judge⟩, hins, rfl⟩ := hw
  have hc := h.insertion (findBtbEntry_eq_none.mp hnew) (insertToBtb_cases hins) target ty
  cases judge with
  | false => exact hc
  | true => exact hc.of_eq (residents_modifyEntry _ ip _) rfl (fun _ => rfl)

theorem coupled_updateExisting (h : Coupled s.opt s.accessRecord) (hres : findBtbEntry s.opt ip ≠ none)
    (target : Nat) (taken : Bool) (ty : BranchType) :
    Coupled (updateExisting s ip target taken ty).opt (updateExisting s ip target taken ty).accessRecord := by
  cases taken with
  | false => exact h.of_eq (residents_modifyEntry s ip _) rfl (fun _ => rfl)
  | true =>
      have hmem : ip ∈ residents s.opt (s.opt.set ip) := by
        by_contra hm
        exact hres (findBtbEntry_eq_none.mpr hm)
      have hline := h.follows ip
      rw [decide_eq_true hmem] at hline
      have hc : Coupled s.opt (access s.accessRecord ip target ty true false) := by
        refine h.access ?_
        rw [decide_eq_true hmem]
        exact .hit hline
      exact hc.of_eq (residents_modifyEntry s ip _) rfl (fun _ => rfl)

theorem step_coupled {e : IterOrder × Call} {w : State} (h : Coupled s.opt s.accessRecord) (hw : step s e = some w) :
    Coupled w.opt w.accessRecord := by
  obtain ⟨o, c⟩ := e
  cases c with
  | predict ip ty =>
      rw [step, Option.some.injEq] at hw
      subst hw
      obtain ⟨hopt, hrec, -⟩ := btbPrediction_opt s ip ty
      rw [hopt, hrec]
      exact h.of_eq rfl rfl (fun _ => rfl)
  | update ip target taken ty =>
      rw [step, updateBtb] at hw
      by_cases hty : ty.usesBtb = true
      · simp only [if_pos hty] at hw
        cases hf : findBtbEntry s.opt ip with
        | none =>
            simp only [hf] at hw
            by_cases ha : target ≠ 0 ∧ taken = true
            · rw [if_pos ha] at hw
              refine coupled_allocate ?_ ?_ hw
              · exact h
              · exact hf
            · rw [if_neg ha, Option.some.injEq] at hw
              exact hw ▸ h
        | some d =>
            simp only [hf, Option.some.injEq] at hw
            subst hw
            exact coupled_updateExisting (by exact h) (by simp [hf]) target taken ty
      · simp only [if_neg hty, Option.some.injEq] at hw
        exact hw ▸ h
  | prefetch ip target ty taken toStreamBuffer =>
      have hp : Coupled s.opt { s.accessRecord with btbType := .predecoder } := h.of_eq rfl rfl (fun _ => rfl)
      rw [step, prefetchBtb] at hw
      by_cases hty : ty.usesBtb = true
      · simp only [if_pos hty] at hw
        cases hf : findBtbEntry s.opt ip with
        | none =>
            simp only [hf] at hw
            by_cases ha : target ≠ 0 ∧ taken = true
            · rw [if_pos ha] at hw
              cases toStreamBuffer with
              | true =>
                  obtain ⟨b, -, rfl⟩ := Option.map_eq_some_iff.mp hw
                  exact hp
              | false =>
                  rw [if_neg Bool.false_ne_true] at hw
                  refine coupled_allocate ?_ ?_ hw
                  · exact hp
                  · exact hf
            · rw [if_neg ha, Option.some.injEq] at hw
              exact hw ▸ hp
        | some d =>
            simp only [hf, Option.some.injEq] at hw
            subst hw
            exact coupled_updateExisting (by exact hp) (by simp [hf]) target taken ty
      · simp only [if_neg hty, Option.some.injEq] at hw
        exact hw ▸ hp

theorem initial_coupled (sets ways : Nat) (record : List (Nat × Nat)) (twig : Option (Table (List (Nat × Nat))))
    (counter : Nat) : Coupled (initializeBtb sets ways record twig counter).opt
      (initializeBtb sets ways record twig counter).accessRecord := by
  have hempty : ∀ i, residents (initializeBtb sets ways record twig counter).opt i = ∅ := by
    intro i
    rw [residents, initializeBtb, (readRecord_same twig (Opt.init (T := Entry) sets ways) record counter).btb]
    rfl
  constructor
  · intro i j hj
    rw [hempty] at hj
    cases hj
  · intro j
    rw [hempty, decide_eq_false (Finset.notMem_empty j)]
    exact .nil

theorem resident_iff (h : Coupled t r) : Resident t ip ↔ ip ∈ residents t (t.set ip) := by
  constructor
  · rintro ⟨i, hi⟩
    have hm := (mem_dom _ _).mpr hi
    exact h.home i ip hm ▸ hm
  · intro hm
    exact ⟨t.set ip, (mem_dom _ _).mp hm⟩

/-- No run fails the assertion of `evict`, and after every run the line of every
branch is a word of the protocol, as is each part of it that was written first. -/
theorem records_follow_protocol (sets ways : Nat) (record : List (Nat × Nat))
    (twig : Option (Table (List (Nat × Nat)))) (counter : Nat) (es : List (IterOrder × Call)) :
    ∃ s, run step (initializeBtb sets ways record twig counter) es = some s ∧
      ∀ ip, (∀ w, w <+: marks s.accessRecord ip → w ∈ protocol.matches') ∧
        (Resident s.opt ip ↔ lastPlacement (marks s.accessRecord ip) = some .missInsert) := by
  obtain ⟨s, hs, -⟩ := run_total (fun s c (_ : c ∈ es) hs => step_sound hs c)
    (initial_sound sets ways record twig counter)
  have hc : Coupled s.opt s.accessRecord :=
    run_preserves (fun s t e _ h ht => step_coupled h ht) (initial_coupled sets ways record twig counter) hs
  refine ⟨s, hs, fun ip => ⟨fun w hw => ?_, ?_⟩⟩
  · obtain ⟨b, hb⟩ := Follows.of_prefix (hc.follows ip) hw
    exact hb.mem_protocol
  · rw [resident_iff hc, (hc.follows ip).lastPlacement_iff, decide_eq_true_iff]

end Thermometer.OptRecord
