import Thermometer.OptBtb

namespace Thermometer.OptFuture

open Trace Lib.Tables AccessRecord OptBtb

variable {T : Type} {t : Opt T} {o : IterOrder} {set ip time c : Nat}

theorem upperBound_eq_some {s : Finset Nat} (h : upperBound s time = some c) :
    c ∈ s ∧ time < c ∧ ∀ d ∈ s, time < d → c ≤ d := by
  have hmem := Finset.mem_of_min h
  rw [Finset.mem_filter] at hmem
  refine ⟨hmem.1, hmem.2, fun d hd hlt => ?_⟩
  exact Finset.min_le_of_eq (Finset.mem_filter.mpr ⟨hd, hlt⟩) h

theorem upperBound_eq_none {s : Finset Nat} (h : upperBound s time = none) : ∀ d ∈ s, d ≤ time := by
  intro d hd
  have hempty := Finset.min_eq_top.mp h
  by_contra hc
  have hmem := Finset.mem_filter.mpr ⟨hd, Nat.lt_of_not_le hc⟩
  rw [hempty] at hmem
  cases hmem

theorem upperBound_empty (time : Nat) : upperBound ∅ time = none := rfl

theorem times_empty (set ip : Nat) : Future.times (fun _ => ∅) set ip = ∅ := rfl

theorem mem_times_add (f : Future) (sets ip counter i j c : Nat) :
    c ∈ (addToFuture sets ip counter f).times i j ↔
      c ∈ f.times i j ∨ i = setIndex sets j ∧ (j, c) = (ip, counter) := by
  rw [Future.times, addToFuture, Prod.mk.injEq]
  by_cases hi : i = setIndex sets ip
  · subst hi
    rw [Function.update_self, lookup_insert]
    split_ifs with hj
    · subst hj
      rw [Option.getD_some, Finset.mem_insert]
      tauto
    · rw [← Future.times]
      tauto
  · rw [Function.update_of_ne hi, ← Future.times]
    constructor
    · exact .inl
    · rintro (h | ⟨h, rfl, -⟩)
      · exact h
      · exact absurd h hi

structure SameBtb (t u : Opt T) : Prop where
  btb : u.currentBtb = t.currentBtb
  sets : u.totalSets = t.totalSets
  ways : u.totalWays = t.totalWays
  time : u.timestamp = t.timestamp

theorem SameBtb.trans {u v : Opt T} (h : SameBtb t u) (h' : SameBtb u v) : SameBtb t v :=
  ⟨h'.btb.trans h.btb, h'.sets.trans h.sets, h'.ways.trans h.ways, h'.time.trans h.time⟩

variable {twig : Option (Table (List (Nat × Nat)))}

theorem readLine_same (twig : Option (Table (List (Nat × Nat)))) (t : Opt T) (line : Nat × Nat) :
    SameBtb t (readLine twig t line) := by
  rw [readLine]
  split
  · exact ⟨rfl, rfl, rfl, rfl⟩
  · exact ⟨rfl, rfl, rfl, rfl⟩

theorem readLine_accesses (t : Opt T) (line : Nat × Nat) :
    (readLine twig t line).futureAccesses = addToFuture t.totalSets line.1 line.2 t.futureAccesses := by
  rw [readLine]
  split
  · rfl
  · rfl

theorem foldl_readLine (twig : Option (Table (List (Nat × Nat)))) (t : Opt T) (record : List (Nat × Nat)) :
    SameBtb t (record.foldl (readLine twig) t) ∧
      ∀ i ip c, c ∈ (record.foldl (readLine twig) t).futureAccesses.times i ip ↔
        c ∈ t.futureAccesses.times i ip ∨ i = setIndex t.totalSets ip ∧ (ip, c) ∈ record := by
  induction record generalizing t with
  | nil => exact ⟨⟨rfl, rfl, rfl, rfl⟩, fun i ip c => by simp⟩
  | cons line record ih =>
      have hsame := readLine_same twig t line
      obtain ⟨hrest, hmem⟩ := ih (readLine twig t line)
      refine ⟨hsame.trans hrest, fun i ip c => ?_⟩
      have hip := hmem i ip c
      rw [hsame.sets, readLine_accesses, mem_times_add] at hip
      rw [List.foldl_cons, hip, List.mem_cons, or_assoc, ← and_or_left]

theorem mem_times_readRecord (sets ways : Nat) (record : List (Nat × Nat)) (counter i ip c : Nat) :
    c ∈ (readRecord (T := T) (.init sets ways) record twig counter).futureAccesses.times i ip ↔
      i = setIndex sets ip ∧ (ip, c) ∈ record := by
  refine ((foldl_readLine twig (Opt.init (T := T) sets ways) record).2 i ip c).trans (or_iff_right ?_)
  rw [Opt.init, times_empty]
  exact Finset.notMem_empty c

theorem readRecord_same (twig : Option (Table (List (Nat × Nat)))) (t : Opt T) (record : List (Nat × Nat))
    (counter : Nat) :
    SameBtb t (readRecord t record twig counter) := by
  obtain ⟨h, -⟩ := foldl_readLine twig t record
  exact ⟨h.btb, h.sets, h.ways, h.time⟩

theorem readRecord_prefetches (t : Opt T) (record : List (Nat × Nat)) (counter : Nat) :
    (readRecord t record none counter).futurePrefetches = t.futurePrefetches := by
  rw [readRecord]
  induction record generalizing t with
  | nil => rfl
  | cons line record ih => exact ih _

theorem prefetchStep_mem {found : Option (Nat × Nat)} {candidate : Nat × Nat}
    (h : prefetchStep t set found ip = some candidate) : found = some candidate ∨ candidate.2 = ip := by
  have hnew : ∀ p, some (p, ip) = some candidate → candidate.2 = ip := by
    intro p hp
    rw [Option.some.injEq] at hp
    rw [← hp]
  rw [prefetchStep] at h
  split at h
  · exact .inl h
  · split_ifs at h
    · exact .inl h
    · split at h
      · split_ifs at h
        · exact .inr (hnew _ h)
        · exact .inl h
      · exact .inr (hnew _ h)

theorem prefetchCandidate_mem {candidate : Nat × Nat} (h : prefetchCandidate o t set = some candidate) :
    candidate.2 ∈ t.currentBtb set := by
  have hscan : ∀ (l : List (Nat × T)) (found : Option (Nat × Nat)),
      l.foldl (fun found entry => prefetchStep t set found entry.1) found = some candidate →
      found = some candidate ∨ candidate.2 ∈ l.map Prod.fst := by
    intro l
    induction l with
    | nil => exact fun found hf => .inl hf
    | cons a l ih =>
        intro found hf
        rcases ih _ hf with hf | hf
        · rcases prefetchStep_mem hf with hf | hf
          · exact .inl hf
          · exact .inr (by rw [hf]; exact List.mem_cons_self)
        · exact .inr (List.mem_cons_of_mem _ hf)
  rcases hscan _ none h with hf | hf
  · cases hf
  · exact (mem_iterate_keys o _ _).mp hf

theorem prefetchCandidate_none (h : ∀ ip, t.futurePrefetches.times set ip = ∅) : prefetchCandidate o t set = none := by
  have hstep : ∀ found ip, prefetchStep t set found ip = found := by
    intro found ip
    rw [prefetchStep, nextPrefetch, h ip, upperBound_empty]
  have hscan : ∀ (l : List (Nat × T)),
      l.foldl (fun found entry => prefetchStep t set found entry.1) none = none := by
    intro l
    induction l with
    | nil => rfl
    | cons a l ih => rw [List.foldl_cons, hstep, ih]
  exact hscan _

theorem demandStep_mem (t : Opt T) (set : Nat) (candidate : Nat × Nat) (ip : Nat) :
    (demandStep t set candidate ip).2 = candidate.2 ∨ (demandStep t set candidate ip).2 = ip := by
  rw [demandStep]
  split
  · exact .inr rfl
  · split_ifs
    · exact .inr rfl
    · exact .inl rfl

theorem demandCandidate_mem (o : IterOrder) (t : Opt T) (set ip current : Nat) :
    (demandCandidate o t set ip current).2 = ip ∨ (demandCandidate o t set ip current).2 ∈ t.currentBtb set := by
  have hscan : ∀ (l : List (Nat × T)) candidate,
      (l.foldl (fun candidate entry => demandStep t set candidate entry.1) candidate).2 ∈
        candidate.2 :: l.map Prod.fst := by
    intro l
    induction l with
    | nil => exact fun candidate => List.mem_cons_self
    | cons a l ih =>
        intro candidate
        rcases List.mem_cons.mp (ih (demandStep t set candidate a.1)) with h | h
        · rw [List.foldl_cons, h]
          rcases demandStep_mem t set candidate a.1 with h | h
          · rw [h]
            exact List.mem_cons_self
          · rw [h]
            exact List.mem_cons_of_mem _ List.mem_cons_self
        · exact List.mem_cons_of_mem _ (List.mem_cons_of_mem _ h)
  rcases List.mem_cons.mp (hscan (iterate o (t.currentBtb set)) (current, ip)) with h | h
  · exact .inl h
  · exact .inr ((mem_iterate_keys o _ _).mp h)

theorem chooseVictim_mem {v : Nat} (h : chooseVictim o t ip = some v) : v ∈ t.currentBtb (t.set ip) := by
  rw [chooseVictim] at h
  cases hc : nextAccess t (t.set ip) ip with
  | none =>
      rw [hc] at h
      cases h
  | some current =>
      simp only [hc] at h
      cases hp : prefetchCandidate o t (t.set ip) with
      | some candidate =>
          simp only [hp, Option.some.injEq] at h
          exact h ▸ prefetchCandidate_mem hp
      | none =>
          simp only [hp] at h
          split_ifs at h with heq
          rw [Option.some.injEq] at h
          exact h ▸ (demandCandidate_mem o t _ _ current).resolve_left heq

def rank (t : Opt T) (set ip : Nat) : Nat := (nextAccess t set ip).getD (t.lastTimestamp + 1)

def Ended (t : Opt T) : Prop := ∀ set ip c, nextAccess t set ip = some c → c ≤ t.lastTimestamp

theorem rank_le (h : Ended t) (set ip : Nat) : rank t set ip ≤ t.lastTimestamp + 1 := by
  rw [rank]
  cases hc : nextAccess t set ip with
  | none => exact Nat.le_refl _
  | some c => exact Nat.le_succ_of_le (h set ip c hc)

def Leads (t : Opt T) (set : Nat) (seen : List Nat) (candidate : Nat × Nat) : Prop :=
  candidate.1 = rank t set candidate.2 ∧ ∀ j ∈ seen, rank t set j ≤ rank t set candidate.2

theorem demandStep_leads (he : Ended t) {seen : List Nat} {candidate : Nat × Nat}
    (h : Leads t set seen candidate) (ip : Nat) :
    Leads t set (seen ++ [ip]) (demandStep t set candidate ip) := by
  obtain ⟨hrank, hmax⟩ := h
  rw [demandStep]
  cases hc : nextAccess t set ip with
  | none =>
      have hip : rank t set ip = t.lastTimestamp + 1 := by rw [rank, hc]; rfl
      exact ⟨hip.symm, fun j _ => hip ▸ rank_le he set j⟩
  | some c =>
      have hip : rank t set ip = c := by rw [rank, hc]; rfl
      by_cases hlt : candidate.1 < c
      · simp only [if_pos hlt]
        refine ⟨hip.symm, fun j hj => ?_⟩
        rcases List.mem_append.mp hj with hj | hj
        · have hj := hmax j hj
          have hrank' : rank t set j ≤ rank t set ip := by omega
          exact hrank'
        · rw [List.mem_singleton.mp hj]
      · simp only [if_neg hlt]
        refine ⟨hrank, fun j hj => ?_⟩
        rcases List.mem_append.mp hj with hj | hj
        · exact hmax j hj
        · rw [List.mem_singleton.mp hj]
          omega

theorem demandCandidate_rank (he : Ended t) {current : Nat} (hip : nextAccess t set ip = some current) {j : Nat}
    (hj : j = ip ∨ j ∈ t.currentBtb set) : rank t set j ≤ rank t set (demandCandidate o t set ip current).2 := by
  have hscan : ∀ (l : List (Nat × T)) seen candidate, Leads t set seen candidate →
      Leads t set (seen ++ l.map Prod.fst)
        (l.foldl (fun candidate entry => demandStep t set candidate entry.1) candidate) := by
    intro l
    induction l with
    | nil =>
        intro seen candidate h
        rw [List.map_nil, List.append_nil]
        exact h
    | cons a l ih =>
        intro seen candidate h
        have hrest := ih _ _ (demandStep_leads he h a.1)
        rwa [List.append_assoc] at hrest
  have hstart : Leads t set [ip] (current, ip) := by
    refine ⟨by rw [rank, hip]; rfl, fun j hj => ?_⟩
    rw [List.mem_singleton.mp hj]
  obtain ⟨-, hmax⟩ := hscan (iterate o (t.currentBtb set)) _ _ hstart
  simp only [List.singleton_append, List.mem_cons, mem_iterate_keys] at hmax
  exact hmax j hj

/-- Without prefetches the victim, or the incoming branch when there is none,
ranks behind everything that could stay. -/
theorem chooseVictim_rank (he : Ended t) {ip j : Nat}
    (hp : ∀ k, t.futurePrefetches.times (t.set ip) k = ∅) (hj : j = ip ∨ j ∈ t.currentBtb (t.set ip)) :
    rank t (t.set ip) j ≤ rank t (t.set ip) ((chooseVictim o t ip).getD ip) := by
  rw [chooseVictim]
  cases hc : nextAccess t (t.set ip) ip with
  | none =>
      have hip : rank t (t.set ip) ip = t.lastTimestamp + 1 := by rw [rank, hc]; rfl
      exact Nat.le_trans (rank_le he _ j) (Nat.le_of_eq hip.symm)
  | some current =>
      have hrank := demandCandidate_rank (o := o) he hc hj
      simp only [prefetchCandidate_none hp]
      split_ifs with heq
      · rw [heq] at hrank
        exact hrank
      · exact hrank

end Thermometer.OptFuture
