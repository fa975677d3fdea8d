import Mathlib.Data.Finset.Card
import Mathlib.Data.List.Pairwise
import Mathlib.Data.Nat.Find
import Mathlib.Order.Bounds.Basic

namespace Thermometer.Lib.Intervals

/-- A stretch of time from its first moment up to, and without, its second. -/
abbrev Interval := Nat × Nat

def Covers (I : Interval) (q : Nat) : Prop := I.1 ≤ q ∧ q < I.2

instance (I : Interval) : DecidablePred (Covers I) := fun _ => inferInstanceAs (Decidable (_ ∧ _))

def load (S : Finset Interval) (q : Nat) : Nat := (S.filter (fun I => Covers I q)).card

def Feasible (C : Nat) (S : Finset Interval) : Prop := ∀ q, load S q ≤ C

def Fits (C : Nat) (S : Finset Interval) (I : Interval) : Prop := ∀ q, I.1 ≤ q → q < I.2 → load S q < C

instance (C : Nat) (S : Finset Interval) (I : Interval) : Decidable (Fits C S I) :=
  decidable_of_iff (∀ q < I.2, I.1 ≤ q → load S q < C)
    ⟨fun h q hp hq => h q hq hp, fun h q hq hp => h q hp hq⟩

def selectStep (C : Nat) (S : Finset Interval) (I : Interval) : Finset Interval := if Fits C S I then insert I S else S

def select (C : Nat) (S : Finset Interval) (l : List Interval) : Finset Interval := l.foldl (selectStep C) S

variable {C : Nat} {G S : Finset Interval} {I J : Interval} {l : List Interval} {q : Nat}

theorem load_insert (h : I ∉ S) (q : Nat) : load (insert I S) q = load S q + if Covers I q then 1 else 0 := by
  rw [load, load, Finset.filter_insert]
  split_ifs with hc
  · exact Finset.card_insert_of_notMem (fun hm => h (Finset.mem_filter.mp hm).1)
  · rfl

theorem load_erase (h : I ∈ S) (q : Nat) : load (S.erase I) q + (if Covers I q then 1 else 0) = load S q := by
  have hins := load_insert (Finset.notMem_erase I S) q
  rw [Finset.insert_erase h] at hins
  exact hins.symm

theorem load_mono (h : G ⊆ S) (q : Nat) : load G q ≤ load S q :=
  Finset.card_le_card (Finset.filter_subset_filter _ h)

theorem load_empty (q : Nat) : load ∅ q = 0 := rfl

theorem feasible_empty (C : Nat) : Feasible C ∅ := fun _ => Nat.zero_le C

theorem feasible_insert (hS : Feasible C S) (hI : Fits C S I) : Feasible C (insert I S) := by
  intro q
  by_cases hm : I ∈ S
  · rw [Finset.insert_eq_of_mem hm]
    exact hS q
  · rw [load_insert hm]
    split_ifs with hc
    · exact hI q hc.1 hc.2
    · exact hS q

/-- An interval that a selection has beside `G` is taken out where room is missing first. -/
theorem exchange (hG : G ⊆ S) (hS : Feasible C S) (hfits : Fits C G I) (hI : I ∉ S)
    (hlater : ∀ J ∈ S, J ∉ G → I.2 ≤ J.2) :
    ∃ T, insert I G ⊆ T ∧ T ⊆ insert I S ∧ Feasible C T ∧ S.card ≤ T.card := by
  by_cases hfit : Fits C S I
  · exact ⟨insert I S, Finset.insert_subset_insert I hG, subset_rfl, feasible_insert hS hfit,
      Finset.card_le_card (Finset.subset_insert I S)⟩
  · have hfull : ∃ q, Covers I q ∧ C ≤ load S q := by
      by_contra hno
      exact hfit (fun q hp hq => not_le.mp (fun hle => hno ⟨q, ⟨hp, hq⟩, hle⟩))
    obtain ⟨hcov, hle⟩ := Nat.find_spec hfull
    have hfirst : ∀ q, Covers I q → q < Nat.find hfull → load S q < C := by
      intro q hc hq
      exact not_le.mp (fun hle => Nat.find_min hfull hq ⟨hc, hle⟩)
    obtain ⟨J, hJ, hJG⟩ := Finset.exists_mem_notMem_of_card_lt_card
      (Nat.lt_of_lt_of_le (hfits _ hcov.1 hcov.2) hle)
    obtain ⟨hJS, hJcov⟩ := Finset.mem_filter.mp hJ
    have hJG : J ∉ G := fun hm => hJG (Finset.mem_filter.mpr ⟨hm, hJcov⟩)
    have hend := hlater J hJS hJG
    have hne : I ∉ S.erase J := fun hm => hI (Finset.mem_of_mem_erase hm)
    refine ⟨insert I (S.erase J), ?_, ?_, ?_, ?_⟩
    · exact Finset.insert_subset_insert I (Finset.subset_erase.mpr ⟨hG, hJG⟩)
    · exact Finset.insert_subset_insert I (Finset.erase_subset J S)
    · intro q
      have herase := load_erase hJS q
      have hload := hS q
      rw [load_insert hne]
      by_cases hc : Covers I q
      · rw [if_pos hc]
        by_cases hq : q < Nat.find hfull
        · have := hfirst q hc hq
          omega
        · have hJq : Covers J q := ⟨hJcov.1.trans (not_lt.mp hq), hc.2.trans_le hend⟩
          rw [if_pos hJq] at herase
          omega
      · rw [if_neg hc]
        omega
    · rw [Finset.card_insert_of_notMem hne, Finset.card_erase_of_mem hJS]
      omega

theorem select_subset (C : Nat) (S : Finset Interval) (l : List Interval) : select C S l ⊆ S ∪ l.toFinset := by
  induction l generalizing S with
  | nil => simp [select]
  | cons I l ih =>
      intro J hJ
      have hstep := ih (selectStep C S I) hJ
      rw [Finset.mem_union] at hstep
      rw [List.toFinset_cons, Finset.mem_union, Finset.mem_insert]
      rcases hstep with hJ | hJ
      · rw [selectStep] at hJ
        split_ifs at hJ with hfits
        · rcases Finset.mem_insert.mp hJ with rfl | hJ
          · exact .inr (.inl rfl)
          · exact .inl hJ
        · exact .inl hJ
      · exact .inr (.inr hJ)

theorem select_feasible (hS : Feasible C S) (l : List Interval) : Feasible C (select C S l) := by
  induction l generalizing S with
  | nil => exact hS
  | cons I l ih =>
      apply ih
      rw [selectStep]
      split_ifs with hfits
      · exact feasible_insert hS hfits
      · exact hS

/-- Intervals in the order in which they end: whatever else could have been taken beside
what is taken already, taking every interval there is room for takes as many. -/
theorem select_maximal (hl : l.Pairwise (fun I J => I.2 ≤ J.2)) (hnodup : l.Nodup) (hnew : ∀ I ∈ l, I ∉ G)
    (hG : G ⊆ S) (hSl : S ⊆ G ∪ l.toFinset) (hS : Feasible C S) : S.card ≤ (select C G l).card := by
  induction l generalizing G S with
  | nil =>
      rw [List.toFinset_nil, Finset.union_empty] at hSl
      exact Finset.card_le_card hSl
  | cons I l ih =>
      have hIG := hnew I List.mem_cons_self
      obtain ⟨hend, hl⟩ := List.pairwise_cons.mp hl
      obtain ⟨hIl, hnodup⟩ := List.nodup_cons.mp hnodup
      have hcases : ∀ J ∈ S, J ∈ G ∨ J = I ∨ J ∈ l := by
        intro J hJ
        have hm := hSl hJ
        rwa [Finset.mem_union, List.mem_toFinset, List.mem_cons] at hm
      show S.card ≤ (select C (selectStep C G I) l).card
      rw [selectStep]
      by_cases hfits : Fits C G I
      · rw [if_pos hfits]
        have hnew' : ∀ J ∈ l, J ∉ insert I G := by
          intro J hJ hm
          rcases Finset.mem_insert.mp hm with rfl | hm
          · exact hIl hJ
          · exact hnew J (List.mem_cons_of_mem I hJ) hm
        have hsub : ∀ T : Finset Interval, T ⊆ insert I S → T ⊆ insert I G ∪ l.toFinset := by
          intro T hT J hJ
          rw [Finset.mem_union, Finset.mem_insert, List.mem_toFinset]
          rcases Finset.mem_insert.mp (hT hJ) with rfl | hJ
          · exact .inl (.inl rfl)
          · rcases hcases J hJ with hJ | rfl | hJ
            · exact .inl (.inr hJ)
            · exact .inl (.inl rfl)
            · exact .inr hJ
        by_cases hI : I ∈ S
        · exact ih hl hnodup hnew' (Finset.insert_subset hI hG) (hsub S (Finset.subset_insert I S)) hS
        · have hlater : ∀ J ∈ S, J ∉ G → I.2 ≤ J.2 := by
            intro J hJ hJG
            rcases hcases J hJ with hm | rfl | hm
            · exact absurd hm hJG
            · exact le_rfl
            · exact hend J hm
          obtain ⟨T, hGT, hTS, hT, hcard⟩ := exchange hG hS hfits hI hlater
          exact hcard.trans (ih hl hnodup hnew' hGT (hsub T hTS) hT)
      · rw [if_neg hfits]
        -- no selection with `G` in it has room for `I` either
        have hI : I ∉ S := by
          intro hI
          apply hfits
          intro q hp hq
          have hload := load_mono (Finset.insert_subset hI hG) q
          rw [load_insert hIG, if_pos ⟨hp, hq⟩] at hload
          have := hS q
          omega
        refine ih hl hnodup (fun J hJ => hnew J (List.mem_cons_of_mem I hJ)) hG ?_ hS
        intro J hJ
        rw [Finset.mem_union, List.mem_toFinset]
        rcases hcases J hJ with hm | rfl | hm
        · exact .inl hm
        · exact absurd hJ hI
        · exact .inr hm

theorem isGreatest_select (C : Nat) (hl : l.Pairwise (fun I J => I.2 ≤ J.2)) (hnodup : l.Nodup) :
    IsGreatest {k | ∃ S ⊆ l.toFinset, Feasible C S ∧ S.card = k} (select C ∅ l).card := by
  constructor
  · refine ⟨select C ∅ l, ?_, select_feasible (feasible_empty C) l, rfl⟩
    have hsub := select_subset C ∅ l
    rwa [Finset.empty_union] at hsub
  · rintro k ⟨S, hSl, hS, rfl⟩
    refine select_maximal hl hnodup (fun I _ => Finset.notMem_empty I) (Finset.empty_subset S) ?_ hS
    rwa [Finset.empty_union]

end Thermometer.Lib.Intervals
