import Thermometer.Lib.Intervals

namespace Thermometer.Lib.Reuse

open Intervals

variable {K : Type} [DecidableEq K]

def previous (a : Nat → K) (t : Nat) : Option Nat := (List.range t).reverse.find? (fun p => a p = a t)

/-- The stretches from one request to the next request for the same key, among the first `n` requests. -/
def reuses (a : Nat → K) (n : Nat) : List Interval :=
  (List.range n).filterMap (fun t => (previous a t).map (fun p => (p, t)))

/-- What a policy keeps before each request. It may drop any key at any time and
take in no key but the one just requested, nor need it take that one in. -/
structure Policy (C : Nat) (a : Nat → K) (S : Nat → Finset K) : Prop where
  start : S 0 = ∅
  grows : ∀ q, S (q + 1) ⊆ insert (a q) (S q)
  room : ∀ q, (S q).card ≤ C

def hits (a : Nat → K) (S : Nat → Finset K) (n : Nat) : Nat := ((Finset.range n).filter (fun t => a t ∈ S t)).card

variable {a : Nat → K} {S : Nat → Finset K} {T : Finset Interval} {I J : Interval} {C n p q t : Nat}

theorem previous_eq_some :
    previous a t = some p ↔ p < t ∧ a p = a t ∧ ∀ r, p < r → r < t → a r ≠ a t := by
  rw [previous, List.find?_eq_some_iff_getElem]
  constructor
  · rintro ⟨hp, i, hi, rfl, hmin⟩
    simp only [List.length_reverse, List.length_range] at hi
    simp only [List.getElem_reverse, List.length_range, List.getElem_range, decide_eq_true_iff] at hp hmin ⊢
    refine ⟨by omega, hp, fun r hpr hrt hr => ?_⟩
    have hj := hmin (t - 1 - r) (by omega)
    rw [show t - 1 - (t - 1 - r) = r by omega] at hj
    simp [hr] at hj
  · rintro ⟨hpt, hp, hlast⟩
    refine ⟨by simpa using hp, t - 1 - p, by simp; omega, by simp; omega, fun j hj => ?_⟩
    simp only [List.getElem_reverse, List.length_range, List.getElem_range]
    simpa using hlast (t - 1 - j) (by omega) (by omega)

theorem mem_reuses :
    I ∈ reuses a n ↔ I.2 < n ∧ I.1 < I.2 ∧ a I.1 = a I.2 ∧ ∀ r, I.1 < r → r < I.2 → a r ≠ a I.2 := by
  rw [reuses, List.mem_filterMap]
  constructor
  · rintro ⟨t, ht, hI⟩
    obtain ⟨p, hp, rfl⟩ := Option.map_eq_some_iff.mp hI
    exact ⟨List.mem_range.mp ht, previous_eq_some.mp hp⟩
  · rintro ⟨hn, h⟩
    exact ⟨I.2, List.mem_range.mpr hn, by rw [previous_eq_some.mpr h]; rfl⟩

theorem reuses_succ (a : Nat → K) (n : Nat) :
    reuses a (n + 1) = reuses a n ++ ((previous a n).map (fun p => (p, n))).toList := by
  rw [reuses, List.range_succ, List.filterMap_append, reuses]
  cases h : previous a n <;> simp [h]

theorem reuses_sorted (a : Nat → K) (n : Nat) : (reuses a n).Pairwise (fun I J => I.2 < J.2) := by
  induction n with
  | zero => exact .nil
  | succ n ih =>
      rw [reuses_succ, List.pairwise_append]
      refine ⟨ih, ?_, ?_⟩
      · cases previous a n with
        | none => exact .nil
        | some p => exact List.pairwise_singleton _ _
      · intro I hI J hJ
        obtain ⟨p, -, rfl⟩ := Option.map_eq_some_iff.mp (Option.mem_toList.mp hJ)
        exact (mem_reuses.mp hI).1

theorem reuses_nodup (a : Nat → K) (n : Nat) : (reuses a n).Nodup := by
  refine (reuses_sorted a n).imp (fun {I J} h => ?_)
  rintro rfl
  exact absurd h (lt_irrefl _)

theorem eq_of_end (hI : I ∈ reuses a n) (hJ : J ∈ reuses a n) (h : I.2 = J.2) : I = J := by
  obtain ⟨-, hI₁, hI₂, hI₃⟩ := mem_reuses.mp hI
  obtain ⟨-, hJ₁, hJ₂, hJ₃⟩ := mem_reuses.mp hJ
  have hp := previous_eq_some.mpr ⟨hI₁, hI₂, hI₃⟩
  have hq := previous_eq_some.mpr ⟨hJ₁, hJ₂, hJ₃⟩
  rw [h, hq, Option.some.injEq] at hp
  exact Prod.ext hp.symm h

theorem eq_of_covers (hI : I ∈ reuses a n) (hJ : J ∈ reuses a n) (hIq : Covers I q) (hJq : Covers J q)
    (h : a I.2 = a J.2) : I = J := by
  obtain ⟨-, -, -, hI₃⟩ := mem_reuses.mp hI
  obtain ⟨-, -, -, hJ₃⟩ := mem_reuses.mp hJ
  apply eq_of_end hI hJ
  rcases lt_trichotomy I.2 J.2 with hlt | heq | hlt
  · exact absurd h (hJ₃ I.2 (hJq.1.trans_lt hIq.2) hlt)
  · exact heq
  · exact absurd h.symm (hI₃ J.2 (hIq.1.trans_lt hJq.2) hlt)

theorem mem_of_later (hS : Policy C a S) (hq : q ≤ t) {x : K} (hx : x ∈ S t) (hnot : ∀ r, q ≤ r → r < t → a r ≠ x) :
    x ∈ S q := by
  induction t, hq using Nat.le_induction with
  | base => exact hx
  | succ t hqt ih =>
      rcases Finset.mem_insert.mp (hS.grows t hx) with hat | hx
      · exact absurd hat.symm (hnot t hqt (Nat.lt_succ_self t))
      · exact ih hx (fun r hr hrt => hnot r hr (Nat.lt_succ_of_lt hrt))

/-- The reuses that a policy serves leave it room everywhere. -/
theorem selection_of_policy (hS : Policy C a S) (n : Nat) :
    ∃ T ⊆ (reuses a n).toFinset, Feasible C T ∧ T.card = hits a S n := by
  let T := (reuses a n).toFinset.filter (fun I => a I.2 ∈ S I.2)
  have hmem : ∀ I ∈ T, I ∈ reuses a n ∧ a I.2 ∈ S I.2 := by
    intro I hI
    obtain ⟨hI, hit⟩ := Finset.mem_filter.mp hI
    exact ⟨List.mem_toFinset.mp hI, hit⟩
  refine ⟨T, Finset.filter_subset _ _, fun q => ?_, ?_⟩
  · refine le_trans ?_ (hS.room (q + 1))
    apply Finset.card_le_card_of_injOn (fun I => a I.2)
    · intro I hI
      obtain ⟨hI, hcov⟩ := Finset.mem_filter.mp (Finset.mem_coe.mp hI)
      obtain ⟨hI, hit⟩ := hmem I hI
      have hlast := (mem_reuses.mp hI).2.2.2
      exact mem_of_later hS hcov.2 hit (fun r hr hrt => hlast r (hcov.1.trans_lt hr) hrt)
    · intro I hI J hJ h
      obtain ⟨hI, hIq⟩ := Finset.mem_filter.mp (Finset.mem_coe.mp hI)
      obtain ⟨hJ, hJq⟩ := Finset.mem_filter.mp (Finset.mem_coe.mp hJ)
      exact eq_of_covers (hmem I hI).1 (hmem J hJ).1 hIq hJq h
  · apply Finset.card_bij (fun I _ => I.2)
    · intro I hI
      obtain ⟨hI, hit⟩ := hmem I hI
      exact Finset.mem_filter.mpr ⟨Finset.mem_range.mpr (mem_reuses.mp hI).1, hit⟩
    · intro I hI J hJ h
      exact eq_of_end (hmem I hI).1 (hmem J hJ).1 h
    · intro t ht
      obtain ⟨htn, hit⟩ := Finset.mem_filter.mp ht
      have hprev : ∃ p, previous a t = some p := by
        rw [← Option.isSome_iff_exists, Option.isSome_iff_ne_none]
        intro hnone
        -- a key that was never asked for cannot be there
        have hzero := mem_of_later hS (Nat.zero_le t) hit (fun r _ hr h => ?_)
        · rw [hS.start] at hzero
          exact absurd hzero (Finset.notMem_empty _)
        · have hno := List.find?_eq_none.mp hnone r (by simpa using hr)
          simp [h] at hno
      obtain ⟨p, hp⟩ := hprev
      have hI : (p, t) ∈ reuses a n :=
        mem_reuses.mpr ⟨Finset.mem_range.mp htn, previous_eq_some.mp hp⟩
      exact ⟨(p, t), Finset.mem_filter.mpr ⟨List.mem_toFinset.mpr hI, hit⟩, rfl⟩

def contents (a : Nat → K) (T : Finset Interval) (q : Nat) : Finset K :=
  (T.filter (fun I => I.1 < q ∧ q ≤ I.2)).image (fun I => a I.1)

theorem policy_of_selection (hT : Feasible C T) : Policy C a (contents a T) := by
  constructor
  · rw [contents, Finset.image_eq_empty, Finset.filter_eq_empty_iff]
    rintro I - ⟨h, -⟩
    exact absurd h (Nat.not_lt_zero _)
  · intro q x hx
    obtain ⟨I, hI, rfl⟩ := Finset.mem_image.mp hx
    obtain ⟨hI, hlt, hle⟩ := Finset.mem_filter.mp hI
    rw [Finset.mem_insert]
    by_cases hq : I.1 = q
    · exact .inl (by rw [hq])
    · have hI : I ∈ T.filter (fun I => I.1 < q ∧ q ≤ I.2) := Finset.mem_filter.mpr ⟨hI, by omega, by omega⟩
      exact .inr (Finset.mem_image_of_mem _ hI)
  · intro q
    refine le_trans Finset.card_image_le ?_
    cases q with
    | zero => simp
    | succ q =>
        refine le_trans (Finset.card_le_card ?_) (hT q)
        intro I hI
        obtain ⟨hI, hlt, hle⟩ := Finset.mem_filter.mp hI
        exact Finset.mem_filter.mpr ⟨hI, Nat.le_of_lt_succ hlt, hle⟩

theorem card_le_hits (hT : T ⊆ (reuses a n).toFinset) : T.card ≤ hits a (contents a T) n := by
  have hmem : ∀ I ∈ T, I ∈ reuses a n := fun I hI => List.mem_toFinset.mp (hT hI)
  apply Finset.card_le_card_of_injOn Prod.snd
  · intro I hI
    obtain ⟨hn, hlt, heq, -⟩ := mem_reuses.mp (hmem I hI)
    have hI : I ∈ T.filter (fun J => J.1 < I.2 ∧ I.2 ≤ J.2) := Finset.mem_filter.mpr ⟨hI, hlt, le_rfl⟩
    refine Finset.mem_filter.mpr ⟨Finset.mem_range.mpr hn, ?_⟩
    rw [← heq]
    exact Finset.mem_image_of_mem _ hI
  · intro I hI J hJ h
    exact eq_of_end (hmem I hI) (hmem J hJ) h

theorem isGreatest_hits {m : Nat}
    (hm : IsGreatest {k | ∃ T ⊆ (reuses a n).toFinset, Feasible C T ∧ T.card = k} m) :
    IsGreatest {h | ∃ S, Policy C a S ∧ hits a S n = h} m := by
  have hle : ∀ S, Policy C a S → hits a S n ≤ m := by
    intro S hS
    obtain ⟨T, hsub, hT, hcard⟩ := selection_of_policy hS n
    exact hm.2 ⟨T, hsub, hT, hcard⟩
  constructor
  · obtain ⟨T, hsub, hT, rfl⟩ := hm.1
    have hS : Policy C a (contents a T) := policy_of_selection hT
    exact ⟨contents a T, hS, le_antisymm (hle _ hS) (card_le_hits hsub)⟩
  · rintro h ⟨S, hS, rfl⟩
    exact hle S hS

end Thermometer.Lib.Reuse
