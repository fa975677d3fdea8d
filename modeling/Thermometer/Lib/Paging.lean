import Mathlib.Data.Finset.Card
import Mathlib.Data.Int.Basic
import Mathlib.Algebra.BigOperators.Group.Finset.Basic
import Mathlib.Algebra.BigOperators.Group.Finset.Piecewise
import Mathlib.Algebra.Order.BigOperators.Group.Finset
import Mathlib.Tactic.Ring

namespace Thermometer.Lib.Paging

variable {K I : Type} [DecidableEq K] [DecidableEq I]

/-- What any policy may do with a request, and the misses it counts. -/
inductive Serve (ways : Nat) (l : List (Option K)) (x : K) : Finset K → Finset K → Nat → Prop
  | hit {C : Finset K} : x ∈ C → Serve ways l x C C 0
  | bypass {C : Finset K} : x ∉ C → Serve ways l x C C 1
  | fill {C : Finset K} : x ∉ C → C.card < ways → Serve ways l x C (insert x C) 1
  | evict {C : Finset K} (v : K) : x ∉ C → v ∈ C → Serve ways l x C (insert x (C.erase v)) 1

def Sooner (l : List (Option K)) (y z : K) : Prop := ∀ t, some z ∈ l.take t → some y ∈ l.take t

inductive Furthest (ways : Nat) (l : List (Option K)) (x : K) : Finset K → Finset K → Nat → Prop
  | hit {C : Finset K} : x ∈ C → Furthest ways l x C C 0
  | fill {C : Finset K} : x ∉ C → C.card < ways → Furthest ways l x C (insert x C) 1
  | drop {C : Finset K} (z : K) : x ∉ C → C.card = ways → z ∈ insert x C →
      (∀ y ∈ insert x C, Sooner l y z) → Furthest ways l x C ((insert x C).erase z) 1

/-- A run over a request sequence, each request going to its own set. A step
sees the requests still to come. -/
inductive Run (step : List (Option K) → K → Finset K → Finset K → Nat → Prop) (idx : K → I) :
    (I → Finset K) → List (Option K) → Nat → Prop
  | nil (C : I → Finset K) : Run step idx C [] 0
  | skip {C : I → Finset K} {l : List (Option K)} {n : Nat} :
      Run step idx C l n → Run step idx C (none :: l) n
  | request {C : I → Finset K} {l : List (Option K)} {x : K} {D : Finset K} {m n : Nat} :
      step l x (C (idx x)) D m → Run step idx (Function.update C (idx x) D) l n →
      Run step idx C (some x :: l) (m + n)

def due (l : List (Option K)) (C : Finset K) (t : Nat) : Nat := (C.filter (fun y => some y ∈ l.take t)).card

variable {l : List (Option K)} {x : K} {B B' O O' : Finset K} {ways m n t : Nat}

def present (x : K) (C : Finset K) : Nat := if x ∈ C then 1 else 0

theorem due_le_card (l : List (Option K)) (C : Finset K) (t : Nat) : due l C t ≤ C.card :=
  Finset.card_filter_le _ _

theorem due_zero (l : List (Option K)) (C : Finset K) : due l C 0 = 0 := by
  simp [due]

theorem due_mono {C D : Finset K} (h : C ⊆ D) : due l C t ≤ due l D t :=
  Finset.card_le_card (Finset.filter_subset_filter _ h)

theorem due_eq (l : List (Option K)) (x : K) (C : Finset K) (t : Nat) :
    due l C t = due l (C.erase x) t + if x ∈ C ∧ some x ∈ l.take t then 1 else 0 := by
  rw [due, due, Finset.filter_erase]
  split_ifs with h
  · rw [Finset.card_erase_add_one (Finset.mem_filter.mpr h)]
  · rw [Finset.erase_eq_of_notMem (fun hm => h (Finset.mem_filter.mp hm)), Nat.add_zero]

theorem due_cons_some (l : List (Option K)) (x : K) (C : Finset K) (t : Nat) :
    due (some x :: l) C (t + 1) = due l (C.erase x) t + present x C := by
  rw [due_eq _ x, present]
  congr 1
  · rw [due, due]
    congr 1
    refine Finset.filter_congr (fun y hy => ?_)
    rw [List.take_succ_cons, List.mem_cons, Option.some.injEq, or_iff_right (Finset.ne_of_mem_erase hy)]
  · simp

theorem due_cons_of_ne {h : Option K} {C : Finset K} (hne : ∀ y ∈ C, some y ≠ h) (l : List (Option K))
    (t : Nat) : due (h :: l) C (t + 1) = due l C t := by
  rw [due, due]
  congr 1
  refine Finset.filter_congr (fun y hy => ?_)
  rw [List.take_succ_cons, List.mem_cons, or_iff_right (hne y hy)]

theorem Serve.miss (h : Serve ways l x O O' n) : n + present x O = 1 := by
  cases h with
  | hit hx => simp [present, hx]
  | bypass hx => simp [present, hx]
  | fill hx hc => simp [present, hx]
  | evict v hx hv => simp [present, hx]

theorem Furthest.miss (h : Furthest ways l x B B' m) : m + present x B = 1 := by
  cases h with
  | hit hx => simp [present, hx]
  | fill hx hc => simp [present, hx]
  | drop z hx hc hz hs => simp [present, hx]

theorem Serve.card_le (h : Serve ways l x O O' n) (hc : O.card ≤ ways) : O'.card ≤ ways := by
  cases h with
  | hit hx => exact hc
  | bypass hx => exact hc
  | fill hx hlt =>
      rw [Finset.card_insert_of_notMem hx]
      exact hlt
  | evict v hx hv =>
      rw [Finset.card_insert_of_notMem (fun hm => hx (Finset.mem_of_mem_erase hm)),
        Finset.card_erase_add_one hv]
      exact hc

theorem Furthest.card_le (h : Furthest ways l x B B' m) (hc : B.card ≤ ways) : B'.card ≤ ways := by
  cases h with
  | hit hx => exact hc
  | fill hx hlt =>
      rw [Finset.card_insert_of_notMem hx]
      exact hlt
  | drop z hx hfull hz hs =>
      rw [Finset.card_erase_of_mem hz, Finset.card_insert_of_notMem hx, Nat.add_sub_cancel]
      exact hc

theorem Serve.subset (h : Serve ways l x O O' n) : O' ⊆ insert x O := by
  cases h with
  | hit hx => exact Finset.subset_insert x O
  | bypass hx => exact Finset.subset_insert x O
  | fill hx hc => exact subset_rfl
  | evict v hx hv => exact Finset.insert_subset_insert x (Finset.erase_subset v O)

theorem Furthest.subset (h : Furthest ways l x B B' m) : B' ⊆ insert x B := by
  cases h with
  | hit hx => exact Finset.subset_insert x B
  | fill hx hc => exact subset_rfl
  | drop z hx hc hz hs => exact Finset.erase_subset z _

theorem due_insert (l : List (Option K)) (x : K) (C : Finset K) (t : Nat) :
    due l (insert x C) t = due l (C.erase x) t + if some x ∈ l.take t then 1 else 0 := by
  rw [due_eq l x, Finset.erase_insert_eq_erase]
  simp

theorem Serve.due_le (h : Serve ways l x O O' n) (t : Nat) :
    due l O' t ≤ due l (O.erase x) t + if some x ∈ l.take t then 1 else 0 := by
  rw [← due_insert]
  exact due_mono h.subset

theorem Furthest.due_eq (h : Furthest ways l x B B' m) (t : Nat) :
    due l B' t = (due l (B.erase x) t + if some x ∈ l.take t then 1 else 0) ∨ due l B' t = ways := by
  cases h with
  | hit hx =>
      left
      rw [← due_insert, Finset.insert_eq_of_mem hx]
  | fill hx hc =>
      left
      rw [due_insert]
  | drop z hx hc hz hs =>
      by_cases hd : some z ∈ l.take t
      · right
        have hall : ((insert x B).erase z).filter (fun y => some y ∈ l.take t) = (insert x B).erase z := by
          rw [Finset.filter_eq_self]
          intro y hy
          exact hs y (Finset.mem_of_mem_erase hy) t hd
        rw [due, hall, Finset.card_erase_of_mem hz, Finset.card_insert_of_notMem hx, hc, Nat.add_sub_cancel]
      · left
        rw [← due_insert, Paging.due_eq l z (insert x B), if_neg (fun hb => hd hb.2), Nat.add_zero]

/-- Belady's set is ahead of another by `d` misses: what the other has due and
Belady has not, Belady has already saved. -/
def Ahead (l : List (Option K)) (B O : Finset K) (d : Int) : Prop := ∀ t, (due l O t : Int) ≤ due l B t + d

theorem Ahead.nonneg {d : Int} (h : Ahead l B O d) : 0 ≤ d := by
  have := h 0
  rw [due_zero, due_zero] at this
  omega

theorem Ahead.other {d : Int} {h : Option K} (ha : Ahead (h :: l) B O d) (hB : ∀ y ∈ B, some y ≠ h)
    (hO : ∀ y ∈ O, some y ≠ h) : Ahead l B O d := by
  intro t
  have := ha (t + 1)
  rwa [due_cons_of_ne hB, due_cons_of_ne hO] at this

theorem Ahead.serve {d : Int} (ha : Ahead (some x :: l) B O d) (hB : Furthest ways l x B B' m)
    (hO : Serve ways l x O O' n) (hc : O.card ≤ ways) : Ahead l B' O' (d + n - m) := by
  intro t
  have hnext := ha (t + 1)
  have hnow := ha 1
  rw [due_cons_some, due_cons_some] at hnext hnow
  rw [due_zero, due_zero] at hnow
  have hm := hB.miss
  have hn := hO.miss
  have hdO := hO.due_le t
  rcases hB.due_eq t with hdB | hdB
  · omega
  · have hle := Nat.le_trans (due_le_card l O' t) (hO.card_le hc)
    omega

variable {idx : K → I} {s : Finset I}

theorem sum_update_add (d : I → Int) {i : I} (hi : i ∈ s) (v : Int) :
    ∑ j ∈ s, Function.update d i (d i + v) j = ∑ j ∈ s, d j + v := by
  rw [Finset.sum_update_of_mem hi, ← Finset.sum_sdiff (Finset.singleton_subset_iff.mpr hi),
    Finset.sum_singleton]
  ring

def Placed (idx : K → I) (C : I → Finset K) : Prop := ∀ i, ∀ y ∈ C i, idx y = i

theorem Placed.update {C : I → Finset K} (h : Placed idx C) {D : Finset K} (hD : D ⊆ insert x (C (idx x))) :
    Placed idx (Function.update C (idx x) D) := by
  intro i y hy
  by_cases hi : i = idx x
  · subst hi
    rw [Function.update_self] at hy
    rcases Finset.mem_insert.mp (hD hy) with rfl | hy
    · rfl
    · exact h _ y hy
  · rw [Function.update_of_ne hi] at hy
    exact h i y hy

omit [DecidableEq K] [DecidableEq I] in
theorem Placed.ne {C : I → Finset K} (h : Placed idx C) {i : I} (hi : i ≠ idx x) : ∀ y ∈ C i, some y ≠ some x := by
  intro y hy he
  rw [Option.some.injEq] at he
  exact hi (he ▸ (h i y hy).symm)

theorem run_le {C D : I → Finset K} {d : I → Int} (hs : ∀ k, idx k ∈ s) (hC : Placed idx C) (hD : Placed idx D)
    (hcard : ∀ i, (D i).card ≤ ways) (ha : ∀ i, Ahead l (C i) (D i) (d i))
    (hm : Run (Furthest ways) idx C l m) (hn : Run (Serve ways) idx D l n) :
    (m : Int) ≤ n + ∑ i ∈ s, d i := by
  induction l generalizing C D d m n with
  | nil =>
      cases hm
      cases hn
      have := Finset.sum_nonneg (fun i (_ : i ∈ s) => (ha i).nonneg)
      omega
  | cons h l ih =>
      cases h with
      | none =>
          cases hm with
          | skip hm =>
              cases hn with
              | skip hn =>
                  refine ih hC hD hcard (fun i => (ha i).other ?_ ?_) hm hn
                  · intro y _ hy
                    cases hy
                  · intro y _ hy
                    cases hy
      | some x =>
          cases hm with
          | @request _ _ _ B' a m hB hm =>
              cases hn with
              | @request _ _ _ O' b n hO hn =>
                  have hle := ih (d := Function.update d (idx x) (d (idx x) + (b - a)))
                    (hC.update hB.subset) (hD.update hO.subset) ?_ ?_ hm hn
                  · rw [sum_update_add d (hs x)] at hle
                    push_cast
                    omega
                  · intro i
                    by_cases hi : i = idx x
                    · subst hi
                      rw [Function.update_self]
                      exact hO.card_le (hcard _)
                    · rw [Function.update_of_ne hi]
                      exact hcard i
                  · intro i
                    by_cases hi : i = idx x
                    · subst hi
                      simp only [Function.update_self]
                      have hstep := (ha (idx x)).serve hB hO (hcard _)
                      rwa [add_sub_assoc] at hstep
                    · simp only [Function.update_of_ne hi]
                      exact (ha i).other (hC.ne hi) (hD.ne hi)

/-- From the empty cache, dropping the key requested furthest in the future
misses no more often than any other policy. -/
theorem furthest_optimal (hs : ∀ k, idx k ∈ s) (hm : Run (Furthest ways) idx (fun _ => ∅) l m)
    (hn : Run (Serve ways) idx (fun _ => ∅) l n) : m ≤ n := by
  have h := run_le (d := fun _ => 0) hs (fun _ _ hy => by cases hy) (fun _ _ hy => by cases hy)
    (fun _ => Nat.zero_le _) (fun _ t => by simp [due]) hm hn
  rw [Finset.sum_const_zero] at h
  omega

end Thermometer.Lib.Paging
