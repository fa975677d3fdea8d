import Thermometer.Lib.Tables

namespace Thermometer.Lib.Stamps

open Tables

variable {V : Type} (stamp : V → Nat)

def maxStamp (o : IterOrder) (t : Table V) : Nat :=
  (iterate o t).foldl (fun m entry => if m < stamp entry.2 then stamp entry.2 else m) 0

def oldestStep (t : Table V) (found : Option (Nat × Nat)) (k : Nat) : Option (Nat × Nat) :=
  match t.lookup k with
  | none => found
  | some v =>
      match found with
      | none => some (stamp v, k)
      | some best => if stamp v < best.1 then some (stamp v, k) else found

def oldest (t : Table V) (keys : List Nat) : Option Nat := (keys.foldl (oldestStep stamp t) none).map Prod.snd

def Stamped (t : Table V) : Prop :=
  ∀ j k v w, t.lookup j = some v → t.lookup k = some w → stamp v = stamp w → j = k

def StampedBut (t : Table V) (ip : Nat) : Prop :=
  ∀ j k v w, j ≠ ip → k ≠ ip → t.lookup j = some v → t.lookup k = some w → stamp v = stamp w → j = k

variable {stamp} {t : Table V} {ip : Nat}

variable (stamp) in
theorem stamp_le_maxStamp (o : IterOrder) {k : Nat} {v : V} (h : t.lookup k = some v) : stamp v ≤ maxStamp stamp o t := by
  have hscan : ∀ (l : List (Nat × V)) (m : Nat),
      let final := l.foldl (fun m entry => if m < stamp entry.2 then stamp entry.2 else m) m
      m ≤ final ∧ ∀ a ∈ l, stamp a.2 ≤ final := by
    intro l
    induction l with
    | nil => exact fun m => ⟨Nat.le_refl m, fun a ha => by cases ha⟩
    | cons b l ih =>
        intro m
        obtain ⟨hm, hl⟩ := ih (if m < stamp b.2 then stamp b.2 else m)
        have hle : m ≤ if m < stamp b.2 then stamp b.2 else m := by split_ifs <;> omega
        have hge : stamp b.2 ≤ if m < stamp b.2 then stamp b.2 else m := by split_ifs <;> omega
        refine ⟨Nat.le_trans hle hm, ?_⟩
        intro a ha
        rcases List.mem_cons.mp ha with rfl | ha
        · exact Nat.le_trans hge hm
        · exact hl a ha
  exact (hscan (iterate o t) 0).2 (k, v) ((mem_iterate o t k v).mpr h)

theorem StampedBut.modify (h : StampedBut stamp t ip) (o : IterOrder) {f : V → V}
    (hf : ∀ v, stamp (f v) = maxStamp stamp o t + 1) : Stamped stamp (modify t ip f) := by
  intro j k v w hv hw heq
  rw [lookup_modify] at hv hw
  by_cases hj : j = ip
  · by_cases hk : k = ip
    · rw [hj, hk]
    · rw [if_pos hj] at hv
      rw [if_neg hk] at hw
      obtain ⟨u, -, rfl⟩ := Option.map_eq_some_iff.mp hv
      have hle := stamp_le_maxStamp stamp o hw
      rw [hf] at heq
      omega
  · rw [if_neg hj] at hv
    by_cases hk : k = ip
    · rw [if_pos hk] at hw
      obtain ⟨u, -, rfl⟩ := Option.map_eq_some_iff.mp hw
      have hle := stamp_le_maxStamp stamp o hv
      rw [hf] at heq
      omega
    · rw [if_neg hk] at hw
      exact h j k v w hj hk hv hw heq

theorem stamped_empty : Stamped stamp (∅ : Table V) := by
  intro j k v w hv
  cases hv

theorem Stamped.insert (h : Stamped stamp t) (ip : Nat) (v : V) : StampedBut stamp (t.insert ip v) ip := by
  intro j k u w hj hk hu hw
  rw [lookup_insert, if_neg hj] at hu
  rw [lookup_insert, if_neg hk] at hw
  exact h j k u w hu hw

theorem Stamped.but (h : Stamped stamp t) (ip : Nat) : StampedBut stamp t ip := by
  intro j k v w _ _
  exact h j k v w

theorem Stamped.modify_but (h : Stamped stamp t) (ip : Nat) (f : V → V) : StampedBut stamp (modify t ip f) ip := by
  intro j k u w hj hk hu hw
  rw [lookup_modify, if_neg hj] at hu
  rw [lookup_modify, if_neg hk] at hw
  exact h j k u w hu hw

theorem Stamped.erase (h : Stamped stamp t) (k : Nat) : Stamped stamp (t.erase k) := by
  intro i j v w hv hw
  rw [lookup_erase] at hv hw
  split_ifs at hv hw
  exact h i j v w hv hw

theorem Stamped.modify (h : Stamped stamp t) (ip : Nat) {f : V → V} (hf : ∀ v, stamp (f v) = stamp v) :
    Stamped stamp (modify t ip f) := by
  have hold : ∀ j v, (Tables.modify t ip f).lookup j = some v → ∃ u, t.lookup j = some u ∧ stamp u = stamp v := by
    intro j v hv
    rw [lookup_modify] at hv
    split_ifs at hv with hj
    · obtain ⟨u, hu, rfl⟩ := Option.map_eq_some_iff.mp hv
      exact ⟨u, hj ▸ hu, (hf u).symm⟩
    · exact ⟨v, hv, rfl⟩
  intro j k v w hv hw heq
  obtain ⟨u, hu, hvu⟩ := hold j v hv
  obtain ⟨x, hx, hwx⟩ := hold k w hw
  exact h j k u x hu hx (by rw [hvu, hwx, heq])

def Best (stamp : V → Nat) (t : Table V) (seen : List Nat) : Option (Nat × Nat) → Prop
  | none => ∀ j ∈ seen, j ∉ t
  | some best => best.2 ∈ seen ∧ (∃ v, t.lookup best.2 = some v ∧ best.1 = stamp v) ∧
      ∀ j ∈ seen, ∀ w, t.lookup j = some w → best.1 ≤ stamp w

theorem oldestStep_best {seen : List Nat} {found : Option (Nat × Nat)} (h : Best stamp t seen found) (k : Nat) :
    Best stamp t (seen ++ [k]) (oldestStep stamp t found k) := by
  rw [oldestStep]
  cases hk : t.lookup k with
  | none =>
      have hno : k ∉ t := AList.lookup_eq_none.mp hk
      cases found with
      | none =>
          intro j hj
          rcases List.mem_append.mp hj with hj | hj
          · exact h j hj
          · rw [List.mem_singleton.mp hj]
            exact hno
      | some best =>
          obtain ⟨hmem, hlook, hmin⟩ := h
          refine ⟨List.mem_append_left _ hmem, hlook, ?_⟩
          intro j hj w hw
          rcases List.mem_append.mp hj with hj | hj
          · exact hmin j hj w hw
          · rw [List.mem_singleton.mp hj, hk] at hw
            cases hw
  | some v =>
      have hnew : (∀ j ∈ seen, ∀ w, t.lookup j = some w → stamp v ≤ stamp w) →
          Best stamp t (seen ++ [k]) (some (stamp v, k)) := by
        intro hmin
        refine ⟨by simp, ⟨v, hk, rfl⟩, ?_⟩
        intro j hj w hw
        rcases List.mem_append.mp hj with hj | hj
        · exact hmin j hj w hw
        · rw [List.mem_singleton.mp hj, hk, Option.some.injEq] at hw
          exact Nat.le_of_eq (congrArg stamp hw)
      cases found with
      | none =>
          apply hnew
          intro j hj w hw
          exact absurd ((mem_iff_lookup t j).mpr ⟨w, hw⟩) (h j hj)
      | some best =>
          obtain ⟨hmem, hlook, hmin⟩ := h
          by_cases hlt : stamp v < best.1
          · simp only [if_pos hlt]
            apply hnew
            intro j hj w hw
            exact Nat.le_trans (Nat.le_of_lt hlt) (hmin j hj w hw)
          · simp only [if_neg hlt]
            refine ⟨List.mem_append_left _ hmem, hlook, ?_⟩
            intro j hj w hw
            rcases List.mem_append.mp hj with hj | hj
            · exact hmin j hj w hw
            · rw [List.mem_singleton.mp hj, hk, Option.some.injEq] at hw
              rw [← hw]
              omega

variable (stamp) in
theorem scan_best (t : Table V) (l : List Nat) : Best stamp t l (l.foldl (oldestStep stamp t) none) := by
  have hscan : ∀ (l seen : List Nat) found, Best stamp t seen found →
      Best stamp t (seen ++ l) (l.foldl (oldestStep stamp t) found) := by
    intro l
    induction l with
    | nil =>
        intro seen found h
        rwa [List.append_nil]
    | cons a l ih =>
        intro seen found h
        have hrest := ih _ _ (oldestStep_best h a)
        rwa [List.append_assoc] at hrest
  exact hscan l [] none (fun j hj => by cases hj)

theorem oldest_eq_some {l : List Nat} {k : Nat} (h : oldest stamp t l = some k) :
    k ∈ l ∧ ∃ v, t.lookup k = some v ∧ ∀ j ∈ l, ∀ w, t.lookup j = some w → stamp v ≤ stamp w := by
  obtain ⟨best, hbest, rfl⟩ := Option.map_eq_some_iff.mp h
  have hscan := scan_best stamp t l
  rw [hbest] at hscan
  obtain ⟨hmem, ⟨v, hv, heq⟩, hmin⟩ := hscan
  exact ⟨hmem, v, hv, heq ▸ hmin⟩

theorem oldest_eq_none {l : List Nat} (h : oldest stamp t l = none) : ∀ k ∈ l, k ∉ t := by
  have hscan := scan_best stamp t l
  rwa [Option.map_eq_none_iff.mp h] at hscan

theorem exists_oldest (o : IterOrder) (h : 0 < size t) :
    ∃ k, oldest stamp t ((iterate o t).map Prod.fst) = some k ∧ k ∈ t := by
  cases hk : oldest stamp t ((iterate o t).map Prod.fst) with
  | none =>
      obtain ⟨k, hmem⟩ := List.exists_mem_of_ne_nil t.keys (List.ne_nil_of_length_pos h)
      have hno := oldest_eq_none hk k ((mem_iterate_keys o t k).mpr (AList.mem_keys.mpr hmem))
      exact absurd (AList.mem_keys.mpr hmem) hno
  | some k => exact ⟨k, rfl, (mem_iterate_keys o t k).mp (oldest_eq_some hk).1⟩

end Thermometer.Lib.Stamps
