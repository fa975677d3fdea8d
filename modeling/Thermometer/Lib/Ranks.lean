import Mathlib.Data.List.Perm.Basic
import Mathlib.Data.List.Range
import Thermometer.Lib.Stamps

namespace Thermometer.Lib.Ranks

open Tables Stamps

variable {V : Type} (rank : V → Nat)

def ranks (t : Table V) : List Nat := t.entries.map (fun e => rank e.2)

structure Ranked (t : Table V) : Prop where
  distinct : Stamped rank t
  below : ∀ k v, t.lookup k = some v → rank v < size t

variable {rank} {t t' : Table V} {k n : Nat} {v v' : V}

theorem mem_entries (t : Table V) (k : Nat) (v : V) : ⟨k, v⟩ ∈ t.entries ↔ t.lookup k = some v :=
  AList.mem_lookup_iff.symm

theorem Ranked.perm (h : Ranked rank t) : (ranks rank t).Perm (List.range (size t)) := by
  have hnodup : (ranks rank t).Nodup := by
    apply List.Nodup.map_on _ t.nodupKeys.nodup
    rintro ⟨j, v⟩ hj ⟨k, w⟩ hk heq
    have hv := (mem_entries t j v).mp hj
    have hw := (mem_entries t k w).mp hk
    obtain rfl := h.distinct j k v w hv hw heq
    obtain rfl := Option.some.inj (hv.symm.trans hw)
    rfl
  have hsub : ranks rank t ⊆ List.range (size t) := by
    intro i hi
    obtain ⟨⟨k, v⟩, hmem, rfl⟩ := List.mem_map.mp hi
    exact List.mem_range.mpr (h.below k v ((mem_entries t k v).mp hmem))
  apply (hnodup.subperm hsub).perm_of_length_le
  rw [List.length_range, ranks, List.length_map, length_entries]

theorem Ranked.exists_rank (h : Ranked rank t) (hn : n < size t) : ∃ k v, t.lookup k = some v ∧ rank v = n := by
  obtain ⟨⟨k, v⟩, hmem, heq⟩ := List.mem_map.mp (h.perm.mem_iff.mpr (List.mem_range.mpr hn))
  exact ⟨k, v, (mem_entries t k v).mp hmem, heq⟩

theorem ranked_empty : Ranked rank (∅ : Table V) := ⟨stamped_empty, fun k v hv => by cases hv⟩

theorem size_eq (h : ∀ k, k ∈ t' ↔ k ∈ t) : size t' = size t := by
  apply List.Perm.length_eq
  apply (List.perm_ext_iff_of_nodup t'.keys_nodup t.keys_nodup).mpr
  intro k
  exact AList.mem_keys.symm.trans ((h k).trans AList.mem_keys)

theorem Ranked.erase (h : Ranked rank t) (hk : t.lookup k = some v) (hv : rank v + 1 = size t) : Ranked rank (t.erase k) := by
  refine ⟨h.distinct.erase k, ?_⟩
  intro j w hw
  rw [lookup_erase] at hw
  split_ifs at hw with hj
  have hlt := h.below j w hw
  have hne : rank w ≠ rank v := fun heq => hj (h.distinct j k w v hw hk heq)
  have hsize := size_erase_of_mem ((mem_iff_lookup t k).mpr ⟨v, hk⟩)
  omega

/-- Aging of the entries before `limit`, the last step of a use of `k`. -/
theorem renewed (hdistinct : Stamped rank t) {limit : Nat} (hk : t'.lookup k = some v') (hv' : rank v' = 0)
    (hlimit : ∀ j w, j ≠ k → t.lookup j = some w → rank w ≠ limit)
    (hage : ∀ j, j ≠ k → (t'.lookup j).map rank = (t.lookup j).map (fun w => if rank w < limit then rank w + 1 else rank w))
    (hbelow : ∀ j w, j ≠ k → t.lookup j = some w → rank w < size t' ∧ (rank w < limit → rank w + 1 < size t')) :
    Ranked rank t' := by
  have hold : ∀ j w', j ≠ k → t'.lookup j = some w' → ∃ w, t.lookup j = some w ∧ rank w ≠ limit ∧
      rank w' = if rank w < limit then rank w + 1 else rank w := by
    intro j w' hj hw'
    have h := hage j hj
    rw [hw', Option.map_some] at h
    obtain ⟨w, hw, heq⟩ := Option.map_eq_some_iff.mp h.symm
    exact ⟨w, hw, hlimit j w hj hw, heq.symm⟩
  have hpos : ∀ j w', j ≠ k → t'.lookup j = some w' → rank w' ≠ 0 := by
    intro j w' hj hw'
    obtain ⟨w, -, hne, heq⟩ := hold j w' hj hw'
    rw [heq]
    split_ifs <;> omega
  refine ⟨?_, ?_⟩
  · intro i j u w hu hw heq
    by_cases hi : i = k
    · by_cases hj : j = k
      · rw [hi, hj]
      · subst hi
        obtain rfl := Option.some.inj (hu.symm.trans hk)
        exact absurd (heq.symm.trans hv') (hpos j w hj hw)
    · by_cases hj : j = k
      · subst hj
        obtain rfl := Option.some.inj (hw.symm.trans hk)
        exact absurd (heq.trans hv') (hpos i u hi hu)
      · obtain ⟨u₀, hu₀, hneu, hequ⟩ := hold i u hi hu
        obtain ⟨w₀, hw₀, hnew, heqw⟩ := hold j w hj hw
        apply hdistinct i j u₀ w₀ hu₀ hw₀
        rw [hequ, heqw] at heq
        split_ifs at heq <;> omega
  · intro j w' hw'
    by_cases hj : j = k
    · subst hj
      obtain rfl := Option.some.inj (hw'.symm.trans hk)
      rw [hv']
      exact List.length_pos_of_mem (AList.mem_keys.mp ((mem_iff_lookup t' j).mpr ⟨w', hw'⟩))
    · obtain ⟨w, hw, -, heq⟩ := hold j w' hj hw'
      obtain ⟨hlt, haged⟩ := hbelow j w hj hw
      rw [heq]
      split_ifs with hcase
      · exact haged hcase
      · exact hlt

theorem Ranked.use (h : Ranked rank t) (hk : t.lookup k = some v) (hk' : t'.lookup k = some v') (hv' : rank v' = 0)
    (hage : ∀ j, j ≠ k → (t'.lookup j).map rank = (t.lookup j).map (fun w => if rank w < rank v then rank w + 1 else rank w)) :
    Ranked rank t' ∧ size t' = size t := by
  have hsize : size t' = size t := by
    apply size_eq
    intro j
    by_cases hj : j = k
    · subst hj
      exact iff_of_true ((mem_iff_lookup _ _).mpr ⟨v', hk'⟩) ((mem_iff_lookup _ _).mpr ⟨v, hk⟩)
    · rw [← AList.lookup_isSome, ← AList.lookup_isSome, ← Option.isSome_map (f := rank), hage j hj, Option.isSome_map]
  refine ⟨renewed h.distinct hk' hv' ?_ hage ?_, hsize⟩
  · intro j w hj hw heq
    exact hj (h.distinct j k w v hw hk heq)
  · intro j w hj hw
    have hlt := h.below j w hw
    have hv := h.below k v hk
    rw [hsize]
    exact ⟨hlt, fun hcase => by omega⟩

theorem Ranked.fill (h : Ranked rank t) {limit : Nat} (hlimit : size t ≤ limit) (hk : k ∉ t) (hk' : t'.lookup k = some v')
    (hv' : rank v' = 0)
    (hage : ∀ j, j ≠ k → (t'.lookup j).map rank = (t.lookup j).map (fun w => if rank w < limit then rank w + 1 else rank w)) :
    Ranked rank t' ∧ size t' = size t + 1 := by
  have hsize : size t' = size t + 1 := by
    rw [← size_insert_of_notMem hk v']
    apply size_eq
    intro j
    rw [AList.mem_insert]
    by_cases hj : j = k
    · subst hj
      exact iff_of_true ((mem_iff_lookup _ _).mpr ⟨v', hk'⟩) (.inl rfl)
    · rw [or_iff_right hj, ← AList.lookup_isSome, ← AList.lookup_isSome, ← Option.isSome_map (f := rank), hage j hj,
        Option.isSome_map]
  refine ⟨renewed h.distinct hk' hv' ?_ hage ?_, hsize⟩
  · intro j w _ hw
    have hlt := h.below j w hw
    omega
  · intro j w _ hw
    have hlt := h.below j w hw
    rw [hsize]
    exact ⟨by omega, fun _ => by omega⟩

end Thermometer.Lib.Ranks
