import Thermometer.Lib.StackDistance
import Thermometer.Lib.Stamps

namespace Thermometer.Lib.NewestFirst

open Tables Stamps StackDistance

variable {V : Type} (stamp : V → Nat)

def age (t : Table V) (k : Nat) : Nat := ((t.lookup k).map stamp).getD 0

structure Newest (t : Table V) (c : List Nat) : Prop where
  keys : ∀ k, k ∈ t ↔ k ∈ c
  decreasing : c.Pairwise (fun j k => age stamp t k < age stamp t j)

/-- The change of a table by an access of a key: it gets a stamp above all others. -/
structure Renewed (t t' : Table V) (k : Nat) : Prop where
  newest : ∃ v, t'.lookup k = some v ∧ ∀ j w, j ≠ k → t.lookup j = some w → stamp w < stamp v
  rest : ∀ j, j ≠ k → t'.lookup j = t.lookup j

variable {stamp} {t t' : Table V} {c : List Nat} {k : Nat}

theorem age_of_lookup {v : V} (h : t.lookup k = some v) : age stamp t k = stamp v := by
  rw [age, h]
  rfl

theorem newest_empty : Newest stamp (∅ : Table V) [] :=
  ⟨fun k => iff_of_false (AList.notMem_empty k) List.not_mem_nil, List.Pairwise.nil⟩

theorem Newest.nodup (h : Newest stamp t c) : c.Nodup := by
  refine h.decreasing.imp ?_
  rintro j k hlt rfl
  exact Nat.lt_irrefl _ hlt

theorem Newest.size (h : Newest stamp t c) : size t = c.length := by
  apply List.Perm.length_eq
  apply (List.perm_ext_iff_of_nodup t.keys_nodup h.nodup).mpr
  intro k
  rw [← AList.mem_keys, h.keys]

theorem Newest.congr (h : Newest stamp t c) (hsame : ∀ k, (t'.lookup k).map stamp = (t.lookup k).map stamp) :
    Newest stamp t' c := by
  have hage : ∀ k, age stamp t' k = age stamp t k := by
    intro k
    rw [age, age, hsame]
  refine ⟨?_, ?_⟩
  · intro k
    rw [← h.keys, ← AList.lookup_isSome, ← AList.lookup_isSome, ← Option.isSome_map (f := stamp), hsame, Option.isSome_map]
  · simp only [hage]
    exact h.decreasing

theorem Newest.touch (h : Newest stamp t c) (hk : Renewed stamp t t' k) : Newest stamp t' (touch c k) := by
  obtain ⟨v, hv, hmax⟩ := hk.newest
  have hage : ∀ j, j ≠ k → age stamp t' j = age stamp t j := by
    intro j hj
    rw [age, age, hk.rest j hj]
  have hne : ∀ j ∈ c.erase k, j ≠ k := by
    rintro j hj rfl
    exact h.nodup.not_mem_erase hj
  refine ⟨?_, List.Pairwise.cons ?_ ?_⟩
  · intro j
    rw [mem_touch, ← h.keys]
    by_cases hj : j = k
    · subst hj
      exact iff_of_true ((mem_iff_lookup _ _).mpr ⟨v, hv⟩) (.inl rfl)
    · rw [or_iff_right hj, ← AList.lookup_isSome, ← AList.lookup_isSome, hk.rest j hj]
  · intro j hj
    obtain ⟨w, hw⟩ := (mem_iff_lookup t j).mp ((h.keys j).mpr (List.mem_of_mem_erase hj))
    rw [age_of_lookup hv, hage j (hne j hj), age_of_lookup hw]
    exact hmax j w (hne j hj) hw
  · apply ((h.decreasing.sublist (List.erase_sublist)).imp_of_mem)
    intro i j hi hj hlt
    rw [hage i (hne i hi), hage j (hne j hj)]
    exact hlt

theorem Newest.eraseLast (h : Newest stamp t (c ++ [k])) : Newest stamp (t.erase k) c := by
  have hk : k ∉ c := by
    intro hmem
    exact (List.nodup_append.mp h.nodup).2.2 k hmem k (List.mem_singleton_self k) rfl
  have hne : ∀ j ∈ c, j ≠ k := by
    rintro j hj rfl
    exact hk hj
  refine ⟨?_, ?_⟩
  · intro j
    rw [AList.mem_erase, h.keys, List.mem_append, List.mem_singleton]
    constructor
    · rintro ⟨hj, hmem⟩
      exact hmem.resolve_right hj
    · exact fun hj => ⟨hne j hj, .inl hj⟩
  · apply (List.pairwise_append.mp h.decreasing).1.imp_of_mem
    intro i j hi hj hlt
    rw [age, age, lookup_erase, lookup_erase, if_neg (hne i hi), if_neg (hne j hj)]
    exact hlt

theorem Newest.oldest_eq {w : Nat} (h : Newest stamp t (c ++ [k])) (o : IterOrder)
    (hw : oldest stamp t ((iterate o t).map Prod.fst) = some w) : w = k := by
  obtain ⟨hmem, v, hv, hmin⟩ := oldest_eq_some hw
  have hlast : k ∈ t := (h.keys k).mpr (List.mem_append_right _ (List.mem_singleton_self k))
  obtain ⟨u, hu⟩ := (mem_iff_lookup t k).mp hlast
  have hle := hmin k ((mem_iterate_keys o t k).mpr hlast) u hu
  rcases List.mem_append.mp ((h.keys w).mp ((mem_iterate_keys o t w).mp hmem)) with hc | hc
  · have hlt := (List.pairwise_append.mp h.decreasing).2.2 w hc k (List.mem_singleton_self k)
    rw [age_of_lookup hu, age_of_lookup hv] at hlt
    omega
  · exact List.mem_singleton.mp hc

theorem renewed_modify (hk : k ∈ t) (o : IterOrder) {f : V → V} (hf : ∀ v, stamp (f v) = maxStamp stamp o t + 1) :
    Renewed stamp t (modify t k f) k := by
  obtain ⟨v, hv⟩ := (mem_iff_lookup t k).mp hk
  refine ⟨⟨f v, ?_, ?_⟩, ?_⟩
  · rw [lookup_modify, if_pos rfl, hv]
    rfl
  · intro j w _ hw
    rw [hf]
    exact Nat.lt_succ_of_le (stamp_le_maxStamp stamp o hw)
  · intro j hj
    rw [lookup_modify, if_neg hj]

theorem renewed_insertNew (hk : k ∉ t) (v : V) (o : IterOrder) {f : V → V}
    (hf : ∀ v', stamp (f v') = maxStamp stamp o (insertNew t k v) + 1) :
    Renewed stamp t (modify (insertNew t k v) k f) k := by
  have hin : k ∈ insertNew t k v := (mem_insertNew t k k v).mpr (.inl rfl)
  obtain ⟨⟨u, hu, hmax⟩, hrest⟩ := renewed_modify hin o hf
  have hold : ∀ j, j ≠ k → (insertNew t k v).lookup j = t.lookup j := by
    intro j hj
    rw [lookup_insertNew_of_notMem hk, if_neg hj]
  refine ⟨⟨u, hu, ?_⟩, ?_⟩
  · intro j w hj hw
    exact hmax j w hj ((hold j hj).trans hw)
  · intro j hj
    exact (hrest j hj).trans (hold j hj)

end Thermometer.Lib.NewestFirst
