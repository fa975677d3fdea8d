import Mathlib.Data.List.AList
import Mathlib.Data.List.MinMax
import Mathlib.Data.Finset.Card
import Mathlib.Data.List.Sort

namespace Thermometer.Lib.Tables

variable {V W : Type}

/-- A map from numbers with unique keys. The order of its entries carries no
meaning: a loop over a table goes through `iterate`. -/
abbrev Table (V : Type) := AList (fun _ : Nat => V)

/-- The order in which one loop over a table meets the keys. Nothing is known
about it except that it is a rearrangement. -/
structure IterOrder where
  order : List Nat → List Nat
  perm : ∀ l, (order l).Perm l

def IterOrder.stored : IterOrder := ⟨id, fun l => List.Perm.refl l⟩

/-- The order of a sorted map. -/
def IterOrder.ascending : IterOrder := ⟨fun l => l.insertionSort (· ≤ ·), fun l => List.perm_insertionSort _ l⟩

def size (t : Table V) : Nat := t.keys.length

def modify (t : Table V) (k : Nat) (f : V → V) : Table V :=
  match t.lookup k with
  | none => t
  | some v => t.insert k (f v)

def insertNew (t : Table V) (k : Nat) (v : V) : Table V := if k ∈ t then t else t.insert k v

def iterate (o : IterOrder) (t : Table V) : List (Nat × V) :=
  (o.order t.keys).filterMap (fun k => (t.lookup k).map (fun v => (k, v)))

theorem mem_iterate (o : IterOrder) (t : Table V) (k : Nat) (v : V) :
    (k, v) ∈ iterate o t ↔ t.lookup k = some v := by
  simp only [iterate, List.mem_filterMap, (o.perm t.keys).mem_iff]
  constructor
  · rintro ⟨j, -, hj⟩
    cases hl : t.lookup j with
    | none => simp [hl] at hj
    | some w =>
        simp only [hl, Option.map_some, Option.some.injEq, Prod.mk.injEq] at hj
        obtain ⟨rfl, rfl⟩ := hj
        exact hl
  · intro h
    exact ⟨k, AList.mem_keys.mp (AList.lookup_isSome.mp (by simp [h])), by simp [h]⟩

theorem mem_iff_lookup (t : Table V) (k : Nat) : k ∈ t ↔ ∃ v, t.lookup k = some v := by
  rw [← AList.lookup_isSome, Option.isSome_iff_exists]

theorem mem_iterate_keys (o : IterOrder) (t : Table V) (k : Nat) :
    k ∈ (iterate o t).map Prod.fst ↔ k ∈ t := by
  simp only [List.mem_map, Prod.exists, exists_and_right, exists_eq_right, mem_iterate, mem_iff_lookup]

theorem iterate_eq_nil (o : IterOrder) (t : Table V) : iterate o t = [] ↔ size t = 0 := by
  rw [size, List.length_eq_zero_iff, List.eq_nil_iff_forall_not_mem, List.eq_nil_iff_forall_not_mem]
  constructor
  · intro h k hk
    obtain ⟨v, hv⟩ := (mem_iff_lookup t k).mp (AList.mem_keys.mpr hk)
    exact h _ ((mem_iterate o t k v).mpr hv)
  · rintro h ⟨k, v⟩ hk
    exact h k (AList.mem_keys.mp ((mem_iff_lookup t k).mpr ⟨v, (mem_iterate o t k v).mp hk⟩))

theorem length_entries (t : Table V) : t.entries.length = size t := (List.length_map _).symm

@[simp] theorem size_empty : size (∅ : Table V) = 0 := rfl

theorem size_insert_of_notMem {t : Table V} {k : Nat} (h : k ∉ t) (v : V) :
    size (t.insert k v) = size t + 1 := by
  rw [size, AList.keys_insert, List.length_cons, List.erase_of_not_mem (mt AList.mem_keys.mpr h), size]

theorem size_insert_of_mem {t : Table V} {k : Nat} (h : k ∈ t) (v : V) :
    size (t.insert k v) = size t := by
  have hk := AList.mem_keys.mp h
  have hpos : 0 < t.keys.length := List.length_pos_of_mem hk
  rw [size, AList.keys_insert, List.length_cons, List.length_erase_of_mem hk, size]
  omega

theorem size_erase_of_mem {t : Table V} {k : Nat} (h : k ∈ t) :
    size (t.erase k) + 1 = size t := by
  have hk := AList.mem_keys.mp h
  have hpos : 0 < t.keys.length := List.length_pos_of_mem hk
  rw [size, AList.keys_erase, List.length_erase_of_mem hk, size]
  omega

theorem lookup_modify (t : Table V) (k j : Nat) (f : V → V) :
    (modify t k f).lookup j = if j = k then (t.lookup k).map f else t.lookup j := by
  unfold modify
  cases hl : t.lookup k with
  | none =>
      split_ifs with hj
      · subst hj; simpa using hl
      · rfl
  | some v =>
      split_ifs with hj
      · subst hj; simp
      · simp [AList.lookup_insert_ne hj]

@[simp] theorem mem_modify (t : Table V) (k j : Nat) (f : V → V) : j ∈ modify t k f ↔ j ∈ t := by
  rw [mem_iff_lookup, mem_iff_lookup, lookup_modify]
  split_ifs with hj
  · subst hj; simp
  · rfl

@[simp] theorem size_modify (t : Table V) (k : Nat) (f : V → V) : size (modify t k f) = size t := by
  unfold modify
  cases hl : t.lookup k with
  | none => rfl
  | some v => exact size_insert_of_mem ((mem_iff_lookup t k).mpr ⟨v, hl⟩) _

theorem lookup_insert (t : Table V) (k j : Nat) (v : V) :
    (t.insert k v).lookup j = if j = k then some v else t.lookup j := by
  split_ifs with hj
  · subst hj; simp
  · simp [AList.lookup_insert_ne hj]

def mapValues (f : V → V) (t : Table V) : Table V :=
  ⟨t.entries.map (Sigma.map id (fun _ => f)), t.nodupKeys.map₂ (fun _ => f) _⟩

def mapTable (f : V → W) (t : Table V) : Table W :=
  ⟨t.entries.map (Sigma.map id (fun _ => f)), t.nodupKeys.map₂ (fun _ => f) _⟩

@[simp] theorem size_mapValues (f : V → V) (t : Table V) : size (mapValues f t) = size t := by
  rw [← length_entries, ← length_entries]
  exact List.length_map _

theorem lookup_mapValues (f : V → V) (t : Table V) (k : Nat) : (mapValues f t).lookup k = (t.lookup k).map f :=
  List.dlookup_map₂ k

theorem lookup_erase (t : Table V) (k j : Nat) :
    (t.erase k).lookup j = if j = k then none else t.lookup j := by
  split_ifs with hj
  · subst hj; simp
  · simp [AList.lookup_erase_ne hj]

def dom (t : Table V) : Finset Nat := ⟨t.keys, t.keys_nodup⟩

@[simp] theorem mem_dom (t : Table V) (k : Nat) : k ∈ dom t ↔ k ∈ t := AList.mem_keys.symm

@[simp] theorem card_dom (t : Table V) : (dom t).card = size t := rfl

@[simp] theorem dom_empty : dom (∅ : Table V) = ∅ := rfl

theorem dom_insert (t : Table V) (k : Nat) (v : V) : dom (t.insert k v) = insert k (dom t) := by
  ext j
  simp

theorem dom_erase (t : Table V) (k : Nat) : dom (t.erase k) = (dom t).erase k := by
  ext j
  simp

theorem dom_modify (t : Table V) (k : Nat) (f : V → V) : dom (modify t k f) = dom t := by
  ext j
  simp

theorem mem_insertNew (t : Table V) (k j : Nat) (v : V) : j ∈ insertNew t k v ↔ j = k ∨ j ∈ t := by
  rw [insertNew]
  split_ifs with hk
  · constructor
    · exact .inr
    · rintro (rfl | hj)
      · exact hk
      · exact hj
  · exact AList.mem_insert t

theorem lookup_insertNew_of_notMem {t : Table V} {k : Nat} (h : k ∉ t) (v : V) (j : Nat) :
    (insertNew t k v).lookup j = if j = k then some v else t.lookup j := by
  rw [insertNew, if_neg h, lookup_insert]

theorem iterate_keys (o : IterOrder) (t : Table V) : (iterate o t).map Prod.fst = o.order t.keys := by
  have hall : ∀ k ∈ o.order t.keys, ∃ v, t.lookup k = some v := by
    intro k hk
    exact (mem_iff_lookup t k).mp (AList.mem_keys.mpr ((o.perm _).mem_iff.mp hk))
  rw [iterate]
  generalize o.order t.keys = l at hall
  induction l with
  | nil => rfl
  | cons k l ih =>
      obtain ⟨v, hv⟩ := hall k List.mem_cons_self
      have hrest := ih (fun j hj => hall j (List.mem_cons_of_mem k hj))
      rw [List.filterMap_cons, hv, Option.map_some, List.map_cons, hrest]

theorem nodup_iterate_keys (o : IterOrder) (t : Table V) : ((iterate o t).map Prod.fst).Nodup := by
  rw [iterate_keys]
  exact (o.perm _).nodup_iff.mpr t.keys_nodup

/-- A table filled from lines with keys of their own holds those lines. -/
theorem lookup_foldl_insertNew {l : List (Nat × V)} (hl : (l.map Prod.fst).Nodup) {t : Table V}
    (ht : ∀ a ∈ l, a.1 ∉ t) (k : Nat) (v : V) :
    (l.foldl (fun t a => insertNew t a.1 a.2) t).lookup k = some v ↔ t.lookup k = some v ∨ (k, v) ∈ l := by
  induction l generalizing t with
  | nil => simp
  | cons a l ih =>
      rw [List.map_cons, List.nodup_cons] at hl
      have ha := ht a List.mem_cons_self
      have hnew : ∀ b ∈ l, b.1 ∉ insertNew t a.1 a.2 := by
        intro b hb hm
        rw [insertNew, if_neg ha, AList.mem_insert] at hm
        rcases hm with he | hm
        · exact hl.1 (he ▸ List.mem_map_of_mem hb)
        · exact ht b (List.mem_cons_of_mem a hb) hm
      rw [List.foldl_cons, ih hl.2 hnew, lookup_insertNew_of_notMem ha, List.mem_cons]
      by_cases hk : k = a.1
      · have hnone : t.lookup k = none := AList.lookup_eq_none.mpr (hk ▸ ha)
        have hno : (k, v) ∉ l := fun hm => hl.1 (hk ▸ List.mem_map_of_mem hm)
        rw [if_pos hk, hnone, Option.some.injEq]
        constructor
        · rintro (rfl | hm)
          · exact .inr (.inl (by rw [hk]))
          · exact absurd hm hno
        · rintro (h | h | hm)
          · cases h
          · exact .inl (congrArg Prod.snd h).symm
          · exact absurd hm hno
      · rw [if_neg hk]
        constructor
        · rintro (h | hm)
          · exact .inl h
          · exact .inr (.inr hm)
        · rintro (h | h | hm)
          · exact .inl h
          · exact absurd (congrArg Prod.fst h) hk
          · exact .inr hm

end Thermometer.Lib.Tables
