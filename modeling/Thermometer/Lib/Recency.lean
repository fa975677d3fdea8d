import Mathlib.Data.List.Nodup

namespace Thermometer.Lib.Recency

variable {E P : Type}

abbrev Lines (P : Type) := List (Nat × P)

def touch (k : Nat) (l : Lines P) : Lines P := l.filter (fun a => !(a.1 = k)) ++ l.filter (fun a => a.1 = k)

def write (k : Nat) (f : P → P) (l : Lines P) : Lines P :=
  l.map (fun a => if a.1 = k then (a.1, f a.2) else a)

def fill (ways k : Nat) (p : P) (l : Lines P) : Lines P :=
  (if l.length < ways then l else l.tail) ++ [(k, p)]

def keys (l : Lines P) : List Nat := l.map Prod.fst

theorem touch_split {k : Nat} {p : P} {l₁ l₂ : Lines P} (h : k ∉ keys (l₁ ++ l₂)) :
    touch k (l₁ ++ (k, p) :: l₂) = l₁ ++ l₂ ++ [(k, p)] := by
  have hne : ∀ a ∈ l₁ ++ l₂, a.1 ≠ k := by
    intro a ha he
    exact h (List.mem_map.mpr ⟨a, ha, he⟩)
  have h₁ : ∀ a ∈ l₁, a.1 ≠ k := fun a ha => hne a (List.mem_append_left _ ha)
  have h₂ : ∀ a ∈ l₂, a.1 ≠ k := fun a ha => hne a (List.mem_append_right _ ha)
  have e₁ : l₁.filter (fun a => !decide (a.1 = k)) = l₁ := List.filter_eq_self.mpr (by simpa using h₁)
  have e₂ : l₂.filter (fun a => !decide (a.1 = k)) = l₂ := List.filter_eq_self.mpr (by simpa using h₂)
  have e₃ : l₁.filter (fun a => decide (a.1 = k)) = [] := List.filter_eq_nil_iff.mpr (by simpa using h₁)
  have e₄ : l₂.filter (fun a => decide (a.1 = k)) = [] := List.filter_eq_nil_iff.mpr (by simpa using h₂)
  simp [touch, List.filter_append, e₁, e₂, e₃, e₄]

theorem write_split {k : Nat} {p : P} {l₁ l₂ : Lines P} (f : P → P) (h : k ∉ keys (l₁ ++ l₂)) :
    write k f (l₁ ++ (k, p) :: l₂) = l₁ ++ (k, f p) :: l₂ := by
  have hid : ∀ l : Lines P, k ∉ keys l → l.map (fun a => if a.1 = k then (a.1, f a.2) else a) = l := by
    intro l hl
    conv_rhs => rw [← List.map_id l]
    refine List.map_congr_left (fun a ha => ?_)
    rw [if_neg (fun he => hl (List.mem_map.mpr ⟨a, ha, he⟩)), id]
  rw [keys, List.map_append, List.mem_append, not_or] at h
  simp [write, hid l₁ h.1, hid l₂ h.2]

def ByStamp (stamp : E → Nat) (es l : List E) : Prop :=
  l.Perm es ∧ l.Pairwise (fun a b => stamp a < stamp b)

variable {stamp : E → Nat} {es l : List E} {e : E}

theorem byStamp_nil : ByStamp stamp [] [] := ⟨List.Perm.refl _, List.Pairwise.nil⟩

theorem ByStamp.perm {es' : List E} (h : ByStamp stamp es l) (hp : es.Perm es') : ByStamp stamp es' l :=
  ⟨h.1.trans hp, h.2⟩

theorem ByStamp.snoc (h : ByStamp stamp es l) (hlt : ∀ a ∈ es, stamp a < stamp e) :
    ByStamp stamp (e :: es) (l ++ [e]) := by
  refine ⟨(List.perm_append_comm.trans (List.perm_cons e |>.mpr h.1)), ?_⟩
  rw [List.pairwise_append]
  exact ⟨h.2, List.pairwise_singleton _ _, fun a ha b hb => by
    rw [List.mem_singleton] at hb
    exact hb ▸ hlt a (h.1.mem_iff.mp ha)⟩

theorem ByStamp.split (h : ByStamp stamp (e :: es) l) :
    ∃ l₁ l₂, l = l₁ ++ e :: l₂ ∧ ByStamp stamp es (l₁ ++ l₂) := by
  obtain ⟨l₁, l₂, rfl⟩ := List.append_of_mem (h.1.mem_iff.mpr List.mem_cons_self)
  refine ⟨l₁, l₂, rfl, (List.perm_cons e).mp (List.perm_middle.symm.trans h.1), ?_⟩
  exact h.2.sublist ((List.sublist_cons_self e l₂).append_left l₁)

theorem ByStamp.replace {l₁ l₂ : List E} (h : ByStamp stamp (e :: es) (l₁ ++ e :: l₂)) {a : E}
    (ha : stamp a = stamp e) : ByStamp stamp (a :: es) (l₁ ++ a :: l₂) := by
  have hperm : (l₁ ++ l₂).Perm es := (List.perm_cons e).mp (List.perm_middle.symm.trans h.1)
  refine ⟨List.perm_middle.trans ((List.perm_cons a).mpr hperm), ?_⟩
  have hp := h.2
  rw [List.pairwise_append, List.pairwise_cons] at hp ⊢
  refine ⟨hp.1, ⟨fun b hb => ha ▸ hp.2.1.1 b hb, hp.2.1.2⟩, fun b hb c hc => ?_⟩
  rcases List.mem_cons.mp hc with rfl | hc
  · rw [ha]
    exact hp.2.2 b hb e List.mem_cons_self
  · exact hp.2.2 b hb c (List.mem_cons_of_mem _ hc)

theorem ByStamp.head (h : ByStamp stamp (e :: es) l) (hmin : ∀ a ∈ es, stamp e ≤ stamp a) :
    ∃ l', l = e :: l' ∧ ByStamp stamp es l' := by
  obtain ⟨l₁, l₂, rfl, hl⟩ := h.split
  cases l₁ with
  | nil => exact ⟨l₂, rfl, hl⟩
  | cons b l₁ =>
      have hb : stamp b < stamp e := by
        have hp := h.2
        rw [List.cons_append, List.pairwise_cons] at hp
        exact hp.1 e (List.mem_append_right _ List.mem_cons_self)
      have hmem : b ∈ es := hl.1.mem_iff.mp (by simp)
      have := hmin b hmem
      omega

end Thermometer.Lib.Recency
