import Mathlib.Data.Finset.Card
import Mathlib.Logic.Function.Basic

namespace Thermometer.Lib.Ageing

def since (uses : List Nat) (w : Nat) : Nat := uses.reverse.idxOf w

def use (n : Nat) (age : Nat → Nat) (x : Nat) : Nat → Nat :=
  Function.update (fun w => if w < n ∧ age w ≤ age x then age w + 1 else age w) x 0

def used (n : Nat) (uses : List Nat) : Nat := ((Finset.range n).filter (fun w => w ∈ uses)).card

/-- The ages of the used cells are in the order of their last uses, and fewer than `used`. The others have one
age, which is above them if `slack` is 0, and which stays within `limit` until all cells are used. -/
structure Aged (n limit slack : Nat) (age : Nat → Nat) (uses : List Nat) : Prop where
  order : ∀ a < n, ∀ b < n, a ∈ uses → b ∈ uses → (age a < age b ↔ since uses a < since uses b)
  below : ∀ a < n, a ∈ uses → age a < used n uses
  rest : ∃ i, (∀ a < n, a ∉ uses → age a = i) ∧ used n uses ≤ i + slack ∧ i + (n - used n uses) ≤ limit

variable {n limit slack : Nat} {age : Nat → Nat} {uses : List Nat} {a b x : Nat}

theorem since_concat_self : since (uses ++ [x]) x = 0 := by
  simp [since]

theorem since_concat (h : a ≠ x) : since (uses ++ [x]) a = since uses a + 1 := by
  simp only [since, List.reverse_append, List.reverse_singleton, List.singleton_append]
  exact List.idxOf_cons_ne _ h.symm

theorem since_injective (ha : a ∈ uses) (h : since uses a = since uses b) : a = b := by
  have hmem : a ∈ uses.reverse := List.mem_reverse.mpr ha
  exact (List.idxOf_inj hmem).mp h

theorem of_mem_concat (ha : a ≠ x) (h : a ∈ uses ++ [x]) : a ∈ uses :=
  (List.mem_append.mp h).resolve_right (fun h => ha (List.mem_singleton.mp h))

theorem use_self : use n age x x = 0 := Function.update_self _ _ _

theorem use_of_ne (h : a ≠ x) : use n age x a = if a < n ∧ age a ≤ age x then age a + 1 else age a :=
  Function.update_of_ne h _ _

theorem used_concat (hx : x < n) : used n (uses ++ [x]) = if x ∈ uses then used n uses else used n uses + 1 := by
  have hfilter : (Finset.range n).filter (fun w => w ∈ uses ++ [x]) =
      insert x ((Finset.range n).filter (fun w => w ∈ uses)) := by
    ext w
    simp only [Finset.mem_filter, Finset.mem_insert, Finset.mem_range, List.mem_append, List.mem_singleton]
    constructor
    · rintro ⟨hw, hmem | rfl⟩
      · exact .inr ⟨hw, hmem⟩
      · exact .inl rfl
    · rintro (rfl | ⟨hw, hmem⟩)
      · exact ⟨hx, .inr rfl⟩
      · exact ⟨hw, .inl hmem⟩
  rw [used, hfilter]
  split_ifs with hmem
  · rw [Finset.insert_eq_of_mem]
    · rfl
    · exact Finset.mem_filter.mpr ⟨Finset.mem_range.mpr hx, hmem⟩
  · rw [Finset.card_insert_of_notMem]
    · rfl
    · exact fun h => hmem (Finset.mem_filter.mp h).2

theorem used_le (n : Nat) (uses : List Nat) : used n uses ≤ n := by
  have h := Finset.card_filter_le (Finset.range n) (fun w => w ∈ uses)
  rwa [Finset.card_range] at h

theorem used_lt (ha : a < n) (hnot : a ∉ uses) : used n uses < n := by
  have hle := used_le n (uses ++ [a])
  rw [used_concat ha, if_neg hnot] at hle
  exact hle

theorem used_lt_pred (ha : a < n) (hb : b < n) (hne : a ≠ b) (hna : a ∉ uses) (hnb : b ∉ uses) : used n uses + 1 < n := by
  have hlt : used n (uses ++ [a]) < n := used_lt hb (by simp [hnb, hne.symm])
  rw [used_concat ha, if_neg hna] at hlt
  exact hlt

theorem Aged.injective (h : Aged n limit slack age uses) (ha : a < n) (hb : b < n) (hma : a ∈ uses) (hmb : b ∈ uses)
    (heq : age a = age b) : a = b := by
  have hab := h.order a ha b hb hma hmb
  have hba := h.order b hb a ha hmb hma
  apply since_injective hma
  omega

theorem Aged.initial {i : Nat} (hage : ∀ a < n, age a = i) (hi : i + n ≤ limit) : Aged n limit 0 age [] := by
  have hzero : used n [] = 0 := by simp [used]
  refine ⟨fun a _ b _ ha => absurd ha List.not_mem_nil, fun a _ ha => absurd ha List.not_mem_nil, i, ?_, ?_, ?_⟩
  · exact fun a ha _ => hage a ha
  · omega
  · omega

theorem Aged.age_lt (h : Aged n limit slack age uses) (hn : n < limit) (hx : x < n) (ha : a < n) (hne : a ≠ x)
    (hle : age a ≤ age x) : age a + 1 < limit := by
  obtain ⟨i, hrest, -, hroom⟩ := h.rest
  have hused := used_le n uses
  by_cases hma : a ∈ uses
  · have hlt := h.below a ha hma
    omega
  · have hi := hrest a ha hma
    by_cases hmx : x ∈ uses
    · have hlt := h.below x hx hmx
      have hmore := used_lt ha hma
      omega
    · have hmore := used_lt_pred ha hx hne hma hmx
      omega

theorem order_use (h : ∀ a < n, ∀ b < n, a ∈ uses → b ∈ uses → (age a < age b ↔ since uses a < since uses b))
    (hx : ∀ a < n, ∀ b < n, a ∈ uses → b ∈ uses → a ≠ x → age a = age x → age b ≤ age x) :
    ∀ a < n, ∀ b < n, a ∈ uses ++ [x] → b ∈ uses ++ [x] →
      (use n age x a < use n age x b ↔ since (uses ++ [x]) a < since (uses ++ [x]) b) := by
  intro a ha b hb hma hmb
  by_cases hax : a = x
  · subst hax
    rw [use_self, since_concat_self]
    by_cases hbx : b = a
    · rw [hbx, use_self, since_concat_self]
    · rw [use_of_ne hbx, since_concat hbx]
      split_ifs with hle <;> omega
  · by_cases hbx : b = x
    · subst hbx
      rw [use_self, since_concat_self]
      omega
    · have horder := h a ha b hb (of_mem_concat hax hma) (of_mem_concat hbx hmb)
      have hab := hx a ha b hb (of_mem_concat hax hma) (of_mem_concat hbx hmb) hax
      have hba := hx b hb a ha (of_mem_concat hbx hmb) (of_mem_concat hax hma) hbx
      rw [use_of_ne hax, use_of_ne hbx, since_concat hax, since_concat hbx]
      split_ifs <;> omega

theorem Aged.use_again (h : Aged n limit slack age uses) (hslack : slack ≤ 1) (hn : n < limit) (hx : x < n) (hmem : x ∈ uses) :
    Aged n limit slack (use n age x) (uses ++ [x]) := by
  have hcount : used n (uses ++ [x]) = used n uses := by rw [used_concat hx, if_pos hmem]
  have hlt := h.below x hx hmem
  have hold : ∀ a, a ∈ uses ++ [x] → a ∈ uses := by
    intro a ha
    rcases List.mem_append.mp ha with ha | ha
    · exact ha
    · exact List.mem_singleton.mp ha ▸ hmem
  refine ⟨?_, ?_, ?_⟩
  · apply order_use h.order
    intro a ha b hb hma _ hne heq
    exact absurd (h.injective ha hx hma hmem heq) hne
  · intro a ha hma
    rw [hcount]
    by_cases hax : a = x
    · rw [hax, use_self]
      omega
    · have hbelow := h.below a ha (hold a hma)
      have hne : age a ≠ age x := fun heq => hax (h.injective ha hx (hold a hma) hmem heq)
      rw [use_of_ne hax]
      split_ifs <;> omega
  · obtain ⟨i, hrest, hi, hroom⟩ := h.rest
    have hused := used_le n uses
    refine ⟨if i ≤ age x then i + 1 else i, ?_, ?_, ?_⟩
    · intro a ha hna
      have hnot : a ∉ uses := fun h => hna (List.mem_append_left _ h)
      have hax : a ≠ x := fun h => hnot (h ▸ hmem)
      rw [use_of_ne hax, hrest a ha hnot]
      simp only [ha, true_and]
    · rw [hcount]
      split_ifs <;> omega
    · rw [hcount]
      split_ifs <;> omega

theorem Aged.use_new (h : Aged n limit slack age uses) (hslack : slack ≤ 1) (hx : x < n) (hnot : x ∉ uses) :
    Aged n limit slack (use n age x) (uses ++ [x]) := by
  obtain ⟨i, hrest, hi, hroom⟩ := h.rest
  have hcount : used n (uses ++ [x]) = used n uses + 1 := by rw [used_concat hx, if_neg hnot]
  have hxi := hrest x hx hnot
  have hlt := used_lt hx hnot
  refine ⟨?_, ?_, i + 1, ?_, ?_, ?_⟩
  · apply order_use h.order
    intro a _ b hb _ hmb _ _
    have hbelow := h.below b hb hmb
    omega
  · intro a ha hma
    rw [hcount]
    by_cases hax : a = x
    · rw [hax, use_self]
      omega
    · have hbelow := h.below a ha (of_mem_concat hax hma)
      rw [use_of_ne hax]
      split_ifs <;> omega
  · intro a ha hna
    have hax : a ≠ x := fun h => hna (List.mem_append_right _ (List.mem_singleton.mpr h))
    have hi := hrest a ha (fun h => hna (List.mem_append_left _ h))
    rw [use_of_ne hax, if_pos ⟨ha, by omega⟩, hi]
  · omega
  · omega

end Thermometer.Lib.Ageing
