import Thermometer.Lib.Rings

namespace Thermometer.Lib.Windows

open Lib.Rings

/-- A circular array of which the entries from `head` on are in use. -/
structure Window (E : Type) where
  size : Nat
  entry : Nat → E
  head : Nat
  tail : Nat
  occupancy : Nat

variable {E : Type}

def Window.initial (size : Nat) (empty : E) : Window E := ⟨size, fun _ => empty, 0, 0, 0⟩

def Window.slot (w : Window E) (a : Nat) : Nat := place w.size w.head a

def Window.push (w : Window E) (e : E) : Window E :=
  { w with entry := Function.update w.entry w.tail e, tail := next w.size w.tail, occupancy := w.occupancy + 1 }

def Window.popAt (w : Window E) (empty : E) (i : Nat) : Window E :=
  { w with entry := Function.update w.entry i empty, head := next w.size w.head, occupancy := w.occupancy - 1 }

def Window.modify (w : Window E) (i : Nat) (f : E → E) : Window E :=
  { w with entry := Function.update w.entry i (f (w.entry i)) }

def Live (w : Window E) (i : Nat) : Prop := ∃ a < w.occupancy, w.slot a = i

def Older (w : Window E) (k i : Nat) : Prop := ∃ a b, a < b ∧ b < w.occupancy ∧ w.slot a = k ∧ w.slot b = i

structure Shape (w : Window E) (empty : E) : Prop where
  head_lt : w.head < w.size
  occupancy_le : w.occupancy ≤ w.size
  tail_eq : w.tail = w.slot w.occupancy
  blank : ∀ i, ¬Live w i → w.entry i = empty

def Numbered (w : Window E) (number : E → Nat) (bound : Nat) : Prop :=
  ∀ a < w.occupancy, number (w.entry (w.slot a)) + w.occupancy = bound + a

def backward (w : Window E) (i : Nat) : List Nat :=
  let prior := if i = 0 then w.size - 1 else i - 1
  if i = w.head then []
  else if w.head ≤ prior then (List.range' w.head (prior + 1 - w.head)).reverse
  else (List.range' 0 (prior + 1)).reverse ++ (List.range' w.head (w.size - w.head)).reverse

variable {w : Window E} {empty e : E} {f : E → E} {number : E → Nat} {i j k a b bound : Nat}

@[simp] theorem modify_size : (w.modify i f).size = w.size := rfl

@[simp] theorem modify_head : (w.modify i f).head = w.head := rfl

@[simp] theorem modify_occupancy : (w.modify i f).occupancy = w.occupancy := rfl

theorem modify_self : (w.modify i f).entry i = f (w.entry i) := Function.update_self _ _ _

theorem modify_of_ne (h : j ≠ i) : (w.modify i f).entry j = w.entry j := Function.update_of_ne h _ _

theorem modify_keeps {B : Type} (g : E → B) (h : g (f (w.entry i)) = g (w.entry i)) (j : Nat) :
    g ((w.modify i f).entry j) = g (w.entry j) := by
  by_cases hj : j = i
  · rw [hj, modify_self, h]
  · rw [modify_of_ne hj]

theorem modify_fixed (h : f (w.entry i) = w.entry i) : w.modify i f = w := by
  rw [Window.modify, h, Function.update_eq_self]

theorem modify_modify {g : E → E} : (w.modify i f).modify i g = w.modify i (fun e => g (f e)) := by
  simp only [Window.modify, Function.update_self, Function.update_idem]

theorem modify_comm {g : E → E} (h : ∀ e, f (g e) = g (f e)) : (w.modify i f).modify j g = (w.modify j g).modify i f := by
  have hentry : ((w.modify i f).modify j g).entry = ((w.modify j g).modify i f).entry := by
    funext x
    by_cases hj : x = j
    · subst hj
      by_cases hi : x = i
      · subst hi
        rw [modify_self, modify_self, modify_self, modify_self, h]
      · rw [modify_self, modify_of_ne hi, modify_of_ne hi, modify_self]
    · rw [modify_of_ne hj]
      by_cases hi : x = i
      · subst hi
        rw [modify_self, modify_self, modify_of_ne hj]
      · rw [modify_of_ne hi, modify_of_ne hi, modify_of_ne hj]
  exact congrArg (fun entry => { w with entry := entry }) hentry

@[simp] theorem live_modify : Live (w.modify i f) j ↔ Live w j := Iff.rfl

@[simp] theorem older_modify : Older (w.modify i f) k j ↔ Older w k j := Iff.rfl

@[simp] theorem backward_modify : backward (w.modify i f) j = backward w j := rfl

theorem Shape.pos (h : Shape w empty) : 0 < w.size := Nat.zero_lt_of_lt h.head_lt

theorem slot_inj (h : Shape w empty) (ha : a < w.occupancy) (hb : b < w.occupancy) (heq : w.slot a = w.slot b) : a = b :=
  place_inj (ha.trans_le h.occupancy_le) (hb.trans_le h.occupancy_le) heq

theorem slot_lt (h : Shape w empty) (a : Nat) : w.slot a < w.size := place_lt h.pos _ _

theorem slot_zero (h : Shape w empty) : w.slot 0 = w.head := place_zero h.head_lt

theorem live_slot (ha : a < w.occupancy) : Live w (w.slot a) := ⟨a, ha, rfl⟩

theorem Live.lt (h : Shape w empty) (hi : Live w i) : i < w.size := by
  obtain ⟨a, -, rfl⟩ := hi
  exact slot_lt h a

theorem Older.left (h : Older w k i) : Live w k := by
  obtain ⟨a, b, hab, hb, rfl, -⟩ := h
  exact live_slot (hab.trans hb)

theorem Older.right (h : Older w k i) : Live w i := by
  obtain ⟨a, b, -, hb, -, rfl⟩ := h
  exact live_slot hb

theorem Older.ne (hs : Shape w empty) (h : Older w k i) : k ≠ i := by
  obtain ⟨a, b, hab, hb, rfl, rfl⟩ := h
  intro he
  exact absurd (slot_inj hs (hab.trans hb) hb he) hab.ne

theorem Older.trans (hs : Shape w empty) (h : Older w k j) (h' : Older w j i) : Older w k i := by
  obtain ⟨a, b, hab, hb, rfl, rfl⟩ := h
  obtain ⟨c, d, hcd, hd, hcb, rfl⟩ := h'
  have heq := slot_inj hs (hcd.trans hd) hb hcb
  exact ⟨a, d, hab.trans (heq ▸ hcd), hd, rfl, rfl⟩

theorem Older.asymm (hs : Shape w empty) (h : Older w k i) : ¬Older w i k :=
  fun h' => (h.trans hs h').ne hs rfl

theorem older_total (hi : Live w i) (hj : Live w j) : i = j ∨ Older w i j ∨ Older w j i := by
  obtain ⟨a, ha, rfl⟩ := hi
  obtain ⟨b, hb, rfl⟩ := hj
  rcases Nat.lt_trichotomy a b with hab | rfl | hba
  · exact .inr (.inl ⟨a, b, hab, hb, rfl, rfl⟩)
  · exact .inl rfl
  · exact .inr (.inr ⟨b, a, hba, ha, rfl, rfl⟩)

theorem not_older_head (hs : Shape w empty) : ¬Older w k w.head := by
  rintro ⟨a, b, hab, hb, -, he⟩
  have hz := slot_inj hs hb (Nat.zero_lt_of_lt hb) (he.trans (slot_zero hs).symm)
  omega

theorem head_or_older (hs : Shape w empty) (hi : Live w i) : i = w.head ∨ Older w w.head i := by
  obtain ⟨a, ha, rfl⟩ := hi
  cases a with
  | zero => exact .inl (slot_zero hs)
  | succ a => exact .inr ⟨0, a + 1, Nat.succ_pos a, ha, slot_zero hs, rfl⟩

theorem Shape.modify (h : Shape w empty) (hi : Live w i) : Shape (w.modify i f) empty := by
  refine ⟨h.head_lt, h.occupancy_le, h.tail_eq, fun j hj => ?_⟩
  have hne : j ≠ i := by
    rintro rfl
    exact hj hi
  rw [modify_of_ne hne]
  exact h.blank j hj

section Numbered

theorem Numbered.modify (h : Numbered w number bound) (hf : number (f (w.entry i)) = number (w.entry i)) :
    Numbered (w.modify i f) number bound := by
  intro a ha
  rw [modify_keeps number hf]
  exact h a ha

theorem Numbered.lt (h : Numbered w number bound) (hi : Live w i) : number (w.entry i) < bound := by
  obtain ⟨a, ha, rfl⟩ := hi
  have hids := h a ha
  omega

theorem Numbered.lt_of_older (h : Numbered w number bound) (hold : Older w k i) :
    number (w.entry k) < number (w.entry i) := by
  obtain ⟨a, b, hab, hb, rfl, rfl⟩ := hold
  have ha := h a (hab.trans hb)
  have hb := h b hb
  omega

theorem Numbered.inj (h : Numbered w number bound) (hi : Live w i) (hj : Live w j)
    (heq : number (w.entry i) = number (w.entry j)) : i = j := by
  rcases older_total hi hj with he | ho | ho
  · exact he
  · exact absurd heq (h.lt_of_older ho).ne
  · exact absurd heq.symm (h.lt_of_older ho).ne

end Numbered

section Push

theorem not_live_tail (h : Shape w empty) (hfull : w.occupancy < w.size) : ¬Live w w.tail := by
  rintro ⟨a, ha, he⟩
  rw [h.tail_eq] at he
  exact absurd (place_inj (ha.trans hfull) hfull he) ha.ne

theorem push_self : (w.push e).entry w.tail = e := Function.update_self _ _ _

theorem push_of_ne (h : i ≠ w.tail) : (w.push e).entry i = w.entry i := Function.update_of_ne h _ _

theorem live_push (h : Shape w empty) : Live (w.push e) i ↔ Live w i ∨ i = w.tail := by
  constructor
  · rintro ⟨a, ha, rfl⟩
    rcases Nat.lt_succ_iff_lt_or_eq.mp ha with ha | rfl
    · exact .inl ⟨a, ha, rfl⟩
    · exact .inr h.tail_eq.symm
  · rintro (⟨a, ha, rfl⟩ | rfl)
    · exact ⟨a, Nat.lt_succ_of_lt ha, rfl⟩
    · exact ⟨w.occupancy, Nat.lt_succ_self _, h.tail_eq.symm⟩

theorem push_live (h : Shape w empty) (hfull : w.occupancy < w.size) (hi : Live w i) : (w.push e).entry i = w.entry i := by
  apply push_of_ne
  rintro rfl
  exact not_live_tail h hfull hi

theorem push_cases {P : Nat → E → Prop} (h : Shape w empty) (hfull : w.occupancy < w.size)
    (hold : ∀ i, Live w i → P i (w.entry i)) (hnew : P w.tail e) (hi : Live (w.push e) i) : P i ((w.push e).entry i) := by
  rcases (live_push h).mp hi with hi | rfl
  · rw [push_live h hfull hi]
    exact hold i hi
  · rw [push_self]
    exact hnew

theorem older_push (hs : Shape w empty) :
    Older (w.push e) k i ↔ Older w k i ∨ Live w k ∧ i = w.tail := by
  constructor
  · rintro ⟨a, b, hab, hb, rfl, rfl⟩
    rcases Nat.lt_succ_iff_lt_or_eq.mp hb with hb | rfl
    · exact .inl ⟨a, b, hab, hb, rfl, rfl⟩
    · exact .inr ⟨⟨a, hab, rfl⟩, hs.tail_eq.symm⟩
  · rintro (⟨a, b, hab, hb, rfl, rfl⟩ | ⟨⟨a, ha, rfl⟩, rfl⟩)
    · exact ⟨a, b, hab, Nat.lt_succ_of_lt hb, rfl, rfl⟩
    · exact ⟨a, w.occupancy, ha, Nat.lt_succ_self _, rfl, hs.tail_eq.symm⟩

theorem Shape.push (h : Shape w empty) (hfull : w.occupancy < w.size) : Shape (w.push e) empty := by
  refine ⟨h.head_lt, hfull, ?_, fun i hi => ?_⟩
  · exact (congrArg (next w.size) h.tail_eq).trans (next_place h.pos _ _)
  · rw [live_push h, not_or] at hi
    rw [push_of_ne hi.2]
    exact h.blank i hi.1

theorem Numbered.push (hs : Shape w empty) (h : Numbered w number bound) (hfull : w.occupancy < w.size)
    (he : number e = bound) : Numbered (w.push e) number (bound + 1) := by
  intro a ha
  show number ((w.push e).entry (w.slot a)) + (w.occupancy + 1) = bound + 1 + a
  rcases Nat.lt_succ_iff_lt_or_eq.mp ha with ha | rfl
  · have hids := h a ha
    rw [push_live hs hfull (live_slot ha)]
    omega
  · rw [← hs.tail_eq, push_self, he]
    omega

end Push

section Pop

theorem occupancy_pos (h : Live w i) : 0 < w.occupancy := by
  obtain ⟨a, ha, -⟩ := h
  exact Nat.zero_lt_of_lt ha

theorem slot_pop (h : Shape w empty) (a : Nat) : (w.popAt empty w.head).slot a = w.slot (a + 1) := place_next h.head_lt a

theorem pop_head : (w.popAt empty w.head).entry w.head = empty := Function.update_self _ _ _

theorem pop_of_ne (h : i ≠ w.head) : (w.popAt empty w.head).entry i = w.entry i := Function.update_of_ne h _ _

theorem live_pop (h : Shape w empty) : Live (w.popAt empty w.head) i ↔ Live w i ∧ i ≠ w.head := by
  simp only [Live, slot_pop h]
  constructor
  · rintro ⟨a, ha, rfl⟩
    have hlt : a + 1 < w.occupancy := Nat.add_lt_of_lt_sub ha
    refine ⟨⟨a + 1, hlt, rfl⟩, fun he => ?_⟩
    have hz := slot_inj h hlt (Nat.zero_lt_of_lt hlt) (he.trans (slot_zero h).symm)
    exact absurd hz (Nat.succ_ne_zero a)
  · rintro ⟨⟨a, ha, rfl⟩, hne⟩
    cases a with
    | zero => exact absurd (slot_zero h) hne
    | succ a => exact ⟨a, Nat.lt_sub_of_add_lt ha, rfl⟩

theorem older_pop (h : Shape w empty) : Older (w.popAt empty w.head) k i ↔ Older w k i ∧ k ≠ w.head := by
  simp only [Older, slot_pop h]
  constructor
  · rintro ⟨a, b, hab, hb, rfl, rfl⟩
    have hlt : b + 1 < w.occupancy := Nat.add_lt_of_lt_sub hb
    refine ⟨⟨a + 1, b + 1, Nat.succ_lt_succ hab, hlt, rfl, rfl⟩, fun he => ?_⟩
    have hz := slot_inj h (by omega) (Nat.zero_lt_of_lt hlt) (he.trans (slot_zero h).symm)
    exact absurd hz (Nat.succ_ne_zero a)
  · rintro ⟨⟨a, b, hab, hb, rfl, rfl⟩, hne⟩
    cases a with
    | zero => exact absurd (slot_zero h) hne
    | succ a =>
        cases b with
        | zero => exact absurd hab (Nat.not_lt_zero _)
        | succ b => exact ⟨a, b, Nat.lt_of_succ_lt_succ hab, Nat.lt_sub_of_add_lt hb, rfl, rfl⟩

theorem Shape.pop (h : Shape w empty) (hpos : 0 < w.occupancy) : Shape (w.popAt empty w.head) empty := by
  have hle := h.occupancy_le
  refine ⟨?_, ?_, ?_, fun i hi => ?_⟩
  · show next w.size w.head < w.size
    rw [next_eq h.head_lt]
    exact place_lt h.pos _ _
  · show w.occupancy - 1 ≤ w.size
    omega
  · rw [slot_pop h]
    show w.tail = w.slot (w.occupancy - 1 + 1)
    rw [Nat.sub_add_cancel hpos]
    exact h.tail_eq
  · by_cases he : i = w.head
    · rw [he, pop_head]
    · rw [pop_of_ne he]
      exact h.blank i (fun hl => hi ((live_pop h).mpr ⟨hl, he⟩))

theorem Numbered.pop (hs : Shape w empty) (h : Numbered w number bound) :
    Numbered (w.popAt empty w.head) number bound := by
  intro a ha
  have hlt : a + 1 < w.occupancy := Nat.add_lt_of_lt_sub ha
  have hids := h (a + 1) hlt
  have hne : w.slot (a + 1) ≠ w.head := by
    intro he
    exact absurd (slot_inj hs hlt (Nat.zero_lt_of_lt hlt) (he.trans (slot_zero hs).symm)) (Nat.succ_ne_zero a)
  rw [slot_pop hs, pop_of_ne hne]
  show number (w.entry (w.slot (a + 1))) + (w.occupancy - 1) = bound + a
  omega

end Pop

theorem initial_shape {size : Nat} (h : 0 < size) : Shape (Window.initial size empty) empty :=
  ⟨h, Nat.zero_le _, (place_zero h).symm, fun _ _ => rfl⟩

theorem initial_not_live {size : Nat} : ¬Live (Window.initial size empty) i := by
  rintro ⟨a, ha, -⟩
  exact absurd ha (Nat.not_lt_zero a)

section Backward

/-- In both cases of the wrap, the older entries come from the youngest on. -/
theorem backward_slot (hs : Shape w empty) (ha : a < w.occupancy) :
    backward w (w.slot a) = ((List.range a).map w.slot).reverse := by
  have hhead := hs.head_lt
  have hle := hs.occupancy_le
  by_cases hzero : a = 0
  · subst hzero
    simp only [backward, slot_zero hs, if_true, List.range_zero, List.map_nil, List.reverse_nil]
  have hne : w.slot a ≠ w.head := by
    intro he
    exact hzero (slot_inj hs ha (Nat.zero_lt_of_lt ha) (he.trans (slot_zero hs).symm))
  have hmap : (List.range a).map w.slot = (List.range a).map (place w.size w.head) := rfl
  rw [hmap]
  by_cases hfit : w.head + a < w.size
  · have hslot : w.slot a = w.head + a := Nat.mod_eq_of_lt hfit
    rw [places_straight hfit.le]
    simp only [backward, if_neg hne]
    have hprior : (if w.head + a = 0 then w.size - 1 else w.head + a - 1) = w.head + a - 1 := if_neg (by omega)
    rw [hslot, hprior, if_pos (by omega)]
    congr 2
    omega
  · have hslot : w.slot a = w.head + a - w.size := by
      have hmod : w.slot a = (w.head + a - w.size) % w.size := Nat.mod_eq_sub_mod (Nat.le_of_not_lt hfit)
      rw [hmod]
      exact Nat.mod_eq_of_lt (by omega)
    rw [places_wrapped hhead (Nat.le_of_not_lt hfit) (by omega)]
    simp only [backward, if_neg hne]
    rw [hslot]
    by_cases hfirst : w.head + a - w.size = 0
    · have hprior : (if w.head + a - w.size = 0 then w.size - 1 else w.head + a - w.size - 1) = w.size - 1 := if_pos hfirst
      rw [hprior, if_pos (by omega), hfirst, List.range'_zero, List.append_nil]
      congr 2
      omega
    · have hprior : (if w.head + a - w.size = 0 then w.size - 1 else w.head + a - w.size - 1) = w.head + a - w.size - 1 :=
        if_neg hfirst
      rw [hprior, if_neg (by omega), List.reverse_append]
      congr 3
      omega

theorem mem_backward (hs : Shape w empty) (hi : Live w i) : k ∈ backward w i ↔ Older w k i := by
  constructor
  · intro h
    obtain ⟨a, ha, rfl⟩ := hi
    rw [backward_slot hs ha, List.mem_reverse, List.mem_map] at h
    obtain ⟨b, hb, rfl⟩ := h
    exact ⟨b, a, List.mem_range.mp hb, ha, rfl, rfl⟩
  · rintro ⟨a, b, hab, hb, rfl, rfl⟩
    rw [backward_slot hs hb, List.mem_reverse]
    exact List.mem_map_of_mem (List.mem_range.mpr hab)

def Youngest (w : Window E) (i : Nat) (P : Nat → Prop) (k : Nat) : Prop :=
  Older w k i ∧ P k ∧ ∀ l, Older w l i → P l → l = k ∨ Older w l k

variable {P : Nat → Prop} {p : Nat → Bool} {l : Nat}

theorem Youngest.unique (hs : Shape w empty) (hk : Youngest w i P k) (hl : Youngest w i P l) : k = l := by
  rcases hk.2.2 l hl.1 hl.2.1 with rfl | hlk
  · rfl
  · rcases hl.2.2 k hk.1 hk.2.1 with rfl | hkl
    · rfl
    · exact absurd hkl (hlk.asymm hs)

theorem find_last {f : Nat → Nat} (h : ((List.range a).map f).reverse.find? p = some k) :
    ∃ b < a, f b = k ∧ p k = true ∧ ∀ c, b < c → c < a → p (f c) = false := by
  induction a with
  | zero => cases h
  | succ a ih =>
      rw [List.range_succ, List.map_append, List.reverse_append] at h
      by_cases hp : p (f a) = true
      · have hk := (List.find?_cons_of_pos hp).symm.trans h
        rw [Option.some.injEq] at hk
        exact ⟨a, Nat.lt_succ_self a, hk, hk ▸ hp, fun c hc hca => absurd hca (Nat.not_lt.mpr hc)⟩
      · obtain ⟨b, hb, hfb, hpk, hlater⟩ := ih ((List.find?_cons_of_neg hp).symm.trans h)
        refine ⟨b, Nat.lt_succ_of_lt hb, hfb, hpk, fun c hbc hc => ?_⟩
        rcases Nat.lt_succ_iff_lt_or_eq.mp hc with hc | rfl
        · exact hlater c hbc hc
        · exact Bool.eq_false_iff.mpr hp

theorem youngest_of_find (hs : Shape w empty) (hi : Live w i) (h : (backward w i).find? p = some k) :
    Youngest w i (fun k => p k = true) k := by
  obtain ⟨a, ha, rfl⟩ := hi
  rw [backward_slot hs ha] at h
  obtain ⟨b, hb, rfl, hp, hlater⟩ := find_last h
  refine ⟨⟨b, a, hb, ha, rfl, rfl⟩, hp, fun l hl hpl => ?_⟩
  obtain ⟨c, d, hcd, hd, rfl, hda⟩ := hl
  have hda := slot_inj hs hd ha hda
  rcases Nat.lt_trichotomy c b with hcb | rfl | hbc
  · exact .inr ⟨c, b, hcb, hb.trans ha, rfl, rfl⟩
  · exact .inl rfl
  · rw [hlater c hbc (hda ▸ hcd)] at hpl
    cases hpl

theorem find_backward (hs : Shape w empty) (hi : Live w i) :
    (backward w i).find? p = some k ↔ Youngest w i (fun k => p k = true) k := by
  refine ⟨youngest_of_find hs hi, fun h => ?_⟩
  cases hfind : (backward w i).find? p with
  | none => exact absurd h.2.1 (List.find?_eq_none.mp hfind k ((mem_backward hs hi).mpr h.1))
  | some l => rw [(youngest_of_find hs hi hfind).unique hs h]

theorem exists_youngest (hs : Shape w empty) [DecidablePred P] (h : Older w k i) (hk : P k) : ∃ l, Youngest w i P l := by
  cases hfind : (backward w i).find? (fun k => P k) with
  | none => exact absurd (decide_eq_true hk) (List.find?_eq_none.mp hfind k ((mem_backward hs h.right).mpr h))
  | some l =>
      refine ⟨l, ?_⟩
      simpa only [decide_eq_true_eq] using youngest_of_find hs h.right hfind

end Backward

end Thermometer.Lib.Windows
