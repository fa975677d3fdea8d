import Thermometer.ReorderBuffer

namespace Thermometer.RobShape

open Lib.Rings ReorderBuffer

def Live (s : State) (i : Nat) : Prop := ∃ a < s.occupancy, s.slot a = i

def Older (s : State) (k i : Nat) : Prop := ∃ a b, a < b ∧ b < s.occupancy ∧ s.slot a = k ∧ s.slot b = i

structure Shape (s : State) : Prop where
  head_lt : s.head < s.size
  occupancy_le : s.occupancy ≤ s.size
  tail_eq : s.tail = s.slot s.occupancy
  blank : ∀ i, ¬Live s i → s.entry i = .empty
  ids : ∀ a < s.occupancy, (s.entry (s.slot a)).instrId + s.occupancy = s.instrUniqueId + a

/-- Nothing has come, gone or changed its place. -/
structure Same (s u : State) : Prop where
  size : u.size = s.size
  head : u.head = s.head
  tail : u.tail = s.tail
  occupancy : u.occupancy = s.occupancy
  unique : u.instrUniqueId = s.instrUniqueId
  ids : ∀ i, (u.entry i).instrId = (s.entry i).instrId
  blank : ∀ i, ¬Live s i → u.entry i = s.entry i

variable {s u v : State} {i j k a b : Nat} {f : RobEntry → RobEntry}

@[simp] theorem entry_modifyEntry (s : State) (i : Nat) (f : RobEntry → RobEntry) (j : Nat) :
    (s.modifyEntry i f).entry j = if j = i then f (s.entry i) else s.entry j := by
  by_cases hj : j = i
  · subst hj
    simp [State.modifyEntry]
  · simp [State.modifyEntry, hj]

theorem entry_self (s : State) (i : Nat) (f : RobEntry → RobEntry) : (s.modifyEntry i f).entry i = f (s.entry i) := by
  rw [entry_modifyEntry, if_pos rfl]

theorem entry_of_ne (h : j ≠ i) : (s.modifyEntry i f).entry j = s.entry j := by
  rw [entry_modifyEntry, if_neg h]

theorem entry_keeps {B : Type} (g : RobEntry → B) (hf : g (f (s.entry i)) = g (s.entry i)) (j : Nat) :
    g ((s.modifyEntry i f).entry j) = g (s.entry j) := by
  rw [entry_modifyEntry]
  split_ifs with h
  · rw [h, hf]
  · rfl

theorem Shape.pos (h : Shape s) : 0 < s.size := Nat.zero_lt_of_lt h.head_lt

theorem slot_inj (h : Shape s) (ha : a < s.occupancy) (hb : b < s.occupancy) (heq : s.slot a = s.slot b) : a = b :=
  place_inj (ha.trans_le h.occupancy_le) (hb.trans_le h.occupancy_le) heq

theorem slot_lt (h : Shape s) (a : Nat) : s.slot a < s.size := place_lt h.pos _ _

theorem Live.lt (h : Shape s) (hi : Live s i) : i < s.size := by
  obtain ⟨a, -, rfl⟩ := hi
  exact slot_lt h a

theorem live_slot (ha : a < s.occupancy) : Live s (s.slot a) := ⟨a, ha, rfl⟩

theorem Older.left (h : Older s k i) : Live s k := by
  obtain ⟨a, b, hab, hb, rfl, -⟩ := h
  exact live_slot (hab.trans hb)

theorem Older.right (h : Older s k i) : Live s i := by
  obtain ⟨a, b, -, hb, -, rfl⟩ := h
  exact live_slot hb

theorem Older.ne (hs : Shape s) (h : Older s k i) : k ≠ i := by
  obtain ⟨a, b, hab, hb, rfl, rfl⟩ := h
  intro he
  exact absurd (slot_inj hs (hab.trans hb) hb he) hab.ne

theorem live_of_ids (hs : Shape s) (hi : Live s i) (hj : Live s j)
    (h : (s.entry i).instrId = (s.entry j).instrId) : i = j := by
  obtain ⟨a, ha, rfl⟩ := hi
  obtain ⟨b, hb, rfl⟩ := hj
  have hids := hs.ids a ha
  have hids' := hs.ids b hb
  have hab : a = b := by omega
  rw [hab]

theorem Same.slot (h : Same s u) (a : Nat) : u.slot a = s.slot a := by
  rw [State.slot, State.slot, h.size, h.head]

theorem Same.live (h : Same s u) : Live u i ↔ Live s i := by
  simp only [Live, h.occupancy, h.slot]

theorem Same.older (h : Same s u) : Older u k i ↔ Older s k i := by
  simp only [Older, h.occupancy, h.slot]

theorem Same.refl (s : State) : Same s s := ⟨rfl, rfl, rfl, rfl, rfl, fun _ => rfl, fun _ _ => rfl⟩

theorem Same.trans (h : Same s u) (h' : Same u v) : Same s v := by
  refine ⟨h'.size.trans h.size, h'.head.trans h.head, h'.tail.trans h.tail, h'.occupancy.trans h.occupancy,
    h'.unique.trans h.unique, fun i => (h'.ids i).trans (h.ids i), fun i hi => ?_⟩
  exact (h'.blank i (fun hl => hi (h.live.mp hl))).trans (h.blank i hi)

theorem Same.shape (h : Same s u) (hs : Shape s) : Shape u := by
  constructor
  · rw [h.head, h.size]
    exact hs.head_lt
  · rw [h.occupancy, h.size]
    exact hs.occupancy_le
  · rw [h.tail, h.occupancy, h.slot]
    exact hs.tail_eq
  · intro i hi
    have hi : ¬Live s i := fun hl => hi (h.live.mpr hl)
    rw [h.blank i hi]
    exact hs.blank i hi
  · intro a ha
    rw [h.occupancy] at ha
    rw [h.slot, h.ids, h.occupancy, h.unique]
    exact hs.ids a ha

theorem same_modifyEntry (hi : Live s i) (hf : (f (s.entry i)).instrId = (s.entry i).instrId) :
    Same s (s.modifyEntry i f) := by
  refine ⟨rfl, rfl, rfl, rfl, rfl, fun j => ?_, fun j hj => ?_⟩
  · rw [entry_modifyEntry]
    split_ifs with h
    · rw [h, hf]
    · rfl
  · apply entry_of_ne
    rintro rfl
    exact hj hi

theorem not_live_tail (hs : Shape s) (hfull : s.occupancy < s.size) : ¬Live s s.tail := by
  rintro ⟨a, ha, h⟩
  rw [hs.tail_eq] at h
  exact absurd (place_inj (ha.trans hfull) hfull h) ha.ne

theorem live_dispatch (hfull : s.occupancy < s.size) (hs : Shape s) (x : Instr) :
    Live (dispatchInstruction s x) i ↔ Live s i ∨ i = s.tail := by
  rw [dispatchInstruction, if_pos hfull]
  constructor
  · rintro ⟨a, ha, rfl⟩
    rcases Nat.lt_succ_iff_lt_or_eq.mp ha with ha | rfl
    · exact .inl ⟨a, ha, rfl⟩
    · exact .inr hs.tail_eq.symm
  · rintro (⟨a, ha, rfl⟩ | rfl)
    · exact ⟨a, Nat.lt_succ_of_lt ha, rfl⟩
    · exact ⟨s.occupancy, Nat.lt_succ_self _, hs.tail_eq.symm⟩

theorem dispatch_shape (hs : Shape s) (hfull : s.occupancy < s.size) (x : Instr) : Shape (dispatchInstruction s x) := by
  have hlive : ∀ i, ¬Live (dispatchInstruction s x) i → ¬Live s i ∧ i ≠ s.tail := by
    intro i hi
    rw [live_dispatch hfull hs] at hi
    exact not_or.mp hi
  rw [dispatchInstruction, if_pos hfull] at hlive ⊢
  refine ⟨hs.head_lt, hfull, ?_, fun i hi => ?_, fun a ha => ?_⟩
  · exact (congrArg (next s.size) hs.tail_eq).trans (next_place hs.pos _ _)
  · obtain ⟨hi, hne⟩ := hlive i hi
    exact (Function.update_of_ne hne _ _).trans (hs.blank i hi)
  · rcases Nat.lt_succ_iff_lt_or_eq.mp ha with ha | rfl
    · have hne : s.slot a ≠ s.tail := by
        intro he
        exact not_live_tail hs hfull (he ▸ live_slot ha)
      have hids := hs.ids a ha
      show (Function.update s.entry s.tail _ (s.slot a)).instrId + (s.occupancy + 1) = s.instrUniqueId + 1 + a
      rw [Function.update_of_ne hne]
      omega
    · have htail : s.slot s.occupancy = s.tail := hs.tail_eq.symm
      show (Function.update s.entry s.tail _ (s.slot s.occupancy)).instrId + (s.occupancy + 1)
        = s.instrUniqueId + 1 + s.occupancy
      rw [htail, Function.update_self]
      show s.instrUniqueId + (s.occupancy + 1) = s.instrUniqueId + 1 + s.occupancy
      omega

theorem slot_zero (hs : Shape s) : s.slot 0 = s.head := place_zero hs.head_lt

theorem live_of_executed (hs : Shape s) (h : (s.entry i).executed ≠ .idle) : Live s i := by
  by_contra hi
  rw [hs.blank i hi] at h
  exact h rfl

theorem occupancy_pos (h : Live s s.head) : 0 < s.occupancy := by
  obtain ⟨a, ha, -⟩ := h
  exact Nat.zero_lt_of_lt ha

theorem slot_retire (hs : Shape s) (h : (s.entry s.head).executed = .completed) (a : Nat) :
    (retireRob s).slot a = s.slot (a + 1) := by
  rw [retireRob, if_pos h]
  exact place_next hs.head_lt a

theorem live_retire (hs : Shape s) (h : (s.entry s.head).executed = .completed) :
    Live (retireRob s) i ↔ Live s i ∧ i ≠ s.head := by
  have hocc : (retireRob s).occupancy = s.occupancy - 1 := by rw [retireRob, if_pos h]
  simp only [Live, slot_retire hs h, hocc]
  constructor
  · rintro ⟨a, ha, rfl⟩
    have hlt : a + 1 < s.occupancy := by omega
    refine ⟨⟨a + 1, hlt, rfl⟩, fun he => ?_⟩
    have hz := slot_inj hs hlt (Nat.zero_lt_of_lt hlt) (he.trans (slot_zero hs).symm)
    exact absurd hz (Nat.succ_ne_zero a)
  · rintro ⟨⟨a, ha, rfl⟩, hne⟩
    cases a with
    | zero => exact absurd (slot_zero hs) hne
    | succ a => exact ⟨a, by omega, rfl⟩

theorem older_retire (hs : Shape s) (h : (s.entry s.head).executed = .completed) :
    Older (retireRob s) k i ↔ Older s k i ∧ k ≠ s.head := by
  have hocc : (retireRob s).occupancy = s.occupancy - 1 := by rw [retireRob, if_pos h]
  simp only [Older, slot_retire hs h, hocc]
  constructor
  · rintro ⟨a, b, hab, hb, rfl, rfl⟩
    have hlt : b + 1 < s.occupancy := by omega
    refine ⟨⟨a + 1, b + 1, Nat.succ_lt_succ hab, hlt, rfl, rfl⟩, fun he => ?_⟩
    have hz := slot_inj hs (by omega) (Nat.zero_lt_of_lt hlt) (he.trans (slot_zero hs).symm)
    exact absurd hz (Nat.succ_ne_zero a)
  · rintro ⟨⟨a, b, hab, hb, rfl, rfl⟩, hne⟩
    cases a with
    | zero => exact absurd (slot_zero hs) hne
    | succ a =>
        cases b with
        | zero => exact absurd hab (Nat.not_lt_zero _)
        | succ b => exact ⟨a, b, Nat.lt_of_succ_lt_succ hab, by omega, rfl, rfl⟩

theorem not_older_head (hs : Shape s) : ¬Older s k s.head := by
  rintro ⟨a, b, hab, hb, -, he⟩
  have hz := slot_inj hs hb (Nat.zero_lt_of_lt hb) (he.trans (slot_zero hs).symm)
  omega

theorem retire_shape (hs : Shape s) (h : (s.entry s.head).executed = .completed) : Shape (retireRob s) := by
  have hhead : Live s s.head := live_of_executed hs (by rw [h]; nofun)
  have hpos := occupancy_pos hhead
  have hlive := fun i => not_congr (live_retire (i := i) hs h)
  have hslot := slot_retire hs h
  have hle := hs.occupancy_le
  rw [retireRob, if_pos h] at hlive hslot ⊢
  refine ⟨?_, ?_, ?_, fun i hi => ?_, fun a ha => ?_⟩
  · show next s.size s.head < s.size
    rw [next_eq hs.head_lt]
    exact place_lt hs.pos _ _
  · show s.occupancy - 1 ≤ s.size
    omega
  · rw [hslot]
    show s.tail = s.slot (s.occupancy - 1 + 1)
    rw [Nat.sub_add_cancel hpos]
    exact hs.tail_eq
  · by_cases he : i = s.head
    · rw [he]
      exact Function.update_self _ _ _
    · have hi : ¬Live s i := fun hl => (hlive i).mp hi ⟨hl, he⟩
      exact (Function.update_of_ne he _ _).trans (hs.blank i hi)
  · have hlt : a + 1 < s.occupancy := Nat.add_lt_of_lt_sub ha
    have hids := hs.ids (a + 1) hlt
    have hne : s.slot (a + 1) ≠ s.head := by
      intro he
      exact absurd (slot_inj hs hlt hpos (he.trans (slot_zero hs).symm)) (Nat.succ_ne_zero a)
    rw [hslot]
    show (Function.update s.entry s.head _ (s.slot (a + 1))).instrId + (s.occupancy - 1) = s.instrUniqueId + a
    rw [Function.update_of_ne hne]
    omega

theorem initial_shape {robSize : Nat} (h : 0 < robSize) : Shape (.initial robSize) := by
  refine ⟨h, Nat.zero_le _, (place_zero h).symm, fun _ _ => rfl, fun a ha => ?_⟩
  exact absurd ha (Nat.not_lt_zero a)

end Thermometer.RobShape
