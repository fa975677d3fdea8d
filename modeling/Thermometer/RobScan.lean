import Thermometer.RobCounts

namespace Thermometer.RobScan

open Lib.Rings ReorderBuffer RobShape RobEdges RobCounts

variable {s : State} {i k a : Nat}

/-- In both cases of the wrap, the scan meets the older instructions from the youngest on. -/
theorem scan_slot (hs : Shape s) (ha : a < s.occupancy) : scan s (s.slot a) = ((List.range a).map s.slot).reverse := by
  have hhead := hs.head_lt
  have hle := hs.occupancy_le
  by_cases hzero : a = 0
  · subst hzero
    simp only [scan, slot_zero hs, if_true, List.range_zero, List.map_nil, List.reverse_nil]
  have hne : s.slot a ≠ s.head := by
    intro he
    exact hzero (slot_inj hs ha (Nat.zero_lt_of_lt ha) (he.trans (slot_zero hs).symm))
  have hmap : (List.range a).map s.slot = (List.range a).map (place s.size s.head) := rfl
  rw [hmap]
  by_cases hfit : s.head + a < s.size
  · have hslot : s.slot a = s.head + a := Nat.mod_eq_of_lt hfit
    rw [places_straight hfit.le]
    simp only [scan, if_neg hne]
    have hprior : (if s.head + a = 0 then s.size - 1 else s.head + a - 1) = s.head + a - 1 := if_neg (by omega)
    rw [hslot, hprior, if_pos (by omega)]
    congr 2
    omega
  · have hslot : s.slot a = s.head + a - s.size := by
      have hmod : s.slot a = (s.head + a - s.size) % s.size := Nat.mod_eq_sub_mod (Nat.le_of_not_lt hfit)
      rw [hmod]
      exact Nat.mod_eq_of_lt (by omega)
    rw [places_wrapped hhead (Nat.le_of_not_lt hfit) (by omega)]
    simp only [scan, if_neg hne]
    rw [hslot]
    by_cases hfirst : s.head + a - s.size = 0
    · have hprior : (if s.head + a - s.size = 0 then s.size - 1 else s.head + a - s.size - 1) = s.size - 1 := if_pos hfirst
      rw [hprior, if_pos (by omega), hfirst, List.range'_zero, List.append_nil]
      congr 2
      omega
    · have hprior : (if s.head + a - s.size = 0 then s.size - 1 else s.head + a - s.size - 1) = s.head + a - s.size - 1 :=
        if_neg hfirst
      rw [hprior, if_neg (by omega), List.reverse_append]
      congr 3
      omega

theorem older_of_mem_scan (hs : Shape s) (hi : Live s i) (h : k ∈ scan s i) : Older s k i := by
  obtain ⟨a, ha, rfl⟩ := hi
  rw [scan_slot hs ha, List.mem_reverse, List.mem_map] at h
  obtain ⟨b, hb, rfl⟩ := h
  exact ⟨b, a, List.mem_range.mp hb, ha, rfl, rfl⟩

/-- The state while the sources of `i` are looked up. -/
structure Scanning (i : Nat) (s : State) : Prop where
  shape : Shape s
  edges : Edges (some i) s
  counts : Counts (some i) [] s
  live : Live s i
  idle : (s.entry i).scheduled = .idle

/-- What the lookup leaves alone. -/
structure Looked (i : Nat) (s u : State) : Prop extends Same s u where
  ring : u.readyToExecute = s.readyToExecute
  placed : u.placed = s.placed
  retired : u.retired = s.retired
  memory : ∀ x, (u.entry x).isMemory = (s.entry x).isMemory
  scheduled : ∀ x, (u.entry x).scheduled = (s.entry x).scheduled
  executed : ∀ x, (u.entry x).executed = (s.entry x).executed
  num : ∀ x, x ≠ i → (u.entry x).numRegDependent = (s.entry x).numRegDependent
  sources : ∀ x, (u.entry x).sourceRegisters = (s.entry x).sourceRegisters
  destinations : ∀ x, (u.entry x).destinationRegisters = (s.entry x).destinationRegisters

theorem Looked.refl (i : Nat) (s : State) : Looked i s s :=
  ⟨.refl s, rfl, rfl, rfl, fun _ => rfl, fun _ => rfl, fun _ => rfl, fun _ _ => rfl, fun _ => rfl, fun _ => rfl⟩

theorem Looked.trans {u v : State} (h : Looked i s u) (h' : Looked i u v) : Looked i s v := by
  refine ⟨h.toSame.trans h'.toSame, h'.ring.trans h.ring, h'.placed.trans h.placed, h'.retired.trans h.retired,
    fun x => (h'.memory x).trans (h.memory x), fun x => (h'.scheduled x).trans (h.scheduled x),
    fun x => (h'.executed x).trans (h.executed x), fun x hx => (h'.num x hx).trans (h.num x hx),
    fun x => (h'.sources x).trans (h.sources x), fun x => (h'.destinations x).trans (h.destinations x)⟩

variable {source : Fin numInstrSources}

theorem link_looked (hk : Live s k) (hi : Live s i) : Looked i s (link s k i source) := by
  refine ⟨link_same hk hi, rfl, rfl, rfl, link_keeps RobEntry.isMemory (fun _ _ _ => rfl) (fun _ _ _ _ => rfl),
    link_scheduled, link_executed, ?_, link_keeps RobEntry.sourceRegisters (fun _ _ _ => rfl) (fun _ _ _ _ => rfl),
    link_keeps RobEntry.destinationRegisters (fun _ _ _ => rfl) (fun _ _ _ _ => rfl)⟩
  intro x hx
  rw [link, entry_of_ne hx]
  exact entry_keeps RobEntry.numRegDependent rfl x

theorem link_scanning (h : Scanning i s) (hold : Older s k i) (hunchecked : (s.entry i).regRawChecked source = false)
    (hpending : (s.entry k).executed ≠ .completed) : Scanning i (link s k i source) := by
  have hsame : Same s (link s k i source) := link_same hold.left hold.right
  refine ⟨hsame.shape h.shape, link_edges h.shape h.edges hold hunchecked,
    link_counts h.shape h.edges h.counts hold h.idle hunchecked hpending, hsame.live.mpr h.live, ?_⟩
  rw [link_scheduled]
  exact h.idle

theorem checkSource_scanning (source : Fin numInstrSources) (h : Scanning i s) (hold : Older s k i)
    (hpending : (s.entry k).executed ≠ .completed) :
    Scanning i (checkSource i k s source) ∧ Looked i s (checkSource i k s source) := by
  rw [checkSource]
  split_ifs with hcheck
  · rw [regRawDependency]
    split_ifs
    · exact ⟨link_scanning h hold hcheck.2 hpending, link_looked hold.left hold.right⟩
    · exact ⟨h, .refl i s⟩
  · exact ⟨h, .refl i s⟩

theorem checkSources_scanning {sources : List (Fin numInstrSources)} (h : Scanning i s) (hold : Older s k i)
    (hpending : (s.entry k).executed ≠ .completed) :
    Scanning i (sources.foldl (checkSource i k) s) ∧ Looked i s (sources.foldl (checkSource i k) s) := by
  induction sources generalizing s with
  | nil => exact ⟨h, .refl i s⟩
  | cons source sources ih =>
      obtain ⟨hstep, hlooked⟩ := checkSource_scanning source h hold hpending
      have hpending' : ((checkSource i k s source).entry k).executed ≠ .completed := by
        rw [hlooked.executed]
        exact hpending
      obtain ⟨hrest, hmore⟩ := ih hstep (hlooked.older.mpr hold) hpending'
      exact ⟨hrest, hlooked.trans hmore⟩

theorem checkPrior_scanning (h : Scanning i s) (hold : Older s k i) :
    Scanning i (checkPrior i s k) ∧ Looked i s (checkPrior i s k) := by
  rw [checkPrior]
  split_ifs with hpending
  · exact checkSources_scanning h hold hpending
  · exact ⟨h, .refl i s⟩

theorem checkPriors_scanning {priors : List Nat} (h : Scanning i s) (hold : ∀ k ∈ priors, Older s k i) :
    Scanning i (priors.foldl (checkPrior i) s) ∧ Looked i s (priors.foldl (checkPrior i) s) := by
  induction priors generalizing s with
  | nil => exact ⟨h, .refl i s⟩
  | cons k priors ih =>
      obtain ⟨hstep, hlooked⟩ := checkPrior_scanning h (hold k List.mem_cons_self)
      obtain ⟨hrest, hmore⟩ := ih hstep (fun l hl => hlooked.older.mpr (hold l (List.mem_cons_of_mem k hl)))
      exact ⟨hrest, hlooked.trans hmore⟩

theorem regDependency_scanning (h : Scanning i s) :
    Scanning i (regDependency s i) ∧ Looked i s (regDependency s i) :=
  checkPriors_scanning h (fun _ hk => older_of_mem_scan h.shape h.live hk)

theorem start_scanning (hs : Shape s) (he : Edges none s) (hc : Counts none [] s) (hi : Live s i)
    (hidle : (s.entry i).scheduled = .idle) : Scanning i (s.modifyEntry i (fun e => { e with regReady := true })) := by
  have hsame : Same s (s.modifyEntry i (fun e => { e with regReady := true })) := same_modifyEntry hi rfl
  refine ⟨hsame.shape hs, start_edges he hi, start_counts he hc hi hidle, hsame.live.mpr hi, ?_⟩
  rw [entry_self]
  exact hidle

end Thermometer.RobScan
