import Thermometer.GhrpLearning

namespace Thermometer.GhrpMarks

open Trace Lib.Tables Lib.Runs GhrpBtb GhrpLearning

/-- A set of at most `n` lines, and the line accessed last. A full set has a line
without a mark, and that is another one. -/
structure Marked (n : Nat) (t : Table Entry) (latest : Option Nat) : Prop where
  capacity : size t ≤ n
  unmarked : size t = n → ∃ j e, t.lookup j = some e ∧ e.plruTimestamp = false
  used : ∀ a, latest = some a → ∃ e, t.lookup a = some e ∧ e.plruTimestamp = true
  known : latest = none → size t = 0

structure Entered (n : Nat) (t : Table Entry) (a : Nat) : Prop where
  capacity : size t ≤ n
  marked : ∃ e, t.lookup a = some e ∧ e.plruTimestamp = true

variable {n a : Nat} {t : Table Entry} {latest : Option Nat} {f : Entry → Entry}

theorem allMarked_iff (t : Table Entry) : (iterate .ascending t).all (fun e => e.2.plruTimestamp) = true ↔
    ∀ j e, t.lookup j = some e → e.plruTimestamp = true := by
  rw [List.all_eq_true]
  constructor
  · intro h j e he
    exact h (j, e) ((mem_iterate _ t j e).mpr he)
  · rintro h ⟨j, e⟩ hmem
    exact h j e ((mem_iterate _ t j e).mp hmem)

theorem exists_other (hn : 2 ≤ size t) (a : Nat) : ∃ j e, j ≠ a ∧ t.lookup j = some e := by
  obtain ⟨j, hj, hne⟩ : ∃ j ∈ t.keys, j ≠ a := by
    by_contra hall
    have hsub : t.keys ⊆ [a] := by
      intro j hj
      by_contra hne
      exact hall ⟨j, hj, by simpa using hne⟩
    have hle : size t ≤ 1 := (t.keys_nodup.subperm hsub).length_le
    omega
  obtain ⟨e, he⟩ := (mem_iff_lookup t j).mp (AList.mem_keys.mpr hj)
  exact ⟨j, e, hne, he⟩

/-- The marks are taken back when there is no other way to keep one line unmarked. -/
theorem marked_markUsed (hn : 2 ≤ n) (h : Entered n t a) : Marked n (markUsed n t a) (some a) := by
  obtain ⟨e, he, hmark⟩ := h.marked
  simp only [markUsed]
  by_cases hfull : size t = n ∧ (iterate .ascending t).all (fun e => e.2.plruTimestamp) = true
  · simp only [if_pos hfull]
    refine ⟨?_, ?_, ?_, fun hnone => by cases hnone⟩
    · rw [size_modify, size_mapValues]
      exact h.capacity
    · intro _
      obtain ⟨j, d, hj, hd⟩ := exists_other (hfull.1 ▸ hn) a
      refine ⟨j, { d with plruTimestamp := false }, ?_, rfl⟩
      rw [lookup_modify, if_neg hj, lookup_mapValues, hd]
      rfl
    · intro _ ha
      obtain rfl := Option.some.inj ha
      refine ⟨{ e with plruTimestamp := true }, ?_, rfl⟩
      rw [lookup_modify, if_pos rfl, lookup_mapValues, he]
      rfl
  · simp only [if_neg hfull]
    refine ⟨?_, ?_, ?_, fun hnone => by cases hnone⟩
    · rw [size_modify]
      exact h.capacity
    · intro hsize
      rw [size_modify] at hsize
      obtain ⟨j, d, hd, hunmarked⟩ : ∃ j d, t.lookup j = some d ∧ d.plruTimestamp = false := by
        by_contra hall
        apply hfull
        refine ⟨hsize, (allMarked_iff t).mpr (fun j d hd => ?_)⟩
        by_contra hd'
        exact hall ⟨j, d, hd, by simpa using hd'⟩
      have hj : j ≠ a := by
        rintro rfl
        obtain rfl := Option.some.inj (he.symm.trans hd)
        cases hmark.symm.trans hunmarked
      exact ⟨j, d, by rw [lookup_modify, if_neg hj, hd], hunmarked⟩
    · intro _ ha
      obtain rfl := Option.some.inj ha
      exact ⟨{ e with plruTimestamp := true }, by rw [lookup_modify, if_pos rfl, he]; rfl, rfl⟩

theorem Marked.modify (h : Marked n t latest) (k : Nat) (hf : ∀ e, (f e).plruTimestamp = e.plruTimestamp) :
    Marked n (modify t k f) latest := by
  have hkeep : ∀ j e, t.lookup j = some e →
      ∃ e', (Lib.Tables.modify t k f).lookup j = some e' ∧ e'.plruTimestamp = e.plruTimestamp := by
    intro j e he
    rw [lookup_modify]
    by_cases hj : j = k
    · rw [if_pos hj, ← hj, he]
      exact ⟨f e, rfl, hf e⟩
    · rw [if_neg hj]
      exact ⟨e, he, rfl⟩
  refine ⟨?_, ?_, ?_, ?_⟩
  · rw [size_modify]
    exact h.capacity
  · intro hsize
    rw [size_modify] at hsize
    obtain ⟨j, e, he, hmark⟩ := h.unmarked hsize
    obtain ⟨e', he', heq⟩ := hkeep j e he
    exact ⟨j, e', he', heq.trans hmark⟩
  · intro a ha
    obtain ⟨e, he, hmark⟩ := h.used a ha
    obtain ⟨e', he', heq⟩ := hkeep a e he
    exact ⟨e', he', heq.trans hmark⟩
  · intro hnone
    rw [size_modify]
    exact h.known hnone

theorem evicted_unmarked {s : State} {set : Nat} (h : Marked s.numLines (s.btb set) latest)
    (hfull : size (s.btb set) = s.numLines) (halive : ∀ j e, (s.btb set).lookup j = some e → e.deadPrediction = false) :
    ∃ j e, evicted s set = some j ∧ (s.btb set).lookup j = some e ∧ e.plruTimestamp = false := by
  have hdead : (iterate .ascending (s.btb set)).find? (fun e => e.2.deadPrediction) = none := by
    rw [List.find?_eq_none]
    rintro ⟨j, e⟩ hmem
    rw [halive j e ((mem_iterate _ _ j e).mp hmem)]
    exact Bool.false_ne_true
  obtain ⟨j, e, he, hmark⟩ := h.unmarked hfull
  cases hfind : (iterate .ascending (s.btb set)).find? (fun e => !e.2.plruTimestamp) with
  | none =>
      have hno := List.find?_eq_none.mp hfind (j, e) ((mem_iterate _ _ j e).mpr he)
      simp [hmark] at hno
  | some d =>
      have hunmarked : d.2.plruTimestamp = false := by simpa using List.find?_some hfind
      refine ⟨d.1, d.2, ?_, (mem_iterate _ _ d.1 d.2).mp (List.mem_of_find?_eq_some hfind), hunmarked⟩
      rw [evicted, if_neg (Nat.not_lt.mpr (Nat.le_of_eq hfull.symm)), hdead, oldest]
      simp [isGhrpPlru, hfind]

theorem evicted_mem {s : State} {set : Nat} (hpos : 0 < size (s.btb set)) (hfull : s.numLines ≤ size (s.btb set)) :
    ∃ j, evicted s set = some j ∧ j ∈ s.btb set := by
  have hmem : ∀ d ∈ iterate .ascending (s.btb set), d.1 ∈ s.btb set := by
    intro d hd
    exact (mem_iff_lookup _ _).mpr ⟨d.2, (mem_iterate _ _ d.1 d.2).mp hd⟩
  rw [evicted, if_neg (Nat.not_lt.mpr hfull)]
  cases hdead : (iterate .ascending (s.btb set)).find? (fun e => e.2.deadPrediction) with
  | some d => exact ⟨d.1, rfl, hmem d (List.mem_of_find?_eq_some hdead)⟩
  | none =>
      simp only [Option.map_none, Option.none_or, oldest, isGhrpPlru, if_true]
      cases hfind : (iterate .ascending (s.btb set)).find? (fun e => !e.2.plruTimestamp) with
      | some d => exact ⟨d.1, rfl, hmem d (List.mem_of_find?_eq_some hfind)⟩
      | none =>
          cases hes : iterate .ascending (s.btb set) with
          | nil => exact absurd ((iterate_eq_nil _ _).mp hes) (Nat.ne_of_gt hpos)
          | cons d es => exact ⟨d.1, rfl, hmem d (hes ▸ List.mem_cons_self)⟩

theorem entered_used {e : Entry} (hsize : size t ≤ n) (ha : t.lookup a = some e) (hf : ∀ e, (f e).plruTimestamp = true) :
    Entered n (modify t a f) a := by
  refine ⟨by rwa [size_modify], f e, ?_, hf e⟩
  rw [lookup_modify, if_pos rfl, ha]
  rfl

theorem entered_new {block : Entry} (hsize : size t < n) (ha : a ∉ t) (hb : block.plruTimestamp = true) :
    Entered n (insertNew t a block) a := by
  refine ⟨?_, block, ?_, hb⟩
  · rw [insertNew, if_neg ha, size_insert_of_notMem ha]
    exact hsize
  · rw [lookup_insertNew_of_notMem ha, if_pos rfl]

def AllMarked (n : Nat) (btb : Nat → Table Entry) (latest : Nat → Option Nat) : Prop := ∀ set, Marked n (btb set) (latest set)

variable {s s' : State} {btb : Nat → Table Entry} {last : Nat → Option Nat} {set ip branchTarget : Nat} {taken : Bool}

theorem allMarked_accessed (hrest : ∀ i, i ≠ set → Marked n (btb i) (last i)) (ht : Marked n t (some a)) :
    AllMarked n (Function.update btb set t) (Function.update last set (some a)) := by
  intro i
  by_cases hi : i = set
  · rw [hi, Function.update_self, Function.update_self]
    exact ht
  · rw [Function.update_of_ne hi, Function.update_of_ne hi]
    exact hrest i hi

theorem AllMarked.written (h : AllMarked n btb last) (set k : Nat) (hf : ∀ e, (f e).plruTimestamp = e.plruTimestamp) :
    AllMarked n (Function.update btb set (modify (btb set) k f)) last := by
  intro i
  by_cases hi : i = set
  · rw [hi, Function.update_self]
    exact (h set).modify k hf
  · rw [Function.update_of_ne hi]
    exact h i

theorem hitAccess_marked {e : Entry} (hn : 2 ≤ s.numLines) (h : AllMarked s.numLines s.btb last) (ha : s.find set a = some e)
    (pc : Nat) : AllMarked s.numLines (hitAccess s set a pc).btb (Function.update last set (some a)) :=
  allMarked_accessed (fun i _ => h i) (marked_markUsed hn (entered_used (h set).capacity ha (fun _ => rfl)))

theorem doEvition_room (hn : 2 ≤ s.numLines) (h : AllMarked s.numLines s.btb last) (ha : a ∉ s.btb set) :
    (doEvition s set).numLines = s.numLines ∧ size ((doEvition s set).btb set) < s.numLines ∧ a ∉ (doEvition s set).btb set ∧
      ∀ i, i ≠ set → (doEvition s set).btb i = s.btb i := by
  by_cases hroom : size (s.btb set) < s.numLines
  · have hnone : evicted s set = none := if_pos hroom
    rw [doEvition, hnone]
    exact ⟨rfl, hroom, ha, fun _ _ => rfl⟩
  · have hfull := Nat.le_of_not_lt hroom
    obtain ⟨j, hj, hmem⟩ := evicted_mem (Nat.lt_of_lt_of_le (Nat.lt_of_lt_of_le Nat.zero_lt_two hn) hfull) hfull
    have hsize := size_erase_of_mem hmem
    have hcap := (h set).capacity
    rw [doEvition, hj]
    refine ⟨rfl, ?_, ?_, fun i hi => Function.update_of_ne hi _ _⟩
    · change size (Function.update s.btb set _ set) < s.numLines
      rw [Function.update_self]
      omega
    · change a ∉ Function.update s.btb set _ set
      rw [Function.update_self, AList.mem_erase]
      exact fun hc => ha hc.2

theorem missAccess_marked (hn : 2 ≤ s.numLines) (h : AllMarked s.numLines s.btb last) (ha : s.find set a = none) (pc : Nat)
    (hbypass : needBypass s set pc = false) : (missAccess s set a pc).2 = true ∧
      AllMarked s.numLines (missAccess s set a pc).1.btb (Function.update last set (some a)) := by
  obtain ⟨hlines, hroom, hno, hrest⟩ := doEvition_room hn h (AList.lookup_eq_none.mp ha)
  simp only [missAccess, hbypass]
  refine ⟨rfl, ?_⟩
  have hothers : ∀ i, i ≠ set → Marked s.numLines ((doEvition s set).btb i) (last i) := by
    intro i hi
    rw [hrest i hi]
    exact h i
  apply allMarked_accessed hothers
  rw [hlines]
  exact marked_markUsed hn (entered_new hroom hno rfl)

theorem missAccess_bypassed (a pc : Nat) (hbypass : needBypass s set pc = true) :
    (missAccess s set a pc).2 = false ∧ (missAccess s set a pc).1.btb = s.btb := by
  simp only [missAccess, hbypass]
  exact ⟨rfl, rfl⟩

theorem allocate_marked (branchTarget : Nat) (hn : 2 ≤ s.numLines) (h : AllMarked s.numLines s.btb last)
    (ha : s.find (s.set ip) ip = none) :
    AllMarked s.numLines (allocate s ip branchTarget).btb
      (if needBypass s (s.set ip) ip = true then last else Function.update last (s.set ip) (some ip)) := by
  cases hbypass : needBypass s (s.set ip) ip with
  | true =>
      obtain ⟨hout, hbtb⟩ := missAccess_bypassed ip ip hbypass
      rw [if_pos rfl]
      simp only [allocate, hout]
      change AllMarked _ (missAccess s (s.set ip) ip ip).1.btb last
      rw [hbtb]
      exact h
  | false =>
      obtain ⟨hout, hmarked⟩ := missAccess_marked hn h ha ip hbypass
      rw [if_neg Bool.false_ne_true]
      simp only [allocate, hout]
      exact hmarked.written (s.set ip) ip (fun _ => rfl)

end Thermometer.GhrpMarks
