import Thermometer.GhrpMarks

namespace Thermometer.GhrpLatest

open Trace Lib.Tables Lib.Runs GhrpBtb GhrpLearning GhrpMarks

def accesses (s : State) (c : Call) : Bool := misses s c || (c.refreshes && (s.find (s.set c.ip) c.ip).isSome)

/-- A state with the branch accessed last in each set. -/
abbrev Watched := State × (Nat → Option Nat)

def watch (w : Watched) (c : Call) : Option Watched :=
  (step w.1 c).map (fun s =>
    (s, if accesses w.1 c then Function.update w.2 (w.1.set c.ip) (some c.ip) else w.2))

def start (ways : Nat) : Watched := (initializeBtb ways, fun _ => none)

structure Invariant (ways : Nat) (w : Watched) : Prop where
  lines : w.1.numLines = ways
  marked : AllMarked ways w.1.btb w.2
  stream : StreamBuffer.Bounded w.1.stream

variable {s : State} {w w' : Watched} {c : Call} {ways set : Nat} {e : Entry}

theorem invariant_start {ways : Nat} (h : 2 ≤ ways) : Invariant ways (start ways) := by
  refine ⟨rfl, fun set => ⟨Nat.zero_le _, fun hsize => ?_, fun a ha => (by cases ha), fun _ => rfl⟩,
    StreamBuffer.bounded_empty (by decide)⟩
  change 0 = ways at hsize
  omega

theorem accesses_hit (h : s.find (s.set c.ip) c.ip = some e) : accesses s c = c.refreshes := by
  simp [accesses, misses, h]

theorem accesses_miss (h : s.find (s.set c.ip) c.ip = none) : accesses s c = misses s c := by
  simp [accesses, h]

theorem allocate_same (s : State) (ip branchTarget : Nat) :
    (allocate s ip branchTarget).numLines = s.numLines ∧ (allocate s ip branchTarget).stream = s.stream := by
  have hevition : ∀ set, (doEvition s set).numLines = s.numLines ∧ (doEvition s set).stream = s.stream := by
    intro set
    rw [doEvition]
    cases evicted s set <;> exact ⟨rfl, rfl⟩
  simp only [allocate, missAccess]
  cases needBypass s (s.set ip) ip with
  | true => exact ⟨rfl, rfl⟩
  | false => exact hevition (s.set ip)

def Ends (ways : Nat) (w : Watched) (c : Call) (s : State) : Prop :=
  Invariant ways (s, if accesses w.1 c then Function.update w.2 (w.1.set c.ip) (some c.ip) else w.2)

theorem ends_kept (hacc : accesses w.1 c = false) (hlines : s.numLines = ways) (hs : AllMarked ways s.btb w.2)
    (hb : StreamBuffer.Bounded s.stream) : Ends ways w c s := by
  rw [Ends, hacc, if_neg Bool.false_ne_true]
  exact ⟨hlines, hs, hb⟩

theorem ends_accessed (hacc : accesses w.1 c = true) (hlines : s.numLines = ways)
    (hs : AllMarked ways s.btb (Function.update w.2 (w.1.set c.ip) (some c.ip))) (hb : StreamBuffer.Bounded s.stream) :
    Ends ways w c s := by
  rw [Ends, hacc, if_pos rfl]
  exact ⟨hlines, hs, hb⟩

theorem ends_allocate (hways : 2 ≤ ways) (h : Invariant ways w) (halloc : c.allocates = true)
    (hfind : w.1.find (w.1.set c.ip) c.ip = none) {s : State} (hbtb : s.btb = w.1.btb) (hsets : s.sets = w.1.sets)
    (hlines : s.numLines = w.1.numLines) (hbypass : needBypass s (w.1.set c.ip) c.ip = needBypass w.1 (w.1.set c.ip) c.ip)
    (hb : StreamBuffer.Bounded s.stream) (branchTarget : Nat) : Ends ways w c (allocate s c.ip branchTarget) := by
  have hset : s.set c.ip = w.1.set c.ip := by rw [State.set, State.set, hsets]
  have hmarked : AllMarked s.numLines s.btb w.2 := by
    rw [hlines, h.lines, hbtb]
    exact h.marked
  have hfind' : s.find (s.set c.ip) c.ip = none := by
    rw [State.find, hset, hbtb]
    exact hfind
  have hfinal := allocate_marked branchTarget (by rw [hlines, h.lines]; exact hways) hmarked hfind'
  obtain ⟨hsame, hstream⟩ := allocate_same s c.ip branchTarget
  rw [hset, hbypass, hlines, h.lines] at hfinal
  have hacc : accesses w.1 c = !needBypass w.1 (w.1.set c.ip) c.ip := by simp [accesses_miss hfind, misses, halloc, hfind]
  cases hneed : needBypass w.1 (w.1.set c.ip) c.ip with
  | true =>
      rw [hneed, if_pos rfl] at hfinal
      exact ends_kept (by rw [hacc, hneed]; rfl) (hsame.trans (hlines.trans h.lines)) hfinal (hstream ▸ hb)
  | false =>
      rw [hneed, if_neg Bool.false_ne_true] at hfinal
      exact ends_accessed (by rw [hacc, hneed]; rfl) (hsame.trans (hlines.trans h.lines)) hfinal (hstream ▸ hb)

theorem ends_hit (hways : 2 ≤ ways) (h : Invariant ways w) (hrefresh : c.refreshes = true)
    (hfind : w.1.find (w.1.set c.ip) c.ip = some e) {s : State} (hbtb : s.btb = w.1.btb) (hlines : s.numLines = w.1.numLines)
    (hb : StreamBuffer.Bounded s.stream) : Ends ways w c (hitAccess s (w.1.set c.ip) c.ip c.ip) := by
  have hmarked : AllMarked s.numLines s.btb w.2 := by
    rw [hlines, h.lines, hbtb]
    exact h.marked
  have hfind' : s.find (w.1.set c.ip) c.ip = some e := by
    rw [State.find, hbtb]
    exact hfind
  have hfinal := hitAccess_marked (by rw [hlines, h.lines]; exact hways) hmarked hfind' c.ip
  rw [hlines, h.lines] at hfinal
  exact ends_accessed ((accesses_hit hfind).trans hrefresh) (hlines.trans h.lines) hfinal hb

theorem Ends.updateExisting (h : Ends ways w c s) (ip branchTarget : Nat) (taken : Bool) :
    Ends ways w c (updateExisting s ip branchTarget taken) := by
  refine ⟨h.lines, ?_, h.stream⟩
  apply h.marked.written (s.set ip) ip
  intro e
  cases taken <;> rfl

theorem ends_idle (h : Invariant ways w) {s : State} (hacc : accesses w.1 c = false) (hlines : s.numLines = w.1.numLines)
    (hbtb : s.btb = w.1.btb) (hb : StreamBuffer.Bounded s.stream) : Ends ways w c s :=
  ends_kept hacc (hlines.trans h.lines) (hbtb ▸ h.marked) hb

theorem accesses_other (hallocates : c.allocates = false) (hrefreshes : c.refreshes = false) : accesses w.1 c = false := by
  simp [accesses, misses, hallocates, hrefreshes]

theorem accesses_idle_miss (hfind : w.1.find (w.1.set c.ip) c.ip = none) (hallocates : c.allocates = false) :
    accesses w.1 c = false := by
  rw [accesses_miss hfind, misses, hallocates, Bool.false_and, Bool.false_and]

theorem predict_ends (hways : 2 ≤ ways) (h : Invariant ways w) (ip : Nat) (ty : BranchType) :
    Ends ways w (.predict ip ty) (btbPrediction w.1 ip ty).1 := by
  have hb := h.stream
  have hnone := SideTables.predict_none_iff w.1.side ip ty
  rw [btbPrediction]
  rcases hside : SideTables.predict w.1.side ip ty with ⟨side, r⟩
  rw [hside] at hnone
  cases r with
  | some r =>
      have hty : ty.usesBtb = false := by simpa using hnone
      exact ends_idle h (accesses_other rfl hty) rfl rfl hb
  | none =>
      simp only [find_side]
      cases hfind : w.1.find (w.1.set ip) ip with
      | none => exact ends_idle h (accesses_idle_miss hfind rfl) rfl rfl hb
      | some e =>
          exact ends_hit (c := .predict ip ty) (s := { w.1 with side := side }) hways h (hnone.mp rfl) hfind rfl rfl hb

theorem update_ends (hways : 2 ≤ ways) (h : Invariant ways w) (ip target : Nat) (taken : Bool) (ty : BranchType) :
    Ends ways w (.update ip target taken ty) (updateBtb w.1 ip target taken ty) := by
  have hb := h.stream
  have hb' := StreamBuffer.update_bounded hb ip
  rw [updateBtb]
  by_cases hty : ty.usesBtb = true
  · simp only [if_pos hty, find_side]
    cases hfind : w.1.find (w.1.set ip) ip with
    | some e =>
        apply Ends.updateExisting
        exact ends_idle h (accesses_hit (c := .update ip target taken ty) hfind) rfl rfl hb
    | none =>
        by_cases halloc : target ≠ 0 ∧ taken = true
        · simp only [if_pos halloc]
          exact ends_allocate (c := .update ip target taken ty) (s := { w.1 with
            side := SideTables.update w.1.side ip target taken ty
            stream := (StreamBuffer.streamBufferUpdate w.1.stream ip).1 }) hways h
            (Call.update_allocates_iff.mpr ⟨hty, halloc⟩) hfind rfl rfl rfl rfl hb' target
        · simp only [if_neg halloc]
          exact ends_idle h (accesses_idle_miss hfind (Call.update_idle halloc)) rfl rfl hb'
  · simp only [if_neg hty]
    exact ends_idle h (accesses_other (Call.idle_of_type hty) rfl) rfl rfl hb

theorem prefetch_ends (hways : 2 ≤ ways) (h : Invariant ways w) (ip target : Nat) (ty : BranchType)
    (taken toStreamBuffer : Bool) : ∃ s, prefetchBtb w.1 ip target ty taken toStreamBuffer = some s ∧
      Ends ways w (.prefetch ip target ty taken toStreamBuffer) s := by
  have hb := h.stream
  rw [prefetchBtb]
  by_cases hty : ty.usesBtb = true
  · rw [if_pos hty]
    cases hfind : w.1.find (w.1.set ip) ip with
    | some e =>
        refine ⟨_, rfl, ?_⟩
        apply Ends.updateExisting
        exact ends_hit (c := .prefetch ip target ty taken toStreamBuffer) (s := w.1) hways h hty hfind rfl rfl hb
    | none =>
        by_cases halloc : target ≠ 0 ∧ taken = true
        · simp only [if_pos halloc]
          cases toStreamBuffer with
          | true =>
              obtain ⟨b, hpush, hb'⟩ := StreamBuffer.prefetch_bounded hb ip halloc.1
              simp only [if_true, hpush]
              exact ⟨_, rfl, ends_idle h (accesses_idle_miss hfind (by simp [Call.allocates])) rfl rfl hb'⟩
          | false =>
              rw [if_neg Bool.false_ne_true]
              refine ⟨_, rfl, ?_⟩
              exact ends_allocate (c := .prefetch ip target ty taken false) (s := w.1) hways h
                (Call.prefetch_allocates_iff.mpr ⟨hty, halloc, rfl⟩) hfind rfl rfl rfl rfl hb target
        · simp only [if_neg halloc]
          exact ⟨_, rfl, ends_idle h (accesses_idle_miss hfind (Call.prefetch_idle halloc)) rfl rfl hb⟩
  · rw [if_neg hty]
    exact ⟨_, rfl, ends_idle h (accesses_other (Call.idle_of_type hty) (Bool.eq_false_iff.mpr hty)) rfl rfl hb⟩

theorem step_ends (hways : 2 ≤ ways) (h : Invariant ways w) (c : Call) : ∃ s, step w.1 c = some s ∧ Ends ways w c s := by
  cases c with
  | predict ip ty => exact ⟨_, rfl, predict_ends hways h ip ty⟩
  | update ip target taken ty => exact ⟨_, rfl, update_ends hways h ip target taken ty⟩
  | prefetch ip target ty taken toStreamBuffer => exact prefetch_ends hways h ip target ty taken toStreamBuffer

theorem step_invariant (hways : 2 ≤ ways) (h : Invariant ways w) (c : Call) :
    ∃ w', watch w c = some w' ∧ Invariant ways w' := by
  obtain ⟨s, hs, hends⟩ := step_ends hways h c
  exact ⟨_, congrArg (Option.map _) hs, hends⟩

/-- In every set of every reachable state: no more lines than ways, a full set has
an unmarked line, the line accessed last is marked, and a full set without dead
lines evicts another one. -/
theorem plru_invariant (ways : Nat) (hways : 2 ≤ ways) (cs : List Call) : ∃ w, run watch (start ways) cs = some w ∧ ∀ set,
    size (w.1.btb set) ≤ w.1.numLines ∧
    (size (w.1.btb set) = w.1.numLines → ∃ j e, (w.1.btb set).lookup j = some e ∧ e.plruTimestamp = false) ∧
    (size (w.1.btb set) ≠ 0 → ∃ a e, w.2 set = some a ∧ (w.1.btb set).lookup a = some e ∧ e.plruTimestamp = true) ∧
    (size (w.1.btb set) = w.1.numLines → (∀ j e, (w.1.btb set).lookup j = some e → e.deadPrediction = false) →
      ∃ a j, w.2 set = some a ∧ evicted w.1 set = some j ∧ j ≠ a ∧ a ∈ (doEvition w.1 set).btb set) := by
  obtain ⟨w, hrun, hw⟩ := run_total (fun w c _ hw => step_invariant hways hw c) (invariant_start hways)
  refine ⟨w, hrun, fun set => ?_⟩
  have hset := hw.marked set
  have hlines := hw.lines
  rw [← hlines] at hset
  have hlatest : size (w.1.btb set) ≠ 0 → ∃ a e, w.2 set = some a ∧ (w.1.btb set).lookup a = some e ∧
      e.plruTimestamp = true := by
    intro hne
    cases hlast : w.2 set with
    | none => exact absurd (hset.known hlast) hne
    | some a =>
        obtain ⟨e, he, hmark⟩ := hset.used a hlast
        exact ⟨a, e, rfl, he, hmark⟩
  refine ⟨hset.capacity, hset.unmarked, hlatest, fun hfull halive => ?_⟩
  obtain ⟨a, e, hlast, he, hmark⟩ := hlatest (by omega)
  obtain ⟨j, d, hj, hd, hunmarked⟩ := evicted_unmarked hset hfull halive
  have hne : j ≠ a := by
    rintro rfl
    obtain rfl := Option.some.inj (he.symm.trans hd)
    cases hmark.symm.trans hunmarked
  refine ⟨a, j, hlast, hj, hne, ?_⟩
  rw [doEvition, hj]
  change a ∈ Function.update w.1.btb set _ set
  rw [Function.update_self, AList.mem_erase]
  exact ⟨fun heq => hne heq.symm, (mem_iff_lookup _ _).mpr ⟨e, he⟩⟩

/-- Two branches fill a set of two ways, the first one is predicted again. -/
theorem plru_invariant_two : ∃ w, run watch (start 2)
    [.update 4 64 true .directJump, .update 16388 64 true .directJump, .predict 4 .directJump] = some w ∧
    ∀ set, size (w.1.btb set) ≤ w.1.numLines := by
  obtain ⟨w, hrun, hw⟩ := plru_invariant 2 (by decide)
    [.update 4 64 true .directJump, .update 16388 64 true .directJump, .predict 4 .directJump]
  exact ⟨w, hrun, fun set => (hw set).1⟩

end Thermometer.GhrpLatest
