import Mathlib.Data.Nat.ModEq
import Thermometer.Lib.Reuse

namespace Thermometer.HawkeyeOptgen

open Lib.Intervals Lib.Reuse

def optgenVectorSize : Nat := 128

structure OptGen where
  livenessHistory : List Nat
  numCache : Nat
  numDontCache : Nat
  access : Nat
  cacheSize : Nat
  deriving DecidableEq, Repr

def OptGen.init (size : Nat) : OptGen := ⟨List.replicate optgenVectorSize 0, 0, 0, 0, size⟩

def OptGen.liveness (g : OptGen) (quantum : Nat) : Nat := g.livenessHistory.getD quantum 0

def OptGen.addPrefetch (g : OptGen) (currQuanta : Nat) : OptGen :=
  { g with livenessHistory := g.livenessHistory.set currQuanta 0 }

def OptGen.addAccess (g : OptGen) (currQuanta : Nat) : OptGen :=
  { g with access := g.access + 1, livenessHistory := g.livenessHistory.set currQuanta 0 }

def walk (size currQuanta : Nat) : Nat → Nat → List Nat
  | 0, _ => []
  | fuel + 1, i => if i = currQuanta then [] else i :: walk size currQuanta fuel ((i + 1) % size)

def OptGen.quanta (g : OptGen) (currQuanta lastQuanta : Nat) : List Nat :=
  walk g.livenessHistory.length currQuanta g.livenessHistory.length lastQuanta

def OptGen.isCache (g : OptGen) (currQuanta lastQuanta : Nat) : Bool :=
  (g.quanta currQuanta lastQuanta).all (fun i => g.liveness i < g.cacheSize)

def OptGen.shouldCache (g : OptGen) (currQuanta lastQuanta : Nat) : Bool × OptGen :=
  if g.isCache currQuanta lastQuanta then
    (true, { g with
      livenessHistory := (g.quanta currQuanta lastQuanta).foldl (fun h i => h.modify i (fun n => n + 1)) g.livenessHistory
      numCache := g.numCache + 1 })
  else (false, { g with numDontCache := g.numDontCache + 1 })

variable {K : Type} [DecidableEq K]

def optgenStep (a : Nat → K) (g : OptGen) (t : Nat) : OptGen :=
  match previous a t with
  | none => g.addAccess t
  | some p => (g.shouldCache t p).2.addAccess t

def optgenRun (size : Nat) (a : Nat → K) (n : Nat) : OptGen := (List.range n).foldl (optgenStep a) (.init size)

variable {g : OptGen} {G : Finset Interval} {a : Nat → K} {size C d n p q t fuel : Nat}

omit [DecidableEq K]

theorem walk_eq (hd : d < size) (hfuel : d < fuel) (t : Nat) :
    walk size ((t + d) % size) fuel (t % size) = (List.range' t d).map (fun i => i % size) := by
  induction d generalizing t fuel with
  | zero =>
      cases fuel with
      | zero => rfl
      | succ fuel => simp [walk]
  | succ d ih =>
      cases fuel with
      | zero => exact absurd hfuel (Nat.not_lt_zero _)
      | succ fuel =>
          have hne : t % size ≠ (t + (d + 1)) % size := by
            intro h
            have hdvd : size ∣ (t + (d + 1)) - t := (Nat.modEq_iff_dvd' (Nat.le_add_right t _)).mp h
            rw [Nat.add_sub_cancel_left] at hdvd
            exact absurd (Nat.le_of_dvd (Nat.succ_pos d) hdvd) (not_le.mpr hd)
          have hrest := ih (Nat.lt_of_succ_lt hd) (Nat.lt_of_succ_lt_succ hfuel) (t + 1)
          rw [walk, if_neg hne, Nat.mod_add_mod, List.range'_succ, List.map_cons, ← hrest, Nat.add_right_comm,
            Nat.add_assoc t d 1]

theorem getD_bump (h qs : List Nat) (hq : q < h.length) :
    (qs.foldl (fun h i => h.modify i (fun n => n + 1)) h).getD q 0 = h.getD q 0 + qs.count q := by
  induction qs generalizing h with
  | nil => rfl
  | cons i qs ih =>
      rw [List.foldl_cons, ih _ (by simpa using hq), List.count_cons]
      simp only [List.getD_eq_getElem?_getD, List.getElem?_modify, List.getElem?_eq_getElem hq, Option.getD_some]
      by_cases hi : i = q
      · simp [hi]
        omega
      · simp [hi]

theorem length_bump (h qs : List Nat) :
    (qs.foldl (fun h i => h.modify i (fun n => n + 1)) h).length = h.length := by
  induction qs generalizing h with
  | nil => rfl
  | cons i qs ih => rw [List.foldl_cons, ih, List.length_modify]

theorem count_range' (p t q : Nat) : (List.range' p (t - p)).count q = if Covers (p, t) q then 1 else 0 := by
  have hmem : q ∈ List.range' p (t - p) ↔ Covers (p, t) q := by
    rw [List.mem_range'_1]
    simp only [Covers]
    omega
  split_ifs with hc
  · exact List.count_eq_one_of_mem List.nodup_range' (hmem.mpr hc)
  · exact List.count_eq_zero.mpr (fun h => hc (hmem.mp h))

structure Tracks (g : OptGen) (C : Nat) (G : Finset Interval) : Prop where
  size : g.livenessHistory.length = optgenVectorSize
  liveness : ∀ q < optgenVectorSize, g.liveness q = load G q
  accepted : g.numCache = G.card
  room : g.cacheSize = C

theorem init_tracks (C : Nat) : Tracks (.init C) C ∅ := by
  refine ⟨List.length_replicate, fun q hq => ?_, rfl, rfl⟩
  simp [OptGen.liveness, OptGen.init, load_empty, hq]

theorem quanta_eq (h : g.livenessHistory.length = optgenVectorSize) (hd : d < optgenVectorSize) (t : Nat) :
    g.quanta ((t + d) % optgenVectorSize) (t % optgenVectorSize) =
      (List.range' t d).map (fun i => i % optgenVectorSize) := by
  rw [OptGen.quanta, h]
  exact walk_eq hd hd t

theorem quanta_first (h : g.livenessHistory.length = optgenVectorSize) (hpt : p ≤ t) (ht : t < optgenVectorSize) :
    g.quanta t p = List.range' p (t - p) := by
  have hq := quanta_eq h (d := t - p) (by omega) p
  rw [Nat.add_sub_cancel' hpt, Nat.mod_eq_of_lt ht, Nat.mod_eq_of_lt (hpt.trans_lt ht)] at hq
  rw [hq]
  apply (List.map_congr_left _).trans (List.map_id _)
  intro i hi
  have := List.mem_range'_1.mp hi
  exact Nat.mod_eq_of_lt (by omega)

theorem isCache_iff (h : Tracks g C G) (hpt : p ≤ t) (ht : t < optgenVectorSize) :
    g.isCache t p = true ↔ Fits C G (p, t) := by
  rw [OptGen.isCache, List.all_eq_true, quanta_first h.size hpt ht]
  constructor
  · intro hall q hp hq
    have hlt := hall q (List.mem_range'_1.mpr ⟨hp, by omega⟩)
    rwa [decide_eq_true_iff, h.liveness q (hq.trans ht), h.room] at hlt
  · intro hfits q hq
    obtain ⟨hp, hq⟩ := List.mem_range'_1.mp hq
    rw [decide_eq_true_iff, h.liveness q (by omega), h.room]
    exact hfits q hp (by omega)

theorem shouldCache_tracks (h : Tracks g C G) (hpt : p ≤ t) (ht : t < optgenVectorSize) (hnew : (p, t) ∉ G) :
    Tracks (g.shouldCache t p).2 C (selectStep C G (p, t)) := by
  rw [OptGen.shouldCache, selectStep]
  by_cases hfits : Fits C G (p, t)
  · rw [if_pos ((isCache_iff h hpt ht).mpr hfits), if_pos hfits, quanta_first h.size hpt ht]
    refine ⟨?_, fun q hq => ?_, ?_, h.room⟩
    · exact (length_bump _ _).trans h.size
    · rw [OptGen.liveness, getD_bump _ _ (h.size ▸ hq), count_range', load_insert hnew]
      exact congrArg (· + _) (h.liveness q hq)
    · rw [Finset.card_insert_of_notMem hnew, ← h.accepted]
  · rw [if_neg (fun hc => hfits ((isCache_iff h hpt ht).mp hc)), if_neg hfits]
    exact ⟨h.size, h.liveness, h.accepted, h.room⟩

theorem addAccess_tracks (h : Tracks g C G) (ht : load G t = 0) : Tracks (g.addAccess t) C G := by
  refine ⟨?_, fun q hq => ?_, h.accepted, h.room⟩
  · exact List.length_set.trans h.size
  · have hlive := h.liveness q hq
    rw [OptGen.liveness, List.getD_eq_getElem?_getD] at hlive ⊢
    by_cases hqt : t = q
    · subst hqt
      rw [OptGen.addAccess, List.getElem?_set_self (h.size ▸ hq), ht]
      rfl
    · rw [OptGen.addAccess, List.getElem?_set_ne hqt]
      exact hlive

section Run

variable [DecidableEq K]

theorem mem_select_reuses {I : Interval} (hI : I ∈ select C ∅ (reuses a n)) : I ∈ reuses a n := by
  have h := select_subset C ∅ (reuses a n) hI
  rwa [Finset.empty_union, List.mem_toFinset] at h

theorem optgenStep_tracks (ht : t < optgenVectorSize) (h : Tracks g C (select C ∅ (reuses a t))) :
    Tracks (optgenStep a g t) C (select C ∅ (reuses a (t + 1))) := by
  have hload : ∀ n ≤ t + 1, load (select C ∅ (reuses a n)) t = 0 := by
    intro n hn
    rw [load, Finset.card_eq_zero, Finset.filter_eq_empty_iff]
    intro I hI hc
    have hend := (mem_reuses.mp (mem_select_reuses hI)).1
    exact absurd hc.2 (by omega)
  rw [optgenStep, reuses_succ]
  cases hp : previous a t with
  | none =>
      simp only [Option.map_none, Option.toList_none, List.append_nil]
      exact addAccess_tracks h (hload t (Nat.le_succ t))
  | some p =>
      have hlt := (previous_eq_some.mp hp).1
      have hnew : (p, t) ∉ select C ∅ (reuses a t) :=
        fun hm => absurd (mem_reuses.mp (mem_select_reuses hm)).1 (lt_irrefl t)
      have hafter : select C ∅ (reuses a (t + 1)) = selectStep C (select C ∅ (reuses a t)) (p, t) := by
        rw [reuses_succ, hp]
        exact List.foldl_append
      have hstep := shouldCache_tracks h hlt.le ht hnew
      rw [← hafter] at hstep
      simp only [Option.map_some, Option.toList_some]
      rw [show reuses a t ++ [(p, t)] = reuses a (t + 1) by rw [reuses_succ, hp]; rfl]
      exact addAccess_tracks hstep (hload (t + 1) le_rfl)

theorem optgenRun_tracks (C : Nat) (a : Nat → K) (hn : n ≤ optgenVectorSize) :
    Tracks (optgenRun C a n) C (select C ∅ (reuses a n)) := by
  induction n with
  | zero => exact init_tracks C
  | succ n ih =>
      have hstep := optgenStep_tracks hn (ih (Nat.le_of_succ_le hn))
      rwa [optgenRun, List.range_succ, List.foldl_append]

/-- The accepted reuses are a greatest selection, and as many as the hits of the best policy. -/
theorem optgen_optimal (C : Nat) (a : Nat → K) (hn : n ≤ optgenVectorSize) :
    IsGreatest {k | ∃ S ⊆ (reuses a n).toFinset, Feasible C S ∧ S.card = k} (optgenRun C a n).numCache ∧
      IsGreatest {h | ∃ S, Policy C a S ∧ hits a S n = h} (optgenRun C a n).numCache := by
  rw [(optgenRun_tracks C a hn).accepted]
  have hselect := isGreatest_select C ((reuses_sorted a n).imp (fun h => h.le)) (reuses_nodup a n)
  exact ⟨hselect, isGreatest_hits hselect⟩

/-- Of two lines in turn, one entry keeps every other access a hit. -/
theorem optgen_optimal_alternating :
    (optgenRun 1 (fun t => t % 2) 6).numCache = 2 ∧
      IsGreatest {k | ∃ S ⊆ (reuses (fun t => t % 2) 6).toFinset, Feasible 1 S ∧ S.card = k}
        (optgenRun 1 (fun t => t % 2) 6).numCache ∧
      IsGreatest {h | ∃ S, Policy 1 (fun t => t % 2) S ∧ hits (fun t => t % 2) S 6 = h}
        (optgenRun 1 (fun t => t % 2) 6).numCache :=
  ⟨by decide +kernel, optgen_optimal 1 (fun t => t % 2) (by decide)⟩

end Run

end Thermometer.HawkeyeOptgen
