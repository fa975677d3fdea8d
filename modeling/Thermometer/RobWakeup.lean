import Thermometer.RobQueue

namespace Thermometer.RobWakeup

open Lib.Rings Lib.Runs ReorderBuffer RobShape RobEdges RobCounts RobScan RobQueue

variable {s t u : State} {i j k x : Nat} {due rest : List (Nat × Fin numInstrSources)} {f : RobEntry → RobEntry}

theorem not_placed_of_idle (h : (s.entry i).scheduled = .idle) : ¬Placed s i := fun hp => hp.2.1 h

theorem placed_of_ne (h : x ≠ i) : Placed (s.modifyEntry i f) x ↔ Placed s x := by
  rw [Placed, Placed, entry_of_ne h]

theorem looked_ledger (h : Ledger s) (hl : Looked i s t) (hidle : (s.entry i).scheduled = .idle) : Ledger t := by
  refine ledger_keep h hl.toSame hl.ring hl.placed hl.retired (fun x => ?_) (fun x _ => ?_)
  · by_cases hx : x = i
    · subst hx
      refine iff_of_false (not_placed_of_idle ?_) (not_placed_of_idle hidle)
      rw [hl.scheduled]
      exact hidle
    · rw [Placed, Placed, hl.memory, hl.scheduled, hl.num x hx]
  · rw [hl.executed]

theorem start_looked (hi : Live s i) : Looked i s (s.modifyEntry i (fun e => { e with regReady := true })) :=
  ⟨same_modifyEntry hi rfl, rfl, rfl, rfl, entry_keeps RobEntry.isMemory rfl, entry_keeps RobEntry.scheduled rfl,
    entry_keeps RobEntry.executed rfl, fun x _ => entry_keeps RobEntry.numRegDependent rfl x,
    entry_keeps RobEntry.sourceRegisters rfl, entry_keeps RobEntry.destinationRegisters rfl⟩

theorem finish_inv {stage : Stage} (h : Scanning i t) (hl : Ledger t) (hstage : stage ≠ .idle)
    (hnot : (t.entry i).isMemory = true ∨ (t.entry i).numRegDependent ≠ 0) :
    Inv [] (t.modifyEntry i (fun e => { e with scheduled := stage })) := by
  have hsame : Same t (t.modifyEntry i (fun e => { e with scheduled := stage })) := same_modifyEntry h.live rfl
  refine ⟨hsame.shape h.shape, finish_edges h.edges h.live hstage, finish_counts h.counts h.live h.idle hstage, ?_⟩
  refine ledger_keep hl hsame rfl rfl rfl (fun x => ?_) (fun x _ => by rw [entry_keeps RobEntry.executed rfl x])
  by_cases hx : x = i
  · subst hx
    refine iff_of_false ?_ (not_placed_of_idle h.idle)
    rintro ⟨hmem, -, hnum⟩
    rw [entry_self] at hmem hnum
    rcases hnot with hnot | hnot
    · rw [hnot] at hmem
      cases hmem
    · exact hnot hnum
  · exact placed_of_ne hx

theorem finish_push (h : Scanning i t) (hl : Ledger t) (hmem : (t.entry i).isMemory = false)
    (hnum : (t.entry i).numRegDependent = 0) :
    ∃ u, pushReady (t.modifyEntry i (fun e => { e with scheduled := .completed })) i = some u ∧ Inv [] u := by
  have hsame : Same t (t.modifyEntry i (fun e => { e with scheduled := .completed })) := same_modifyEntry h.live rfl
  have hP : ∀ x, Placed (t.modifyEntry i (fun e => { e with scheduled := .completed })) x ↔ Placed t x ∨ x = i := by
    intro x
    by_cases hx : x = i
    · subst hx
      refine iff_of_true ?_ (.inr rfl)
      rw [Placed, entry_self]
      exact ⟨hmem, nofun, hnum⟩
    · rw [placed_of_ne hx, or_iff_left hx]
  obtain ⟨r, p, hpush, hledger⟩ := pushReady_ledger h.shape hl hsame rfl rfl rfl h.live (not_placed_of_idle h.idle) hP
    (entry_keeps RobEntry.executed rfl) (Counts.of_idle h.counts h.idle)
  exact ⟨_, hpush, inv_queue (hsame.shape h.shape) (finish_edges h.edges h.live nofun)
    (finish_counts h.counts h.live h.idle nofun) hledger⟩

theorem schedule_inv (h : Inv [] s) (hi : Live s i) : ∃ u, scheduleInstruction s i = some u ∧ Inv [] u := by
  rw [scheduleInstruction]
  by_cases hidle : (s.entry i).scheduled = .idle
  · rw [if_pos hidle, doScheduling]
    obtain ⟨hscan, hmore⟩ := regDependency_scanning (start_scanning h.shape h.edges h.counts hi hidle)
    have hledger := looked_ledger h.ledger ((start_looked hi).trans hmore) hidle
    generalize regDependency (s.modifyEntry i (fun e => { e with regReady := true })) i = t at hscan hledger ⊢
    by_cases hmem : (t.entry i).isMemory = true
    · rw [if_pos hmem]
      exact ⟨_, rfl, finish_inv hscan hledger nofun (.inl hmem)⟩
    · rw [if_neg hmem]
      have hready := hscan.counts.ready i (.inr rfl)
      simp only [entry_self]
      by_cases hr : (t.entry i).regReady = true
      · rw [if_pos hr]
        exact finish_push hscan hledger (Bool.eq_false_iff.mpr hmem) (hready.mp hr)
      · rw [if_neg hr]
        exact ⟨_, rfl, finish_inv hscan hledger nofun (.inr (fun hn => hr (hready.mpr hn)))⟩
  · rw [if_neg hidle]
    exact ⟨s, rfl, h⟩

section Release

variable {source : Fin numInstrSources}

theorem due_count (h : Counts none ((i, source) :: rest) s) :
    (s.entry i).numRegDependent = (waits s i).card + rest.countP (fun p => p.1 = i) + 1 := by
  rw [h.count i, List.countP_cons_of_pos (by simp)]
  push_cast
  omega

theorem modify_modify (s : State) (i : Nat) (f g : RobEntry → RobEntry) :
    (s.modifyEntry i f).modifyEntry i g = s.modifyEntry i (fun e => g (f e)) := by
  simp only [State.modifyEntry, Function.update_self, Function.update_idem]

theorem release_counts {g : RobEntry → RobEntry} (h : Inv ((i, source) :: rest) s)
    (hlinks : linksOf (g (s.entry i)) = linksOf (s.entry i)) (hexec : (g (s.entry i)).executed = (s.entry i).executed)
    (hnum : (g (s.entry i)).numRegDependent = (s.entry i).numRegDependent - 1)
    (hsched : (g (s.entry i)).scheduled ≠ .idle)
    (hready : (g (s.entry i)).regReady = true ↔ (s.entry i).numRegDependent - 1 = 0) :
    Frame s (s.modifyEntry i g) ∧ Edges none (s.modifyEntry i g) ∧ Counts none rest (s.modifyEntry i g) := by
  have hi : Live s i := live_of_scheduled h.shape (h.counts.due _ List.mem_cons_self)
  have hcount := due_count h.counts
  have hframe : Frame s (s.modifyEntry i g) := frame_modifyEntry hi hlinks
  refine ⟨hframe, hframe.edges (fun x hx => ?_) h.edges, counts_modifyEntry h.counts hi hlinks (by rw [hexec]) ?_ ?_
    (fun p hp => List.mem_cons_of_mem _ hp) (fun _ => hsched) nofun ?_ ?_⟩
  · rcases hx with hx | hx
    · refine .inl ?_
      by_cases hxi : x = i
      · rw [hxi, entry_self]
        exact hsched
      · rwa [entry_of_ne hxi]
    · cases hx
  · rw [hnum, List.countP_cons_of_pos (by simp)]
    push_cast
    omega
  · intro x hx
    exact (List.countP_cons_of_neg (by simpa using hx.symm)).symm
  · intro _
    rw [hnum]
    exact hready
  · intro hx
    rw [hexec] at hx
    have hdone := (h.counts.done i hx).2
    omega

theorem release_inv (h : Inv ((i, source) :: rest) s) : ∃ u, release s i = some u ∧ Inv rest u ∧ Frame s u := by
  have hsched : (s.entry i).scheduled ≠ .idle := h.counts.due _ List.mem_cons_self
  have hi : Live s i := live_of_scheduled h.shape hsched
  have hcount := due_count h.counts
  have hnot : ¬Placed s i := fun hp => by have := hp.2.2; omega
  have hwaiting : (s.entry i).executed = .idle := by
    by_contra hx
    have hdone := (h.counts.done i hx).2
    omega
  rw [release]
  simp only [entry_self, modify_modify]
  by_cases hzero : (s.entry i).numRegDependent - 1 = 0
  · rw [if_pos hzero]
    by_cases hmem : (s.entry i).isMemory = true
    · rw [if_pos hmem]
      obtain ⟨hframe, hedges, hcounts⟩ := release_counts (g := fun e =>
        { e with numRegDependent := e.numRegDependent - 1, regReady := true, scheduled := .inflight })
        h rfl rfl rfl nofun (iff_of_true rfl hzero)
      refine ⟨_, rfl, ⟨hframe.shape h.shape, hedges, hcounts, ?_⟩, hframe⟩
      refine ledger_keep h.ledger hframe.toSame rfl rfl rfl (fun x => ?_) (fun x _ => by rw [entry_keeps RobEntry.executed rfl x])
      by_cases hx : x = i
      · subst hx
        refine iff_of_false (fun hp => ?_) hnot
        have hp := hp.1
        rw [hframe.memory, hmem] at hp
        cases hp
      · exact placed_of_ne hx
    · rw [if_neg hmem]
      obtain ⟨hframe, hedges, hcounts⟩ := release_counts (g := fun e =>
        { e with numRegDependent := e.numRegDependent - 1, regReady := true, scheduled := .completed })
        h rfl rfl rfl nofun (iff_of_true rfl hzero)
      have hP : ∀ x, Placed (s.modifyEntry i (fun e =>
          { e with numRegDependent := e.numRegDependent - 1, regReady := true, scheduled := .completed })) x
          ↔ Placed s x ∨ x = i := by
        intro x
        by_cases hx : x = i
        · subst hx
          refine iff_of_true ?_ (.inr rfl)
          rw [Placed, entry_self]
          exact ⟨Bool.eq_false_iff.mpr hmem, nofun, hzero⟩
        · rw [placed_of_ne hx, or_iff_left hx]
      obtain ⟨r, p, hpush, hledger⟩ := pushReady_ledger h.shape h.ledger hframe.toSame rfl rfl rfl hi hnot hP
        (entry_keeps RobEntry.executed rfl) hwaiting
      refine ⟨_, hpush, inv_queue (hframe.shape h.shape) hedges hcounts hledger, ?_⟩
      exact ⟨⟨hframe.size, hframe.head, hframe.tail, hframe.occupancy, hframe.unique, hframe.ids, hframe.blank⟩, hframe.links⟩
  · rw [if_neg hzero]
    have hready := h.counts.ready i (.inl hsched)
    have hfalse : ¬(s.entry i).regReady = true := fun hr => by have := hready.mp hr; omega
    obtain ⟨hframe, hedges, hcounts⟩ := release_counts (g := fun e => { e with numRegDependent := e.numRegDependent - 1 })
      h rfl rfl rfl hsched (iff_of_false hfalse hzero)
    refine ⟨_, rfl, ⟨hframe.shape h.shape, hedges, hcounts, ?_⟩, hframe⟩
    refine ledger_keep h.ledger hframe.toSame rfl rfl rfl (fun x => ?_) (fun x _ => by rw [entry_keeps RobEntry.executed rfl x])
    by_cases hx : x = i
    · subst hx
      refine iff_of_false (fun hp => hzero ?_) hnot
      have hp := hp.2.2
      rwa [entry_self] at hp
    · exact placed_of_ne hx

end Release

section Complete

variable {index : Fin numInstrSources → Finset Nat} {sources : List (Fin numInstrSources)} {consumers : List Nat}

/-- The sources of `i` that a producer with these records releases. -/
def pairs (index : Fin numInstrSources → Finset Nat) (sources : List (Fin numInstrSources)) (i : Nat) :
    List (Nat × Fin numInstrSources) :=
  (sources.filter (fun j => i ∈ index j)).map (Prod.mk i)

theorem mem_pairs {p : Nat × Fin numInstrSources} : p ∈ pairs index sources i ↔ p.1 = i ∧ p.2 ∈ sources ∧ i ∈ index p.2 := by
  rw [pairs, List.mem_map]
  constructor
  · rintro ⟨j, hj, rfl⟩
    obtain ⟨hin, hj⟩ := List.mem_filter.mp hj
    exact ⟨rfl, hin, of_decide_eq_true hj⟩
  · rintro ⟨rfl, hin, hj⟩
    exact ⟨p.2, List.mem_filter.mpr ⟨hin, decide_eq_true hj⟩, rfl⟩

theorem countP_pairs (index : Fin numInstrSources → Finset Nat) (i x : Nat) :
    (pairs index (List.finRange numInstrSources) i).countP (fun p => p.1 = x)
      = if i = x then (Finset.univ.filter (fun j => x ∈ index j)).card else 0 := by
  rw [pairs, List.countP_map]
  by_cases hx : i = x
  · subst hx
    have hall : ((fun p : Nat × Fin numInstrSources => decide (p.1 = i)) ∘ Prod.mk i) = fun _ => true := by
      funext j
      exact decide_eq_true rfl
    rw [hall, if_pos rfl, List.countP_true, ← List.toFinset_card_of_nodup ((List.nodup_finRange _).filter _)]
    congr 1
    ext j
    simp
  · have hnone : ((fun p : Nat × Fin numInstrSources => decide (p.1 = x)) ∘ Prod.mk i) = fun _ => false := by
      funext j
      exact decide_eq_false hx
    rw [hnone, if_neg hx, List.countP_false]
    rfl

theorem countP_consumers (index : Fin numInstrSources → Finset Nat) (hnodup : consumers.Nodup) (x : Nat) :
    (consumers.flatMap (pairs index (List.finRange numInstrSources))).countP (fun p => p.1 = x)
      = if x ∈ consumers then (Finset.univ.filter (fun j => x ∈ index j)).card else 0 := by
  induction consumers with
  | nil => rfl
  | cons i consumers ih =>
      obtain ⟨hi, hnodup⟩ := List.nodup_cons.mp hnodup
      rw [List.flatMap_cons, List.countP_append, countP_pairs, ih hnodup]
      by_cases hx : i = x
      · subst hx
        rw [if_pos rfl, if_neg hi, if_pos List.mem_cons_self, Nat.add_zero]
      · have hmem : x ∈ i :: consumers ↔ x ∈ consumers := by
          rw [List.mem_cons, or_iff_right (Ne.symm hx)]
        rw [if_neg hx, Nat.zero_add]
        simp only [hmem]

theorem releaseSources_inv (h : Inv (pairs index sources i ++ rest) s)
    (hindex : (s.entry k).registersIndexDependOnMe = index) :
    ∃ u, sources.foldlM (releaseSource k i) s = some u ∧ Inv rest u ∧ Frame s u := by
  induction sources generalizing s with
  | nil => exact ⟨s, rfl, h, .refl s⟩
  | cons j sources ih =>
      rw [List.foldlM_cons, releaseSource, hindex]
      by_cases hj : i ∈ index j
      · have hpairs : pairs index (j :: sources) i = (i, j) :: pairs index sources i := by
          rw [pairs, List.filter_cons, if_pos (decide_eq_true hj)]
          rfl
        rw [hpairs] at h
        obtain ⟨u, hu, hinv, hframe⟩ := release_inv h
        obtain ⟨v, hv, hrest, hmore⟩ := ih hinv ((hframe.index k).trans hindex)
        rw [if_pos hj, hu]
        exact ⟨v, hv, hrest, hframe.trans hmore⟩
      · have hpairs : pairs index (j :: sources) i = pairs index sources i := by
          rw [pairs, List.filter_cons_of_neg (by simpa using hj)]
          rfl
        rw [hpairs] at h
        rw [if_neg hj]
        exact ih h hindex

theorem releaseConsumers_inv (h : Inv (consumers.flatMap (pairs index (List.finRange numInstrSources))) s)
    (hindex : (s.entry k).registersIndexDependOnMe = index) :
    ∃ u, consumers.foldlM (fun s i => (List.finRange numInstrSources).foldlM (releaseSource k i) s) s = some u ∧
      Inv [] u := by
  induction consumers generalizing s with
  | nil => exact ⟨s, rfl, h⟩
  | cons i consumers ih =>
      rw [List.flatMap_cons] at h
      obtain ⟨u, hu, hinv, hframe⟩ := releaseSources_inv h hindex
      obtain ⟨v, hv, hrest⟩ := ih hinv ((hframe.index k).trans hindex)
      rw [List.foldlM_cons, hu]
      exact ⟨v, hv, hrest⟩

theorem waits_complete (he : Edges none s) (hx : k < s.size) (hexec : (s.entry k).executed = .inflight) (i : Nat) :
    (waits s i).card = (waits (s.modifyEntry k (fun e => { e with executed := .completed })) i).card
      + (Finset.univ.filter (fun j => i ∈ (s.entry k).registersIndexDependOnMe j)).card := by
  have hrecorded : ∀ l j, Recorded (s.modifyEntry k (fun e => { e with executed := .completed })) l i j ↔ Recorded s l i j := by
    intro l j
    rw [Recorded, entry_keeps RobEntry.registersIndexDependOnMe rfl, Recorded]
  have hmem : ∀ j, j ∈ waits (s.modifyEntry k (fun e => { e with executed := .completed })) i ↔
      ∃ l < s.size, l ≠ k ∧ Recorded s l i j ∧ (s.entry l).executed ≠ .completed := by
    intro j
    rw [mem_waits]
    constructor
    · rintro ⟨l, hl, hr, hne⟩
      by_cases hlk : l = k
      · rw [hlk, entry_self] at hne
        exact absurd rfl hne
      · rw [entry_of_ne hlk] at hne
        exact ⟨l, hl, hlk, (hrecorded l j).mp hr, hne⟩
    · rintro ⟨l, hl, hlk, hr, hne⟩
      refine ⟨l, hl, (hrecorded l j).mpr hr, ?_⟩
      rwa [entry_of_ne hlk]
  rw [← Finset.card_union_of_disjoint]
  · congr 1
    ext j
    rw [Finset.mem_union, hmem, Finset.mem_filter, and_iff_right (Finset.mem_univ j), mem_waits]
    constructor
    · rintro ⟨l, hl, hr, hne⟩
      by_cases hlk : l = k
      · exact .inr (hlk ▸ hr)
      · exact .inl ⟨l, hl, hlk, hr, hne⟩
    · rintro (⟨l, hl, -, hr, hne⟩ | hr)
      · exact ⟨l, hl, hr, hne⟩
      · exact ⟨k, hx, hr, fun hc => by rw [hexec] at hc; cases hc⟩
  · rw [Finset.disjoint_left]
    intro j hj hin
    obtain ⟨l, -, hlk, hr, -⟩ := (hmem j).mp hj
    exact hlk (he.unique hr (Finset.mem_filter.mp hin).2)

def duePairs (e : RobEntry) : List (Nat × Fin numInstrSources) :=
  (e.registersInstrsDependOnMe.sort (fun a b => a ≤ b)).flatMap
    (pairs e.registersIndexDependOnMe (List.finRange numInstrSources))

theorem recorded_of_mem {p : Nat × Fin numInstrSources} (hp : p ∈ duePairs (s.entry k)) : Recorded s k p.1 p.2 := by
  obtain ⟨i, -, hp⟩ := List.mem_flatMap.mp hp
  obtain ⟨rfl, -, hin⟩ := mem_pairs.mp hp
  exact hin

theorem countP_duePairs (he : Edges none s) (k x : Nat) : (duePairs (s.entry k)).countP (fun p => p.1 = x)
    = (Finset.univ.filter (fun j => x ∈ (s.entry k).registersIndexDependOnMe j)).card := by
  rw [duePairs, countP_consumers _ (Finset.sort_nodup _ _)]
  split_ifs with hx
  · rfl
  · symm
    rw [Finset.card_eq_zero]
    apply Finset.filter_eq_empty_iff.mpr
    intro j _ hj
    exact hx ((Finset.mem_sort _).mpr (he.listed hj))

theorem completed_inv (h : Inv [] s) (hexec : (s.entry k).executed = .inflight) :
    Inv (duePairs (s.entry k)) (s.modifyEntry k (fun e => { e with executed := .completed })) := by
  have hbusy : (s.entry k).executed ≠ .idle := by
    rw [hexec]
    intro hc
    cases hc
  have hk : Live s k := live_of_executed h.shape hbusy
  have hframe : Frame s (s.modifyEntry k (fun e => { e with executed := .completed })) := frame_modifyEntry hk rfl
  have hsched : ∀ x, ((s.modifyEntry k (fun e => { e with executed := .completed })).entry x).scheduled
      = (s.entry x).scheduled := entry_keeps RobEntry.scheduled rfl
  have hnum : ∀ x, ((s.modifyEntry k (fun e => { e with executed := .completed })).entry x).numRegDependent
      = (s.entry x).numRegDependent := entry_keeps RobEntry.numRegDependent rfl
  refine ⟨hframe.shape h.shape, hframe.edges (fun x hx => ?_) h.edges, ⟨fun x => ?_, fun p hp => ?_, fun x hx => ?_,
    fun x hx => ?_⟩, ?_⟩
  · rwa [Begun, hsched]
  · rw [hnum, h.counts.count x, waits_complete h.edges (hk.lt h.shape) hexec, countP_duePairs h.edges, List.countP_nil]
    push_cast
    omega
  · rw [hsched]
    rcases h.edges.begun (recorded_of_mem hp) with hb | hb
    · exact hb
    · cases hb
  · rw [hnum, entry_keeps RobEntry.regReady rfl]
    apply h.counts.ready x
    rwa [Begun, hsched] at hx
  · rw [hsched, hnum]
    apply h.counts.done x
    by_cases hxk : x = k
    · rw [hxk]
      exact hbusy
    · rwa [entry_of_ne hxk] at hx
  · refine ledger_keep h.ledger hframe.toSame rfl rfl rfl (fun x => ?_) (fun x _ => ?_)
    · rw [Placed, Placed, hframe.memory, hsched, hnum]
    · by_cases hxk : x = k
      · rw [hxk, entry_self]
        exact iff_of_false (fun hc => by cases hc) hbusy
      · rw [entry_of_ne hxk]

theorem complete_inv (h : Inv [] s) : ∃ u, completeExecution s k = some u ∧ Inv [] u := by
  rw [completeExecution]
  by_cases hexec : (s.entry k).executed = .inflight
  · have hstart := completed_inv h hexec
    simp only [if_pos hexec, entry_self]
    by_cases hproducer : (s.entry k).regRawProducer = true
    · rw [if_pos hproducer, regRawRelease, entry_self]
      exact releaseConsumers_inv hstart (entry_keeps RobEntry.registersIndexDependOnMe rfl k)
    · rw [if_neg hproducer]
      have hnone : duePairs (s.entry k) = [] := by
        apply List.eq_nil_iff_forall_not_mem.mpr
        intro p hp
        exact hproducer (h.edges.producer (recorded_of_mem hp))
      rw [hnone] at hstart
      exact ⟨_, rfl, hstart⟩
  · rw [if_neg hexec]
    exact ⟨s, rfl, h⟩

end Complete

end Thermometer.RobWakeup
