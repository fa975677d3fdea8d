import Thermometer.RobWakeup

namespace Thermometer.RobExact

open Lib.Rings Lib.Runs ReorderBuffer RobShape RobEdges RobCounts RobScan RobQueue RobWakeup

variable {s u : State} {i k x : Nat}

theorem counts_same {f : RobEntry → RobEntry} (h : Counts none [] s) (hi : Live s i)
    (hf : linksOf (f (s.entry i)) = linksOf (s.entry i))
    (hcompleted : (f (s.entry i)).executed = .completed ↔ (s.entry i).executed = .completed)
    (hnum : (f (s.entry i)).numRegDependent = (s.entry i).numRegDependent)
    (hsched : (s.entry i).scheduled ≠ .idle) (hsched' : (f (s.entry i)).scheduled ≠ .idle)
    (hready : (f (s.entry i)).regReady = (s.entry i).regReady) (hzero : (s.entry i).numRegDependent = 0) :
    Frame s (s.modifyEntry i f) ∧ Counts none [] (s.modifyEntry i f) := by
  refine ⟨frame_modifyEntry hi hf, counts_modifyEntry h hi hf hcompleted (by rw [hnum]) (fun _ _ => rfl) (fun p hp => hp)
    (fun _ => hsched') nofun (fun _ => ?_) (fun _ => ⟨hsched', hnum.trans hzero⟩)⟩
  rw [hready, hnum]
  exact h.ready i (.inl hsched)

theorem execute_inv (h : Inv [] s) : Inv [] (executeInstruction s) := by
  obtain ⟨q, hq, hnodup, hmem⟩ := h.ledger.queue
  cases q with
  | nil =>
      rw [executeInstruction, front_nil hq]
      exact h
  | cons i q =>
      rw [executeInstruction, front_cons hq]
      obtain ⟨hplaced, hidle⟩ := (hmem i).mp List.mem_cons_self
      have hi : Live s i := hplaced.live h.shape
      obtain ⟨hni, hnodup⟩ := List.nodup_cons.mp hnodup
      obtain ⟨hframe, hcounts⟩ := counts_same (f := fun e => { e with executed := .inflight }) h.counts hi rfl
        (by rw [hidle]; exact iff_of_false (fun hc => by cases hc) (fun hc => by cases hc)) rfl hplaced.2.1
        hplaced.2.1 rfl hplaced.2.2
      have hsched := entry_keeps (s := s) (f := fun e => { e with executed := .inflight }) (i := i) RobEntry.scheduled rfl
      have hP : ∀ x, Placed (s.modifyEntry i (fun e => { e with executed := .inflight })) x ↔ Placed s x := by
        intro x
        rw [Placed, Placed, hframe.memory, hsched, entry_keeps RobEntry.numRegDependent rfl]
      have hedges : Edges none (s.modifyEntry i (fun e => { e with executed := .inflight })) :=
        hframe.edges (fun x hx => by rwa [Begun, hsched]) h.edges
      refine inv_queue (hframe.shape h.shape) hedges hcounts ⟨⟨q, pop_holds hq, hnodup, fun x => ?_⟩, fun x hx => ?_,
        h.ledger.fresh, h.ledger.ready, h.ledger.retired⟩
      · show x ∈ q ↔ Placed (s.modifyEntry i (fun e => { e with executed := .inflight })) x ∧
          ((s.modifyEntry i (fun e => { e with executed := .inflight })).entry x).executed = .idle
        rw [hP]
        by_cases hx : x = i
        · subst hx
          rw [entry_self]
          exact iff_of_false hni (fun hc => by cases hc.2)
        · rw [entry_of_ne hx, ← hmem, List.mem_cons, or_iff_right hx]
      · have htimes := h.ledger.times x (hframe.live.mp hx)
        show timesPlaced s ((s.modifyEntry i (fun e => { e with executed := .inflight })).entry x).instrId
          = if Placed (s.modifyEntry i (fun e => { e with executed := .inflight })) x then 1 else 0
        rw [hframe.ids, htimes]
        simp only [hP]

theorem scheduleMemory_inv (h : Inv [] s) (hi : Live s i) : Inv [] (doMemoryScheduling s i) := by
  rw [doMemoryScheduling]
  split_ifs with hgo
  · obtain ⟨hmem, hready, hsched⟩ := hgo
    have hbegun : (s.entry i).scheduled ≠ .idle := by
      rw [hsched]
      intro hc
      cases hc
    have hzero := (h.counts.ready i (.inl hbegun)).mp hready
    obtain ⟨hframe, hcounts⟩ := counts_same (f := fun e =>
        { e with scheduled := .completed, executed := if e.executed = .idle then .inflight else e.executed }) h.counts hi rfl
      (by cases (s.entry i).executed <;> simp) rfl hbegun (fun hc => by cases hc) rfl hzero
    refine ⟨hframe.shape h.shape, hframe.edges (fun x hx => .inl ?_) h.edges, hcounts,
      ledger_keep h.ledger hframe.toSame rfl rfl rfl (fun x => ?_) (fun x hp => ?_)⟩
    · by_cases hxi : x = i
      · rw [hxi, entry_self]
        intro hc
        cases hc
      · rw [entry_of_ne hxi]
        exact hx.resolve_right (fun hc => by cases hc)
    · by_cases hxi : x = i
      · subst hxi
        rw [Placed, Placed, hframe.memory, hmem]
        exact iff_of_false (fun hp => by cases hp.1) (fun hp => by cases hp.1)
      · exact placed_of_ne hxi
    · have hxi : x ≠ i := by
        rintro rfl
        rw [Placed, hmem] at hp
        cases hp.1
      rw [entry_of_ne hxi]
  · exact h

section Dispatch

variable {instr : Instr}

theorem dispatch_entry (instr : Instr) (hfull : s.occupancy < s.size) :
    (dispatchInstruction s instr).entry = Function.update s.entry s.tail (.dispatched s.instrUniqueId instr) := by
  rw [dispatchInstruction, if_pos hfull]

theorem dispatch_keeps {B : Type} (instr : Instr) (g : RobEntry → B) (hg : ∀ n, g (.dispatched n instr) = g .empty)
    (hs : Shape s)
    (hfull : s.occupancy < s.size) (x : Nat) : g ((dispatchInstruction s instr).entry x) = g (s.entry x) := by
  rw [dispatch_entry instr hfull]
  by_cases hx : x = s.tail
  · subst hx
    rw [Function.update_self, hg, hs.blank _ (not_live_tail hs hfull)]
  · rw [Function.update_of_ne hx]

theorem older_dispatch (hfull : s.occupancy < s.size) (h : Older s k i) :
    Older (dispatchInstruction s instr) k i := by
  rw [dispatchInstruction, if_pos hfull]
  obtain ⟨a, b, hab, hb, ha, hi⟩ := h
  exact ⟨a, b, hab, Nat.lt_succ_of_lt hb, ha, hi⟩

theorem dispatch_ledger (h : Inv [] s) (hfull : s.occupancy < s.size) : Ledger (dispatchInstruction s instr) := by
  have hscheduled := dispatch_keeps instr RobEntry.scheduled (fun _ => rfl) h.shape hfull
  have hexecuted := dispatch_keeps instr RobEntry.executed (fun _ => rfl) h.shape hfull
  have hnum := dispatch_keeps instr RobEntry.numRegDependent (fun _ => rfl) h.shape hfull
  have hentry := dispatch_entry instr hfull
  have hlive : ∀ x, Live (dispatchInstruction s instr) x → Live s x ∨ x = s.tail := by
    intro x
    exact (live_dispatch hfull h.shape instr).mp
  have htail : (s.entry s.tail).scheduled = .idle := by
    rw [h.shape.blank _ (not_live_tail h.shape hfull)]
    rfl
  have hP : ∀ x, Placed (dispatchInstruction s instr) x ↔ Placed s x := by
    intro x
    by_cases hx : x = s.tail
    · subst hx
      refine iff_of_false (not_placed_of_idle ?_) (not_placed_of_idle htail)
      rw [hscheduled]
      exact htail
    · rw [Placed, Placed, hscheduled, hnum, hentry, Function.update_of_ne hx]
  have htimes : ∀ n, timesPlaced (dispatchInstruction s instr) n = timesPlaced s n := by
    intro n
    rw [dispatchInstruction, if_pos hfull]
    rfl
  obtain ⟨q, hq, hnodup, hmem⟩ := h.ledger.queue
  refine ⟨⟨q, ?_, hnodup, fun x => ?_⟩, fun x hx => ?_, fun n hn => ?_, ?_, fun e he => ?_⟩
  · rw [dispatchInstruction, if_pos hfull]
    exact hq
  · rw [hmem, hP, hexecuted]
  · rw [htimes]
    simp only [hP]
    rcases hlive x hx with hx | rfl
    · have hne : x ≠ s.tail := by
        rintro rfl
        exact not_live_tail h.shape hfull hx
      rw [hentry, Function.update_of_ne hne]
      exact h.ledger.times x hx
    · rw [hentry, Function.update_self, if_neg (not_placed_of_idle htail)]
      exact h.ledger.fresh s.instrUniqueId le_rfl
  · rw [dispatchInstruction, if_pos hfull] at hn
    rw [htimes]
    exact h.ledger.fresh n (Nat.le_of_succ_le hn)
  · rw [dispatchInstruction, if_pos hfull]
    exact h.ledger.ready
  · rw [htimes]
    rw [dispatchInstruction, if_pos hfull] at he ⊢
    obtain ⟨hlt, hcount⟩ := h.ledger.retired e he
    exact ⟨Nat.succ_lt_succ hlt, hcount⟩

theorem dispatch_inv (h : Inv [] s) (instr : Instr) : Inv [] (dispatchInstruction s instr) := by
  by_cases hfull : s.occupancy < s.size
  · have hscheduled := dispatch_keeps instr RobEntry.scheduled (fun _ => rfl) h.shape hfull
    have hexecuted := dispatch_keeps instr RobEntry.executed (fun _ => rfl) h.shape hfull
    have hready := dispatch_keeps instr RobEntry.regReady (fun _ => rfl) h.shape hfull
    have hnum := dispatch_keeps instr RobEntry.numRegDependent (fun _ => rfl) h.shape hfull
    have hchecked := dispatch_keeps instr RobEntry.regRawChecked (fun _ => rfl) h.shape hfull
    have hlisted := dispatch_keeps instr RobEntry.registersInstrsDependOnMe (fun _ => rfl) h.shape hfull
    have hproducer := dispatch_keeps instr RobEntry.regRawProducer (fun _ => rfl) h.shape hfull
    have hindex := dispatch_keeps instr RobEntry.registersIndexDependOnMe (fun _ => rfl) h.shape hfull
    have hrecorded : ∀ k i j, Recorded (dispatchInstruction s instr) k i j ↔ Recorded s k i j := by
      intro k i j
      rw [Recorded, Recorded, hindex]
    have hbegun : ∀ x, Begun none (dispatchInstruction s instr) x ↔ Begun none s x := by
      intro x
      rw [Begun, Begun, hscheduled]
    have hwaits : ∀ x, waits (dispatchInstruction s instr) x = waits s x := by
      intro x
      have hsize : (dispatchInstruction s instr).size = s.size := by rw [dispatchInstruction, if_pos hfull]
      ext j
      simp only [mem_waits, hsize, hrecorded, hexecuted]
    refine ⟨dispatch_shape h.shape hfull instr, ?_, ?_, dispatch_ledger h hfull⟩
    · constructor
      · intro k i j hr
        exact older_dispatch hfull (h.edges.older ((hrecorded k i j).mp hr))
      · intro k i j hr
        rw [hchecked]
        exact h.edges.checked ((hrecorded k i j).mp hr)
      · intro k i j hr
        rw [hlisted]
        exact h.edges.listed ((hrecorded k i j).mp hr)
      · intro k i j hr
        rw [hproducer]
        exact h.edges.producer ((hrecorded k i j).mp hr)
      · intro k i j hr
        exact (hbegun i).mpr (h.edges.begun ((hrecorded k i j).mp hr))
      · intro k l i j hk hl
        exact h.edges.unique ((hrecorded k i j).mp hk) ((hrecorded l i j).mp hl)
      · intro i hi j
        rw [hchecked]
        exact h.edges.fresh (fun hb => hi ((hbegun i).mpr hb)) j
    · refine ⟨fun x => ?_, (fun p hp => absurd hp List.not_mem_nil), fun x hx => ?_, fun x hx => ?_⟩
      · rw [hnum, hwaits]
        exact h.counts.count x
      · rw [hready, hnum]
        exact h.counts.ready x ((hbegun x).mp hx)
      · rw [hexecuted] at hx
        rw [hscheduled, hnum]
        exact h.counts.done x hx
  · rw [dispatchInstruction, if_neg hfull]
    exact h

end Dispatch

section Retire

variable (hcompleted : (s.entry s.head).executed = .completed)

include hcompleted

theorem retire_entry : (retireRob s).entry = Function.update s.entry s.head .empty := by
  rw [retireRob, if_pos hcompleted]

theorem retire_entry_of_ne (hx : x ≠ s.head) : (retireRob s).entry x = s.entry x := by
  rw [retire_entry hcompleted, Function.update_of_ne hx]

theorem retire_entry_head : (retireRob s).entry s.head = .empty := by
  rw [retire_entry hcompleted, Function.update_self]

theorem retire_recorded {j : Fin numInstrSources} : Recorded (retireRob s) k i j ↔ Recorded s k i j ∧ k ≠ s.head := by
  by_cases hk : k = s.head
  · subst hk
    rw [Recorded, retire_entry_head hcompleted]
    exact iff_of_false (Finset.notMem_empty i) (fun h => h.2 rfl)
  · rw [Recorded, retire_entry_of_ne hcompleted hk, and_iff_left hk, Recorded]

theorem retire_waits (x : Nat) : waits (retireRob s) x = waits s x := by
  have hsize : (retireRob s).size = s.size := by rw [retireRob, if_pos hcompleted]
  ext j
  rw [mem_waits, mem_waits, hsize]
  constructor
  · rintro ⟨k, hk, hr, hne⟩
    obtain ⟨hr, hkh⟩ := (retire_recorded hcompleted).mp hr
    rw [retire_entry_of_ne hcompleted hkh] at hne
    exact ⟨k, hk, hr, hne⟩
  · rintro ⟨k, hk, hr, hne⟩
    have hkh : k ≠ s.head := by
      rintro rfl
      exact hne hcompleted
    refine ⟨k, hk, (retire_recorded hcompleted).mpr ⟨hr, hkh⟩, ?_⟩
    rwa [retire_entry_of_ne hcompleted hkh]

theorem retire_edges (h : Inv [] s) : Edges none (retireRob s) := by
  have hconsumer : ∀ {k i j}, Recorded s k i j → (retireRob s).entry i = s.entry i := by
    intro k i j hr
    apply retire_entry_of_ne hcompleted
    rintro rfl
    exact not_older_head h.shape (h.edges.older hr)
  constructor
  · intro k i j hr
    obtain ⟨hr, hk⟩ := (retire_recorded hcompleted).mp hr
    exact (older_retire h.shape hcompleted).mpr ⟨h.edges.older hr, hk⟩
  · intro k i j hr
    obtain ⟨hr, -⟩ := (retire_recorded hcompleted).mp hr
    rw [hconsumer hr]
    exact h.edges.checked hr
  · intro k i j hr
    obtain ⟨hr, hk⟩ := (retire_recorded hcompleted).mp hr
    rw [retire_entry_of_ne hcompleted hk]
    exact h.edges.listed hr
  · intro k i j hr
    obtain ⟨hr, hk⟩ := (retire_recorded hcompleted).mp hr
    rw [retire_entry_of_ne hcompleted hk]
    exact h.edges.producer hr
  · intro k i j hr
    obtain ⟨hr, -⟩ := (retire_recorded hcompleted).mp hr
    rw [Begun, hconsumer hr]
    exact h.edges.begun hr
  · intro k l i j hk hl
    exact h.edges.unique ((retire_recorded hcompleted).mp hk).1 ((retire_recorded hcompleted).mp hl).1
  · intro i hi j
    by_cases hih : i = s.head
    · rw [hih, retire_entry_head hcompleted]
      rfl
    · rw [Begun, retire_entry_of_ne hcompleted hih] at hi
      rw [retire_entry_of_ne hcompleted hih]
      exact h.edges.fresh hi j

theorem retire_counts (h : Inv [] s) : Counts none [] (retireRob s) := by
  have hhead : (s.entry s.head).numRegDependent = 0 := (h.counts.done s.head (by rw [hcompleted]; nofun)).2
  refine ⟨fun x => ?_, nofun, fun x hx => ?_, fun x hx => ?_⟩
  · rw [retire_waits hcompleted]
    have hcount := h.counts.count x
    by_cases hxh : x = s.head
    · subst hxh
      rw [retire_entry_head hcompleted]
      rw [hhead] at hcount
      exact hcount
    · rw [retire_entry_of_ne hcompleted hxh]
      exact hcount
  · by_cases hxh : x = s.head
    · rw [Begun, hxh, retire_entry_head hcompleted] at hx
      rcases hx with hx | hx
      · exact absurd rfl hx
      · cases hx
    · rw [Begun, retire_entry_of_ne hcompleted hxh] at hx
      rw [retire_entry_of_ne hcompleted hxh]
      exact h.counts.ready x hx
  · by_cases hxh : x = s.head
    · rw [hxh, retire_entry_head hcompleted] at hx
      exact absurd rfl hx
    · rw [retire_entry_of_ne hcompleted hxh] at hx ⊢
      exact h.counts.done x hx

theorem retire_ledger (h : Inv [] s) : Ledger (retireRob s) := by
  have hbusy : (s.entry s.head).executed ≠ .idle := by
    rw [hcompleted]
    nofun
  have hlive : Live s s.head := live_of_executed h.shape hbusy
  have hpos := occupancy_pos hlive
  have hP : ∀ x, Placed (retireRob s) x ↔ Placed s x ∧ x ≠ s.head := by
    intro x
    by_cases hx : x = s.head
    · subst hx
      refine iff_of_false (not_placed_of_idle ?_) (fun hp => hp.2 rfl)
      rw [retire_entry_head hcompleted]
      rfl
    · rw [Placed, retire_entry_of_ne hcompleted hx, and_iff_left hx, Placed]
  have htimes : ∀ n, timesPlaced (retireRob s) n = timesPlaced s n := by
    intro n
    rw [retireRob, if_pos hcompleted]
    rfl
  obtain ⟨q, hq, hnodup, hmem⟩ := h.ledger.queue
  refine ⟨⟨q, ?_, hnodup, fun x => ?_⟩, fun x hx => ?_, fun n hn => ?_, ?_, fun e he => ?_⟩
  · rw [retireRob, if_pos hcompleted]
    exact hq
  · rw [hmem, hP]
    by_cases hx : x = s.head
    · subst hx
      exact iff_of_false (fun hp => hbusy hp.2) (fun hp => hp.1.2 rfl)
    · rw [retire_entry_of_ne hcompleted hx, and_iff_left hx]
  · obtain ⟨hx, hne⟩ := (live_retire h.shape hcompleted).mp hx
    rw [htimes, retire_entry_of_ne hcompleted hne, h.ledger.times x hx]
    simp only [hP, ne_eq, hne, not_false_eq_true, and_true]
  · rw [retireRob, if_pos hcompleted] at hn
    rw [htimes]
    exact h.ledger.fresh n hn
  · rw [retireRob, if_pos hcompleted]
    exact h.ledger.ready
  · rw [htimes]
    rw [retireRob, if_pos hcompleted] at he ⊢
    show e.instrId + (s.occupancy - 1) < s.instrUniqueId ∧ _
    rcases List.mem_append.mp he with he | he
    · obtain ⟨hlt, hcount⟩ := h.ledger.retired e he
      exact ⟨by omega, hcount⟩
    · rw [List.mem_singleton.mp he]
      have hids := h.shape.ids 0 hpos
      rw [slot_zero h.shape] at hids
      refine ⟨by omega, ?_⟩
      have hdone := h.counts.done s.head hbusy
      rw [h.ledger.times s.head hlive]
      cases hm : (s.entry s.head).isMemory with
      | true => exact if_neg (fun hp => by rw [hp.1] at hm; cases hm)
      | false => exact if_pos ⟨hm, hdone⟩

end Retire

theorem retire_inv (h : Inv [] s) : Inv [] (retireRob s) := by
  by_cases hcompleted : (s.entry s.head).executed = .completed
  · exact ⟨retire_shape h.shape hcompleted, retire_edges hcompleted h, retire_counts hcompleted h,
      retire_ledger hcompleted h⟩
  · rw [retireRob, if_neg hcompleted]
    exact h

theorem initial_inv {robSize : Nat} (h : 0 < robSize) : Inv [] (.initial robSize) := by
  have hnone : ∀ k i j, ¬Recorded (.initial robSize) k i j := fun k i j => Finset.notMem_empty i
  have hidle : ∀ x, ¬Placed (.initial robSize) x := fun x hp => hp.2.1 rfl
  refine ⟨initial_shape h, ?_, ?_, ⟨⟨[], holds_empty h, List.nodup_nil, fun x => ?_⟩, fun x hx => ?_,
    fun _ _ => rfl, nofun, nofun⟩⟩
  · exact ⟨fun hr => (hnone _ _ _ hr).elim, fun hr => (hnone _ _ _ hr).elim, fun hr => (hnone _ _ _ hr).elim,
      fun hr => (hnone _ _ _ hr).elim, fun hr => (hnone _ _ _ hr).elim, fun hr => (hnone _ _ _ hr).elim, fun _ _ => rfl⟩
  · refine ⟨fun x => ?_, nofun, fun x hx => ?_, fun x hx => absurd rfl hx⟩
    · have hwaits : waits (.initial robSize) x = ∅ := by
        apply Finset.eq_empty_of_forall_notMem
        intro j hj
        obtain ⟨k, -, hr, -⟩ := mem_waits.mp hj
        exact hnone k x j hr
      rw [hwaits]
      rfl
    · rcases hx with hx | hx
      · exact absurd rfl hx
      · cases hx
  · exact iff_of_false List.not_mem_nil (fun hp => hidle x hp.1)
  · obtain ⟨a, ha, -⟩ := hx
    exact absurd ha (Nat.not_lt_zero a)

theorem step_inv (h : Inv [] s) (e : Event) : ∃ u, step s e = some u ∧ Inv [] u := by
  cases e with
  | dispatch instr => exact ⟨_, rfl, dispatch_inv h instr⟩
  | schedule a =>
      rw [step]
      split_ifs with ha
      · exact schedule_inv h (live_slot ha)
      · exact ⟨s, rfl, h⟩
  | execute => exact ⟨_, rfl, execute_inv h⟩
  | scheduleMemory a =>
      rw [step]
      split_ifs with ha
      · exact ⟨_, rfl, scheduleMemory_inv h (live_slot ha)⟩
      · exact ⟨s, rfl, h⟩
  | complete a =>
      rw [step]
      split_ifs with ha
      · exact complete_inv h
      · exact ⟨s, rfl, h⟩
  | retire => exact ⟨_, rfl, retire_inv h⟩

theorem run_inv {robSize : Nat} (h : 0 < robSize) (es : List Event) :
    ∃ s, run step (.initial robSize) es = some s ∧ Inv [] s :=
  run_total (fun _ e _ hs => step_inv hs e) (initial_inv h)

theorem reachable_inv {robSize : Nat} {es : List Event} (h : 0 < robSize) (hrun : run step (.initial robSize) es = some s) :
    Inv [] s := by
  obtain ⟨u, hu, hinv⟩ := run_inv h es
  rw [hrun, Option.some.injEq] at hu
  exact hu ▸ hinv

/-- Every register that is waited for is counted, and nothing else is. -/
structure Exact (s : State) : Prop where
  count : ∀ i, Live s i → (s.entry i).numRegDependent = (waits s i).card
  producer : ∀ {k l i j}, Recorded s k i j → Recorded s l i j → k = l
  older : ∀ {k i j}, Recorded s k i j → Older s k i
  nonneg : ∀ i, 0 ≤ (s.entry i).numRegDependent
  times : ∀ i, Live s i → timesPlaced s (s.entry i).instrId
    = if (s.entry i).isMemory = false ∧ (s.entry i).scheduled ≠ .idle ∧ (s.entry i).numRegDependent = 0 then 1 else 0
  executed : ∀ i, (s.entry i).executed ≠ .idle → (s.entry i).isMemory = false → timesPlaced s (s.entry i).instrId = 1
  retired : ∀ e ∈ s.retired, timesPlaced s e.instrId = if e.isMemory then 0 else 1
  zero : ∀ p ∈ s.placed, p.2 = 0

/-- Whatever is dispatched and whichever turns are taken, no assertion fails and the counts are exact. -/
theorem wakeup_exact {robSize : Nat} (h : 0 < robSize) (es : List Event) :
    ∃ s, run step (.initial robSize) es = some s ∧ Exact s := by
  obtain ⟨s, hs, hinv⟩ := run_inv h es
  have hcount : ∀ i, (s.entry i).numRegDependent = (waits s i).card := by
    intro i
    rw [hinv.counts.count i, List.countP_nil]
    exact Int.add_zero _
  refine ⟨s, hs, ⟨fun i _ => hcount i, hinv.edges.unique, hinv.edges.older, fun i => ?_, hinv.ledger.times, fun i hi hm => ?_,
    fun e he => (hinv.ledger.retired e he).2, hinv.ledger.ready⟩⟩
  · rw [hcount]
    exact Int.natCast_nonneg _
  · exact (hinv.ledger.times i (live_of_executed hinv.shape hi)).trans (if_pos ⟨hm, hinv.counts.done i hi⟩)

/-- A chain of two, the second of which is woken by the first, in a buffer that wraps. -/
theorem wakeup_exact_wrapped :
    ∃ s, run step (.initial 2) [.dispatch ⟨false, fun _ => 0, [5]⟩, .schedule 0, .execute, .complete 0, .retire,
      .dispatch ⟨false, fun _ => 0, [5]⟩, .dispatch ⟨false, fun _ => 5, [6]⟩, .schedule 0, .schedule 1, .execute,
      .complete 0, .execute] = some s ∧ Exact s :=
  wakeup_exact (by decide) _

end Thermometer.RobExact
