import Thermometer.TwigPipeline

namespace Thermometer.TwigPaired

open Trace Lib.Tables Lib.Rings Lib.Runs TwigProfile TwigPipeline RobShape RobProgress

def inFlight (s : State) : List Instr :=
  (List.range s.rob.occupancy).map (fun a => s.robInstr (s.rob.slot a)) ++ s.dispatchBuffer ++
    (s.decodeBuffer ++ s.ifetchBuffer)

/-- The instructions whose update is still to come: up to decoding all the profiled ones, after
it the conditional branches that have not completed. -/
def Awaits (s : State) (i : Instr) : Prop :=
  i.Profiled ∧ (i ∈ s.decodeBuffer ++ s.ifetchBuffer ∨ i.branchType = .conditional ∧ (i ∈ s.dispatchBuffer ∨
    ∃ a < s.rob.occupancy, s.robInstr (s.rob.slot a) = i ∧ (s.rob.entry (s.rob.slot a)).executed ≠ .completed))

structure Entered (s : State) : Prop where
  count : s.instrUniqueId = s.entered.length
  numbered : s.entered.map Instr.instrId = List.range s.entered.length
  lookups : (lookups s.twigRecord.outputTrace).map (fun l => (l.1, some l.2.branchTypeName, l.2.ip, l.2.target)) =
    (s.entered.filter (fun i => i.Profiled)).map Instr.shown

structure Inv (s : State) : Prop where
  rob : RobQueue.Inv [] s.rob
  nodup : ((inFlight s).map Instr.instrId).Nodup
  recent : ∀ i ∈ inFlight s, i.instrId < s.instrUniqueId
  awaited : ∀ i, Awaits s i → ∃ e, s.twigRecord.lookupHistory.lookup i.instrId = some e ∧ e.ip = i.ip ∧
    e.branchType = i.branchType
  gen : s.twigRecord.gen = true
  books : Books s.twigRecord s.instrUniqueId
  entered : Entered s

variable {s t : State} {i j : Instr} {a b cycle : Nat}

theorem Awaits.inFlight (h : Awaits s i) : i ∈ inFlight s := by
  rcases h.2 with hi | ⟨-, hi | ⟨a, ha, rfl, -⟩⟩
  · exact List.mem_append_right _ hi
  · exact List.mem_append_left _ (List.mem_append_right _ hi)
  · exact List.mem_append_left _ (List.mem_append_left _ (List.mem_map.mpr ⟨a, List.mem_range.mpr ha, rfl⟩))

theorem ids_ne {l l' : List Instr} (h : ((l ++ l').map Instr.instrId).Nodup) (hi : i ∈ l) (hj : j ∈ l') :
    i.instrId ≠ j.instrId := by
  rw [List.map_append] at h
  exact (List.nodup_append.mp h).2.2 _ (List.mem_map_of_mem hi) _ (List.mem_map_of_mem hj)

theorem Inv.still (h : Inv s) (hrob : RobQueue.Inv [] t.rob) (hsub : (TwigPaired.inFlight t).Sublist (TwigPaired.inFlight s))
    (hawaits : ∀ i, Awaits t i → Awaits s i) (hrecord : t.twigRecord = s.twigRecord)
    (hunique : t.instrUniqueId = s.instrUniqueId) (hentered : t.entered = s.entered) : Inv t := by
  refine ⟨hrob, h.nodup.sublist (hsub.map _), ?_, ?_, ?_, ?_, ?_, ?_, ?_⟩
  · intro i hi
    rw [hunique]
    exact h.recent i (hsub.subset hi)
  · intro i hi
    rw [hrecord]
    exact h.awaited i (hawaits i hi)
  · rw [hrecord]
    exact h.gen
  · rw [hrecord, hunique]
    exact h.books
  · rw [hunique, hentered]
    exact h.entered.count
  · rw [hentered]
    exact h.entered.numbered
  · rw [hrecord, hentered]
    exact h.entered.lookups

theorem lookups_updating (r : TwigRecord) (n : Nat) {line : Line} (h : line.operation = .update) :
    lookups (updating r n line).outputTrace = lookups r.outputTrace := by
  rw [updating, lookups_concat, if_neg (by simp [h]), List.append_nil]

theorem Inv.update (h : Inv s) (hi : Awaits s i) (hrob : RobQueue.Inv [] t.rob)
    (hsub : (TwigPaired.inFlight t).Sublist (TwigPaired.inFlight s))
    (hawaits : ∀ j, Awaits t j → Awaits s j ∧ j.instrId ≠ i.instrId) (hunique : t.instrUniqueId = s.instrUniqueId)
    (hentered : t.entered = s.entered) (cycle : Nat) :
    ∃ r, s.twigRecord.update i.instrId i.ip i.branchTarget i.branchType cycle = some r ∧ Inv { t with twigRecord := r } := by
  obtain ⟨e, he, hip, hty⟩ := h.awaited i hi
  obtain ⟨line, hwrite, hupdate⟩ := update_profiled h.gen hi.1 he hip hty cycle
  refine ⟨_, hupdate, hrob, h.nodup.sublist (hsub.map _), ?_, ?_, h.gen, ?_, ?_, ?_, ?_⟩
  · intro j hj
    show j.instrId < t.instrUniqueId
    rw [hunique]
    exact h.recent j (hsub.subset hj)
  · intro j hj
    have hj : Awaits t j := hj
    obtain ⟨hj, hne⟩ := hawaits j hj
    obtain ⟨d, hd, hfields⟩ := h.awaited j hj
    refine ⟨d, ?_, hfields⟩
    show (s.twigRecord.lookupHistory.erase i.instrId).lookup j.instrId = some d
    rw [lookup_erase, if_neg hne]
    exact hd
  · show Books (updating s.twigRecord i.instrId line) t.instrUniqueId
    rw [hunique]
    exact updating_books h.books he hwrite
  · show t.instrUniqueId = t.entered.length
    rw [hunique, hentered]
    exact h.entered.count
  · show t.entered.map Instr.instrId = List.range t.entered.length
    rw [hentered]
    exact h.entered.numbered
  · show (lookups (updating s.twigRecord i.instrId line).outputTrace).map _ = (t.entered.filter _).map _
    rw [lookups_updating _ _ (writeLog_operation hwrite), hentered]
    exact h.entered.lookups

def reading (s : State) (i : Instr) (r : TwigRecord) : State :=
  { s with
    ifetchBuffer := s.ifetchBuffer ++ [i]
    instrUniqueId := s.instrUniqueId + 1
    twigRecord := r
    entered := s.entered ++ [i] }

theorem inFlight_reading (s : State) (i : Instr) (r : TwigRecord) : inFlight (reading s i r) = inFlight s ++ [i] := by
  simp only [inFlight, reading, List.append_assoc]

theorem reading_awaits {r : TwigRecord} (h : Awaits (reading s i r) j) : Awaits s j ∨ j = i := by
  obtain ⟨hprof, hj | hj⟩ := h
  · rw [reading, ← List.append_assoc] at hj
    rcases List.mem_append.mp hj with hj | hj
    · exact .inl ⟨hprof, .inl hj⟩
    · exact .inr (List.mem_singleton.mp hj)
  · exact .inl ⟨hprof, .inr hj⟩

theorem filter_concat {P : Instr → Prop} [DecidablePred P] (l : List Instr) (i : Instr) :
    (l ++ [i]).filter (fun i => P i) = l.filter (fun i => P i) ++ if P i then [i] else [] := by
  rw [List.filter_append]
  congr 1
  by_cases h : P i <;> simp [h]

theorem reading_inv (h : Inv s) (hid : i.instrId = s.instrUniqueId) {r : TwigRecord} (hgen : r.gen = true)
    (hbooks : Books r (s.instrUniqueId + 1))
    (hhistory : ∀ n, n ≠ s.instrUniqueId → r.lookupHistory.lookup n = s.twigRecord.lookupHistory.lookup n)
    (hnew : i.Profiled → ∃ e, r.lookupHistory.lookup i.instrId = some e ∧ e.ip = i.ip ∧ e.branchType = i.branchType)
    (hlookups : (lookups r.outputTrace).map (fun l => (l.1, some l.2.branchTypeName, l.2.ip, l.2.target)) =
      (lookups s.twigRecord.outputTrace).map (fun l => (l.1, some l.2.branchTypeName, l.2.ip, l.2.target)) ++
        if i.Profiled then [i.shown] else []) : Inv (reading s i r) := by
  refine ⟨h.rob, ?_, ?_, ?_, hgen, hbooks, ?_, ?_, ?_⟩
  · rw [inFlight_reading, List.map_append]
    refine List.nodup_append.mpr ⟨h.nodup, List.nodup_singleton _, ?_⟩
    intro n hn m hm
    obtain ⟨j, hj, rfl⟩ := List.mem_map.mp hn
    rw [List.mem_singleton.mp hm, hid]
    exact (h.recent j hj).ne
  · intro j hj
    rw [inFlight_reading] at hj
    rcases List.mem_append.mp hj with hj | hj
    · exact (h.recent j hj).trans (Nat.lt_succ_self _)
    · rw [List.mem_singleton.mp hj, hid]
      exact Nat.lt_succ_self _
  · intro j hj
    rcases reading_awaits hj with hj | rfl
    · obtain ⟨e, he, hfields⟩ := h.awaited j hj
      exact ⟨e, (hhistory _ (h.recent j hj.inFlight).ne).trans he, hfields⟩
    · exact hnew hj.1
  · show s.instrUniqueId + 1 = (s.entered ++ [i]).length
    rw [List.length_append, h.entered.count, List.length_singleton]
  · show (s.entered ++ [i]).map Instr.instrId = List.range (s.entered ++ [i]).length
    rw [List.map_append, h.entered.numbered, List.length_append, List.length_singleton, List.range_succ, List.map_singleton,
      hid, h.entered.count]
  · show (lookups r.outputTrace).map _ = ((s.entered ++ [i]).filter _).map _
    rw [hlookups, h.entered.lookups, filter_concat, List.map_append]
    split_ifs <;> rfl

theorem initInstruction_inv (h : Inv s) (archInstr : Instr) (predicted cycle : Nat) :
    ∃ t, initInstruction s archInstr predicted cycle = some t ∧ Inv t := by
  rw [initInstruction]
  by_cases hfull : s.ifetchBuffer.length < s.sizes.ifetch
  · rw [if_pos hfull]
    let i : Instr := { archInstr with instrId := s.instrUniqueId }
    have hskip : ¬i.Profiled → Inv (reading s i s.twigRecord) := by
      intro hprof
      refine reading_inv h (by rfl) h.gen h.books.mono (fun n _ => rfl) (fun hp => absurd hp hprof) ?_
      rw [if_neg hprof, List.append_nil]
    by_cases hprof : i.Profiled
    · have hbranch : i.isBranch = true := by
        apply i.typed
        intro hty
        have hfilter := hprof.2
        rw [hty] at hfilter
        cases hfilter
      obtain ⟨line, hwrite, hlookup⟩ := lookup_profiled h.gen hprof i.instrId i.ip predicted cycle
      refine ⟨reading s i (looking s.twigRecord i.instrId (.new i.ip i.branchTarget predicted i.branchType) line), ?_, ?_⟩
      · show Option.map _ (if i.isBranch = true then _ else _) = _
        rw [if_pos hbranch, hlookup]
        rfl
      · refine reading_inv h (by rfl) h.gen (looking_books h.books hwrite) ?_ ?_ ?_
        · intro n hn
          rw [looking, lookup_insertNew_of_notMem h.books.fresh, if_neg hn]
        · intro _
          refine ⟨.new i.ip i.branchTarget predicted i.branchType, ?_, rfl, rfl⟩
          rw [looking, lookup_insertNew_of_notMem h.books.fresh, if_pos rfl]
        · obtain ⟨name, hname, rfl⟩ := Option.map_eq_some_iff.mp hwrite
          have hname : getBranchTypeName i.branchType = some name := hname
          rw [looking, lookups_concat, if_pos (by rfl), List.map_append, if_pos hprof, Instr.shown, hname]
          rfl
    · refine ⟨reading s i s.twigRecord, ?_, hskip hprof⟩
      show Option.map _ (if i.isBranch = true then _ else _) = _
      rw [lookup_skip hprof, ite_self]
      rfl
  · rw [if_neg hfull]
    exact ⟨s, rfl, h⟩

theorem fetchInstruction_inv (h : Inv s) : Inv (fetchInstruction s) := by
  rw [fetchInstruction]
  cases hbuf : s.ifetchBuffer with
  | nil => exact h
  | cons i rest =>
      simp only
      split_ifs
      · have hmove : (s.decodeBuffer ++ [i]) ++ rest = s.decodeBuffer ++ s.ifetchBuffer := by
          rw [hbuf, List.append_assoc, List.singleton_append]
        refine h.still h.rob ?_ ?_ rfl rfl rfl
        · simp only [inFlight, hmove]
          exact List.Sublist.refl _
        · intro j hj
          simpa only [Awaits, hmove] using hj
      · exact h

theorem decoded_sublist {rest : List Instr} (hbuf : s.decodeBuffer = i :: rest) (r : TwigRecord) :
    (inFlight { s with decodeBuffer := rest, dispatchBuffer := s.dispatchBuffer ++ [i], twigRecord := r }).Sublist
      (inFlight s) := by
  simp only [inFlight, hbuf, List.append_assoc, List.cons_append, List.nil_append]
  exact List.Sublist.refl _

theorem decoded_awaits {rest : List Instr} (hbuf : s.decodeBuffer = i :: rest) {r : TwigRecord}
    (h : Awaits { s with decodeBuffer := rest, dispatchBuffer := s.dispatchBuffer ++ [i], twigRecord := r } j) :
    Awaits s j ∧ (j = i ∧ i.branchType = .conditional ∨ j ∈ rest ++ s.ifetchBuffer ∨
      j ∈ (List.range s.rob.occupancy).map (fun a => s.robInstr (s.rob.slot a)) ++ s.dispatchBuffer) := by
  obtain ⟨hprof, hj | ⟨hcond, hj | ⟨a, ha, rfl, hex⟩⟩⟩ := h
  · refine ⟨⟨hprof, .inl ?_⟩, .inr (.inl hj)⟩
    rw [hbuf]
    exact List.mem_cons_of_mem i hj
  · rcases List.mem_append.mp hj with hj | hj
    · exact ⟨⟨hprof, .inr ⟨hcond, .inl hj⟩⟩, .inr (.inr (List.mem_append_right _ hj))⟩
    · obtain rfl := List.mem_singleton.mp hj
      refine ⟨⟨hprof, .inl ?_⟩, .inl ⟨rfl, hcond⟩⟩
      rw [hbuf]
      exact List.mem_cons_self
  · exact ⟨⟨hprof, .inr ⟨hcond, .inr ⟨a, ha, rfl, hex⟩⟩⟩,
      .inr (.inr (List.mem_append_left _ (List.mem_map.mpr ⟨a, List.mem_range.mpr ha, rfl⟩)))⟩

theorem decodeInstruction_inv (h : Inv s) (cycle : Nat) : ∃ t, decodeInstruction s cycle = some t ∧ Inv t := by
  rw [decodeInstruction]
  cases hbuf : s.decodeBuffer with
  | nil => exact ⟨s, rfl, h⟩
  | cons i rest =>
      simp only
      by_cases hfull : s.dispatchBuffer.length < s.sizes.dispatch
      · rw [if_pos hfull]
        have hquiet : Inv { s with decodeBuffer := rest, dispatchBuffer := s.dispatchBuffer ++ [i] } :=
          h.still h.rob (decoded_sublist hbuf s.twigRecord) (fun j hj => (decoded_awaits hbuf hj).1) rfl rfl rfl
        by_cases hty : i.branchType = .directJump ∨ i.branchType = .directCall
        · rw [if_pos hty]
          by_cases hprof : i.Profiled
          · have hi : Awaits s i := ⟨hprof, .inl (by rw [hbuf]; exact List.mem_cons_self)⟩
            have hne : ∀ j, Awaits { s with decodeBuffer := rest, dispatchBuffer := s.dispatchBuffer ++ [i] } j →
                Awaits s j ∧ j.instrId ≠ i.instrId := by
              intro j hj
              obtain ⟨hj, hplace⟩ := decoded_awaits hbuf hj
              refine ⟨hj, ?_⟩
              have hnodup := h.nodup
              rw [inFlight, hbuf, List.cons_append] at hnodup
              rcases hplace with ⟨rfl, hcond⟩ | hrest | hold
              · rw [hcond] at hty
                simp at hty
              · rw [List.append_cons] at hnodup
                exact (ids_ne hnodup (List.mem_append_right _ (List.mem_singleton_self i)) hrest).symm
              · exact ids_ne hnodup hold List.mem_cons_self
            obtain ⟨r, hr, hinv⟩ := h.update hi (t := { s with decodeBuffer := rest, dispatchBuffer := s.dispatchBuffer ++ [i] })
              h.rob (decoded_sublist hbuf s.twigRecord) hne rfl rfl cycle
            exact ⟨_, by rw [hr]; rfl, hinv⟩
          · rw [update_skip hprof]
            exact ⟨_, rfl, hquiet⟩
        · rw [if_neg hty]
          exact ⟨_, rfl, hquiet⟩
      · rw [if_neg hfull]
        exact ⟨s, rfl, h⟩

theorem mem_slots (ha : a < s.rob.occupancy) :
    s.robInstr (s.rob.slot a) ∈ (List.range s.rob.occupancy).map (fun a => s.robInstr (s.rob.slot a)) :=
  List.mem_map.mpr ⟨a, List.mem_range.mpr ha, rfl⟩

theorem dispatchInstruction_inv (h : Inv s) : Inv (dispatchInstruction s) := by
  rw [dispatchInstruction]
  cases hbuf : s.dispatchBuffer with
  | nil => exact h
  | cons i rest =>
      simp only
      by_cases hfull : s.rob.occupancy < s.rob.size
      · rw [if_pos hfull]
        obtain ⟨u, hu, hrob⟩ := RobExact.step_inv h.rob (.dispatch i.registers)
        rw [← Option.some.inj hu] at hrob
        have hslot : ∀ a, (ReorderBuffer.dispatchInstruction s.rob i.registers).slot a = s.rob.slot a := by
          intro a
          rw [ReorderBuffer.dispatchInstruction, if_pos hfull]
          rfl
        have hocc : (ReorderBuffer.dispatchInstruction s.rob i.registers).occupancy = s.rob.occupancy + 1 := by
          rw [ReorderBuffer.dispatchInstruction, if_pos hfull]
        have hold : ∀ a < s.rob.occupancy, s.rob.slot a ≠ s.rob.tail := by
          intro a ha he
          exact not_live_tail h.rob.shape hfull (he ▸ live_slot ha)
        have hentry : ∀ a < s.rob.occupancy, ((ReorderBuffer.dispatchInstruction s.rob i.registers).entry (s.rob.slot a)) =
            s.rob.entry (s.rob.slot a) := by
          intro a ha
          rw [ReorderBuffer.dispatchInstruction, if_pos hfull]
          exact Function.update_of_ne (hold a ha) _ _
        refine h.still hrob ?_ ?_ rfl rfl rfl
        · simp only [inFlight, hslot, hocc]
          have hnew : (List.range (s.rob.occupancy + 1)).map (fun a => Function.update s.robInstr s.rob.tail i (s.rob.slot a)) =
              (List.range s.rob.occupancy).map (fun a => s.robInstr (s.rob.slot a)) ++ [i] := by
            rw [List.range_succ, List.map_append, List.map_singleton, ← h.rob.shape.tail_eq, Function.update_self]
            congr 1
            apply List.map_congr_left
            intro a ha
            exact Function.update_of_ne (hold a (List.mem_range.mp ha)) _ _
          rw [hnew, hbuf, ← List.append_cons]
        · rintro j ⟨hprof, hj | ⟨hcond, hj | ⟨a, ha, rfl, hex⟩⟩⟩
          · exact ⟨hprof, .inl hj⟩
          · refine ⟨hprof, .inr ⟨hcond, .inl ?_⟩⟩
            rw [hbuf]
            exact List.mem_cons_of_mem i hj
          · simp only [hocc, hslot] at ha hex hprof hcond ⊢
            rcases Nat.lt_succ_iff_lt_or_eq.mp ha with ha | rfl
            · rw [Function.update_of_ne (hold a ha)] at hprof hcond ⊢
              rw [hentry a ha] at hex
              exact ⟨hprof, .inr ⟨hcond, .inr ⟨a, ha, rfl, hex⟩⟩⟩
            · rw [← h.rob.shape.tail_eq, Function.update_self] at hprof hcond ⊢
              refine ⟨hprof, .inr ⟨hcond, .inl ?_⟩⟩
              rw [hbuf]
              exact List.mem_cons_self
      · rw [if_neg hfull]
        exact h

theorem Inv.onward (h : Inv s) {rob : ReorderBuffer.State} (hrob : RobQueue.Inv [] rob) (hon : Onward s.rob rob) :
    Inv { s with rob := rob } := by
  refine h.still hrob ?_ ?_ rfl rfl rfl
  · simp only [inFlight, hon.slot, hon.occupancy]
    exact List.Sublist.refl _
  · rintro j ⟨hprof, hj | ⟨hcond, hj | ⟨a, ha, rfl, hex⟩⟩⟩
    · exact ⟨hprof, .inl hj⟩
    · exact ⟨hprof, .inr ⟨hcond, .inl hj⟩⟩
    · simp only [hon.slot, hon.occupancy] at ha hex hprof hcond ⊢
      exact ⟨hprof, .inr ⟨hcond, .inr ⟨a, ha, rfl, fun hdone => hex (hon.completed _ hdone)⟩⟩⟩

theorem schedule_inv (h : Inv s) (a : Nat) : ∃ t, step s (.schedule a) = some t ∧ Inv t := by
  obtain ⟨u, hu, hrob⟩ := RobExact.step_inv h.rob (.schedule a)
  refine ⟨{ s with rob := u }, Option.map_eq_some_iff.mpr ⟨u, hu, rfl⟩, h.onward hrob ?_⟩
  rw [ReorderBuffer.step] at hu
  split_ifs at hu
  · exact (scheduleInstruction_still hu).onward
  · exact Option.some.inj hu ▸ .refl _

theorem scheduleMemory_inv (h : Inv s) (a : Nat) : ∃ t, step s (.scheduleMemory a) = some t ∧ Inv t := by
  obtain ⟨u, hu, hrob⟩ := RobExact.step_inv h.rob (.scheduleMemory a)
  refine ⟨{ s with rob := u }, Option.map_eq_some_iff.mpr ⟨u, hu, rfl⟩, h.onward hrob ?_⟩
  rw [ReorderBuffer.step] at hu
  split_ifs at hu
  · exact Option.some.inj hu ▸ doMemoryScheduling_onward s.rob _
  · exact Option.some.inj hu ▸ .refl _

theorem execute_inv (h : Inv s) : Inv { s with rob := ReorderBuffer.executeInstruction s.rob } :=
  h.onward (RobExact.execute_inv h.rob) (executeInstruction_onward h.rob)

theorem completeExecution_inv (h : Inv s) (ha : a < s.rob.occupancy) (cycle : Nat) :
    ∃ t, completeExecution s (s.rob.slot a) cycle = some t ∧ Inv t := by
  rw [completeExecution]
  by_cases hex : (s.rob.entry (s.rob.slot a)).executed = .inflight
  · rw [if_pos hex]
    obtain ⟨u, hu, hrob⟩ := RobWakeup.complete_inv (k := s.rob.slot a) h.rob
    obtain ⟨hplaces, hdone⟩ := completeExecution_executed hu hex
    have hsub : (inFlight { s with rob := u }).Sublist (inFlight s) := by
      simp only [inFlight, hplaces.slot, hplaces.occupancy]
      exact List.Sublist.refl _
    have hawaits : ∀ j, Awaits { s with rob := u } j → Awaits s j ∧ j.instrId ≠ (s.robInstr (s.rob.slot a)).instrId := by
      rintro j ⟨hprof, hj | ⟨hcond, hj | ⟨b, hb, rfl, hnot⟩⟩⟩
      · exact ⟨⟨hprof, .inl hj⟩, (ids_ne h.nodup (List.mem_append_left _ (mem_slots ha)) hj).symm⟩
      · have hnodup := h.nodup
        rw [inFlight, List.append_assoc] at hnodup
        exact ⟨⟨hprof, .inr ⟨hcond, .inl hj⟩⟩, (ids_ne hnodup (mem_slots ha) (List.mem_append_left _ hj)).symm⟩
      · simp only [hplaces.slot, hplaces.occupancy, hdone] at hb hnot hprof hcond ⊢
        have hslots : s.rob.slot b ≠ s.rob.slot a := by
          intro he
          rw [if_pos he] at hnot
          exact hnot rfl
        rw [if_neg hslots] at hnot
        refine ⟨⟨hprof, .inr ⟨hcond, .inr ⟨b, hb, rfl, hnot⟩⟩⟩, ?_⟩
        intro hid
        apply hslots
        have hnodup := h.nodup
        rw [inFlight, List.append_assoc, List.map_append, List.map_map] at hnodup
        have hba : b = a := List.inj_on_of_nodup_map (List.nodup_append.mp hnodup).1 (List.mem_range.mpr hb)
          (List.mem_range.mpr ha) hid
        rw [hba]
    have hquiet : Inv { s with rob := u } := h.still hrob hsub (fun j hj => (hawaits j hj).1) rfl rfl rfl
    rw [hu]
    by_cases hty : (s.robInstr (s.rob.slot a)).branchType = .conditional
    · by_cases hprof : (s.robInstr (s.rob.slot a)).Profiled
      · have hi : Awaits s (s.robInstr (s.rob.slot a)) := by
          refine ⟨hprof, .inr ⟨hty, .inr ⟨a, ha, rfl, ?_⟩⟩⟩
          rw [hex]
          simp
        obtain ⟨r, hr, hinv⟩ := h.update hi (t := { s with rob := u }) hrob hsub hawaits rfl rfl cycle
        refine ⟨_, ?_, hinv⟩
        simp only [Option.bind_eq_bind, Option.bind_some, if_pos hty, hr]
      · refine ⟨_, ?_, hquiet⟩
        simp only [Option.bind_eq_bind, Option.bind_some, update_skip hprof, ite_self]
    · refine ⟨_, ?_, hquiet⟩
      simp only [Option.bind_eq_bind, Option.bind_some, if_neg hty]
  · rw [if_neg hex]
    exact ⟨s, rfl, h⟩

theorem retireRob_inv (h : Inv s) : Inv (retireRob s) := by
  rw [retireRob]
  by_cases hex : (s.rob.entry s.rob.head).executed = .completed
  · rw [if_pos hex]
    have hpos : 0 < s.rob.occupancy := occupancy_pos (live_of_executed h.rob.shape (by rw [hex]; simp))
    have hocc : (ReorderBuffer.retireRob s.rob).occupancy = s.rob.occupancy - 1 := by rw [ReorderBuffer.retireRob, if_pos hex]
    have hslot := slot_retire h.rob.shape hex
    have hne : ∀ a, a < s.rob.occupancy - 1 → s.rob.slot (a + 1) ≠ s.rob.head := by
      intro a ha he
      have hz := slot_inj h.rob.shape (Nat.add_lt_of_lt_sub ha) hpos (he.trans (slot_zero h.rob.shape).symm)
      exact absurd hz (Nat.succ_ne_zero a)
    refine h.still (RobExact.retire_inv h.rob) ?_ ?_ rfl rfl rfl
    · simp only [inFlight, hocc, hslot]
      refine (List.Sublist.append_right ?_ _).append_right _
      have htail : (List.range (s.rob.occupancy - 1)).map
          (fun a => Function.update s.robInstr s.rob.head Instr.empty (s.rob.slot (a + 1))) =
            ((List.range s.rob.occupancy).map (fun a => s.robInstr (s.rob.slot a))).tail := by
        obtain ⟨n, hn⟩ := Nat.exists_eq_succ_of_ne_zero hpos.ne'
        rw [hn] at hne ⊢
        rw [List.range_succ_eq_map, List.map_cons, List.tail_cons, List.map_map]
        apply List.map_congr_left
        intro a ha
        exact Function.update_of_ne (hne a (List.mem_range.mp ha)) _ _
      rw [htail]
      exact List.tail_sublist _
    · rintro j ⟨hprof, hj | ⟨hcond, hj | ⟨a, ha, rfl, hnot⟩⟩⟩
      · exact ⟨hprof, .inl hj⟩
      · exact ⟨hprof, .inr ⟨hcond, .inl hj⟩⟩
      · simp only [hocc, hslot] at ha hnot hprof hcond ⊢
        rw [Function.update_of_ne (hne a ha)] at hprof hcond ⊢
        rw [RobExact.retire_entry_of_ne hex (hne a ha)] at hnot
        exact ⟨hprof, .inr ⟨hcond, .inr ⟨a + 1, Nat.add_lt_of_lt_sub ha, rfl, hnot⟩⟩⟩
  · rw [if_neg hex]
    exact h

theorem step_inv (h : Inv s) (e : Event) : ∃ t, step s e = some t ∧ Inv t := by
  cases e with
  | read i predicted cycle => exact initInstruction_inv h i predicted cycle
  | fetch => exact ⟨_, rfl, fetchInstruction_inv h⟩
  | decode cycle => exact decodeInstruction_inv h cycle
  | dispatch => exact ⟨_, rfl, dispatchInstruction_inv h⟩
  | schedule a => exact schedule_inv h a
  | execute => exact ⟨_, rfl, execute_inv h⟩
  | scheduleMemory a => exact scheduleMemory_inv h a
  | complete a cycle =>
      rw [step]
      split_ifs with ha
      · exact completeExecution_inv h ha cycle
      · exact ⟨s, rfl, h⟩
  | retire => exact ⟨_, rfl, retireRob_inv h⟩

theorem initial_inv {sizes : Sizes} (h : 0 < sizes.rob) : Inv (.initial sizes true) := by
  refine ⟨RobExact.initial_inv h, List.nodup_nil, ?_, ?_, rfl, ⟨⟨List.nodup_nil, ?_⟩, ?_, ?_, ?_⟩, ⟨rfl, rfl, rfl⟩⟩
  · intro i hi
    cases hi
  · intro i hi
    cases hi.inFlight
  · intro pre l post heq
    exact absurd heq (by simp [TwigRecord.init, State.initial])
  · intro l hl
    cases hl
  · intro n e he
    have he : (∅ : Table BranchEntry).lookup n = some e := he
    rw [AList.lookup_empty] at he
    cases he
  · intro n hn
    exact absurd hn (AList.notMem_empty n)

/-- No assertion of the profile fails, however the turns of the pipeline come, and
lookups and updates are paired. -/
theorem twig_profile_paired {sizes : Sizes} (h : 0 < sizes.rob) (es : List Event) :
    ∃ s, run step (.initial sizes true) es = some s ∧ WellPaired s := by
  obtain ⟨s, hs, hinv⟩ := run_total (fun s e _ hs => step_inv hs e) (initial_inv h)
  exact ⟨s, hs, hinv.entered.numbered, hinv.entered.lookups, hinv.books.paired⟩

/-- A taken conditional branch on its way through the smallest pipeline. -/
theorem twig_profile_paired_conditional :
    ∃ s, run step (.initial ⟨1, 1, 1, 1⟩ true) [.read ⟨0, 4, true, .conditional, 8, ⟨false, fun _ => 0, []⟩, fun _ => rfl⟩ 0 1,
      .fetch, .decode 2, .dispatch, .schedule 0, .execute, .complete 0 3, .retire] = some s ∧ WellPaired s :=
  twig_profile_paired (by decide) _

end Thermometer.TwigPaired
