import Thermometer.AddressCarried
import Thermometer.LsqExact

namespace Thermometer.AddressOffered

open Lib.Runs Lib.Windows AddressSpaces AddressFrame AddressCarried

open LoadStoreQueue (Instr Operand numInstrDestinations)

open LsqInvariant (Inv Used)

open LsqExact (admitted)

open LsqLoads (exists_free addLoadQueue_eq addLoadQueue_inv entered enqueue entered_lq_self)

open ReorderBuffer (numInstrSources)

variable {knobCloudsuite : Bool} {cpu : UInt8} {s t : State} {current q : Nat} {j : Fin numInstrSources}
  {d : Fin numInstrDestinations}

section Queues

theorem addLoadQueue_lsq (s : State) (current : Nat) (j : Fin numInstrSources) :
    (addLoadQueue s current j).map State.lsq = LoadStoreQueue.addLoadQueue s.lsq current j := by
  rw [addLoadQueue]
  cases hfree : (List.range s.lsq.lqSize).find? (fun i => (s.lsq.lq i).virtualAddress = 0) with
  | none =>
      rw [LoadStoreQueue.addLoadQueue, hfree]
      rfl
  | some q =>
      cases LoadStoreQueue.addLoadQueue s.lsq current j with
      | none => rfl
      | some lsq =>
          show some (State.lsq (if _ then _ else _)) = some lsq
          split_ifs
          · rfl
          · rfl

theorem addStoreQueue_lsq (s : State) (current : Nat) (d : Fin numInstrDestinations) :
    (addStoreQueue s current d).map State.lsq = LoadStoreQueue.addStoreQueue s.lsq current d := by
  rw [addStoreQueue, Option.map_map]
  exact Option.map_id'

theorem checkLoad_lsq (s : State) (j : Fin numInstrSources) :
    (checkLoad current s j).map State.lsq = LoadStoreQueue.checkLoad current s.lsq j := by
  rw [checkLoad, LoadStoreQueue.checkLoad]
  split_ifs
  · exact addLoadQueue_lsq s current j
  · rfl

theorem checkStore_lsq (s : State) (d : Fin numInstrDestinations) :
    (checkStore current s d).map State.lsq = LoadStoreQueue.checkStore current s.lsq d := by
  rw [checkStore, LoadStoreQueue.checkStore]
  split_ifs
  · exact addStoreQueue_lsq s current d
  · rfl

theorem doMemoryScheduling_lsq (s : State) (current : Nat) :
    (doMemoryScheduling s current).map State.lsq = LoadStoreQueue.doMemoryScheduling s.lsq current := by
  have hloads : (run (checkLoad current) s (List.finRange numInstrSources)).map State.lsq =
      run (LoadStoreQueue.checkLoad current) s.lsq (List.finRange numInstrSources) := run_map checkLoad_lsq s _
  have hstores : ∀ u, (run (checkStore current) u (List.finRange numInstrDestinations)).map State.lsq =
      run (LoadStoreQueue.checkStore current) u.lsq (List.finRange numInstrDestinations) := fun u => run_map checkStore_lsq u _
  rw [doMemoryScheduling, checkAndAddLsq, LoadStoreQueue.doMemoryScheduling, LoadStoreQueue.checkAndAddLsq]
  rw [run, run] at hloads
  rw [← hloads]
  cases (List.finRange numInstrSources).foldlM (checkLoad current) s with
  | none => rfl
  | some u =>
      have hu := hstores u
      rw [run, run] at hu
      rw [Option.map_some, Option.bind_some, Option.bind_some, ← hu]
      cases (List.finRange numInstrDestinations).foldlM (checkStore current) u with
      | none => rfl
      | some v =>
          show some (State.lsq (if _ then _ else _)) = some (if _ then _ else _)
          split_ifs
          · rfl
          · rfl

theorem issueLoad_cons (knobCloudsuite : Bool) (cpu : UInt8) (accepted : Bool) {rest : List Nat} (h : s.rtl0 = q :: rest) :
    issueLoad knobCloudsuite cpu s accepted =
      { s with
        requests := s.requests ++ [dataPacket knobCloudsuite cpu .load q (s.lsq.lq q) (s.lqAsid q)]
        rtl0 := if accepted then rest else s.rtl0 } := by
  rw [issueLoad, h]

theorem issueStore_cons (knobCloudsuite : Bool) (cpu : UInt8) (accepted : Bool) {rest : List Nat} (h : s.rts0 = q :: rest) :
    issueStore knobCloudsuite cpu s accepted =
      { s with
        requests := s.requests ++ [dataPacket knobCloudsuite cpu .rfo q (s.lsq.sq.entry q) (s.sqAsid q)]
        rts0 := if accepted then rest else s.rts0 } := by
  rw [issueStore, h]

theorem turn_lsq {e : LoadStoreQueue.Event} (h : s.turn e = some t) : LoadStoreQueue.step s.lsq e = some t.lsq := by
  obtain ⟨lsq, hlsq, rfl⟩ := Option.map_eq_some_iff.mp h
  exact hlsq

/-- The queues take a turn or none: what is offered to the data TLB is no turn of theirs. -/
theorem step_lsq {e : Event} (h : step knobCloudsuite cpu s e = some t) :
    t.lsq = s.lsq ∨ ∃ c, LoadStoreQueue.step s.lsq c = some t.lsq := by
  cases e with
  | dispatch x =>
      refine .inr ⟨.dispatch (OooModelInstr.ofCloudsuite cpu x).operands, congrArg some ?_⟩
      rw [← Option.some.inj h, dispatchInstruction]
      split_ifs with hroom
      · rfl
      · exact if_neg hroom
  | schedule a => exact .inr ⟨_, turn_lsq h⟩
  | execute a => exact .inr ⟨_, turn_lsq h⟩
  | scheduleMemory a =>
      rw [step] at h
      split_ifs at h with ha
      · refine .inr ⟨.scheduleMemory a, ?_⟩
        rw [LoadStoreQueue.step, if_pos ha, ← doMemoryScheduling_lsq, h]
        rfl
      · exact .inl (Option.some.inj h ▸ rfl)
  | issueStore accepted =>
      refine .inl ?_
      rw [← Option.some.inj h, issueStore]
      split
      · rfl
      · rfl
  | issueLoad accepted =>
      refine .inl ?_
      rw [← Option.some.inj h, issueLoad]
      split
      · rfl
      · rfl
  | executeStore n =>
      rw [step] at h
      split_ifs at h
      · exact .inr ⟨_, turn_lsq h⟩
      · exact .inl (Option.some.inj h ▸ rfl)
  | returnLoad n =>
      rw [step] at h
      split_ifs at h
      · exact .inr ⟨_, turn_lsq h⟩
      · exact .inl (Option.some.inj h ▸ rfl)
  | complete a => exact .inr ⟨_, turn_lsq h⟩
  | retire room => exact .inr ⟨.retire room, congrArg (fun v : State => some v.lsq) (Option.some.inj h)⟩

theorem run_lsq {robSize lqSize sqSize : Nat} {es : List Event}
    (h : run (step knobCloudsuite cpu) (.initial robSize lqSize sqSize) es = some s) :
    ∃ cs, run LoadStoreQueue.step (.initial robSize lqSize sqSize) cs = some s.lsq := by
  refine run_preserves (I := fun s => ∃ cs, run LoadStoreQueue.step (.initial robSize lqSize sqSize) cs = some s.lsq) ?_ ⟨[], rfl⟩ h
  rintro s t e - ⟨cs, hcs⟩ ht
  rcases step_lsq ht with hsame | ⟨c, hc⟩
  · exact ⟨cs, hsame ▸ hcs⟩
  · refine ⟨cs ++ [c], ?_⟩
    rw [run_append, hcs, Option.bind_some, run_single, hc]

end Queues

section First

structure Waiting (s : State) : Prop where
  loads : s.rtl0 = s.lsq.loadsToReturn
  stores : s.rts0 = s.lsq.storesToExecute

/-- The instruction at the head, of which there is no older one, puts its operands into the queues. -/
structure Ready (current : Nat) (s : State) : Prop where
  inv : Inv s.lsq
  live : Live s.lsq.rob current
  head : s.lsq.rob.head = current
  waiting : Waiting s

theorem addLoadQueue_head {s : LoadStoreQueue.State}
    (hfree : (List.range s.lqSize).find? (fun i => (s.lq i).virtualAddress = 0) = some q) (hempty : s.lq q = .empty) :
    LoadStoreQueue.addLoadQueue s s.rob.head j = some (enqueue q (entered s s.rob.head j q none)) := by
  have hnone : (s.lq q).producerId = none := by
    rw [hempty]
    rfl
  have hindex : LoadStoreQueue.forwardingIndex (entered s s.rob.head j q none) s.rob.head q = none := by
    rw [LoadStoreQueue.forwardingIndex, List.find?_eq_none]
    intro i _ hi
    rw [decide_eq_true_iff] at hi
    exact hi.2.2.1 rfl
  have hbackward : backward s.rob s.rob.head = [] := if_pos rfl
  rw [addLoadQueue_eq hfree hnone, hbackward, List.find?_nil, LoadStoreQueue.forwardFromQueue, hindex]
  rfl

theorem addLoadQueue_ready (h : Ready current s) (hsource : (s.lsq.rob.entry current).sourceMemory j ≠ 0)
    (hadded : (s.lsq.rob.entry current).sourceAdded j = false) (hroom : s.lsq.lqOccupancy < s.lsq.lqSize) :
    ∃ t, addLoadQueue s current j = some t ∧ Ready current t ∧ t.rtl0 ≠ [] := by
  obtain ⟨hinv, hlive, rfl, hwaiting⟩ := h
  obtain ⟨q, hfree, hempty, -⟩ := exists_free hinv.loads hroom
  obtain ⟨lsq, hlsq, hinv', hkept⟩ := addLoadQueue_inv hinv hlive hsource hadded hroom
  have hvalue : enqueue q (entered s.lsq s.lsq.rob.head j q none) = lsq :=
    Option.some.inj ((addLoadQueue_head hfree hempty).symm.trans hlsq)
  have hself := entered_lq_self s.lsq.rob.head j none hempty
  have hgo : ((entered s.lsq s.lsq.rob.head j q none).lq q).virtualAddress ≠ 0 ∧
      ((entered s.lsq s.lsq.rob.head j q none).lq q).producerId = none := by
    rw [hself]
    exact ⟨hsource, rfl⟩
  rw [enqueue, if_pos hgo] at hvalue
  have hpush : (lsq.lq q).virtualAddress ≠ 0 ∧ (lsq.lq q).producerId = none := hvalue ▸ hgo
  refine ⟨{ ({ s with lqAsid := Function.update s.lqAsid q (s.robAsid s.lsq.rob.head) }.over lsq) with
    rtl0 := s.rtl0 ++ [q] }, ?_, ⟨hinv', hkept.live.mpr hlive, hkept.head, ?_, ?_⟩, ?_⟩
  · rw [addLoadQueue, hfree]
    show Option.map _ (LoadStoreQueue.addLoadQueue _ _ _) = _
    rw [hlsq, Option.map_some, if_pos hpush]
    rfl
  · show s.rtl0 ++ [q] = lsq.loadsToReturn
    rw [← hvalue, hwaiting.loads]
    rfl
  · show s.rts0 = lsq.storesToExecute
    rw [← hvalue, hwaiting.stores]
    rfl
  · exact List.append_ne_nil_of_right_ne_nil _ (List.cons_ne_nil q [])

theorem checkLoad_ready (h : Ready current s) (ht : checkLoad current s j = some t) : Ready current t := by
  rw [checkLoad] at ht
  split_ifs at ht with hgo
  · obtain ⟨u, hu, hready, -⟩ := addLoadQueue_ready h hgo.1 hgo.2.1 hgo.2.2
    exact Option.some.inj (hu.symm.trans ht) ▸ hready
  · exact Option.some.inj ht ▸ h

theorem checkStore_waiting (h : Waiting s) (ht : checkStore current s d = some t) : Waiting t := by
  rw [checkStore] at ht
  split_ifs at ht
  · obtain ⟨lsq, hlsq, rfl⟩ := Option.map_eq_some_iff.mp ht
    rw [LoadStoreQueue.addStoreQueue] at hlsq
    split_ifs at hlsq
    rw [← Option.some.inj hlsq]
    exact ⟨h.loads, congrArg (fun l => l ++ [s.lsq.sq.tail]) h.stores⟩
  · exact Option.some.inj ht ▸ h

theorem doMemoryScheduling_waiting (h : Ready current s) (ht : doMemoryScheduling s current = some t) : Waiting t := by
  obtain ⟨v, hv, rfl⟩ := Option.map_eq_some_iff.mp ht
  obtain ⟨u, hu, hv⟩ := Option.bind_eq_some_iff.mp hv
  have hloads : Ready current u := run_preserves (fun _ _ _ _ hs ht => checkLoad_ready hs ht) h hu
  have hstores : Waiting v := run_preserves (fun _ _ _ _ hs ht => checkStore_waiting hs ht) hloads.waiting hv
  split_ifs
  · exact ⟨hstores.loads, hstores.stores⟩
  · exact hstores

theorem checkLoad_keeps (h : s.rtl0 ≠ []) (ht : checkLoad current s j = some t) : t.rtl0 ≠ [] := by
  rw [checkLoad] at ht
  split_ifs at ht
  · rw [addLoadQueue] at ht
    split at ht
    · cases ht
    · obtain ⟨lsq, -, rfl⟩ := Option.map_eq_some_iff.mp ht
      dsimp only
      split_ifs
      · exact List.append_ne_nil_of_left_ne_nil h _
      · exact h
  · exact Option.some.inj ht ▸ h

theorem checkStore_keeps (ht : checkStore current s d = some t) : t.rtl0 = s.rtl0 ∧ (s.rts0 ≠ [] → t.rts0 ≠ []) := by
  rw [checkStore] at ht
  split_ifs at ht
  · obtain ⟨lsq, -, rfl⟩ := Option.map_eq_some_iff.mp ht
    exact ⟨rfl, fun h => List.append_ne_nil_of_left_ne_nil h _⟩
  · exact Option.some.inj ht ▸ ⟨rfl, id⟩

/-- An instruction that is about to put its first operand into queues that have room. -/
structure Fresh (current : Nat) (m : Instr) (s : State) : Prop where
  ready : Ready current s
  source : (s.lsq.rob.entry current).sourceMemory = m.sourceMemory
  destination : (s.lsq.rob.entry current).destinationMemory = m.destinationMemory
  sourceAdded : ∀ j, (s.lsq.rob.entry current).sourceAdded j = false
  destinationAdded : ∀ d, (s.lsq.rob.entry current).destinationAdded d = false
  loadRoom : s.lsq.lqOccupancy < s.lsq.lqSize
  storeRoom : s.lsq.sq.occupancy < s.lsq.sq.size
  ticket : ∀ d, m.destinationMemory d ≠ 0 → s.lsq.sta.head? = some (s.lsq.rob.entry current).instrId

variable {m : Instr}

theorem loads_first {rest : List (Fin numInstrSources)} (h : Fresh current m s) (hrest : ∃ j ∈ rest, m.sourceMemory j ≠ 0)
    (ht : rest.foldlM (checkLoad current) s = some t) : t.rtl0 ≠ [] := by
  refine run_reaches (P := fun v => v.rtl0 ≠ []) (Q := fun j => m.sourceMemory j ≠ 0) (fun j hj => ?_) (fun j u hj hu => ?_)
    (fun _ _ _ => checkLoad_keeps) hrest ht
  · rw [checkLoad, h.source, if_neg (fun hgo => hj hgo.1)]
  · obtain ⟨v, hv, -, hwaits⟩ := addLoadQueue_ready h.ready (h.source ▸ hj) (h.sourceAdded j) h.loadRoom
    rw [checkLoad, if_pos ⟨h.source ▸ hj, h.sourceAdded j, h.loadRoom⟩, hv] at hu
    exact Option.some.inj hu ▸ hwaits

theorem stores_first {rest : List (Fin numInstrDestinations)} (h : Fresh current m s)
    (hrest : ∃ d ∈ rest, m.destinationMemory d ≠ 0) (ht : rest.foldlM (checkStore current) s = some t) : t.rts0 ≠ [] := by
  refine run_reaches (P := fun v => v.rts0 ≠ []) (Q := fun d => m.destinationMemory d ≠ 0) (fun d hd => ?_) (fun d u hd hu => ?_)
    (fun _ _ _ hs hv => (checkStore_keeps hv).2 hs) hrest ht
  · rw [checkStore, h.destination, if_neg (fun hgo => hd hgo.1)]
  · rw [checkStore, if_pos ⟨h.destination ▸ hd, h.destinationAdded d, h.storeRoom, h.ticket d hd⟩] at hu
    obtain ⟨lsq, -, rfl⟩ := Option.map_eq_some_iff.mp hu
    exact List.append_ne_nil_of_right_ne_nil _ (List.cons_ne_nil _ [])

theorem doMemoryScheduling_first (h : Fresh current m s) (hm : ∃ o, m.address o ≠ 0)
    (ht : doMemoryScheduling s current = some t) : t.rtl0 ≠ [] ∨ t.rts0 ≠ [] := by
  obtain ⟨v, hv, rfl⟩ := Option.map_eq_some_iff.mp ht
  obtain ⟨u, hu, hv⟩ := Option.bind_eq_some_iff.mp hv
  have hwaits : v.rtl0 ≠ [] ∨ v.rts0 ≠ [] := by
    by_cases hload : ∃ j, m.sourceMemory j ≠ 0
    · obtain ⟨j, hj⟩ := hload
      have hu := loads_first h ⟨j, List.mem_finRange j, hj⟩ hu
      refine .inl (run_preserves (I := fun v => v.rtl0 ≠ []) (fun _ _ _ _ hs ht => ?_) hu hv)
      rw [(checkStore_keeps ht).1]
      exact hs
    · have hidle : (List.finRange numInstrSources).foldlM (checkLoad current) s = some s := by
        refine run_idle (fun j _ => ?_)
        rw [checkLoad, h.source, if_neg (fun hgo => hload ⟨j, hgo.1⟩)]
      obtain rfl := Option.some.inj (hidle.symm.trans hu)
      obtain ⟨o, ho⟩ := hm
      cases o with
      | inl j => exact absurd ⟨j, ho⟩ hload
      | inr d => exact .inr (stores_first h ⟨d, List.mem_finRange d, ho⟩ hv)
  split_ifs
  · exact hwaits
  · exact hwaits

end First

section Reached

variable {robSize lqSize sqSize : Nat} (hrob : 0 < robSize) (hlq : 0 < lqSize) (hsq : 0 < sqSize)

def scheduled (robSize lqSize sqSize : Nat) (m : Instr) : LoadStoreQueue.State :=
  (admitted (.initial robSize lqSize sqSize) m).modifyRob 0
    (fun e => { e with scheduled := if e.isMemory then .inflight else .completed })

def begun (robSize lqSize sqSize : Nat) (cpu : UInt8) (x : CloudsuiteInstr) : State :=
  (dispatchInstruction cpu (.initial robSize lqSize sqSize) x).over
    (scheduled robSize lqSize sqSize (OooModelInstr.ofCloudsuite cpu x).operands)

include hrob

theorem admitted_slot : (admitted (.initial robSize lqSize sqSize) m).rob.slot 0 = 0 := Nat.mod_eq_of_lt hrob

theorem scheduled_live : Live (scheduled robSize lqSize sqSize m).rob 0 := ⟨0, Nat.zero_lt_one, Nat.mod_eq_of_lt hrob⟩

theorem dispatch_first : LoadStoreQueue.dispatchInstruction (.initial robSize lqSize sqSize) m =
    admitted (.initial robSize lqSize sqSize) m := if_pos hrob

theorem schedule_first : LoadStoreQueue.step (admitted (.initial robSize lqSize sqSize) m) (.schedule 0) =
    some (scheduled robSize lqSize sqSize m) := by
  have hidle : 0 < (admitted (.initial robSize lqSize sqSize) m).rob.occupancy ∧
      ((admitted (.initial robSize lqSize sqSize) m).rob.entry ((admitted (.initial robSize lqSize sqSize) m).rob.slot 0)).scheduled
        = .idle := by
    rw [admitted_slot hrob]
    exact ⟨Nat.zero_lt_one, rfl⟩
  rw [LoadStoreQueue.step, if_pos hidle, admitted_slot hrob]
  rfl

theorem scheduled_inv (hsq : 0 < sqSize) : Inv (scheduled robSize lqSize sqSize m) := by
  have hinitial : Inv (.initial robSize lqSize sqSize) := LsqExact.initial_inv hrob hsq
  have hinv : Inv (admitted (.initial robSize lqSize sqSize) m) := dispatch_first hrob ▸ LsqExact.dispatch_inv hinitial m
  obtain ⟨u, hu, hinv'⟩ := LsqExact.step_inv (e := .schedule 0) hinv (fun n q he => nomatch he)
  exact Option.some.inj (hu.symm.trans (schedule_first hrob)) ▸ hinv'

include hlq hsq

theorem scheduled_fresh (hlsq : s.lsq = scheduled robSize lqSize sqSize m) (hload : s.rtl0 = []) (hstore : s.rts0 = []) :
    Fresh 0 m s := by
  have hready : Ready 0 s := by
    refine ⟨?_, ?_, ?_, ?_, ?_⟩
    · rw [hlsq]
      exact scheduled_inv hrob hsq
    · rw [hlsq]
      exact scheduled_live hrob
    · rw [hlsq]
      rfl
    · rw [hlsq, hload]
      rfl
    · rw [hlsq, hstore]
      rfl
  constructor
  · exact hready
  all_goals rw [hlsq]
  · rfl
  · rfl
  · exact fun _ => rfl
  · exact fun _ => rfl
  · exact hlq
  · exact hsq
  · intro d hd
    have hmem : d ∈ (List.finRange numInstrDestinations).filter (fun i => m.destinationMemory i ≠ 0) :=
      List.mem_filter.mpr ⟨List.mem_finRange d, decide_eq_true hd⟩
    show (List.map (fun _ => 0) ((List.finRange numInstrDestinations).filter (fun i => m.destinationMemory i ≠ 0))).head? = some 0
    cases hstores : (List.finRange numInstrDestinations).filter (fun i => m.destinationMemory i ≠ 0) with
    | nil =>
        rw [hstores] at hmem
        cases hmem
    | cons i rest => rfl

omit hlq hsq in
theorem first_dispatched (x : CloudsuiteInstr) : dispatchInstruction cpu (.initial robSize lqSize sqSize) x =
    { State.initial robSize lqSize sqSize with
      lsq := admitted (.initial robSize lqSize sqSize) (OooModelInstr.ofCloudsuite cpu x).operands
      robAsid := Function.update (fun _ => .unset) 0 (OooModelInstr.ofCloudsuite cpu x).asid
      trace := [x] } := by
  have hroom : (State.initial robSize lqSize sqSize).lsq.rob.occupancy < (State.initial robSize lqSize sqSize).lsq.rob.size := hrob
  rw [dispatchInstruction, if_pos hroom]
  exact congrArg (fun lsq => State.mk lsq _ _ _ _ _ _ _) (dispatch_first hrob)

omit hlq hsq in
theorem begun_run (x : CloudsuiteInstr) :
    run (step knobCloudsuite cpu) (.initial robSize lqSize sqSize) [.dispatch x, .schedule 0] =
      some (begun robSize lqSize sqSize cpu x) := by
  have hturn : (dispatchInstruction cpu (.initial robSize lqSize sqSize) x).turn (.schedule 0) =
      some (begun robSize lqSize sqSize cpu x) := by
    rw [State.turn, begun, first_dispatched hrob]
    exact congrArg (Option.map _) (schedule_first hrob)
  rw [run_cons, step, Option.bind_some, run_single, step]
  exact hturn

theorem begun_fresh (x : CloudsuiteInstr) :
    Fresh 0 (OooModelInstr.ofCloudsuite cpu x).operands (begun robSize lqSize sqSize cpu x) := by
  rw [begun, first_dispatched hrob]
  exact scheduled_fresh hrob hlq hsq rfl rfl rfl

variable (knobCloudsuite) in
theorem waiting_reached (x : CloudsuiteInstr) (hx : ∃ o, (OooModelInstr.ofCloudsuite cpu x).operands.address o ≠ 0) :
    ∃ t, run (step knobCloudsuite cpu) (.initial robSize lqSize sqSize) [.dispatch x, .schedule 0, .scheduleMemory 0] = some t ∧
      Inv t.lsq ∧ Waiting t ∧ (t.rtl0 ≠ [] ∨ t.rts0 ≠ []) ∧ t.trace = [x] := by
  have hfresh : Fresh 0 (OooModelInstr.ofCloudsuite cpu x).operands (begun robSize lqSize sqSize cpu x) :=
    begun_fresh hrob hlq hsq x
  have hmemory : 0 < (OooModelInstr.ofCloudsuite cpu x).operands.operands.card := by
    obtain ⟨o, ho⟩ := hx
    exact Finset.card_pos.mpr ⟨o, LsqInvariant.mem_operands.mpr ho⟩
  have hslot : (begun robSize lqSize sqSize cpu x).lsq.rob.slot 0 = 0 := Nat.mod_eq_of_lt hrob
  have hguard : 0 < (begun robSize lqSize sqSize cpu x).lsq.rob.occupancy ∧
      ((begun robSize lqSize sqSize cpu x).lsq.rob.entry ((begun robSize lqSize sqSize cpu x).lsq.rob.slot 0)).isMemory = true ∧
      ((begun robSize lqSize sqSize cpu x).lsq.rob.entry ((begun robSize lqSize sqSize cpu x).lsq.rob.slot 0)).scheduled
        = .inflight := by
    rw [hslot]
    exact ⟨Nat.zero_lt_one, decide_eq_true hmemory, if_pos (decide_eq_true hmemory)⟩
  obtain ⟨lsq, hlsq, hinv⟩ := LsqStores.doMemoryScheduling_inv hfresh.ready.inv hfresh.ready.live
  rw [← doMemoryScheduling_lsq] at hlsq
  obtain ⟨t, ht, rfl⟩ := Option.map_eq_some_iff.mp hlsq
  refine ⟨t, ?_, hinv, doMemoryScheduling_waiting hfresh.ready ht, doMemoryScheduling_first hfresh hx ht, ?_⟩
  · have happend := run_append (step knobCloudsuite cpu) (.initial robSize lqSize sqSize) [.dispatch x, .schedule 0]
      [.scheduleMemory 0]
    rw [begun_run hrob, Option.bind_some, run_single, step, if_pos hguard, hslot, ht] at happend
    exact happend
  · rw [(copied_doMemoryScheduling ht).trace, begun, first_dispatched hrob]
    rfl

variable (knobCloudsuite) in
theorem request_reached (x : CloudsuiteInstr) (hx : ∃ o, (OooModelInstr.ofCloudsuite cpu x).operands.address o ≠ 0) :
    ∃ es s r, run (step knobCloudsuite cpu) (.initial robSize lqSize sqSize) es = some s ∧ s.trace = [x] ∧
      r ∈ s.requests ∧ r.fullAddr ≠ 0 := by
  obtain ⟨t, ht, hinv, hwaiting, hwaits, htrace⟩ := waiting_reached knobCloudsuite hrob hlq hsq x hx
  have hnext : ∀ e u, step knobCloudsuite cpu t e = some u → run (step knobCloudsuite cpu) (.initial robSize lqSize sqSize)
      ([.dispatch x, .schedule 0, .scheduleMemory 0] ++ [e]) = some u := by
    intro e u hu
    rw [run_append, ht, Option.bind_some, run_single, hu]
  rcases hwaits with hload | hstore
  · obtain ⟨q, rest, hq⟩ := List.exists_cons_of_ne_nil hload
    have hused : Used t.lsq q := by
      refine (hinv.loads.returning.mp ?_).1
      rw [← hwaiting.loads, hq]
      exact List.mem_cons_self
    have hissue := issueLoad_cons knobCloudsuite cpu true hq
    refine ⟨_, _, dataPacket knobCloudsuite cpu .load q (t.lsq.lq q) (t.lqAsid q), hnext (.issueLoad true) _ rfl, ?_, ?_, hused⟩
    · rw [hissue]
      exact htrace
    · rw [hissue]
      exact List.mem_append_right _ (List.mem_singleton_self _)
  · obtain ⟨q, rest, hq⟩ := List.exists_cons_of_ne_nil hstore
    have hlive : Live t.lsq.sq q := by
      refine (hinv.stores.executing.mp ?_).1
      rw [← hwaiting.stores, hq]
      exact List.mem_cons_self
    have hissue := issueStore_cons knobCloudsuite cpu true hq
    refine ⟨_, _, dataPacket knobCloudsuite cpu .rfo q (t.lsq.sq.entry q) (t.sqAsid q), hnext (.issueStore true) _ rfl, ?_, ?_,
      hinv.stores.nonzero hlive⟩
    · rw [hissue]
      exact htrace
    · rw [hissue]
      exact List.mem_append_right _ (List.mem_singleton_self _)

end Reached

end Thermometer.AddressOffered
