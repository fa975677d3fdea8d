import Thermometer.StoreInvariant

namespace Thermometer.StorePassage

open Lib.Rings Lib.Runs Lib.Windows Lib.Contents Lib.SlotRings StoreOrder StorePath LoadFrame StoreFrame StorePipeline StoreInvariant

open LoadStoreQueue (Instr numInstrDestinations checkLoad)

open ReorderBuffer (Stage numInstrSources)

variable {s t : State} {read : List Instr} {lsq : LoadStoreQueue.State} {size n : Nat} {z : Instr} {e : Event} {es : List Event}

section Turns

def Turned (size : Nat) (read : List Instr) (s : State) (e : LoadStoreQueue.Event) : Prop :=
  ∃ lsq, LoadStoreQueue.step s.lsq e = some lsq ∧ Inv size read [] { s with lsq := lsq }

variable {a : Nat}

theorem schedule_turned (h : Inv size read [] s) : Turned size read s (.schedule a) := by
  rw [Turned, LoadStoreQueue.step]
  split_ifs
  · exact ⟨_, rfl, h.of_path (pathOf_modifyRob rfl)⟩
  · exact ⟨_, rfl, h⟩

theorem execute_turned (h : Inv size read [] s) : Turned size read s (.execute a) := by
  rw [Turned, LoadStoreQueue.step]
  split_ifs with ha
  · have hlive : Live s.lsq.rob (s.lsq.rob.slot a) := live_slot ha.1
    exact ⟨_, rfl, h.mark .inflight hlive rfl (fun _ d hd => absurd ((h.path.knows hlive).without ha.2.1 d) hd)⟩
  · exact ⟨_, rfl, h⟩

theorem complete_turned (h : Inv size read [] s) : Turned size read s (.complete a) := by
  rw [Turned, LoadStoreQueue.step]
  split_ifs with ha
  · have hlive : Live s.lsq.rob (s.lsq.rob.slot a) := live_slot ha
    refine ⟨_, rfl, ?_⟩
    rw [LoadStoreQueue.completeExecution]
    split_ifs with hready hinflight
    · refine h.mark .completed hlive rfl (fun _ d hd => (h.path.knows hlive).executed ?_ d hd)
      show (s.lsq.rob.entry (s.lsq.rob.slot a)).executed ≠ .idle
      rw [hinflight]
      nofun
    · exact h
    · exact h
  · exact ⟨_, rfl, h⟩

theorem returnLoad_turned (h : Inv size read [] s) : Turned size read s (.returnLoad n) := by
  rw [Turned, LoadStoreQueue.step]
  cases s.lsq.loadsToReturn[n]? with
  | none => exact ⟨_, rfl, h⟩
  | some q => exact ⟨_, rfl, h.of_path aside_releaseLoad.path⟩

theorem executeStore_inv (h : Inv size read [] s) (hs : LoadStoreQueue.step s.lsq (.executeStore n) = some lsq) :
    Inv size read [] { s with lsq := lsq } := by
  rw [LoadStoreQueue.step] at hs
  cases hq : s.lsq.storesToExecute[n]? with
  | none =>
      rw [hq] at hs
      exact Option.some.inj hs ▸ h
  | some q =>
      rw [hq] at hs
      have hpath : pathOf lsq = pathOf { s.lsq with storesToExecute := s.lsq.storesToExecute.eraseIdx n } :=
        (aside_executeStore hs).path
      exact h.of_path hpath

end Turns

section Steps

def reads : Event → Option Instr
  | .init x => some x
  | _ => none

def turn (s : State) : Event → Option LoadStoreQueue.Event
  | .init _ => none
  | .dispatch => s.fetched.head?.map .dispatch
  | .schedule a => some (.schedule a)
  | .execute a => some (.execute a)
  | .scheduleMemory a => some (.scheduleMemory a)
  | .executeStore n => some (.executeStore n)
  | .returnLoad n => some (.returnLoad n)
  | .complete a => some (.complete a)
  | .retire room => some (.retire room)

/-- The assertions that can fail are about loads. -/
def LoadFails (s : State) : Event → Prop
  | .scheduleMemory a => (a < s.lsq.rob.occupancy ∧ (s.lsq.rob.entry (s.lsq.rob.slot a)).isMemory = true ∧
      (s.lsq.rob.entry (s.lsq.rob.slot a)).scheduled = .inflight) ∧
      (List.finRange numInstrSources).foldlM (checkLoad (s.lsq.rob.slot a)) s.lsq = none
  | .executeStore n => LoadStoreQueue.step s.lsq (.executeStore n) = none
  | _ => False

/-- No ticket is written over. -/
def NoWrap (s : State) (e : Event) : Prop := ∀ x, e = .init x → Fits s.uniqueId x s.sta

def Kept (size : Nat) (read : List Instr) (s : State) (e : Event) : Prop :=
  ∃ t, step s e = some t ∧ Inv size (read ++ (reads e).toList) [] t ∧
    run LoadStoreQueue.step s.lsq (turn s e).toList = some t.lsq

theorem inv_of_none (hreads : reads e = none) (h : Inv size read [] t) : Inv size (read ++ (reads e).toList) [] t := by
  rw [hreads, Option.toList_none, List.append_nil]
  exact h

theorem kept_of_turn {e' : LoadStoreQueue.Event} (hstep : step s e = s.turn e') (hturn : turn s e = some e')
    (hreads : reads e = none) (hs : LoadStoreQueue.step s.lsq e' = some lsq) (h : Inv size read [] { s with lsq := lsq }) :
    Kept size read s e := by
  refine ⟨{ s with lsq := lsq }, ?_, inv_of_none hreads h, ?_⟩
  · rw [hstep, State.turn, hs]
    rfl
  · rw [hturn]
    exact run_single.trans hs

theorem init_kept (h : Inv size read [] s) (hfits : Fits s.uniqueId z s.sta) : Kept size read s (.init z) := by
  obtain ⟨t, ht, hinv, hlsq⟩ := init_inv h hfits
  exact ⟨t, ht, hinv, congrArg some hlsq.symm⟩

theorem dispatch_kept (h : Inv size read [] s) : Kept size read s .dispatch := by
  refine ⟨_, rfl, inv_of_none rfl (dispatch_inv h), ?_⟩
  rw [turn, dispatchInstruction]
  cases s.fetched with
  | nil => rfl
  | cons x rest =>
      refine run_single.trans ?_
      show some (LoadStoreQueue.dispatchInstruction s.lsq x) = some (State.lsq (if _ then _ else _))
      split_ifs with hroom
      · rfl
      · rw [LoadStoreQueue.dispatchInstruction, if_neg hroom]

theorem scheduleMemory_kept {a : Nat} (h : Inv size read [] s) (hloads : ¬LoadFails s (.scheduleMemory a)) :
    Kept size read s (.scheduleMemory a) := by
  rw [Kept, step]
  show ∃ t, _ ∧ _ ∧ run LoadStoreQueue.step s.lsq [.scheduleMemory a] = _
  rw [run_single, LoadStoreQueue.step]
  split_ifs with ha
  · obtain ⟨lsq, hlsq⟩ := Option.ne_none_iff_exists'.mp (fun hnone => hloads ⟨ha, hnone⟩)
    obtain ⟨t, ht, hinv, hlow⟩ := scheduling_inv h (live_slot ha.1) hlsq
    exact ⟨t, ht, inv_of_none rfl hinv, hlow⟩
  · exact ⟨s, rfl, inv_of_none rfl h, rfl⟩

theorem retire_kept (h : Inv size read [] s) (room : Nat) : Kept size read s (.retire room) := by
  obtain ⟨t, ht, hinv, hlsq⟩ := retire_inv room h
  exact ⟨t, ht, inv_of_none rfl hinv, run_single.trans (congrArg some hlsq)⟩

theorem step_kept (h : Inv size read [] s) (hwrap : NoWrap s e) (hloads : ¬LoadFails s e) : Kept size read s e := by
  cases e with
  | init x => exact init_kept h (hwrap x rfl)
  | dispatch => exact dispatch_kept h
  | schedule a =>
      obtain ⟨lsq, hs, hinv⟩ := schedule_turned (a := a) h
      exact kept_of_turn rfl rfl rfl hs hinv
  | execute a =>
      obtain ⟨lsq, hs, hinv⟩ := execute_turned (a := a) h
      exact kept_of_turn rfl rfl rfl hs hinv
  | scheduleMemory a => exact scheduleMemory_kept h hloads
  | executeStore n =>
      obtain ⟨lsq, hs⟩ := Option.ne_none_iff_exists'.mp hloads
      exact kept_of_turn rfl rfl rfl hs (executeStore_inv h hs)
  | returnLoad n =>
      obtain ⟨lsq, hs, hinv⟩ := returnLoad_turned (n := n) h
      exact kept_of_turn rfl rfl rfl hs hinv
  | complete a =>
      obtain ⟨lsq, hs, hinv⟩ := complete_turned (a := a) h
      exact kept_of_turn rfl rfl rfl hs hinv
  | retire room => exact retire_kept h room

theorem step_none (h : LoadFails s e) : step s e = none := by
  cases e with
  | scheduleMemory a =>
      rw [step, if_pos h.1, doMemoryScheduling, checkAndAddLsq, h.2]
      rfl
  | executeStore n =>
      rw [step, State.turn, show LoadStoreQueue.step s.lsq (.executeStore n) = none from h]
      rfl
  | init | dispatch | schedule | execute | returnLoad | complete | retire => exact h.elim

end Steps

section Room

variable {sta : SlotRing Nat} {queue : List Nat}

theorem fits_of_room (h : Holds sta queue) (hroom : queue.length + (storesOf n z).length ≤ sta.size) : Fits n z sta := by
  have hall : ∀ rest, queue.length + (rest.filter (fun i => z.destinationMemory i ≠ 0)).length ≤ sta.size →
      EveryStep (numberStore n z) sta (fun _ sta i => z.destinationMemory i ≠ 0 → sta.entry sta.tail = none) rest := by
    intro rest
    induction rest using List.reverseRecOn with
    | nil =>
        intro _ pre c post _ heq
        exact absurd heq.symm (List.append_ne_nil_of_right_ne_nil pre (List.cons_ne_nil c post))
    | append_singleton rest i ih =>
        intro hroom
        rw [List.filter_append, List.length_append] at hroom
        have hrest := ih (by omega)
        refine hrest.concat (fun u hu hz => ?_)
        obtain ⟨sta', hsta', hholds⟩ := numberStores_holds rest h hrest
        rw [hsta', Option.some.injEq] at hu
        subst hu
        apply hholds.free
        rw [numberStores_size hsta', List.length_append, List.length_map]
        rw [List.filter_cons_of_pos (by simpa using hz), List.length_cons] at hroom
        omega
  apply hall
  rw [storesOf, List.length_map] at hroom
  exact hroom

end Room

/-- All stores that have been read, in program order. -/
def stores (es : List Event) : List Store := storesFrom 0 (es.filterMap reads)

theorem reads_concat : (es ++ [e]).filterMap reads = es.filterMap reads ++ (reads e).toList := by
  rw [List.filterMap_append]
  cases e with
  | init x => rfl
  | dispatch | schedule | execute | scheduleMemory | executeStore | returnLoad | complete | retire => rfl

/-- The stores that have left the store queue, those in it and those whose tickets are in the ring are all that have
been read, in program order. Each is written once, in that order, and its slot is released after that. -/
structure InOrder (es : List Event) (s : State) : Prop where
  order : ∃ pending, releases s.log ++ (contents s.lsq.sq).map storeOf ++ pending = stores es ∧
    Holds s.sta (pending.map Store.instrId)
  shape : Shape (view storeOf s.lsq.sq) .empty
  tail : s.lsq.sq.occupancy < s.lsq.sq.size → (s.lsq.sq.entry s.lsq.sq.tail).virtualAddress = 0
  once : (writes s.log).Nodup
  written : releases s.log <+: writes s.log ∧ writes s.log <+: releases s.log ++ (contents s.lsq.sq).map storeOf
  passed : ∀ l x r, s.log = l ++ .released x :: r → .written x ∈ l

theorem order_of_inv (h : Inv size read [] s) :
    ∃ pending, releases s.log ++ (contents s.lsq.sq).map storeOf ++ pending = storesFrom 0 read ∧
      pending.map Store.instrId = tickets s := by
  obtain ⟨pending, hsplit, htickets⟩ := h.path.split
  refine ⟨pending ++ storesFrom s.lsq.program.length s.fetched, ?_, ?_⟩
  · have hcontents : contents (pathOf s.lsq).sq = (contents s.lsq.sq).map storeOf := contents_view
    rw [← h.program, storesFrom_append, Nat.zero_add, ← List.append_assoc, ← hcontents, hsplit]
    rfl
  · rw [List.map_append, htickets]
    rfl

theorem inOrder_of_inv (h : Inv size (es.filterMap reads) [] s) : InOrder es s := by
  obtain ⟨pending, hsplit, htickets⟩ := order_of_inv h
  have hcontents : contents (pathOf s.lsq).sq = (contents s.lsq.sq).map storeOf := contents_view
  refine ⟨⟨pending, hsplit, ?_⟩, h.path.sq, tail_free h, storesFrom_nodup.sublist h.path.written.sublist, ⟨?_, ?_⟩,
    fun _ _ _ => h.passed⟩
  · rw [htickets]
    exact h.ring
  · exact prefix_of_subset storesFrom_nodup h.path.left h.path.written h.path.before
  · rw [← hcontents]
    exact prefix_of_subset storesFrom_nodup h.path.written h.path.entered h.path.after

section Runs

variable {robSize lqSize sqSize staSize : Nat}

theorem initial_inv (hrob : 0 < robSize) (hsq : 0 < sqSize) (hsta : 0 < staSize) :
    Inv staSize [] [] (.initial robSize lqSize sqSize staSize) :=
  ⟨rfl, rfl, holds_initial hsta, initial_ordered hrob hsq, fun heq => absurd heq.symm (List.append_ne_nil_of_right_ne_nil _ nofun)⟩

theorem run_inv (hrob : 0 < robSize) (hsq : 0 < sqSize) (hsta : 0 < staSize)
    (hwrap : EveryStep step (.initial robSize lqSize sqSize staSize) (fun _ => NoWrap) es)
    (hs : run step (.initial robSize lqSize sqSize staSize) es = some s) : Inv staSize (es.filterMap reads) [] s ∧
      ∃ turns, run LoadStoreQueue.step (.initial robSize lqSize sqSize) turns = some s.lsq := by
  induction es using List.reverseRecOn generalizing s with
  | nil =>
      rw [run_nil, Option.some.injEq] at hs
      rw [← hs]
      exact ⟨initial_inv hrob hsq hsta, [], rfl⟩
  | append_singleton es e ih =>
      obtain ⟨u, hu, hstep⟩ := run_concat hs
      obtain ⟨hinv, turns, hturns⟩ := ih hwrap.of_append hu
      have hloads : ¬LoadFails u e := by
        intro hfail
        rw [step_none hfail] at hstep
        cases hstep
      obtain ⟨v, hv, hkept, hturn⟩ := step_kept hinv (hwrap.last hu) hloads
      rw [hv, Option.some.injEq] at hstep
      subst hstep
      refine ⟨?_, turns ++ (turn u e).toList, ?_⟩
      · rw [reads_concat]
        exact hkept
      · rw [run_append, hturns]
        exact hturn

/-- As long as the ring of tickets does not wrap onto one, stores enter and leave in program order, and no step fails
but for a load. -/
theorem stores_in_order (hrob : 0 < robSize) (hsq : 0 < sqSize) (hsta : 0 < staSize)
    (hwrap : EveryStep step (.initial robSize lqSize sqSize staSize) (fun _ => NoWrap) es)
    (hs : run step (.initial robSize lqSize sqSize staSize) es = some s) :
    InOrder es s ∧ ∀ e, NoWrap s e → step s e = none → LoadFails s e := by
  have hinv := (run_inv hrob hsq hsta hwrap hs).1
  refine ⟨inOrder_of_inv hinv, fun e hfits hnone => ?_⟩
  by_contra hloads
  obtain ⟨t, ht, -⟩ := step_kept hinv hfits hloads
  rw [hnone] at ht
  cases ht

theorem noWrap_of_room (hrob : 0 < robSize) (hsq : 0 < sqSize) (hsta : 0 < staSize) (hroom : (stores es).length ≤ staSize) :
    EveryStep step (.initial robSize lqSize sqSize staSize) (fun _ => NoWrap) es := by
  induction es using List.reverseRecOn with
  | nil =>
      intro pre c post _ heq
      exact absurd heq.symm (List.append_ne_nil_of_right_ne_nil pre (List.cons_ne_nil c post))
  | append_singleton es e ih =>
      rw [stores, reads_concat, storesFrom_append, List.length_append] at hroom
      have hwrap := ih (le_trans (Nat.le_add_right _ _) hroom)
      refine hwrap.concat (fun s hs x he => ?_)
      subst he
      obtain ⟨hinv, -⟩ := run_inv hrob hsq hsta hwrap hs
      obtain ⟨pending, hsplit, htickets⟩ := order_of_inv hinv
      apply fits_of_room hinv.ring
      rw [hinv.capacity, ← htickets, List.length_map]
      have hlength := congrArg List.length hsplit
      rw [List.length_append] at hlength
      have hid : s.uniqueId = 0 + (es.filterMap reads).length := by
        rw [← hinv.program, List.length_append, Nat.zero_add]
        rfl
      rw [hid]
      have hlast : storesFrom (0 + (es.filterMap reads).length) (reads (.init x)).toList =
          storesOf (0 + (es.filterMap reads).length) x := List.append_nil _
      rw [hlast] at hroom
      omega

def refused : List Event :=
  [.init ⟨fun _ => 0, fun i => if i.val = 0 then 10 else if i.val = 1 then 20 else 0⟩,
    .init ⟨fun _ => 0, fun i => if i.val = 0 then 30 else 0⟩, .dispatch, .dispatch, .schedule 1, .scheduleMemory 1,
    .schedule 0, .scheduleMemory 0, .scheduleMemory 1, .executeStore 0, .executeStore 0, .complete 0, .retire 1, .retire 1]

/-- The write queue takes the first write of the older in one cycle, the second in the next. -/
theorem stores_in_order_refused : ∃ s, run step (.initial 2 1 3 8) refused = some s ∧
    s.log = [.written ⟨0, 10, 0⟩, .written ⟨0, 20, 1⟩, .released ⟨0, 10, 0⟩, .released ⟨0, 20, 1⟩] ∧
    InOrder refused s ∧ ∀ e, NoWrap s e → step s e = none → LoadFails s e := by
  have hrun : (run step (.initial 2 1 3 8) refused).map State.log =
      some [.written ⟨0, 10, 0⟩, .written ⟨0, 20, 1⟩, .released ⟨0, 10, 0⟩, .released ⟨0, 20, 1⟩] := by
    decide +kernel
  obtain ⟨s, hs, hlog⟩ := Option.map_eq_some_iff.mp hrun
  exact ⟨s, hs, hlog, stores_in_order (by decide) (by decide) (by decide)
    (noWrap_of_room (by decide) (by decide) (by decide) (by decide)) hs⟩

end Runs

end Thermometer.StorePassage
