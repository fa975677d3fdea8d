import Thermometer.LsqRetire

namespace Thermometer.LsqExact

open Lib.Rings Lib.Windows Lib.Runs LoadStoreQueue LsqInvariant LsqFrame LsqRelease LsqExecute

open ReorderBuffer (Stage numInstrSources)

variable {s u : State} {q n i k : Nat} {x : Instr} {o : Operand} {e : Event} {es : List Event}

section Dispatch

def admitted (s : State) (x : Instr) : State :=
  { s with
    rob := s.rob.push (.dispatched s.program.length x)
    sta := s.sta ++ ((List.finRange numInstrDestinations).filter (fun i => x.destinationMemory i ≠ 0)).map
      (fun _ => s.program.length)
    program := s.program ++ [x] }

variable (h : Inv s) (hfull : s.rob.occupancy < s.rob.size)

theorem admitted_tail : (admitted s x).rob.entry s.rob.tail = .dispatched s.program.length x := push_self

theorem admitted_of_ne (hi : i ≠ s.rob.tail) : (admitted s x).rob.entry i = s.rob.entry i := push_of_ne hi

include h

theorem admitted_live : Live (admitted s x).rob i ↔ Live s.rob i ∨ i = s.rob.tail := live_push h.basic.shape

theorem new_unfinished : ¬Finished s s.program.length o := by
  rintro ⟨d, hd, hid, -⟩
  exact absurd (h.history.bound d hd) (by rw [hid]; exact lt_irrefl _)

theorem admitted_instrAt (hi : Live s.rob i) :
    instrAt (admitted s x) (s.rob.entry i).instrId = instrAt s (s.rob.entry i).instrId :=
  instrAt_append rfl (h.basic.numbered.lt hi)

include hfull

theorem admitted_entry (hi : Live s.rob i) : (admitted s x).rob.entry i = s.rob.entry i := push_live h.basic.shape hfull hi

theorem admitted_older (hi : Live s.rob i) : Older (admitted s x).rob k i ↔ Older s.rob k i := by
  refine (older_push h.basic.shape).trans (or_iff_left ?_)
  rintro ⟨-, rfl⟩
  exact not_live_tail h.basic.shape hfull hi

theorem admitted_writesTo {a : Nat} (hk : Live s.rob k) : WritesTo (admitted s x) k a ↔ WritesTo s k a := by
  rw [WritesTo, WritesTo, admitted_entry h hfull hk]

theorem admitted_basic : Basic (admitted s x) := by
  have hb := h.basic
  have hlast : instrAt (admitted s x) s.program.length = x := instrAt_last rfl
  constructor
  · exact hb.shape.push hfull
  · have hnumbered := Numbered.push (e := .dispatched s.program.length x) hb.shape hb.numbered hfull rfl
    have hlength : (admitted s x).program.length = s.program.length + 1 := List.length_append
    rw [hlength]
    exact hnumbered
  · intro i hi
    rcases (admitted_live h).mp hi with hi | rfl
    · rw [admitted_entry h hfull hi, admitted_instrAt h hi]
      exact hb.source hi
    · rw [admitted_tail]
      exact (congrArg Instr.sourceMemory hlast).symm
  · intro i hi d
    rcases (admitted_live h).mp hi with hi | rfl
    · rw [admitted_entry h hfull hi, admitted_instrAt h hi]
      exact hb.destination hi d
    · rw [admitted_tail]
      exact .inl (congrFun (congrArg Instr.destinationMemory hlast).symm d)
  · intro i hi
    rcases (admitted_live h).mp hi with hi | rfl
    · rw [admitted_entry h hfull hi, admitted_instrAt h hi]
      exact hb.memory hi
    · rw [admitted_tail]
      show decide (0 < x.operands.card) = false ↔ (instrAt _ s.program.length).operands = ∅
      rw [hlast, decide_eq_false_iff_not, Nat.not_lt, Nat.le_zero, Finset.card_eq_zero]
  · intro i hi
    rcases (admitted_live h).mp hi with hi | rfl
    · rw [admitted_entry h hfull hi, hb.num hi]
      congr 2
      ext o
      rw [mem_unfinished, mem_unfinished, admitted_instrAt h hi]
      exact Iff.rfl
    · rw [admitted_tail]
      show (x.operands.card : Int) = (unfinished _ s.program.length).card
      congr 2
      ext o
      rw [mem_unfinished, hlast, mem_operands]
      exact (and_iff_left (new_unfinished h)).symm
  · intro i hi
    by_cases hne : i = s.rob.tail
    · rw [hne, admitted_tail] at hi
      cases hi
    · rw [admitted_of_ne hne] at hi ⊢
      exact hb.completed hi

omit hfull in
theorem admitted_history : History (admitted s x) := by
  have hh := h.history
  have hlength : (admitted s x).program.length = s.program.length + 1 := List.length_append
  refine ⟨hh.nodup, fun d hd => ?_, fun d hd => ?_, hh.released, fun n hn o ho => ?_⟩
  · rw [hlength]
    exact Nat.lt_succ_of_lt (hh.bound d hd)
  · rw [instrAt_append rfl (hh.bound d hd)]
    exact hh.address d hd
  · have hn : n + (s.rob.occupancy + 1) < s.program.length + 1 := by
      rw [← hlength]
      exact hn
    rw [instrAt_append (s := s) rfl (by omega)] at ho
    exact hh.retired n (by omega) o ho

theorem admitted_loads : Loads none none (admitted s x) := by
  have hl := h.loads
  have hentry : ∀ {q}, Used s q →
      (admitted s x).rob.entry ((admitted s x).lq q).robIndex = s.rob.entry (s.lq q).robIndex :=
    fun hq => admitted_entry h hfull (hl.live hq)
  constructor
  · exact hl.slot
  · intro q hq
    exact (admitted_live h).mpr (.inl (hl.live hq))
  · intro q hq
    rw [hentry hq]
    exact hl.id hq
  · intro q hq
    rw [hentry hq]
    exact hl.index hq
  · intro q hq
    rw [hentry hq]
    exact hl.added hq
  · intro q hq
    rw [hentry hq]
    exact hl.address hq
  · exact hl.waiting
  · intro i j hi ha hf
    rcases (admitted_live h).mp hi with hi | rfl
    · rw [admitted_entry h hfull hi] at ha hf ⊢
      exact hl.back hi ha hf
    · rw [admitted_tail] at ha
      cases ha
  · intro i j hi ha
    rcases (admitted_live h).mp hi with hi | rfl
    · rw [admitted_entry h hfull hi] at ha ⊢
      exact hl.unadded hi ha
    · rw [admitted_tail]
      exact new_unfinished h
  · exact hl.free
  · exact hl.occupancy
  · exact hl.nodup
  · exact hl.returning
  · intro q k hq hk hw
    have hk : Older s.rob k (s.lq q).robIndex := (admitted_older h hfull (hl.live hq)).mp hk
    obtain ⟨l, hkl, hold, hwl, hp⟩ := hl.youngest hq hk ((admitted_writesTo h hfull hk.left).mp hw)
    refine ⟨l, hkl.imp_right (admitted_older h hfull hold.left).mpr, (admitted_older h hfull (hl.live hq)).mpr hold,
      (admitted_writesTo h hfull hold.left).mpr hwl, ?_⟩
    rw [admitted_entry h hfull hold.left]
    exact hp
  · intro q n hq hp
    obtain ⟨k, hold, hid, hprod, hin⟩ := hl.producer hq hp
    refine ⟨k, (admitted_older h hfull (hl.live hq)).mpr hold, ?_⟩
    rw [admitted_entry h hfull hold.left]
    exact ⟨hid, hprod, hin⟩
  · intro q n hq hp ha hlate
    obtain ⟨k, hold, rfl, -⟩ := hl.producer hq hp
    rw [admitted_instrAt h hold.left]
    exact hl.pending hq hp ha hlate
  · intro i k hi
    by_cases hne : k = s.rob.tail
    · rw [hne, admitted_tail] at hi
      cases hi
    · rw [admitted_of_ne hne] at hi
      exact (older_push h.basic.shape).mpr (.inl (hl.depend hi))

theorem admitted_stores : Stores [] (admitted s x) := by
  have hs := h.stores
  have hentry : ∀ {q}, Live s.sq q →
      (admitted s x).rob.entry ((admitted s x).sq.entry q).robIndex = s.rob.entry (s.sq.entry q).robIndex :=
    fun hq => admitted_entry h hfull (hs.live hq)
  have hlength : (admitted s x).program.length = s.program.length + 1 := List.length_append
  have hbound : ∀ {q}, Live s.sq q → (s.sq.entry q).instrId < s.program.length := by
    intro q hq
    rw [hs.id hq]
    exact h.basic.numbered.lt (hs.live hq)
  have hnew : ∀ n ∈ (admitted s x).sta, n ∈ s.sta ∨ n = s.program.length := by
    intro n hn
    rcases List.mem_append.mp hn with hn | hn
    · exact .inl hn
    · obtain ⟨d, -, rfl⟩ := List.mem_map.mp hn
      exact .inr rfl
  constructor
  · exact hs.shape
  · intro q hq
    exact (admitted_live h).mpr (.inl (hs.live hq))
  · intro q hq
    rw [hentry hq]
    exact hs.id hq
  · intro q hq
    rw [hentry hq]
    exact hs.index hq
  · exact hs.nonzero
  · intro q hq
    have hat : instrAt (admitted s x) (s.sq.entry q).instrId = instrAt s (s.sq.entry q).instrId :=
      instrAt_append rfl (hbound hq)
    show (s.sq.entry q).virtualAddress = (instrAt (admitted s x) (s.sq.entry q).instrId).destinationMemory _
    rw [hat]
    exact hs.address hq
  · intro i d q hi hq hg
    rcases (admitted_live h).mp hi with hi | rfl
    · rw [admitted_entry h hfull hi] at hq
      exact hs.back hi hq hg
    · rw [admitted_tail] at hq
      cases hq
  · intro i d hi
    rcases (admitted_live h).mp hi with hi | rfl
    · rw [admitted_entry h hfull hi]
      exact hs.added hi
    · rw [admitted_tail]
      exact iff_of_false nofun (fun hc => hc rfl)
  · exact hs.fetched
  · intro i d hi hd
    rcases (admitted_live h).mp hi with hi | rfl
    · rw [admitted_entry h hfull hi] at hd ⊢
      exact hs.unadded hi hd
    · rw [admitted_tail]
      exact new_unfinished h
  · exact hs.order
  · refine List.pairwise_append.mpr ⟨hs.sorted, ?_, ?_⟩
    · exact List.pairwise_map.mpr (List.pairwise_of_forall (fun _ _ => le_refl _))
    · intro m hm n hn
      obtain ⟨d, -, rfl⟩ := List.mem_map.mp hn
      exact (hs.numbered m hm).le
  · intro n hn
    rw [hlength]
    rcases hnew n hn with hn | rfl
    · exact Nat.lt_succ_of_lt (hs.numbered n hn)
    · exact Nat.lt_succ_self _
  · intro n hn q hq
    rcases hnew n hn with hn | rfl
    · exact hs.first n hn hq
    · exact (hbound hq).le
  · intro i c d hi hd hcd hc
    rcases (admitted_live h).mp hi with hi | rfl
    · rw [admitted_entry h hfull hi] at hd hc ⊢
      exact hs.before hi hd hcd hc
    · rw [admitted_tail] at hd
      cases hd
  · exact hs.nodup
  · exact hs.executing

end Dispatch

theorem dispatch_inv (h : Inv s) (x : Instr) : Inv (dispatchInstruction s x) := by
  by_cases hfull : s.rob.occupancy < s.rob.size
  · have hinv : Inv (admitted s x) :=
      ⟨admitted_basic h hfull, admitted_history h, admitted_loads h hfull, admitted_stores h hfull⟩
    rw [dispatchInstruction, if_pos hfull]
    exact hinv
  · rw [dispatchInstruction, if_neg hfull]
    exact h

theorem initial_inv {robSize lqSize sqSize : Nat} (hrob : 0 < robSize) (hsq : 0 < sqSize) :
    Inv (.initial robSize lqSize sqSize) := by
  have hlive : ∀ i, ¬Live (State.initial robSize lqSize sqSize).rob i := fun i => initial_not_live
  have hsqlive : ∀ q, ¬Live (State.initial robSize lqSize sqSize).sq q := fun q => initial_not_live
  have hused : ∀ q, ¬Used (State.initial robSize lqSize sqSize) q := fun q hq => hq rfl
  refine ⟨?_, ?_, ?_, ?_⟩
  · exact ⟨initial_shape hrob, fun a ha => absurd ha (Nat.not_lt_zero a), fun hi => absurd hi (hlive _),
      fun hi => absurd hi (hlive _), fun hi => absurd hi (hlive _), fun hi => absurd hi (hlive _), fun hi => nomatch hi⟩
  · exact ⟨List.nodup_nil, fun _ hd => absurd hd List.not_mem_nil, fun _ hd => absurd hd List.not_mem_nil,
      fun _ hd => absurd hd List.not_mem_nil, fun n hn => absurd hn (Nat.not_lt_zero _)⟩
  · refine ⟨fun hq => absurd hq (hused _), fun hq => absurd hq (hused _), fun hq => absurd hq (hused _),
      fun hq => absurd hq (hused _), fun hq => absurd hq (hused _), fun hq => absurd hq (hused _),
      fun hq => absurd hq (hused _), fun hi => absurd hi (hlive _), fun hi => absurd hi (hlive _), fun _ => rfl, ?_,
      List.nodup_nil, fun {q} => ?_, fun hq => absurd hq (hused _), fun hq => absurd hq (hused _),
      fun hq => absurd hq (hused _), fun hi => nomatch hi⟩
    · rw [Finset.filter_false_of_mem (fun q _ => hused q)]
      rfl
    · exact iff_of_false List.not_mem_nil (fun hq => hused q hq.1)
  · refine ⟨initial_shape hsq, fun hq => absurd hq (hsqlive _), fun hq => absurd hq (hsqlive _),
      fun hq => absurd hq (hsqlive _), fun hq => absurd hq (hsqlive _), fun hq => absurd hq (hsqlive _),
      fun hi => absurd hi (hlive _), fun hi => absurd hi (hlive _), fun hq => absurd hq (hsqlive _),
      fun hi => absurd hi (hlive _), fun _ hb => absurd hb (Nat.not_lt_zero _), List.Pairwise.nil,
      fun _ hn => absurd hn List.not_mem_nil, fun _ hn => absurd hn List.not_mem_nil, fun hi => absurd hi (hlive _),
      List.nodup_nil, fun {q} => ?_⟩
    exact iff_of_false List.not_mem_nil (fun hq => hsqlive q hq.1)

theorem complete_inv (h : Inv s) (hi : Live s.rob i) : Inv (completeExecution s i) := by
  rw [completeExecution]
  by_cases hready : (s.rob.entry i).isMemory = false ∨ (s.rob.entry i).numMemOps = 0
  · rw [if_pos hready]
    by_cases hinflight : (s.rob.entry i).executed = .inflight
    · rw [if_pos hinflight]
      refine stage_inv h hi rfl rfl (fun _ => rfl) (fun _ => ?_)
      rcases hready with hmemory | hnum
      · have hnone : unfinished s (s.rob.entry i).instrId = ∅ := by
          rw [unfinished, (h.basic.memory hi).mp hmemory, Finset.filter_empty]
        rw [h.basic.num hi, hnone]
        rfl
      · exact hnum
    · rw [if_neg hinflight]
      exact h
  · rw [if_neg hready]
    exact h

/-- The store whose turn it is finds every load it is to release. -/
def Safe (s : State) (e : Event) : Prop := ∀ n q, e = .executeStore n → s.storesToExecute[n]? = some q → Undisturbed s q

/-- Only the execution of a store can fail an assertion. -/
theorem step_inv (h : Inv s) (hsafe : Safe s e) : ∃ u, step s e = some u ∧ Inv u := by
  cases e with
  | dispatch x => exact ⟨_, rfl, dispatch_inv h x⟩
  | schedule a =>
      rw [step]
      split_ifs with ha
      · refine ⟨_, rfl, stage_inv h (live_slot ha.1) rfl rfl (fun hc => hc) (h.basic.completed)⟩
      · exact ⟨s, rfl, h⟩
  | execute a =>
      rw [step]
      split_ifs with ha
      · refine ⟨_, rfl, stage_inv h (live_slot ha.1) rfl rfl (fun hc => ?_) nofun⟩
        rw [ha.2.2.2] at hc
        cases hc
      · exact ⟨s, rfl, h⟩
  | scheduleMemory a =>
      rw [step]
      split_ifs with ha
      · exact LsqStores.doMemoryScheduling_inv h (live_slot ha.1)
      · exact ⟨s, rfl, h⟩
  | executeStore n =>
      rw [step]
      cases hn : s.storesToExecute[n]? with
      | none => exact ⟨s, rfl, h⟩
      | some q => exact executeStore_inv h hn (hsafe n q rfl hn)
  | returnLoad n =>
      rw [step]
      cases hn : s.loadsToReturn[n]? with
      | none => exact ⟨s, rfl, h⟩
      | some q => exact ⟨_, rfl, returnLoad_inv h hn⟩
  | complete a =>
      rw [step]
      split_ifs with ha
      · exact ⟨_, rfl, complete_inv h (live_slot ha)⟩
      · exact ⟨s, rfl, h⟩
  | retire room => exact ⟨_, rfl, LsqRetire.retireRob_inv h⟩

/-- Every operand of an instruction is counted down once, and a load that recorded a producer by a
store of the producer to its address, which it can still wait for. -/
structure Forwarded (s : State) : Prop where
  count : ∀ i, Live s.rob i → (s.rob.entry i).numMemOps = (unfinished s (s.rob.entry i).instrId).card
  nonneg : ∀ i, 0 ≤ (s.rob.entry i).numMemOps
  once : (s.done.map (fun d => (d.instrId, d.operand))).Nodup
  retired : ∀ n, n + s.rob.occupancy < s.program.length → ∀ o ∈ (instrAt s n).operands, Finished s n o
  address : ∀ d ∈ s.done, d.address = (instrAt s d.instrId).address d.operand
  released : ∀ d ∈ s.done, d.releasedBy = d.producerId.map (fun p => (p, d.address))
  waiting : ∀ q n, Used s q → (s.lq q).producerId = some n →
    ∃ d, (instrAt s n).destinationMemory d = (s.lq q).virtualAddress ∧ ¬Finished s n (.inr d)

theorem forwarded_of_inv (h : Inv s) : Forwarded s := by
  refine ⟨fun _ hi => h.basic.num hi, fun i => ?_, h.history.nodup, h.history.retired, h.history.address, h.history.released,
    fun q n hq hp => h.loads.pending hq hp nofun nofun⟩
  by_cases hi : Live s.rob i
  · rw [h.basic.num hi]
    exact Int.natCast_nonneg _
  · rw [h.basic.shape.blank i hi]
    exact le_refl _

/-- As long as every store finds its loads, no assertion fails and every load is released once, by its producer. -/
theorem forwarding_exact {robSize lqSize sqSize : Nat} (hrob : 0 < robSize) (hsq : 0 < sqSize)
    (h : EveryStep step (.initial robSize lqSize sqSize) (fun _ => Safe) es) :
    ∃ s, run step (.initial robSize lqSize sqSize) es = some s ∧ Forwarded s := by
  obtain ⟨s, hs, hinv⟩ := h.total (fun s e hs => step_inv hs) (initial_inv hrob hsq)
  exact ⟨s, hs, forwarded_of_inv hinv⟩

section Forward

def storing (a b : Nat) : Instr := ⟨fun _ => 0, fun i => if i.val = 0 then a else if i.val = 1 then b else 0⟩

def loading (a b : Nat) : Instr := ⟨fun j => if j.val = 0 then a else if j.val = 1 then b else 0, fun _ => 0⟩

def storeThenLoad : List Event :=
  [.dispatch (storing 10 0), .dispatch (loading 10 0), .schedule 0, .schedule 1, .scheduleMemory 0, .scheduleMemory 1]

theorem storeThenLoad_safe : EveryStep step (.initial 2 1 1) (fun _ => Safe) (storeThenLoad ++ [.executeStore 0]) := by
  refine EveryStep.concat (fun pre c post s heq _ n q he => ?_) (fun s hs n q he hq => ?_)
  · have hc : c ∈ storeThenLoad := by
      rw [heq]
      exact List.mem_append_right _ List.mem_cons_self
    subst he
    simp [storeThenLoad] at hc
  · have hfacts : (run step (.initial 2 1 1) storeThenLoad).all (fun s => s.storesToExecute = [0] ∧ s.rob.occupancy = 2 ∧
        s.rob.slot 0 = 0 ∧ s.rob.slot 1 = 1 ∧ (s.sq.entry 0).robIndex = 0 ∧ (s.sq.entry 0).virtualAddress = 10 ∧
        (s.rob.entry 0).memoryInstrsDependOnMe = {1} ∧ (∀ j, (s.rob.entry 1).sourceMemory j = 10 → j = 0) ∧
        (s.rob.entry 1).lqIndex 0 = some 0 ∧ Used s 0 ∧ (s.lq 0).robIndex = 1 ∧ (s.lq 0).dataIndex = 0) = true := by
      decide +kernel
    rw [hs, Option.all_some, decide_eq_true_eq] at hfacts
    obtain ⟨hexec, hocc, hzero, hone, hrob, haddress, hdepend, hsource, hindex, hused, hlq, hdata⟩ := hfacts
    injection he with he
    rw [← he, hexec] at hq
    have hq : 0 = q := Option.some.inj hq
    subst hq
    intro dependent hin j hm
    rw [hrob, hdepend, Finset.mem_singleton] at hin
    subst hin
    have hj : j = 0 := hsource j (hm.1.trans haddress)
    subst hj
    refine ⟨⟨0, hindex, hused, hlq, hdata⟩, fun k hk hk' => ?_⟩
    obtain ⟨a, b, hab, hb, -, rfl⟩ := hk
    obtain ⟨c, d, hcd, hd, hc, -⟩ := hk'
    have hb : b = 1 := by omega
    have hc' : c = 0 := by omega
    rw [hb, hc', hone, hzero] at hc
    cases hc

/-- A load that its producer releases. -/
theorem forwarding_exact_once :
    ∃ s, run step (.initial 2 1 1) (storeThenLoad ++ [.executeStore 0]) = some s ∧ Forwarded s :=
  forwarding_exact (by decide) (by decide) storeThenLoad_safe

/-- An instruction with two stores, a younger one with a store to the second address, and one that
loads from both. -/
def foreignLoad : List Event :=
  [.dispatch (storing 10 20), .dispatch (storing 20 0), .dispatch (loading 10 20), .schedule 0, .schedule 1, .schedule 2,
    .scheduleMemory 0, .scheduleMemory 1, .scheduleMemory 2, .executeStore 0, .executeStore 0]

/-- The oldest, on which the load depends by its first address, tries to release it by its second. -/
theorem foreign_load_fails : ¬∃ s, run step (.initial 4 4 4) foreignLoad = some s ∧ Forwarded s := by
  rintro ⟨s, hs, -⟩
  have hfail : (run step (.initial 4 4 4) foreignLoad).isSome = false := by decide +kernel
  rw [hs] at hfail
  cases hfail

end Forward

end Thermometer.LsqExact
