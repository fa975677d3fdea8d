import Thermometer.AddressFrame

namespace Thermometer.AddressCarried

open Lib.Runs Lib.Windows AddressSpaces AddressFrame

open LoadStoreQueue (Instr Operand numInstrDestinations)

open ReorderBuffer (numInstrSources)

def asidAt (s : State) : Place → Asid
  | .rob i _ => s.robAsid i
  | .lq q => s.lqAsid q
  | .sq q => s.sqAsid q

def Belongs (cpu : UInt8) (records : List CloudsuiteInstr) (a : Access) (asid : Asid) : Prop :=
  ∃ x, records[a.instrId]? = some x ∧ a.address = (OooModelInstr.ofCloudsuite cpu x).operands.address a.operand ∧
    asid = (OooModelInstr.ofCloudsuite cpu x).asid

def requestAccess (p : Packet) : Access := ⟨p.instrId, p.operand, p.fullAddr⟩

structure Carried (knobCloudsuite : Bool) (cpu : UInt8) (s : State) : Prop where
  length : s.lsq.program.length = s.trace.length
  held : ∀ p, (accessAt s.lsq p).address ≠ 0 → Belongs cpu s.trace (accessAt s.lsq p) (asidAt s p)
  request : ∀ r ∈ s.requests, r.fullAddr ≠ 0 → Belongs cpu s.trace (requestAccess r) r.asid
  address : ∀ r ∈ s.requests, r.address = requestAddress knobCloudsuite r.fullAddr r.asid

structure Copied (s t : State) : Prop where
  access : ∀ p, (accessAt t.lsq p).address ≠ 0 → ∃ p', accessAt t.lsq p = accessAt s.lsq p' ∧ asidAt t p = asidAt s p'
  program : t.lsq.program = s.lsq.program
  trace : t.trace = s.trace
  requests : t.requests = s.requests

variable {knobCloudsuite : Bool} {cpu : UInt8} {s t u : State} {lsq : LoadStoreQueue.State} {current : Nat}
  {j : Fin numInstrSources} {d : Fin numInstrDestinations} {x : CloudsuiteInstr}

theorem initial_carried (robSize lqSize sqSize : Nat) :
    Carried knobCloudsuite cpu (.initial robSize lqSize sqSize) := by
  refine ⟨rfl, fun p hp => ?_, fun r hr => ?_, fun r hr => ?_⟩
  · cases p with
    | rob i o => cases o <;> exact absurd rfl hp
    | lq q => exact absurd rfl hp
    | sq q => exact absurd rfl hp
  · cases hr
  · cases hr

theorem Copied.refl (s : State) : Copied s s := ⟨fun p _ => ⟨p, rfl, rfl⟩, rfl, rfl, rfl⟩

theorem Copied.trans (h : Copied s t) (h' : Copied t u) : Copied s u := by
  refine ⟨fun p hp => ?_, h'.program.trans h.program, h'.trace.trans h.trace, h'.requests.trans h.requests⟩
  obtain ⟨p', haccess', hasid'⟩ := h'.access p hp
  rw [haccess'] at hp
  obtain ⟨p'', haccess, hasid⟩ := h.access p' hp
  exact ⟨p'', haccess'.trans haccess, hasid'.trans hasid⟩

theorem Carried.copied (h : Carried knobCloudsuite cpu s) (hc : Copied s t) : Carried knobCloudsuite cpu t := by
  refine ⟨?_, fun p hp => ?_, ?_, ?_⟩
  · rw [hc.program, hc.trace]
    exact h.length
  · obtain ⟨p', haccess, hasid⟩ := hc.access p hp
    rw [haccess] at hp ⊢
    rw [hasid, hc.trace]
    exact h.held p' hp
  · rw [hc.requests, hc.trace]
    exact h.request
  · rw [hc.requests]
    exact h.address

theorem remaining_of_used {e : LoadStoreQueue.LsqEntry} (h : e.virtualAddress ≠ 0) (asid : Asid) : remaining e asid = asid :=
  if_neg h

theorem asidAt_over {p : Place} (hp : (accessAt lsq p).address ≠ 0) : asidAt (s.over lsq) p = asidAt s p := by
  cases p with
  | rob i o => rfl
  | lq q => exact remaining_of_used hp _
  | sq q => exact remaining_of_used hp _

theorem copied_over (h : Follows s.lsq lsq) : Copied s (s.over lsq) :=
  ⟨fun p hp => ⟨p, h.access p hp, asidAt_over hp⟩, h.program, rfl, rfl⟩

theorem copied_moves {source target : Place} (h : Moves source target s.lsq lsq)
    (htarget : asidAt t target = asidAt s source) (hother : ∀ p, p ≠ target → asidAt t p = asidAt s p)
    (htrace : t.trace = s.trace) (hrequests : t.requests = s.requests) : Copied s (t.over lsq) := by
  refine ⟨fun p hp => ?_, h.program, htrace, hrequests⟩
  by_cases hpt : p = target
  · subst hpt
    exact ⟨source, h.moved hp, (asidAt_over hp).trans htarget⟩
  · exact ⟨p, h.access p hpt hp, (asidAt_over hp).trans (hother p hpt)⟩

section Turns

theorem Copied.of_waiting (h : Copied s t) (hlsq : u.lsq = t.lsq) (hasid : ∀ p, asidAt u p = asidAt t p)
    (htrace : u.trace = t.trace) (hrequests : u.requests = t.requests) : Copied s u := by
  refine ⟨fun p hp => ?_, ?_, htrace.trans h.trace, hrequests.trans h.requests⟩
  · rw [hlsq] at hp ⊢
    rw [hasid]
    exact h.access p hp
  · rw [hlsq]
    exact h.program

theorem copied_addLoadQueue (h : addLoadQueue s current j = some t) : Copied s t := by
  cases hfree : (List.range s.lsq.lqSize).find? (fun i => (s.lsq.lq i).virtualAddress = 0) with
  | none =>
      rw [addLoadQueue, hfree] at h
      cases h
  | some q =>
      rw [addLoadQueue, hfree] at h
      obtain ⟨lsq, hlsq, rfl⟩ := Option.map_eq_some_iff.mp h
      have hover : Copied s ({ s with lqAsid := Function.update s.lqAsid q (s.robAsid current) }.over lsq) := by
        apply copied_moves (moves_addLoadQueue hfree hlsq)
        · exact Function.update_self _ _ _
        · intro p hp
          cases p with
          | rob i o => rfl
          | lq k => exact Function.update_of_ne (fun hk => hp (congrArg Place.lq hk)) _ _
          | sq k => rfl
        · rfl
        · rfl
      dsimp only
      split_ifs
      · exact hover.of_waiting rfl (fun p => by cases p <;> rfl) rfl rfl
      · exact hover

theorem copied_addStoreQueue (h : addStoreQueue s current d = some t) : Copied s t := by
  obtain ⟨lsq, hlsq, rfl⟩ := Option.map_eq_some_iff.mp h
  have hover : Copied s ({ s with sqAsid := Function.update s.sqAsid s.lsq.sq.tail (s.robAsid current) }.over lsq) := by
    apply copied_moves (moves_addStoreQueue hlsq)
    · exact Function.update_self _ _ _
    · intro p hp
      cases p with
      | rob i o => rfl
      | lq k => rfl
      | sq k => exact Function.update_of_ne (fun hk => hp (congrArg Place.sq hk)) _ _
    · rfl
    · rfl
  exact hover.of_waiting rfl (fun p => by cases p <;> rfl) rfl rfl

theorem copied_checkLoad (h : checkLoad current s j = some t) : Copied s t := by
  rw [checkLoad] at h
  split_ifs at h
  · exact copied_addLoadQueue h
  · exact Option.some.inj h ▸ .refl s

theorem copied_checkStore (h : checkStore current s d = some t) : Copied s t := by
  rw [checkStore] at h
  split_ifs at h
  · exact copied_addStoreQueue h
  · exact Option.some.inj h ▸ .refl s

theorem copied_doMemoryScheduling (h : doMemoryScheduling s current = some t) : Copied s t := by
  obtain ⟨v, hv, rfl⟩ := Option.map_eq_some_iff.mp h
  obtain ⟨u, hu, hv⟩ := Option.bind_eq_some_iff.mp hv
  have hloads : Copied s u := run_preserves (I := Copied s) (fun _ _ _ _ hs ht => hs.trans (copied_checkLoad ht)) (.refl s) hu
  have hstores : Copied s v := run_preserves (I := Copied s) (fun _ _ _ _ hs ht => hs.trans (copied_checkStore ht)) hloads hv
  split_ifs
  · exact hstores.trans (copied_over (follows_modifyRob (fun _ => rfl)))
  · exact hstores

theorem Carried.turn {e : LoadStoreQueue.Event} (h : Carried knobCloudsuite cpu s) (ht : s.turn e = some t)
    (hdispatch : ∀ x, e ≠ .dispatch x) (hadd : ∀ a, e ≠ .scheduleMemory a) : Carried knobCloudsuite cpu t := by
  obtain ⟨lsq, hlsq, rfl⟩ := Option.map_eq_some_iff.mp ht
  exact h.copied (copied_over (follows_step hdispatch hadd hlsq))

theorem Belongs.append {records : List CloudsuiteInstr} {a : Access} {asid : Asid} (h : Belongs cpu records a asid) :
    Belongs cpu (records ++ [x]) a asid := by
  obtain ⟨y, hy, hrest⟩ := h
  refine ⟨y, ?_, hrest⟩
  rw [List.getElem?_append_left (List.getElem?_eq_some_iff.mp hy).1]
  exact hy

theorem Carried.dispatch (h : Carried knobCloudsuite cpu s) (x : CloudsuiteInstr) :
    Carried knobCloudsuite cpu (dispatchInstruction cpu s x) := by
  rw [dispatchInstruction]
  split_ifs with hroom
  · refine ⟨?_, fun p hp => ?_, fun r hr hne => (h.request r hr hne).append, h.address⟩
    · rw [LoadStoreQueue.dispatchInstruction, if_pos hroom]
      show (s.lsq.program ++ [_]).length = (s.trace ++ [x]).length
      rw [List.length_append, List.length_append, h.length]
      rfl
    · rcases dispatch_access hroom (OooModelInstr.ofCloudsuite cpu x).operands p with ⟨o, rfl, hnew⟩ | ⟨hne, hold⟩
      · refine ⟨x, ?_, ?_, Function.update_self _ _ _⟩
        · show (s.trace ++ [x])[(accessAt _ _).instrId]? = some x
          rw [hnew, h.length, List.getElem?_concat_length]
        · show (accessAt _ _).address = _
          rw [hnew]
      · have hasid : asidAt { s with
            robAsid := Function.update s.robAsid s.lsq.rob.tail (OooModelInstr.ofCloudsuite cpu x).asid } p = asidAt s p := by
          cases p with
          | rob i o => exact Function.update_of_ne (fun hi => hne o (congrArg (fun i => Place.rob i o) hi)) _ _
          | lq q => rfl
          | sq q => rfl
        change (accessAt (LoadStoreQueue.dispatchInstruction _ _) p).address ≠ 0 at hp
        show Belongs cpu _ (accessAt (LoadStoreQueue.dispatchInstruction _ _) p) (asidAt _ p)
        rw [hold] at hp ⊢
        exact (hasid ▸ h.held p hp).append
  · exact h

theorem copied_retire (room : Nat) : Copied s (retireRob s room) := by
  have hfollows := follows_retireRob (s := s.lsq) room
  refine ⟨fun p hp => ⟨p, hfollows.access p hp, (asidAt_over hp).trans ?_⟩, hfollows.program, rfl, rfl⟩
  cases p with
  | lq q => rfl
  | sq q => rfl
  | rob i o =>
      show (if _ then Function.update s.robAsid s.lsq.rob.head .unset else s.robAsid) i = s.robAsid i
      split_ifs with hleaves
      · have hi : i ≠ s.lsq.rob.head := by
          rintro rfl
          have hempty := retireRob_left hleaves.1 hleaves.2
          change (robAccess o ((LoadStoreQueue.retireRob s.lsq room).rob.entry s.lsq.rob.head)).address ≠ 0 at hp
          rw [hempty] at hp
          cases o <;> exact absurd rfl hp
        exact Function.update_of_ne hi _ _
      · rfl

theorem Carried.offer {p : Place} {r : Packet} (h : Carried knobCloudsuite cpu s) (haccess : requestAccess r = accessAt s.lsq p)
    (hasid : r.asid = asidAt s p) (haddress : r.address = requestAddress knobCloudsuite r.fullAddr r.asid)
    (hlsq : t.lsq = s.lsq) (hsame : ∀ p, asidAt t p = asidAt s p) (htrace : t.trace = s.trace)
    (hrequests : t.requests = s.requests ++ [r]) : Carried knobCloudsuite cpu t := by
  refine ⟨?_, fun p hp => ?_, fun c hc hne => ?_, fun c hc => ?_⟩
  · rw [hlsq, htrace]
    exact h.length
  · rw [hlsq] at hp ⊢
    rw [hsame, htrace]
    exact h.held p hp
  · rw [htrace]
    rcases List.mem_append.mp (hrequests ▸ hc) with hc | hc
    · exact h.request c hc hne
    · obtain rfl := List.mem_singleton.mp hc
      have hp : (accessAt s.lsq p).address ≠ 0 := haccess ▸ hne
      rw [haccess, hasid]
      exact h.held p hp
  · rcases List.mem_append.mp (hrequests ▸ hc) with hc | hc
    · exact h.address c hc
    · exact List.mem_singleton.mp hc ▸ haddress

theorem Carried.issueStore (h : Carried knobCloudsuite cpu s) (accepted : Bool) :
    Carried knobCloudsuite cpu (issueStore knobCloudsuite cpu s accepted) := by
  rw [AddressSpaces.issueStore]
  split
  · exact h
  · next q rest _ => exact h.offer (p := .sq q) rfl rfl rfl rfl (fun p => by cases p <;> rfl) rfl rfl

theorem Carried.issueLoad (h : Carried knobCloudsuite cpu s) (accepted : Bool) :
    Carried knobCloudsuite cpu (issueLoad knobCloudsuite cpu s accepted) := by
  rw [AddressSpaces.issueLoad]
  split
  · exact h
  · next q rest _ => exact h.offer (p := .lq q) rfl rfl rfl rfl (fun p => by cases p <;> rfl) rfl rfl

end Turns

theorem step_carried {e : Event} (h : Carried knobCloudsuite cpu s) (ht : step knobCloudsuite cpu s e = some t) :
    Carried knobCloudsuite cpu t := by
  cases e with
  | dispatch x => exact Option.some.inj ht ▸ h.dispatch x
  | schedule a => exact h.turn ht nofun nofun
  | execute a => exact h.turn ht nofun nofun
  | scheduleMemory a =>
      rw [step] at ht
      split_ifs at ht
      · exact h.copied (copied_doMemoryScheduling ht)
      · exact Option.some.inj ht ▸ h
  | issueStore accepted => exact Option.some.inj ht ▸ h.issueStore accepted
  | issueLoad accepted => exact Option.some.inj ht ▸ h.issueLoad accepted
  | executeStore n =>
      rw [step] at ht
      split_ifs at ht
      · exact h.turn ht nofun nofun
      · exact Option.some.inj ht ▸ h
  | returnLoad n =>
      rw [step] at ht
      split_ifs at ht
      · exact h.turn ht nofun nofun
      · exact Option.some.inj ht ▸ h
  | complete a => exact h.turn ht nofun nofun
  | retire room => exact Option.some.inj ht ▸ h.copied (copied_retire room)

theorem run_carried {robSize lqSize sqSize : Nat} {es : List Event}
    (h : run (step knobCloudsuite cpu) (.initial robSize lqSize sqSize) es = some s) : Carried knobCloudsuite cpu s :=
  run_preserves (fun _ _ _ _ hs ht => step_carried hs ht) (initial_carried robSize lqSize sqSize) h

end Thermometer.AddressCarried
